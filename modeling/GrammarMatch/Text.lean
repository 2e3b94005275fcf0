/-
  File:      GrammarMatch/Text.lean
  Subject:   Texts read by position.

  A text is an array of characters. A position is an integer: the matcher
  may be asked to start anywhere, and a look behind with a negative width
  starts beyond the end. From 0 up to the length positions mean what they
  seem to mean; a negative position counts from the end, as a slice bound
  it is cut off at either end, and what lies outside altogether is no
  character.
-/
namespace GrammarMatch

/-- A text, read by position. -/
abbrev Text := Array Char

namespace Text

/-- The characters of a string as a text. -/
def ofString (s : String) : Text := s.toList.toArray

/-- The length of a text as a position: the one after its last character. -/
def stop (t : Text) : Int := t.size

/-! ## 1. Single characters -/

/-- The character at a position; a negative position counts from the end. -/
def at? (t : Text) (i : Int) : Option Char :=
  if 0 ≤ i then t[i.toNat]?
  else if 0 ≤ t.stop + i then t[(t.stop + i).toNat]?
  else none

/-- Positions that are not negative are indices. -/
theorem at?_of_nonneg (t : Text) {i : Int} (h : 0 ≤ i) : t.at? i = t[i.toNat]? := by
  simp [at?, h]

/-! ## 2. Slices -/

/-- A slice bound: negative bounds count from the end, and every bound is
    moved into the text. -/
def bound (t : Text) (i : Int) : Nat :=
  if 0 ≤ i then min i.toNat t.size else (t.stop + i).toNat

/-- A bound that lies in the text is kept. -/
theorem bound_of_mem (t : Text) {i : Int} (h : 0 ≤ i) (hi : i ≤ t.stop) :
    t.bound i = i.toNat := by
  simp only [bound, if_pos h, stop] at *
  omega

/-- The characters from `i` up to but without `j`. -/
def slice (t : Text) (i j : Int) : List Char := (t.extract (t.bound i) (t.bound j)).toList

/-! ## 3. Comparison in place -/

/-- Whether the characters from index `n` on begin with the given ones. -/
def continuesWith (t : Text) (n : Nat) : List Char → Bool
  | [] => true
  | c :: rest => t[n]? == some c && continuesWith t (n + 1) rest

/-- Whether the given characters stand at a position. Nothing stands beyond
    the end, not even the empty text. -/
def standsAt (t : Text) (chars : List Char) (i : Int) : Bool :=
  let n := if 0 ≤ i then i.toNat else (t.stop + i).toNat
  n ≤ t.size && t.continuesWith n chars

end Text

end GrammarMatch
