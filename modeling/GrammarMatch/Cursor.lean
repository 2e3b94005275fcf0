/-
  File:      GrammarMatch/Cursor.lean
  Subject:   A position inside a text, with its line and column.

  Lines end at line feeds and at nothing else. Line and column count from
  one; the line of a position is found by looking at what stands before the
  position and what stands after it.
-/
import GrammarMatch.Text

namespace GrammarMatch

/-- A position of a text: before one of its characters or at its end. -/
structure Cursor where
  text : Text
  pos : Nat
  inside : pos ≤ text.size

namespace Cursor

/-- A position of a text is not beyond its end. -/
theorem toNat_le_size {text : Text} {p : Int} (h : 0 ≤ p ∧ p ≤ text.stop) :
    p.toNat ≤ text.size := by
  have := h.2
  simp only [Text.stop] at this
  omega

/-- The cursor at a position, if the text has that position. -/
def of? (text : Text) (p : Int) : Option Cursor :=
  if h : 0 ≤ p ∧ p ≤ text.stop then some ⟨text, p.toNat, toNat_le_size h⟩ else none

/-- The cursor at the position nearest to the given one. -/
def nearest (text : Text) (p : Int) : Cursor :=
  ⟨text, min p.toNat text.size, Nat.min_le_right ..⟩

/-! ## 1. Around the position -/

/-- The characters before the position. -/
def before (c : Cursor) : List Char := c.text.toList.take c.pos

/-- The characters from the position on. -/
def remaining (c : Cursor) : List Char := c.text.toList.drop c.pos

/-- Whether the text ends here. -/
def atEnd (c : Cursor) : Bool := c.text.size ≤ c.pos

/-- The character at a distance from the position, if there is one. -/
def peek? (c : Cursor) (distance : Int) : Option Char :=
  let target := (c.pos : Int) + distance
  if 0 ≤ target then c.text[target.toNat]? else none

/-! ## 2. Movement -/

/-- The cursor at another position of the same text. -/
def moveTo? (c : Cursor) (p : Int) : Option Cursor := of? c.text p

/-- The position reached by going on by a count of characters: never beyond
    the end. -/
def ahead (c : Cursor) (count : Int) : Int := min ((c.pos : Int) + count) c.text.stop

/-! ## 3. Line and column -/

/-- The line of the position, counted from one. -/
def line (c : Cursor) : Nat := c.before.count '\n' + 1

/-- The part of the line that stands before the position. -/
def lineBefore (c : Cursor) : List Char := (c.before.reverse.takeWhile (· != '\n')).reverse

/-- The column of the position in its line, counted from one. -/
def column (c : Cursor) : Nat := c.lineBefore.length + 1

/-- The whole line that contains the position. -/
def lineText (c : Cursor) : List Char := c.lineBefore ++ c.remaining.takeWhile (· != '\n')

end Cursor

end GrammarMatch
