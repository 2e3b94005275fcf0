/-
  File:      GrammarMatch/Proofs/Prepended.lean
  Subject:   A text with something in front of it.

  What stands at a position of a text stands further on, by the length of what is put in front,
  in the text with that in front. The leaves of a pattern that look at nothing before a position
  come to the same there (`literalStop_prepended`, `classHolds_prepended`).
-/
import GrammarMatch.Proofs.Faults

namespace GrammarMatch

namespace Text

/-! ## 1. Characters and slices -/

variable (front t : Text) {i j : Int}

theorem stop_prepended : (front ++ t : Text).stop = t.stop + front.size := by
  show ((front ++ t : Array Char).size : Int) = t.size + front.size
  rw [Array.size_append]
  omega

theorem at?_prepended (h : 0 ≤ i) : (front ++ t : Text).at? (i + front.size) = t.at? i := by
  rw [at?_of_nonneg _ h, at?_of_nonneg _ (by omega)]
  have index : (i + (front.size : Int)).toNat = i.toNat + front.size := by omega
  rw [index, Array.getElem?_append_right (Nat.le_add_left ..), Nat.add_sub_cancel]

theorem bound_prepended (h : 0 ≤ i) :
    (front ++ t : Text).bound (i + front.size) = t.bound i + front.size := by
  unfold bound
  rw [if_pos h, if_pos (by omega), Array.size_append]
  omega

/-- **A slice stands further on in the text with something in front.** -/
theorem slice_prepended (hi : 0 ≤ i) (hj : 0 ≤ j) :
    (front ++ t : Text).slice (i + front.size) (j + front.size) = t.slice i j := by
  unfold slice
  rw [bound_prepended front t hi, bound_prepended front t hj]
  rw [Array.toList_extract, Array.toList_extract, Array.toList_append,
    List.extract_eq_take_drop, List.extract_eq_take_drop, Nat.add_sub_add_right, List.drop_append,
    List.drop_eq_nil_of_le (by rw [Array.length_toList]; exact Nat.le_add_left ..),
    Array.length_toList, Nat.add_sub_cancel, List.nil_append]

theorem continuesWith_prepended (n : Nat) (chars : List Char) :
    (front ++ t : Text).continuesWith (n + front.size) chars = t.continuesWith n chars := by
  induction chars generalizing n with
  | nil => rfl
  | cons c chars ih =>
    unfold continuesWith
    rw [Array.getElem?_append_right (Nat.le_add_left ..), Nat.add_sub_cancel, Nat.add_right_comm,
      ih]

theorem standsAt_prepended (chars : List Char) (h : 0 ≤ i) :
    (front ++ t : Text).standsAt chars (i + front.size) = t.standsAt chars i := by
  have index : (i + (front.size : Int)).toNat = i.toNat + front.size := by omega
  have within : (i.toNat + front.size ≤ (front ++ t : Array Char).size) ↔ i.toNat ≤ t.size := by
    rw [Array.size_append]
    omega
  unfold standsAt
  simp only [if_pos h, if_pos (show 0 ≤ i + (front.size : Int) by omega), index, within,
    continuesWith_prepended]

end Text

namespace Match

/-! ## 2. The leaves of a pattern -/

variable (front t : Text) {pos : Int}

theorem charAt_prepended (h : 0 ≤ pos) (inside : pos < t.stop) :
    charAt (front ++ t) (pos + front.size) = charAt t pos := by
  have stands : pos.toNat < t.size := by
    have : pos < (t.size : Int) := inside
    omega
  unfold charAt
  rw [Text.at?_prepended front t h, Text.at?_of_nonneg t h, Array.getElem?_eq_getElem stands]

/-- **A literal ends further on by what is in front.** -/
theorem literalStop_prepended (chars : List Char) (ignoreCase : Bool) (h : 0 ≤ pos) :
    literalStop? (front ++ t) chars ignoreCase (pos + front.size) =
      (literalStop? t chars ignoreCase pos).map (· + (front.size : Int)) := by
  have next : pos + (front.size : Int) + chars.length = pos + chars.length + front.size := by omega
  unfold literalStop?
  simp only [next, Text.slice_prepended front t h (show 0 ≤ pos + (chars.length : Int) by omega),
    Text.standsAt_prepended front t chars h]
  rw [apply_ite (Option.map _)]
  rfl

/-- **A class holds further on where it held.** -/
theorem classHolds_prepended (items : List ClassItem) (negated ignoreCase : Bool) (h : 0 ≤ pos) :
    classHolds (front ++ t) items negated ignoreCase (pos + front.size) =
      classHolds t items negated ignoreCase pos := by
  have stop := Text.stop_prepended front t
  unfold classHolds
  by_cases inside : pos < t.stop
  · rw [if_pos inside, if_pos (by omega), charAt_prepended front t h inside]
  · rw [if_neg inside, if_neg (by omega)]

end Match

/-! ## 3. What is told of positions -/

/-- The failure, with the position it tells moved on. -/
def Failure.moved (k : Int) : Failure → Failure
  | .depthLimit depth position => .depthLimit depth (position + k)
  | f => f

theorem Failure.moved_zero (f : Failure) : f.moved 0 = f := by
  cases f with
  | depthLimit depth position => exact congrArg (Failure.depthLimit depth) (Int.add_zero position)
  | _ => rfl

/-- The failure tells no position. -/
def Failure.Placeless (f : Failure) : Prop := ∀ k, f.moved k = f

namespace Match

theorem placeless_charAt (t : Text) (i : Int) : Fails Failure.Placeless (charAt t i) := by
  unfold charAt
  cases t.at? i with
  | some c => exact fails_ok c
  | none =>
    refine fails_error fun k => ?_
    split
    next => rfl
    next => rfl

theorem placeless_itemHas (c : Char) (item : ClassItem) :
    Fails Failure.Placeless (itemHas c item) := by
  cases item with
  | range first last => exact fails_ok _
  | shorthand letter =>
    simp only [itemHas]
    cases Shorthand.find? letter with
    | some test => exact fails_ok _
    | none => exact fails_error fun _ => rfl
  | property name negated =>
    simp only [itemHas]
    cases Property.find? name with
    | some test => exact fails_ok _
    | none => exact fails_error fun _ => rfl

theorem placeless_someItemHas (c : Char) (items : List ClassItem) :
    Fails Failure.Placeless (someItemHas c items) := by
  induction items with
  | nil => exact fails_ok _
  | cons item items ih =>
    unfold someItemHas
    split
    next h => exact (placeless_itemHas c item).passed h
    next => exact fails_ok _
    next => exact ih

theorem placeless_someCharIn (items : List ClassItem) (chars : List Char) :
    Fails Failure.Placeless (someCharIn items chars) := by
  induction chars with
  | nil => exact fails_ok _
  | cons c chars ih =>
    unfold someCharIn
    split
    next h => exact (placeless_someItemHas c items).passed h
    next => exact fails_ok _
    next => exact ih

/-- **No failure of a class tells a position.** -/
theorem placeless_classHolds (t : Text) (items : List ClassItem) (negated ignoreCase : Bool)
    (pos : Int) : Fails Failure.Placeless (classHolds t items negated ignoreCase pos) := by
  unfold classHolds
  refine fails_ite (fun _ => ?_) fun _ => fails_ok _
  exact (placeless_charAt t pos).bind fun c => (placeless_someCharIn items _).map _

end Match

end GrammarMatch
