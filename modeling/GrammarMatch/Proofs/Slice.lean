/-
  File:      GrammarMatch/Proofs/Slice.lean
  Subject:   Slices of a text, and what the leaves of a pattern say about them.

  Between two positions of a text there is a slice; slices that follow each other are put
  together. Whether a literal ends at a position, and whether a class takes the character at one,
  depends on the slice alone (`literalStop_slice`, `classHolds_slice`).
-/
import GrammarMatch.Proofs.Derivation

namespace GrammarMatch

namespace Text

/-! ## 1. Slices -/

/-- The part of a text from one position to another one. -/
structure Span (t : Text) (i j : Int) : Prop where
  nonneg : 0 ≤ i
  le : i ≤ j
  le_stop : j ≤ t.stop

variable {t : Text} {i j k : Int}

theorem span_self (h : 0 ≤ i) (h' : i ≤ t.stop) : t.Span i i := ⟨h, Int.le_refl i, h'⟩

theorem span_whole (t : Text) : t.Span 0 t.stop :=
  ⟨Int.le_refl 0, Int.natCast_nonneg _, Int.le_refl _⟩

/-- A slice inside the text, by indices. -/
theorem slice_eq (h : t.Span i j) :
    t.slice i j = (t.toList.drop i.toNat).take (j.toNat - i.toNat) := by
  have hi : i ≤ t.stop := Int.le_trans h.le h.le_stop
  have hj : 0 ≤ j := Int.le_trans h.nonneg h.le
  unfold slice
  rw [t.bound_of_mem h.nonneg hi, t.bound_of_mem hj h.le_stop, Array.toList_extract]

theorem length_slice (h : t.Span i j) : ((t.slice i j).length : Int) = j - i := by
  have hstop : j ≤ (t.size : Int) := h.le_stop
  have hi := h.nonneg
  have hle := h.le
  rw [slice_eq h, List.length_take, List.length_drop, Array.length_toList]
  omega

@[simp] theorem slice_self (h : 0 ≤ i) (h' : i ≤ t.stop) : t.slice i i = [] := by
  have := length_slice (span_self h h')
  exact List.eq_nil_of_length_eq_zero (by omega)

theorem slice_whole (t : Text) : t.slice 0 t.stop = t.toList := by
  have hsize : t.stop.toNat = t.toList.length := Array.length_toList.symm
  rw [slice_eq t.span_whole, Int.toNat_zero, List.drop_zero, Nat.sub_zero, hsize,
    List.take_length]

theorem slice_append (h : t.Span i j) (h' : t.Span j k) :
    t.slice i j ++ t.slice j k = t.slice i k := by
  have hi := h.nonneg
  have hij := h.le
  have hjk := h'.le
  have hj : j.toNat = i.toNat + (j.toNat - i.toNat) := by omega
  have hk : k.toNat - i.toNat = (j.toNat - i.toNat) + (k.toNat - j.toNat) := by omega
  rw [slice_eq h, slice_eq h', slice_eq ⟨hi, Int.le_trans hij hjk, h'.le_stop⟩, hk, List.take_add,
    List.drop_drop, ← hj]

/-- A slice that is put together is put together from slices. -/
theorem slice_split (h : t.Span i k) {a b : List Char} (split : t.slice i k = a ++ b) :
    t.Span i (i + a.length) ∧ t.Span (i + a.length) k ∧ t.slice i (i + a.length) = a ∧
      t.slice (i + a.length) k = b := by
  have hi := h.nonneg
  have hstop := h.le_stop
  have hlen : (a.length : Int) + b.length = k - i := by
    rw [← length_slice h, split, List.length_append]
    push_cast
    rfl
  have first : t.Span i (i + a.length) := ⟨hi, by omega, by omega⟩
  have second : t.Span (i + a.length) k := ⟨by omega, by omega, hstop⟩
  have parts : t.slice i (i + a.length) ++ t.slice (i + a.length) k = a ++ b :=
    (slice_append first second).trans split
  have hlength : (t.slice i (i + a.length)).length = a.length := by
    have := length_slice first
    omega
  exact ⟨first, second, List.append_inj parts hlength⟩

/-- A slice of a single character. -/
theorem slice_eq_singleton (h : t.Span i k) {c : Char} :
    t.slice i k = [c] ↔ k = i + 1 ∧ t.at? i = some c := by
  have hi := h.nonneg
  have hstop : k ≤ (t.size : Int) := h.le_stop
  have next (hk : k = i + 1) : t.slice i k = [c] ↔ t.at? i = some c := by
    have one : k.toNat - i.toNat = 1 := by omega
    have inside : i.toNat < t.size := by omega
    rw [slice_eq h, one, at?_of_nonneg t hi, List.take_one, List.head?_drop, Array.getElem?_toList,
      Array.getElem?_eq_getElem inside]
    simp
  constructor
  · intro hs
    have hk : k = i + 1 := by
      have := length_slice h
      rw [hs, List.length_singleton] at this
      omega
    exact ⟨hk, (next hk).mp hs⟩
  · rintro ⟨hk, hc⟩
    exact (next hk).mpr hc

/-- What continues a text at an index. -/
theorem continuesWith_iff {n : Nat} {chars : List Char} :
    t.continuesWith n chars = true ↔ chars <+: t.toList.drop n := by
  induction chars generalizing n with
  | nil => exact ⟨fun _ => List.nil_prefix, fun _ => rfl⟩
  | cons c chars ih =>
    unfold continuesWith
    rw [Bool.and_eq_true_iff, ih, beq_iff_eq, ← Array.getElem?_toList]
    by_cases hn : n < t.toList.length
    · rw [List.getElem?_eq_getElem hn, List.drop_eq_getElem_cons hn, List.cons_prefix_cons,
        Option.some.injEq, eq_comm]
    · rw [List.getElem?_eq_none (Nat.not_lt.mp hn), List.drop_eq_nil_of_le (Nat.not_lt.mp hn)]
      simp

end Text

/-- There is a cursor at every position in a text. -/
theorem Cursor.at_span {t : Text} {pos : Int} (here : t.Span 0 pos) :
    ∃ c, Cursor.at t pos = .ok c := by
  unfold Cursor.at Cursor.of?
  rw [dif_pos ⟨here.le, here.le_stop⟩]
  exact ⟨_, rfl⟩

namespace Match

/-! ## 2. Leaves -/

/-- Two texts are the same, perhaps but for the case of letters. -/
def Alike (ignoreCase : Bool) (u v : List Char) : Prop :=
  if ignoreCase then Unicode.fold u = Unicode.fold v else u = v

variable {t : Text} {pos stop : Int}

/-- A literal stands where there is room for it and the slice is the same. -/
theorem literalStands_iff {chars : List Char} {ignoreCase : Bool} (h : 0 ≤ pos)
    (h' : pos ≤ t.stop) :
    literalStands t chars ignoreCase pos = true ↔
      pos + chars.length ≤ t.stop ∧ Alike ignoreCase (t.slice pos (pos + chars.length)) chars := by
  have hsize : t.stop = t.size := rfl
  cases ignoreCase with
  | true =>
    show ((t.slice pos (pos + chars.length)).length == chars.length &&
      Unicode.fold (t.slice pos (pos + chars.length)) == Unicode.fold chars) = true ↔
      pos + chars.length ≤ t.stop ∧ Unicode.fold _ = Unicode.fold chars
    rw [Bool.and_eq_true_iff, beq_iff_eq, beq_iff_eq]
    refine and_congr_left fun _ => ⟨fun hlen => ?_, fun hle => ?_⟩
    · have h1 := length_slice_le t pos (pos + chars.length)
      have h2 := bound_le t (i := pos + chars.length) (by omega)
      have h3 := t.bound_of_mem h h'
      omega
    · have := Text.length_slice ⟨h, by omega, hle⟩
      omega
  | false =>
    have bound : pos.toNat ≤ t.size := by omega
    show t.standsAt chars pos = true ↔
      pos + chars.length ≤ t.stop ∧ t.slice pos (pos + chars.length) = chars
    unfold Text.standsAt
    simp only [if_pos h]
    rw [Bool.and_eq_true_iff, Text.continuesWith_iff, List.prefix_iff_eq_take]
    constructor
    · rintro ⟨_, hc⟩
      have hlen := congrArg List.length hc
      have hlist : t.toList.length = t.size := Array.length_toList
      rw [List.length_take, List.length_drop, hlist] at hlen
      have hle : pos + chars.length ≤ t.stop := by omega
      refine ⟨hle, ?_⟩
      have width : (pos + chars.length).toNat - pos.toNat = chars.length := by omega
      rw [Text.slice_eq ⟨h, by omega, hle⟩, width, ← hc]
    · rintro ⟨hle, hc⟩
      refine ⟨decide_eq_true bound, ?_⟩
      have width : (pos + chars.length).toNat - pos.toNat = chars.length := by omega
      rw [Text.slice_eq ⟨h, by omega, hle⟩, width] at hc
      exact hc.symm

/-- A literal takes a whole text. -/
def literalTakes (chars : List Char) (ignoreCase : Bool) (u : List Char) : Prop :=
  literalStop? u.toArray chars ignoreCase 0 = some (u.length : Int)

theorem literalTakes_iff {chars : List Char} {ignoreCase : Bool} {u : List Char} :
    literalTakes chars ignoreCase u ↔ u.length = chars.length ∧ Alike ignoreCase u chars := by
  have whole : Text.slice u.toArray 0 u.length = u := Text.slice_whole u.toArray
  have hstop : Text.stop u.toArray = u.length := rfl
  unfold literalTakes
  rw [literalStop_eq_some, literalStands_iff (Int.le_refl 0) (by omega), hstop, Int.zero_add]
  constructor
  · rintro ⟨⟨_, same⟩, hlen⟩
    rw [← hlen, whole] at same
    exact ⟨by omega, same⟩
  · rintro ⟨hlen, same⟩
    rw [← hlen, whole]
    exact ⟨⟨Int.le_refl _, same⟩, rfl⟩

/-- **A literal ends at a position if it takes the slice up to there.** -/
theorem literalStop_slice {chars : List Char} {ignoreCase : Bool} (h : t.Span pos stop) :
    literalStop? t chars ignoreCase pos = some stop ↔
      literalTakes chars ignoreCase (t.slice pos stop) := by
  have hlen := Text.length_slice h
  rw [literalStop_eq_some, literalTakes_iff,
    literalStands_iff h.nonneg (Int.le_trans h.le h.le_stop)]
  constructor
  · rintro ⟨⟨_, same⟩, rfl⟩
    exact ⟨by omega, same⟩
  · rintro ⟨hchars, same⟩
    obtain rfl : stop = pos + chars.length := by omega
    exact ⟨⟨h.le_stop, same⟩, rfl⟩

/-- **A class takes a character if it has it.** -/
theorem classHolds_slice {items : List ClassItem} {negated ignoreCase : Bool} {c : Char}
    (h : t.Span pos stop) (one : t.slice pos stop = [c]) :
    classHolds t items negated ignoreCase pos = classHas items negated ignoreCase c := by
  obtain ⟨rfl, hc⟩ := (Text.slice_eq_singleton h).mp one
  have inside : pos < t.stop := by
    have := h.le_stop
    omega
  unfold classHolds charAt
  rw [if_pos inside, hc]
  rfl

/-- Before the end of the text there is a character. -/
theorem exists_char (h : 0 ≤ pos) (h' : pos < t.stop) :
    ∃ c ∈ t.toList, t.slice pos (pos + 1) = [c] := by
  have hsize : t.stop = t.size := rfl
  have inside : pos.toNat < t.size := by omega
  refine ⟨t[pos.toNat], Array.getElem_mem_toList inside, ?_⟩
  rw [Text.slice_eq_singleton ⟨h, by omega, by omega⟩, Text.at?_of_nonneg t h]
  exact ⟨rfl, Array.getElem?_eq_getElem inside⟩

end Match

end GrammarMatch
