/-
  File:      GrammarMatch/Proofs/WrittenLines.lean
  Subject:   Lines are read back from what is written for them.

  Lines are written one after the other, each with an ending. They are read back one by one, with
  the number that each of them has (`list_joined`, `logicalFrom_cons`). Only an empty line at the
  end without an ending leaves no trace.
-/
import GrammarMatch.Grammar.File

namespace GrammarMatch

/-! ## 1. Physical lines -/

namespace Line

/-- What ends a line. -/
inductive Ending : List Char → Prop
  | pair : Ending ['\r', '\n']
  | single {c : Char} (h : isBreak c = true) : Ending [c]

/-- No character ends a line. -/
def Unbroken (s : List Char) : Prop := ∀ c ∈ s, isBreak c = false

theorem unbroken_iff {s : List Char} : s.any isBreak = false ↔ Unbroken s := by
  simp [Unbroken]

instance (s : List Char) : Decidable (Unbroken s) := decidable_of_iff _ unbroken_iff

/-- Lines one after the other, with an ending after each of them, or after each but the last. -/
def joined (ending : List Char) (closed : Bool) : List (List Char) → List Char
  | [] => []
  | [l] => if closed then l ++ ending else l
  | l :: m :: rest => l ++ ending ++ joined ending closed (m :: rest)

variable {done : List Line} {start offset : Nat} {current rest : List Char}

theorem listFrom_cons {c : Char} (pair : c = '\r' → rest.head? ≠ some '\n') :
    listFrom done start offset current (c :: rest) =
      if isBreak c then
        listFrom (⟨current.reverse, start⟩ :: done) (offset + 1) (offset + 1) [] rest
      else listFrom done start (offset + 1) (c :: current) rest := by
  refine listFrom.eq_3 _ _ _ _ _ _ fun rest' hc hr => ?_
  subst hr
  exact pair hc rfl

/-- Characters that end no line are put in front of what was read. -/
theorem listFrom_append {s : List Char} (unbroken : Unbroken s) :
    listFrom done start offset current (s ++ rest) =
      listFrom done start (offset + s.length) (s.reverse ++ current) rest := by
  induction s generalizing offset current with
  | nil => rfl
  | cons c s ih =>
    obtain ⟨hc, hs⟩ := List.forall_mem_cons.mp unbroken
    have next : c = '\r' → (s ++ rest).head? ≠ some '\n' := by
      rintro rfl
      cases hc
    rw [List.cons_append, listFrom_cons next, if_neg (by rw [hc]; decide), ih hs, List.length_cons,
      List.reverse_cons, List.append_assoc, Nat.add_right_comm, Nat.add_assoc]
    rfl

/-- An ending ends the line that was read, if it does not go on. -/
theorem listFrom_ending {ending : List Char} (he : Ending ending)
    (next : ending = ['\r'] → rest.head? ≠ some '\n') :
    ∃ offset', listFrom done start offset current (ending ++ rest) =
      listFrom (⟨current.reverse, start⟩ :: done) offset' offset' [] rest := by
  cases he with
  | pair => exact ⟨offset + 2, listFrom.eq_2 ..⟩
  | @single c h =>
    refine ⟨offset + 1, ?_⟩
    rw [List.singleton_append, listFrom_cons fun hc => next (by rw [hc]), if_pos h]

/-- Lines after a return do not begin with a line feed. -/
theorem head_joined {lines : List (List Char)} (unbroken : ∀ l ∈ lines, Unbroken l)
    (closed : Bool) : (joined ['\r'] closed lines).head? ≠ some '\n' := by
  have start {l : List Char} (hl : Unbroken l) {rest : List Char} (h : rest.head? ≠ some '\n') :
      (l ++ rest).head? ≠ some '\n' := by
    cases l with
    | nil => exact h
    | cons c l =>
      rintro ⟨⟩
      cases hl '\n' List.mem_cons_self
  cases lines with
  | nil => exact fun h => by cases h
  | cons l lines =>
    have hl := unbroken l List.mem_cons_self
    cases lines with
    | nil =>
      unfold joined
      split
      · exact start hl fun h => by cases h
      · rw [← List.append_nil l]
        exact start hl fun h => by cases h
    | cons m lines =>
      unfold joined
      rw [List.append_assoc]
      exact start hl fun h => by cases h

/-- **Lines are read back**, but for an empty one at the end without an ending. -/
theorem list_joined {ending : List Char} (he : Ending ending) (closed : Bool) (done : List Line)
    (start : Nat) {lines : List (List Char)} (unbroken : ∀ l ∈ lines, Unbroken l) :
    ∃ ls, listFrom done start start [] (joined ending closed lines) = done.reverse ++ ls ∧
      (ls.map chars = lines ∨ ls.map chars ++ [[]] = lines) := by
  induction lines generalizing done start with
  | nil =>
    refine ⟨[], ?_, .inl rfl⟩
    rw [joined, listFrom, if_pos rfl, List.append_nil]
  | cons l lines ih =>
    obtain ⟨hl, others⟩ := List.forall_mem_cons.mp unbroken
    -- A line with an ending after it.
    have ended (rest : List Char) (next : ending = ['\r'] → rest.head? ≠ some '\n') :
        ∃ offset', listFrom done start start [] (l ++ (ending ++ rest)) =
          listFrom (⟨l, start⟩ :: done) offset' offset' [] rest := by
      have read : ∃ offset', listFrom done start (start + l.length) l.reverse (ending ++ rest) =
          listFrom (⟨l.reverse.reverse, start⟩ :: done) offset' offset' [] rest :=
        listFrom_ending he next
      rw [List.reverse_reverse] at read
      rwa [listFrom_append hl, List.append_nil]
    cases lines with
    | nil =>
      unfold joined
      cases closed with
      | true =>
        obtain ⟨offset', read⟩ := ended [] fun _ h => by cases h
        refine ⟨[⟨l, start⟩], ?_, .inl rfl⟩
        rw [if_pos rfl, ← List.append_nil ending, read, listFrom, if_pos rfl, List.reverse_cons]
      | false =>
        have read : listFrom done start start [] (l ++ []) =
            listFrom done start (start + l.length) (l.reverse ++ []) [] := listFrom_append hl
        rw [List.append_nil, List.append_nil] at read
        rw [if_neg Bool.false_ne_true, read, listFrom]
        cases l with
        | nil => exact ⟨[], by simp, .inr rfl⟩
        | cons c l =>
          refine ⟨[⟨c :: l, start⟩], ?_, .inl rfl⟩
          rw [if_neg (by rw [List.length_cons]; omega), List.reverse_cons, List.reverse_reverse]
    | cons m lines =>
      have next : ending = ['\r'] →
          (joined ending closed (m :: lines)).head? ≠ some '\n' := by
        rintro rfl
        exact head_joined others closed
      obtain ⟨offset', read⟩ := ended _ next
      obtain ⟨ls, later, same⟩ := ih (⟨l, start⟩ :: done) offset' others
      refine ⟨⟨l, start⟩ :: ls, ?_, ?_⟩
      · rw [joined, List.append_assoc, read, later, List.reverse_cons, List.append_assoc]
        rfl
      · rw [List.map_cons, List.cons_append]
        exact same.imp (congrArg (l :: ·)) (congrArg (l :: ·))

end Line

/-! ## 2. Logical lines -/

namespace GrammarFile

/-- A line that is not continued is a logical line. -/
theorem logicalFrom_cons {l : Line} (whole : continued l.chars.reverse = false) (number : Nat)
    (ls : List Line) :
    logicalFrom number (l :: ls) = ⟨l.chars, number, l.offset⟩ :: logicalFrom (number + 1) ls := by
  have single : extend 0 l.chars.reverse ls = (l.chars, 0) := by
    cases ls with
    | nil => rw [extend, List.reverse_reverse]
    | cons m ls => rw [extend, if_neg (by rw [whole]; decide), List.reverse_reverse]
  rw [logicalFrom]
  simp only [single, List.drop_zero, Nat.add_zero]

end GrammarFile

end GrammarMatch
