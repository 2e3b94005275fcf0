/-
  File:      GrammarMatch/Proofs/Faults.lean
  Subject:   When a test of the text fails.

  A test may ask for a character outside the text, and a class may have a member for which there is
  no test. Nothing else goes wrong: at a position of the text no test of what was compiled from a
  text fails (`Match.fails_test`).
-/
import GrammarMatch.Proofs.Compiled
import GrammarMatch.Proofs.Slice

namespace GrammarMatch

namespace Match

/-! ## 1. Outcomes -/

/-- An outcome fails only in some ways. -/
def Fails {α : Type} (E : Failure → Prop) (v : Except Failure α) : Prop := ∀ f, v = .error f → E f

section Tests

variable {α β : Type} {E : Failure → Prop} {t : Text}

theorem fails_ok (a : α) : Fails E (.ok a : Except Failure α) := nofun

theorem fails_error {f : Failure} (h : E f) : Fails E (.error f : Except Failure α) := by
  rintro _ ⟨⟩
  exact h

theorem Fails.bind {v : Except Failure α} {k : α → Except Failure β} (hv : Fails E v)
    (hk : ∀ a, Fails E (k a)) : Fails E (v.bind k) := by
  cases v with
  | ok a => exact hk a
  | error f => exact fails_error (hv f rfl)

theorem Fails.map {v : Except Failure α} (hv : Fails E v) (g : α → β) : Fails E (v.map g) := by
  cases v with
  | ok a => nofun
  | error f => exact fails_error (hv f rfl)

/-- A failure that is passed on. -/
theorem Fails.passed {v : Except Failure α} (hv : Fails E v) {f : Failure} (h : v = .error f) :
    Fails E (.error f : Except Failure β) := fails_error (hv f h)

theorem fails_ite {c : Prop} [Decidable c] {v w : Except Failure α} (hv : c → Fails E v)
    (hw : ¬c → Fails E w) : Fails E (if c then v else w) := by
  split
  next h => exact hv h
  next h => exact hw h

/-! ## 2. Tests -/

/-- A failure of a test, which comes up for some reason only. -/
def Because (reason : Prop) (f : Failure) : Prop := f ≠ .stackExhausted ∧ reason

/-- A reason may be given by one that follows from it. -/
theorem Fails.because {reason reason' : Prop} {v : Except Failure α} (hv : Fails (Because reason) v)
    (h : reason → reason') : Fails (Because reason') v :=
  fun f failed => ⟨(hv f failed).1, h (hv f failed).2⟩

theorem fails_charAt (i : Int) : Fails (Because ¬(0 ≤ i ∧ i < t.stop)) (charAt t i) := by
  unfold charAt
  cases h : t.at? i with
  | some c => exact fails_ok c
  | none =>
    have outside : ¬(0 ≤ i ∧ i < t.stop) := by
      rintro ⟨nonneg, inside⟩
      rw [Text.at?_of_nonneg t nonneg] at h
      have := Array.getElem?_eq_none_iff.mp h
      unfold Text.stop at inside
      omega
    rintro _ ⟨⟩
    split
    next => exact ⟨nofun, outside⟩
    next => exact ⟨nofun, outside⟩

theorem fails_wordAt (i : Int) : Fails (Because ¬(0 ≤ i ∧ i < t.stop)) (wordAt t i) :=
  (fails_charAt i).map _

theorem fails_itemHas (c : Char) (item : ClassItem) :
    Fails (Because ¬item.Known) (itemHas c item) := by
  cases item with
  | range first last => exact fails_ok _
  | shorthand letter =>
    simp only [itemHas]
    cases h : Shorthand.find? letter with
    | some test => exact fails_ok _
    | none =>
      have unknown : ¬(ClassItem.shorthand letter).Known := by simp [ClassItem.Known, h]
      exact fails_error ⟨by simp, unknown⟩
  | property name negated =>
    simp only [itemHas]
    cases h : Property.find? name with
    | some test => exact fails_ok _
    | none =>
      have unknown : ¬(ClassItem.property name negated).Known := by
        simp [ClassItem.Known, Property.known, h]
      exact fails_error ⟨by simp, unknown⟩

theorem fails_someItemHas (c : Char) (items : List ClassItem) :
    Fails (Because ¬∀ item ∈ items, item.Known) (someItemHas c items) := by
  induction items with
  | nil => exact fails_ok _
  | cons item items ih =>
    have first : Fails (Because ¬∀ i ∈ item :: items, i.Known) (itemHas c item) :=
      (fails_itemHas c item).because fun unknown known =>
        unknown (known item List.mem_cons_self)
    have rest : Fails (Because ¬∀ i ∈ item :: items, i.Known) (someItemHas c items) :=
      ih.because fun unknown known =>
        unknown fun i h => known i (List.mem_cons_of_mem item h)
    unfold someItemHas
    split
    next h => exact first.passed h
    next => exact fails_ok _
    next => exact rest

theorem fails_someCharIn (items : List ClassItem) (chars : List Char) :
    Fails (Because ¬∀ item ∈ items, item.Known) (someCharIn items chars) := by
  induction chars with
  | nil => exact fails_ok _
  | cons c chars ih =>
    have first := fails_someItemHas c items
    unfold someCharIn
    split
    next h => exact first.passed h
    next => exact fails_ok _
    next => exact ih

theorem fails_classHas (items : List ClassItem) (negated ignoreCase : Bool) (c : Char) :
    Fails (Because ¬∀ item ∈ items, item.Known) (classHas items negated ignoreCase c) :=
  (fails_someCharIn items _).map _

theorem fails_classHolds (items : List ClassItem) (negated ignoreCase : Bool) (pos : Int) :
    Fails (Because ¬(t.Span 0 pos ∧ ∀ item ∈ items, item.Known))
      (classHolds t items negated ignoreCase pos) := by
  unfold classHolds
  refine fails_ite (fun inside => ?_) fun _ => fails_ok _
  refine Fails.bind ?_ fun c => ?_
  · exact (fails_charAt pos).because fun outside ⟨here, _⟩ => outside ⟨here.le, inside⟩
  · exact (fails_classHas items negated ignoreCase c).because fun unknown ⟨_, known⟩ =>
      unknown known

theorem fails_anchorHolds (pos : Int) (kind : AnchorKind) :
    Fails (Because ¬t.Span 0 pos) (anchorHolds t pos kind) := by
  cases kind with
  | startOfString | endOfString => exact fails_ok _
  | startOfLine =>
    refine fails_ite (fun _ => fails_ok _) fun other => ?_
    refine ((fails_charAt (pos - 1)).because fun outside here => outside ?_).map _
    exact ⟨by have := here.le; omega, by have := here.le_stop; omega⟩
  | endOfLine =>
    refine fails_ite (fun _ => fails_ok _) fun other => ?_
    refine ((fails_charAt pos).because fun outside here => outside ?_).map _
    exact ⟨here.le, by have := here.le_stop; omega⟩
  | wordBoundary =>
    refine Fails.bind (fails_ite (fun after => ?_) fun _ => fails_ok _) fun before =>
      Fails.map (fails_ite (fun inside => ?_) fun _ => fails_ok _) _
    · refine (fails_wordAt (pos - 1)).because fun outside here => outside ?_
      exact ⟨by omega, by have := here.le_stop; omega⟩
    · exact (fails_wordAt pos).because fun outside here => outside ⟨here.le, inside⟩

theorem fails_spaceStop (left : Nat) (pos : Int) :
    Fails (Because ¬0 ≤ pos) (spaceStop t left pos) := by
  induction left generalizing pos with
  | zero => exact fails_ok _
  | succ left ih =>
    have rest : Fails (Because ¬0 ≤ pos) (spaceStop t left (pos + 1)) :=
      (ih (pos + 1)).because fun negative nonneg => negative (by omega)
    unfold spaceStop
    refine fails_ite (fun inside => ?_) fun _ => fails_ok _
    have first : Fails (Because ¬0 ≤ pos) (charAt t pos) :=
      (fails_charAt pos).because fun outside nonneg => outside ⟨nonneg, inside⟩
    split
    next h => exact first.passed h
    next => exact fails_ite (fun _ => rest) fun _ => fails_ok _

theorem fails_gapStop (pos : Int) : Fails (Because ¬t.Span 0 pos) (gapStop? t pos) := by
  have space := (fails_spaceStop (t := t) (t.stop - pos).toNat pos).because
    fun negative (here : t.Span 0 pos) => negative here.le
  unfold gapStop?
  split
  next h => exact space.passed h
  next =>
    refine fails_ite (fun inner => ?_) fun _ => fails_ok _
    have before := (fails_wordAt (t := t) (pos - 1)).because
      fun outside (_ : t.Span 0 pos) => outside ⟨by omega, by omega⟩
    have after := (fails_wordAt (t := t) pos).because
      fun outside (here : t.Span 0 pos) => outside ⟨here.le, inner.2.2⟩
    exact before.bind fun _ => fails_ite (fun _ => after.map _) fun _ => fails_ok _

end Tests

end Match

/-! ## 3. Tests of patterns -/

namespace Pattern

/-- A test of a pattern fails at a position. -/
inductive Faults (t : Text) (pos : Int) : Pattern → Failure → Prop
  | charClass {items : List ClassItem} {negated ignoreCase : Bool} {f : Failure}
      (h : Match.classHolds t items negated ignoreCase pos = .error f) :
      Faults t pos (.charClass items negated ignoreCase) f
  | anchor {kind : AnchorKind} {f : Failure} (h : Match.anchorHolds t pos kind = .error f) :
      Faults t pos (.anchor kind) f
  | whitespace {f : Failure} (h : Match.gapStop? t pos = .error f) : Faults t pos .whitespace f

end Pattern

namespace Match

/-- **A test never fails for want of room**, and what was compiled from a text never fails in the
    text. -/
theorem fails_test {t : Text} {p : Pattern} {pos : Int} {f : Failure} (h : p.Faults t pos f) :
    Because (¬(t.Span 0 pos ∧ p.Compiled)) f := by
  cases h with
  | charClass h =>
    refine (fails_classHolds _ _ _ pos).because (fun bad => ?_) f h
    rintro ⟨here, compiled⟩
    cases compiled with
    | charClass known => exact bad ⟨here, known⟩
  | anchor h => exact (fails_anchorHolds pos _).because (fun outside fine => outside fine.1) f h
  | whitespace h => exact (fails_gapStop pos).because (fun outside fine => outside fine.1) f h

end Match

end GrammarMatch
