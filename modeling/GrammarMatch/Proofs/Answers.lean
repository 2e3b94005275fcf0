/-
  File:      GrammarMatch/Proofs/Answers.lean
  Subject:   Answers in order of preference, as a whole.

  What a match answers is asked for one answer at a time. `Answers` is all of it at once: the
  answers in order, up to the end or up to the failure that cuts them short. Without a failure
  it is a list (`ofList`); appending and binding are those of lists, and what comes after a
  failure is dropped.
-/
import GrammarMatch.Failure
import Mathlib.Data.List.Forall2

namespace GrammarMatch.Match

variable {α β γ : Type}

/-- Answers in order of preference. They come to an end, or a failure cuts them short. -/
inductive Answers (α : Type) where
  | done
  | failed (f : Failure)
  | found (a : α) (rest : Answers α)

namespace Answers

/-! ## 1. Operations -/

/-- The only answer. -/
def just (a : α) : Answers α := .found a .done

/-- The only answer if a test holds. -/
def only (holds : Bool) (a : α) : Answers α := if holds then just a else .done

/-- The answers of a list. -/
def ofList : List α → Answers α
  | [] => .done
  | a :: l => .found a (ofList l)

/-- The answers that depend on something that may fail. -/
def attempt (v : Except Failure β) (k : β → Answers α) : Answers α :=
  match v with
  | .ok b => k b
  | .error f => .failed f

/-- One after the other. -/
def append : Answers α → Answers α → Answers α
  | .done, y => y
  | .failed f, _ => .failed f
  | .found a x, y => .found a (x.append y)

instance : Append (Answers α) := ⟨append⟩

/-- Each answer replaced by answers. -/
def bind (x : Answers α) (k : α → Answers β) : Answers β :=
  match x with
  | .done => .done
  | .failed f => .failed f
  | .found a x => k a ++ x.bind k

/-- Each answer replaced by one answer. -/
def map (g : α → β) (x : Answers α) : Answers β := x.bind fun a => just (g a)

/-- The answers that pass a test. -/
def filter (p : α → Bool) (x : Answers α) : Answers α := x.bind fun a => only (p a) a

/-- All of them, one after the other. -/
def concat : List (Answers α) → Answers α
  | [] => .done
  | x :: l => x ++ concat l

/-- One step after the other, each from an answer of the one before. -/
def chain : List (α → Answers α) → α → Answers α
  | [], a => just a
  | k :: l, a => (k a).bind (chain l)

/-- The first answer, with those that come after it. -/
def head : Answers α → Except Failure (Option (α × Answers α))
  | .done => .ok none
  | .failed f => .error f
  | .found a rest => .ok (some (a, rest))

/-- The first answer. -/
def first : Answers α → Except Failure (Option α)
  | .done => .ok none
  | .failed f => .error f
  | .found a _ => .ok (some a)

/-- What is among the answers. -/
def Mem (x : Answers α) (a : α) : Prop :=
  match x with
  | .done => False
  | .failed _ => False
  | .found b rest => a = b ∨ rest.Mem a

instance : Membership α (Answers α) := ⟨Mem⟩

/-! ## 2. One after the other -/

@[simp] theorem done_append (y : Answers α) : (.done : Answers α) ++ y = y := rfl

@[simp] theorem failed_append (f : Failure) (y : Answers α) :
    (.failed f : Answers α) ++ y = .failed f := rfl

@[simp] theorem found_append (a : α) (x y : Answers α) :
    (.found a x : Answers α) ++ y = .found a (x ++ y) := rfl

@[simp] theorem append_done (x : Answers α) : x ++ (.done : Answers α) = x := by
  induction x with
  | done => rfl
  | failed f => rfl
  | found a x ih => rw [found_append, ih]

theorem append_assoc (x y z : Answers α) : x ++ y ++ z = x ++ (y ++ z) := by
  induction x with
  | done => rfl
  | failed f => rfl
  | found a x ih => rw [found_append, found_append, found_append, ih]

theorem concat_append (l m : List (Answers α)) : concat (l ++ m) = concat l ++ concat m := by
  induction l with
  | nil => rfl
  | cons x l ih => rw [List.cons_append, concat, concat, ih, append_assoc]

/-! ## 3. Replacing answers -/

@[simp] theorem done_bind (k : α → Answers β) : (.done : Answers α).bind k = .done := rfl

@[simp] theorem failed_bind (f : Failure) (k : α → Answers β) :
    (.failed f : Answers α).bind k = .failed f := rfl

@[simp] theorem found_bind (a : α) (x : Answers α) (k : α → Answers β) :
    (Answers.found a x).bind k = k a ++ x.bind k := rfl

@[simp] theorem just_bind (a : α) (k : α → Answers β) : (just a).bind k = k a := append_done (k a)

@[simp] theorem bind_just (x : Answers α) : x.bind just = x := by
  induction x with
  | done => rfl
  | failed f => rfl
  | found a x ih => rw [found_bind, ih]; rfl

theorem append_bind (x y : Answers α) (k : α → Answers β) :
    (x ++ y).bind k = x.bind k ++ y.bind k := by
  induction x with
  | done => rfl
  | failed f => rfl
  | found a x ih => rw [found_append, found_bind, found_bind, ih, append_assoc]

theorem bind_assoc (x : Answers α) (k : α → Answers β) (m : β → Answers γ) :
    (x.bind k).bind m = x.bind fun a => (k a).bind m := by
  induction x with
  | done => rfl
  | failed f => rfl
  | found a x ih => rw [found_bind, found_bind, append_bind, ih]

/-- What replaces the answers need only agree on them. -/
theorem bind_congr {x : Answers α} {k m : α → Answers β} (h : ∀ a ∈ x, k a = m a) :
    x.bind k = x.bind m := by
  induction x with
  | done => rfl
  | failed f => rfl
  | found a x ih => rw [found_bind, found_bind, h a (.inl rfl), ih fun b hb => h b (.inr hb)]

@[simp] theorem attempt_ok (b : β) (k : β → Answers α) : attempt (.ok b) k = k b := rfl

@[simp] theorem attempt_error (f : Failure) (k : β → Answers α) :
    attempt (.error f) k = .failed f := rfl

theorem chain_append (l m : List (α → Answers α)) (a : α) :
    chain (l ++ m) a = (chain l a).bind (chain m) := by
  induction l generalizing a with
  | nil => rw [List.nil_append, chain, just_bind]
  | cons k l ih =>
    rw [List.cons_append, chain, chain, bind_assoc]
    exact bind_congr fun b _ => ih b

theorem concat_bind (l : List (Answers α)) (k : α → Answers β) :
    (concat l).bind k = concat (l.map (·.bind k)) := by
  induction l with
  | nil => rfl
  | cons x l ih => rw [concat, append_bind, ih, List.map_cons, concat]

theorem filter_append (p : α → Bool) (x y : Answers α) :
    (x ++ y).filter p = x.filter p ++ y.filter p := append_bind x y _

@[simp] theorem filter_true (x : Answers α) : x.filter (fun _ => true) = x := bind_just x

/-! ## 4. What is among the answers -/

@[simp] theorem mem_found {a b : α} {x : Answers α} : a ∈ Answers.found b x ↔ a = b ∨ a ∈ x :=
  Iff.rfl

@[simp] theorem not_mem_done (a : α) : ¬a ∈ (.done : Answers α) := fun h => h

@[simp] theorem not_mem_failed (f : Failure) (a : α) : ¬a ∈ (.failed f : Answers α) := fun h => h

@[simp] theorem mem_just {a b : α} : a ∈ just b ↔ a = b := by
  unfold just
  rw [mem_found]
  exact or_iff_left (not_mem_done a)

theorem mem_only {holds : Bool} {a b : α} : a ∈ only holds b ↔ holds = true ∧ a = b := by
  cases holds with
  | true => simp [only]
  | false => simp [only]

theorem mem_ofList {l : List α} {a : α} : a ∈ ofList l ↔ a ∈ l := by
  induction l with
  | nil => simp [ofList]
  | cons b l ih => rw [ofList, mem_found, List.mem_cons, ih]

theorem mem_of_mem_append {x y : Answers α} {a : α} (h : a ∈ x ++ y) : a ∈ x ∨ a ∈ y := by
  induction x with
  | done => exact .inr h
  | failed f => exact absurd h (not_mem_failed f a)
  | found b x ih =>
    rcases h with rfl | h
    · exact .inl (.inl rfl)
    · exact (ih h).imp .inr id

theorem mem_of_mem_bind {x : Answers α} {k : α → Answers β} {b : β} (h : b ∈ x.bind k) :
    ∃ a ∈ x, b ∈ k a := by
  induction x with
  | done => exact absurd h (not_mem_done b)
  | failed f => exact absurd h (not_mem_failed f b)
  | found a x ih =>
    rcases mem_of_mem_append h with h | h
    · exact ⟨a, .inl rfl, h⟩
    · obtain ⟨a', ha', hb⟩ := ih h
      exact ⟨a', .inr ha', hb⟩

theorem mem_of_mem_concat {l : List (Answers α)} {a : α} (h : a ∈ concat l) : ∃ x ∈ l, a ∈ x := by
  induction l with
  | nil => exact absurd h (not_mem_done a)
  | cons x l ih =>
    rcases mem_of_mem_append h with h | h
    · exact ⟨x, List.mem_cons_self, h⟩
    · obtain ⟨y, hy, ha⟩ := ih h
      exact ⟨y, List.mem_cons_of_mem x hy, ha⟩

theorem mem_of_mem_attempt {v : Except Failure β} {k : β → Answers α} {a : α}
    (h : a ∈ attempt v k) : ∃ b, v = .ok b ∧ a ∈ k b := by
  cases v with
  | ok b => exact ⟨b, rfl, h⟩
  | error f => exact absurd h (not_mem_failed f a)

theorem mem_of_first {x : Answers α} {a : α} (h : x.first = .ok (some a)) : a ∈ x := by
  cases x with
  | done => cases h
  | failed f => cases h
  | found b x =>
    cases h
    exact .inl rfl

theorem mem_of_mem_filter {p : α → Bool} {x : Answers α} {a : α} (h : a ∈ x.filter p) :
    a ∈ x ∧ p a = true := by
  obtain ⟨b, hb, h⟩ := mem_of_mem_bind h
  obtain ⟨passed, rfl⟩ := mem_only.mp h
  exact ⟨hb, passed⟩

/-! ## 5. The first answer and the others -/

theorem eq_done_of_head {x : Answers α} (h : x.head = .ok none) : x = .done := by
  cases x with
  | done => rfl
  | failed f => cases h
  | found a x => cases h

theorem eq_failed_of_head {x : Answers α} {f : Failure} (h : x.head = .error f) :
    x = .failed f := by
  cases x with
  | done => cases h
  | failed f => cases h; rfl
  | found a x => cases h

theorem eq_found_of_head {x rest : Answers α} {a : α} (h : x.head = .ok (some (a, rest))) :
    x = .found a rest := by
  cases x with
  | done => cases h
  | failed f => cases h
  | found a x => cases h; rfl

theorem first_map (g : α → β) (x : Answers α) : (x.map g).first = x.first.map (Option.map g) := by
  cases x with
  | done => rfl
  | failed f => rfl
  | found a x => rfl

/-- Where nothing is answered by one after the other, nothing is by either. -/
theorem first_append_none {x y : Answers α} (h : (x ++ y).first = .ok none) :
    x.first = .ok none ∧ y.first = .ok none := by
  cases x with
  | done => exact ⟨rfl, h⟩
  | failed f => cases h
  | found a x => cases h

/-- Where none of the answers passes a test, each of them fails it. -/
theorem refused_of_first {p : α → Bool} {x : Answers α} (h : (x.filter p).first = .ok none) :
    ∀ a ∈ x, p a = false := by
  induction x with
  | done => exact fun a ha => absurd ha (not_mem_done a)
  | failed f => exact fun a ha => absurd ha (not_mem_failed f a)
  | found b x ih =>
    obtain ⟨first, others⟩ := first_append_none h
    change (only (p b) b).first = .ok none at first
    intro a ha
    rcases ha with rfl | ha
    · cases passed : p a with
      | true =>
        rw [passed] at first
        cases first
      | false => rfl
    · exact ih others a ha

/-! ## 6. Up to a failure -/

/-- One of the answers is as required, or a failure cuts them short. -/
def Covers (P : α → Prop) : Answers α → Prop
  | .done => False
  | .failed _ => True
  | .found a rest => P a ∨ rest.Covers P

/-- No failure cuts the answers short. -/
def Ends : Answers α → Prop
  | .done => True
  | .failed _ => False
  | .found _ rest => rest.Ends

variable {P : α → Prop} {x y : Answers α}

theorem covers_just {a : α} (h : P a) : (just a).Covers P := .inl h

theorem covers_only {holds : Bool} {a : α} (h : holds = true) (ha : P a) :
    (only holds a).Covers P := by
  rw [h]
  exact covers_just ha

theorem Covers.append_left (h : x.Covers P) (y : Answers α) : (x ++ y).Covers P := by
  induction x with
  | done => exact absurd h id
  | failed f => exact h
  | found a x ih => exact h.imp id ih

theorem Covers.append_right (x : Answers α) (h : y.Covers P) : (x ++ y).Covers P := by
  induction x with
  | done => exact h
  | failed f => trivial
  | found a x ih => exact .inr ih

theorem Covers.bind {k : α → Answers β} {Q : β → Prop} (h : x.Covers P)
    (hk : ∀ a ∈ x, P a → (k a).Covers Q) : (x.bind k).Covers Q := by
  induction x with
  | done => exact absurd h id
  | failed f => trivial
  | found a x ih =>
    rw [found_bind]
    rcases h with ha | h
    · exact (hk a (.inl rfl) ha).append_left _
    · exact (ih h fun b hb => hk b (.inr hb)).append_right _

theorem Covers.attempt {v : Except Failure β} {k : β → Answers α}
    (h : ∀ b, v = .ok b → (k b).Covers P) : (attempt v k).Covers P := by
  cases v with
  | ok b => exact h b rfl
  | error f => trivial

theorem Covers.concat {l : List (Answers α)} (mem : x ∈ l) (h : x.Covers P) :
    (concat l).Covers P := by
  induction l with
  | nil => cases mem
  | cons z l ih =>
    rcases List.mem_cons.mp mem with rfl | mem
    · exact h.append_left _
    · exact (ih mem).append_right _

/-- Where nothing is answered and nothing failed, nothing is as required. -/
theorem Covers.found (h : x.Covers P) : x.first ≠ .ok none := by
  cases x with
  | done => exact absurd h id
  | failed f => exact fun h => by cases h
  | found a x => exact fun h => by cases h

theorem Ends.mem_of_covers {a : α} (h : x.Ends) (covers : x.Covers (· = a)) : a ∈ x := by
  induction x with
  | done => exact absurd covers id
  | failed f => exact absurd h id
  | found b x ih => exact covers.imp Eq.symm (ih h)

theorem ends_just (a : α) : (just a).Ends := trivial

theorem ends_only (holds : Bool) (a : α) : (only holds a).Ends := by
  cases holds with
  | true => trivial
  | false => trivial

theorem ends_ofList (l : List α) : (ofList l).Ends := by
  induction l with
  | nil => trivial
  | cons a l ih => exact ih

theorem Ends.append (h : x.Ends) (h' : y.Ends) : (x ++ y).Ends := by
  induction x with
  | done => exact h'
  | failed f => exact h
  | found a x ih => exact ih h

theorem Ends.of_append (h : (x ++ y).Ends) : x.Ends ∧ y.Ends := by
  induction x with
  | done => exact ⟨trivial, h⟩
  | failed f => exact absurd h id
  | found a x ih => exact ih h

theorem Ends.of_bind {k : α → Answers β} (h : (x.bind k).Ends) :
    x.Ends ∧ ∀ a ∈ x, (k a).Ends := by
  induction x with
  | done => exact ⟨trivial, fun a ha => absurd ha (not_mem_done a)⟩
  | failed f => exact absurd h id
  | found b x ih =>
    obtain ⟨first, others⟩ := h.of_append
    obtain ⟨ends, each⟩ := ih others
    refine ⟨ends, fun a ha => ?_⟩
    rcases ha with rfl | ha
    · exact first
    · exact each a ha

theorem Ends.bind {k : α → Answers β} (h : x.Ends) (hk : ∀ a ∈ x, (k a).Ends) :
    (x.bind k).Ends := by
  induction x with
  | done => trivial
  | failed f => exact h
  | found a x ih => exact (hk a (.inl rfl)).append (ih h fun b hb => hk b (.inr hb))

theorem Ends.concat {l : List (Answers α)} (h : ∀ x ∈ l, x.Ends) : (concat l).Ends := by
  induction l with
  | nil => trivial
  | cons x l ih =>
    exact (h x List.mem_cons_self).append (ih fun y hy => h y (List.mem_cons_of_mem x hy))

theorem Ends.first (h : x.Ends) : ∃ o, x.first = .ok o := by
  cases x with
  | done => exact ⟨none, rfl⟩
  | failed f => exact absurd h id
  | found a x => exact ⟨some a, rfl⟩

/-! ## 7. Lists of answers -/

/-- The answers up to the end or to the failure. -/
def toList : Answers α → List α
  | .done => []
  | .failed _ => []
  | .found a rest => a :: rest.toList

theorem mem_toList {a : α} : a ∈ x.toList ↔ a ∈ x := by
  induction x with
  | done => exact iff_of_false List.not_mem_nil (not_mem_done a)
  | failed f => exact iff_of_false List.not_mem_nil (not_mem_failed f a)
  | found b x ih => rw [toList, List.mem_cons, mem_found, ih]

/-- Without a failure the list is all there is. -/
theorem Ends.eq_ofList (h : x.Ends) : x = ofList x.toList := by
  induction x with
  | done => rfl
  | failed f => exact absurd h id
  | found a x ih => rw [toList, ofList, ← ih h]

theorem ofList_append (l m : List α) : ofList (l ++ m) = ofList l ++ ofList m := by
  induction l with
  | nil => rfl
  | cons a l ih => rw [List.cons_append, ofList, ofList, ih, found_append]

theorem ofList_map (g : α → β) (l : List α) : ofList (l.map g) = (ofList l).map g := by
  induction l with
  | nil => rfl
  | cons a l ih =>
    rw [List.map_cons, ofList, ih]
    rfl

theorem ofList_bind (l : List α) (g : α → List β) :
    ((ofList l).bind fun a => ofList (g a)) = ofList (l.flatMap g) := by
  induction l with
  | nil => rfl
  | cons a l ih => rw [List.flatMap_cons, ofList_append, ← ih, ofList, found_bind]

/-! ## 8. The same answers in another order -/

/-- Each of the answers is among others too, unless a failure cuts those short. -/
def CoveredBy (x y : Answers α) : Prop := ∀ a ∈ x, y.Covers (· = a)

/-- The answers are the same on both sides, in any order and any number, but for what a failure on
    either side cuts off. -/
structure Agree (x y : Answers α) : Prop where
  left : x.CoveredBy y
  right : y.CoveredBy x

theorem covers_of_mem {a : α} (h : a ∈ x) : x.Covers (· = a) := by
  induction x with
  | done => exact absurd h (not_mem_done a)
  | failed f => trivial
  | found b x ih => exact h.imp Eq.symm ih

theorem coveredBy_failed (x : Answers α) (f : Failure) : x.CoveredBy (.failed f) :=
  fun _ _ => trivial

theorem failed_coveredBy (f : Failure) (y : Answers α) : (.failed f : Answers α).CoveredBy y :=
  fun a h => absurd h (not_mem_failed f a)

theorem CoveredBy.append {x' y' : Answers α} (h : x.CoveredBy y) (h' : x'.CoveredBy y') :
    (x ++ x').CoveredBy (y ++ y') := by
  intro a ha
  rcases mem_of_mem_append ha with ha | ha
  · exact (h a ha).append_left _
  · exact (h' a ha).append_right _

theorem CoveredBy.bind {k m : α → Answers β} (h : x.CoveredBy y)
    (hk : ∀ a, (k a).CoveredBy (m a)) : (x.bind k).CoveredBy (y.bind m) := by
  intro b hb
  obtain ⟨a, ha, hb⟩ := mem_of_mem_bind hb
  refine (h a ha).bind fun a' _ same => ?_
  subst same
  exact hk a' b hb

namespace Agree

theorem refl (x : Answers α) : Agree x x := ⟨fun _ => covers_of_mem, fun _ => covers_of_mem⟩

theorem append {x' y' : Answers α} (h : Agree x y) (h' : Agree x' y') :
    Agree (x ++ x') (y ++ y') := ⟨h.left.append h'.left, h.right.append h'.right⟩

theorem bind {k m : α → Answers β} (h : Agree x y) (hk : ∀ a, Agree (k a) (m a)) :
    Agree (x.bind k) (y.bind m) :=
  ⟨h.left.bind fun a => (hk a).left, h.right.bind fun a => (hk a).right⟩

/-- Where neither of two outcomes is a failure, what depends on them need agree only there. -/
theorem attempt {γ : Type} {v : Except Failure β} {u : Except Failure γ} {k : β → Answers α}
    {m : γ → Answers α} (h : ∀ b c, v = .ok b → u = .ok c → Agree (k b) (m c)) :
    Agree (Answers.attempt v k) (Answers.attempt u m) := by
  cases v with
  | error f => exact ⟨failed_coveredBy f _, coveredBy_failed _ f⟩
  | ok b =>
    cases u with
    | error f => exact ⟨coveredBy_failed _ f, failed_coveredBy f _⟩
    | ok c => exact h b c rfl rfl

theorem concat {l m : List (Answers α)} (h : List.Forall₂ Agree l m) :
    Agree (Answers.concat l) (Answers.concat m) := by
  induction h with
  | nil => exact refl _
  | cons first _ ih => exact first.append ih

theorem chain {l m : List (α → Answers α)}
    (h : List.Forall₂ (fun k k' => ∀ a, Agree (k a) (k' a)) l m) (a : α) :
    Agree (Answers.chain l a) (Answers.chain m a) := by
  induction h generalizing a with
  | nil => exact refl _
  | cons first _ ih => exact (first a).bind ih

/-- Where there is no failure, the answers are the same. -/
theorem mem_iff (h : Agree x y) (ends : x.Ends) (ends' : y.Ends) (a : α) : a ∈ x ↔ a ∈ y :=
  ⟨fun ha => ends'.mem_of_covers (h.left a ha), fun ha => ends.mem_of_covers (h.right a ha)⟩

/-- There is a first answer on both sides or on neither. -/
theorem first (h : Agree x y) {o o' : Option α} (hx : x.first = .ok o) (hy : y.first = .ok o') :
    o'.isSome = o.isSome := by
  cases o with
  | none =>
    cases o' with
    | none => rfl
    | some b => exact absurd hx (h.right b (mem_of_first hy)).found
  | some a =>
    cases o' with
    | none => exact absurd hy (h.left a (mem_of_first hx)).found
    | some b => rfl

end Agree

end Answers

end GrammarMatch.Match
