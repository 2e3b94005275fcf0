/-
  File:      GrammarMatch/Match/Order.lean
  Subject:   An order on lists in which a work list descends.

  A work list gets smaller when its first entry is replaced by any number of
  smaller entries, whether the other entries are kept or dropped. If there
  is no endless descent among the entries there is none among the lists.
-/
namespace GrammarMatch

universe u

variable {α : Type u}

/-- The first entry of a list replaced by finitely many smaller ones. -/
inductive Shrinks (r : α → α → Prop) : List α → List α → Prop
  /-- The other entries are kept. -/
  | replace {a : α} {l : List α} (xs : List α) (h : ∀ x ∈ xs, r x a) : Shrinks r (xs ++ l) (a :: l)
  /-- The other entries are dropped. -/
  | alone {a : α} {l : List α} (xs : List α) (h : ∀ x ∈ xs, r x a) : Shrinks r xs (a :: l)

namespace Shrinks

variable {r : α → α → Prop}

/-- Nothing is smaller than the empty list. -/
theorem acc_nil : Acc (Shrinks r) [] := ⟨_, fun _ h => nomatch h⟩

/-- Entries that may be put in front of a list may be put there together. -/
theorem acc_append {xs l : List α} (hl : Acc (Shrinks r) l)
    (h : ∀ x ∈ xs, ∀ l, Acc (Shrinks r) l → Acc (Shrinks r) (x :: l)) :
    Acc (Shrinks r) (xs ++ l) := by
  induction xs with
  | nil => exact hl
  | cons x xs ih =>
    exact h x (List.mem_cons_self ..) _ (ih fun y hy => h y (List.mem_cons_of_mem _ hy))

/-- An entry from which there is no endless descent may be put in front. -/
theorem acc_cons {a : α} (ha : Acc r a) : ∀ l, Acc (Shrinks r) l → Acc (Shrinks r) (a :: l) := by
  induction ha with
  | intro a _ ih =>
    intro l hl
    refine ⟨_, fun m hm => ?_⟩
    cases hm with
    | replace xs h => exact acc_append hl fun x hx => ih x (h x hx)
    | alone _ h =>
      have : Acc (Shrinks r) (m ++ []) := acc_append acc_nil fun x hx => ih x (h x hx)
      rwa [List.append_nil] at this

/-- There is no endless descent among lists if there is none among entries. -/
theorem wf (h : WellFounded r) : WellFounded (Shrinks r) := by
  refine ⟨fun l => ?_⟩
  induction l with
  | nil => exact acc_nil
  | cons a l ih => exact acc_cons (h.apply a) l ih

end Shrinks

end GrammarMatch
