/-
  File:      GrammarMatch/Proofs/Bindings.lean
  Subject:   The table of the keys of a capture.

  The table is filled in one pass over what was captured. What it holds for a key can be told from
  the captures under that key alone (`get?_eq`): all of them in a list if the key is plural, and
  otherwise none, one, or a list of more than one.
-/
import GrammarMatch.Capture

namespace GrammarMatch.Capture

/-! ## 1. What is under a key -/

/-- What was captured under a key, in the order of the text. -/
def under (key : CaptureKey) (l : List (CaptureKey × Capture)) : List Capture :=
  (l.filter fun e => e.1 = key).map Prod.snd

theorem under_cons (key : CaptureKey) (e : CaptureKey × Capture)
    (l : List (CaptureKey × Capture)) :
    under key (e :: l) = if e.1 = key then e.2 :: under key l else under key l := by
  unfold under
  by_cases h : e.1 = key
  · rw [if_pos h, List.filter_cons_of_pos (by simpa using h), List.map_cons]
  · rw [if_neg h, List.filter_cons_of_neg (by simpa using h)]

/-! ## 2. Filling the table -/

namespace Bindings

theorem lookup_alter (key k : CaptureKey) (change : Option Binding → Binding) (t : Bindings) :
    (t.alter key change).lookup k =
      if k = key then some (change (t.lookup key)) else t.lookup k := by
  induction t with
  | nil =>
    unfold alter
    by_cases h : k = key
    · rw [if_pos h, h, List.lookup_cons_self]
      rfl
    · rw [if_neg h, List.lookup_cons, beq_false_of_ne h]
  | cons e t ih =>
    obtain ⟨m, b⟩ := e
    unfold alter
    by_cases hm : m = key
    · subst hm
      rw [if_pos rfl, List.lookup_cons, List.lookup_cons_self]
      by_cases h : k = m
      · rw [if_pos h, h, BEq.rfl]
      · rw [if_neg h, beq_false_of_ne h, List.lookup_cons, beq_false_of_ne h]
    · rw [if_neg hm, List.lookup_cons, ih, List.lookup_cons, List.lookup_cons,
        beq_false_of_ne (Ne.symm hm)]
      by_cases h : k = m
      · subst h
        simp only [BEq.rfl, if_neg hm]
      · simp only [beq_false_of_ne h]

/-- What a key is bound to after one more capture under it. -/
def join (plural : Bool) (c : Capture) : Option Binding → Binding
  | none => if plural then .many #[c] else .one c
  | some (.one first) => .many #[first, c]
  | some (.many captures) => .many (captures.push c)

theorem lookup_add (plural : List CaptureKey) (t : Bindings) (e : CaptureKey × Capture)
    (key : CaptureKey) :
    (t.add plural e).lookup key =
      if e.1 = key then some (join (plural.contains key) e.2 (t.lookup key))
      else t.lookup key := by
  unfold add
  rw [lookup_alter]
  by_cases h : e.1 = key
  · rw [if_pos h, if_pos h.symm, h]
    rcases t.lookup key with _ | _ | _ <;> rfl
  · rw [if_neg h, if_neg (Ne.symm h)]

/-- Only the captures under a key matter for it. -/
theorem lookup_addAll (plural : List CaptureKey) (l : List (CaptureKey × Capture)) (t : Bindings)
    (key : CaptureKey) :
    (l.foldl (add plural) t).lookup key =
      (under key l).foldl (fun b c => some (join (plural.contains key) c b)) (t.lookup key) := by
  induction l generalizing t with
  | nil => rfl
  | cons e l ih =>
    rw [List.foldl_cons, ih, lookup_add, under_cons]
    by_cases h : e.1 = key
    · rw [if_pos h, if_pos h, List.foldl_cons]
    · rw [if_neg h, if_neg h]

theorem foldl_join_many (plural : Bool) (captures : Array Capture) (cs : List Capture) :
    cs.foldl (fun b c => some (join plural c b)) (some (.many captures)) =
      some (.many (captures ++ cs.toArray)) := by
  induction cs generalizing captures with
  | nil => simp
  | cons c cs ih =>
    rw [List.foldl_cons]
    exact (ih (captures.push c)).trans (by simp)

theorem lookup_addEmpty (t : Bindings) (key k : CaptureKey) :
    (t.addEmpty key).lookup k =
      if k = key then some ((t.lookup k).getD (.many #[])) else t.lookup k := by
  unfold addEmpty
  rw [lookup_alter]
  by_cases h : k = key
  · rw [if_pos h, if_pos h, h]
    cases t.lookup key <;> rfl
  · rw [if_neg h, if_neg h]

/-- The empty lists that are added for plural keys. -/
theorem lookup_addEmpties (plural : List CaptureKey) (t : Bindings) (k : CaptureKey) :
    (plural.foldl addEmpty t).lookup k =
      if k ∈ plural then some ((t.lookup k).getD (.many #[])) else t.lookup k := by
  induction plural generalizing t with
  | nil => simp
  | cons key plural ih =>
    rw [List.foldl_cons, ih, lookup_addEmpty]
    by_cases h : k = key
    · subst h
      simp
    · simp [h]

end Bindings

/-! ## 3. What a key is bound to -/

/-- What captures are bound to together: none, one, or a list. -/
def bindingOf : List Capture → Option Binding
  | [] => none
  | [c] => some (.one c)
  | cs => some (.many cs.toArray)

theorem bindingOf_many {cs : List Capture} {captures : Array Capture}
    (h : bindingOf cs = some (.many captures)) : 1 < cs.length := by
  match cs with
  | [] => cases h
  | [c] => cases h
  | c :: d :: cs => exact Nat.succ_lt_succ (Nat.succ_pos _)

/-- **What a key is bound to** can be told from the captures under it. -/
theorem get?_eq (c : Capture) (key : CaptureKey) :
    c.get? key = if key ∈ c.label.plural then some (.many (under key c.entries).toArray)
      else bindingOf (under key c.entries) := by
  unfold get? bindings
  rw [Bindings.lookup_addEmpties, Bindings.lookup_addAll, List.lookup_nil]
  by_cases h : key ∈ c.label.plural
  · rw [if_pos h, if_pos h, List.contains_iff_mem.mpr h]
    rcases under key c.entries with _ | ⟨d, ds⟩
    · rfl
    · rw [List.foldl_cons]
      show some ((List.foldl _ (some (Binding.many #[d])) ds).getD _) = _
      rw [Bindings.foldl_join_many]
      simp
  · rw [if_neg h, if_neg h]
    have single : c.label.plural.contains key = false := by simpa using h
    rw [single]
    rcases under key c.entries with _ | ⟨d, _ | ⟨e, ds⟩⟩
    · rfl
    · rfl
    · rw [List.foldl_cons, List.foldl_cons]
      show List.foldl _ (some (Binding.many #[d, e])) ds = _
      rw [Bindings.foldl_join_many]
      simp [bindingOf]

end GrammarMatch.Capture
