/-
  File:      GrammarMatch/Proofs/Tabulation.lean
  Subject:   The table of a scope loses and doubles nothing.

  A table is filled by one change after the other, each of what one key is bound to. A change keeps
  every key once (`nodup_alter`), and adds to what the table holds in all what it adds to the one
  key (`contents_alter`). So the table of a scope holds each capture of the scope once, under its
  own key and in the order of the text, and binds a list where the key is plural or was captured
  under again (`build_tabulates`).
-/
import GrammarMatch.Proofs.Bindings

namespace GrammarMatch.Capture

/-! ## 1. Changing a table -/

namespace Bindings

variable {key : CaptureKey} {change : Option Binding → Binding}

/-- The keys that are bound, in the order in which they were first bound. -/
abbrev keys (t : Bindings) : List CaptureKey := t.map Prod.fst

/-- All captures that are bound, key by key. -/
abbrev contents (t : Bindings) : List Capture := t.flatMap fun e => e.2.toList

/-- A key that is not bound comes last. -/
theorem keys_alter (t : Bindings) :
    (t.alter key change).keys = if key ∈ t.keys then t.keys else t.keys ++ [key] := by
  induction t with
  | nil => rfl
  | cons e t ih =>
    obtain ⟨k, b⟩ := e
    unfold alter
    by_cases same : k = key
    · rw [if_pos same, if_pos (same ▸ List.mem_cons_self)]
      rfl
    · rw [if_neg same]
      show k :: keys (alter key change t) =
        if key ∈ k :: keys t then k :: keys t else k :: keys t ++ [key]
      rw [ih]
      by_cases bound : key ∈ keys t
      · rw [if_pos bound, if_pos (List.mem_cons_of_mem _ bound)]
      · rw [if_neg bound, if_neg (List.not_mem_cons_of_ne_of_not_mem (Ne.symm same) bound)]
        rfl

/-- **A change keeps every key once.** -/
theorem nodup_alter {t : Bindings} (h : t.keys.Nodup) : (t.alter key change).keys.Nodup := by
  rw [keys_alter]
  by_cases bound : key ∈ t.keys
  · rwa [if_pos bound]
  · rw [if_neg bound]
    refine List.nodup_append.mpr ⟨h, List.pairwise_singleton _ key, ?_⟩
    rintro k hk _ last rfl
    exact bound (List.mem_singleton.mp last ▸ hk)

/-- **What a change adds to a key it adds to the table**, and nothing else. -/
theorem contents_alter (more : List Capture)
    (adds : ∀ b : Option Binding, (change b).toList = b.elim [] Binding.toList ++ more)
    (t : Bindings) : (t.alter key change).contents.Perm (t.contents ++ more) := by
  induction t with
  | nil =>
    unfold alter
    rw [contents, List.flatMap_singleton, adds]
    rfl
  | cons e t ih =>
    obtain ⟨k, b⟩ := e
    unfold alter
    by_cases same : k = key
    · rw [if_pos same]
      show ((change (some b)).toList ++ contents t).Perm (b.toList ++ contents t ++ more)
      rw [adds, List.append_assoc, List.append_assoc]
      exact List.perm_append_comm.append_left b.toList
    · rw [if_neg same]
      show (b.toList ++ (alter key change t).contents).Perm (b.toList ++ contents t ++ more)
      rw [List.append_assoc]
      exact ih.append_left b.toList

/-! ## 2. Filling a table -/

variable (plural : List CaptureKey)

theorem contents_add (t : Bindings) (e : CaptureKey × Capture) :
    (t.add plural e).contents.Perm (t.contents ++ [e.2]) := by
  refine contents_alter [e.2] (fun b => ?_) t
  rcases b with _ | first | captures
  · show Binding.toList (if plural.contains e.1 then _ else _) = [e.2]
    split <;> rfl
  · rfl
  · exact Array.toList_push

theorem contents_addEmpty (t : Bindings) (key : CaptureKey) :
    (t.addEmpty key).contents.Perm t.contents := by
  refine (contents_alter [] (fun b => ?_) t).trans (.of_eq (List.append_nil _))
  cases b with
  | none => rfl
  | some b => exact (List.append_nil _).symm

theorem contents_addAll (pairs : List (CaptureKey × Capture)) (t : Bindings) :
    (pairs.foldl (add plural) t).contents.Perm (t.contents ++ pairs.map Prod.snd) := by
  induction pairs generalizing t with
  | nil => rw [List.map_nil, List.append_nil, List.foldl_nil]
  | cons e pairs ih =>
    rw [List.foldl_cons, List.map_cons]
    refine (ih _).trans ?_
    rw [← List.singleton_append, ← List.append_assoc]
    exact (contents_add plural t e).append_right _

theorem nodup_addAll (pairs : List (CaptureKey × Capture)) {t : Bindings} (h : t.keys.Nodup) :
    (pairs.foldl (add plural) t).keys.Nodup := by
  induction pairs generalizing t with
  | nil => exact h
  | cons e pairs ih => exact ih (nodup_alter h)

theorem nodup_addEmpties {t : Bindings} (h : t.keys.Nodup) :
    (plural.foldl addEmpty t).keys.Nodup := by
  induction plural generalizing t with
  | nil => exact h
  | cons key plural ih => exact ih (nodup_alter h)

theorem contents_addEmpties (t : Bindings) :
    (plural.foldl addEmpty t).contents.Perm t.contents := by
  induction plural generalizing t with
  | nil => exact .refl _
  | cons key plural ih => exact (ih _).trans (contents_addEmpty t key)

end Bindings

/-! ## 3. The table of a scope -/

/-- How often a key occurs is how much is under it. -/
theorem length_under (key : CaptureKey) (pairs : List (CaptureKey × Capture)) :
    (under key pairs).length = (pairs.map Prod.fst).count key := by
  induction pairs with
  | nil => rfl
  | cons e pairs ih =>
    rw [under_cons, List.map_cons]
    by_cases same : e.1 = key
    · rw [if_pos same, same, List.length_cons, List.count_cons_self, ih]
    · rw [if_neg same, List.count_cons_of_ne same, ih]

/-- A key is bound to so many captures, where it is plural or not. -/
structure Binds (plural : Prop) (cs : List Capture) (b : Option Binding) : Prop where
  captures : b.elim [] Binding.toList = cs
  bound : b.isSome = true ↔ 1 ≤ cs.length ∨ plural
  many : (∃ l, b = some (.many l)) ↔ plural ∨ 2 ≤ cs.length
  one : (∃ c, b = some (.one c)) ↔ ¬plural ∧ cs.length = 1

theorem binds_plural {plural : Prop} (h : plural) (cs : List Capture) :
    Binds plural cs (some (.many cs.toArray)) where
  captures := rfl
  bound := iff_of_true rfl (.inr h)
  many := iff_of_true ⟨_, rfl⟩ (.inl h)
  one := iff_of_false (fun ⟨_, bound⟩ => by cases bound) fun other => other.1 h

theorem binds_bindingOf {plural : Prop} (h : ¬plural) (cs : List Capture) :
    Binds plural cs (bindingOf cs) := by
  match cs with
  | [] => constructor <;> simp [bindingOf, h]
  | [c] => constructor <;> simp [bindingOf, h, Binding.toList]
  | c :: d :: cs => constructor <;> simp [bindingOf, Binding.toList]

/-- **What a key of a capture is bound to.** -/
theorem binds_get? (c : Capture) (key : CaptureKey) :
    Binds (key ∈ c.label.plural) (under key c.entries) (c.get? key) := by
  rw [get?_eq]
  by_cases isPlural : key ∈ c.label.plural
  · rw [if_pos isPlural]
    exact binds_plural isPlural _
  · rw [if_neg isPlural]
    exact binds_bindingOf isPlural _

/-- What a capture says of its scope, in which so much was captured in the order of the text, and
    some keys are plural. -/
structure Tabulates (plural : List CaptureKey) (pairs : List (CaptureKey × Capture))
    (c : Capture) : Prop where
  children : c.children = pairs.map Prod.snd
  /-- A key binds the captures that are under it, in the order of the text. -/
  captures key : (c.get? key).elim [] Binding.toList = under key pairs
  bound key : c.has key = true ↔ key ∈ pairs.map Prod.fst ∨ key ∈ plural
  many key : (∃ l, c.get? key = some (.many l)) ↔
    key ∈ plural ∨ 2 ≤ (pairs.map Prod.fst).count key
  one key : (∃ d, c.get? key = some (.one d)) ↔
    key ∉ plural ∧ (pairs.map Prod.fst).count key = 1
  /-- No key is in the table twice. -/
  distinct : c.bindings.keys.Nodup
  /-- All keys together bind every capture of the scope once. -/
  whole : c.bindings.contents.Perm c.children

/-- **The table of a scope loses and doubles nothing**, whatever was captured in the scope, the
    latest first, and whichever keys are plural. -/
theorem build_tabulates (name : Option CaptureKey) (start stop : Int) (plural : List CaptureKey)
    (rule : Option String) (captured : Captured) :
    (build name start stop plural rule captured).Tabulates plural captured.reverse := by
  have binds (key : CaptureKey) : Binds (key ∈ plural) (under key captured.reverse)
      ((build name start stop plural rule captured).get? key) :=
    binds_get? (build name start stop plural rule captured) key
  constructor
  case children => rfl
  case captures => exact fun key => (binds key).captures
  case bound =>
    intro key
    rw [← List.one_le_count_iff, ← length_under]
    exact (binds key).bound
  case many =>
    intro key
    rw [← length_under]
    exact (binds key).many
  case one =>
    intro key
    rw [← length_under]
    exact (binds key).one
  case distinct => exact Bindings.nodup_addEmpties _ (Bindings.nodup_addAll _ _ List.nodup_nil)
  case whole =>
    exact (Bindings.contents_addEmpties _ _).trans (Bindings.contents_addAll _ _ _)

end GrammarMatch.Capture
