/-
  File:      GrammarMatch/Proofs/Shape.lean
  Subject:   The shape of a capture is static.

  Whether a key of a capture is bound to a list or to one capture does not depend on the text: it
  is bound to a list if it is plural in the scope of the capture, and otherwise to one capture at
  most. The scope is the pattern that was asked for, the body of a group, or the pattern of a rule
  (`Offers`). It holds of every node of a tree of captures that a pattern may yield, if the right
  keys are noted as plural (`Capture.OfScope.shaped`).
-/
import GrammarMatch.Proofs.Marked
import GrammarMatch.Proofs.Plural

namespace GrammarMatch

open Match

/-! ## 1. Scopes -/

/-- In its own scope a pattern captures, under a key, what another one matches: a group that has
    it for its body, or a rule, which is named, that has it for its pattern. -/
inductive Pattern.Offers (x : Lexicon) : Pattern → CaptureKey → Option String → Pattern → Prop
  | sequence {parts : List Pattern} {p q : Pattern} {key : CaptureKey} {rule : Option String}
      (mem : p ∈ parts) (h : Offers x p key rule q) : Offers x (.sequence parts) key rule q
  | alternation {mode : ChoiceMode} {branches : List Pattern} {p q : Pattern} {key : CaptureKey}
      {rule : Option String} (mem : p ∈ branches) (h : Offers x p key rule q) :
      Offers x (.alternation mode branches) key rule q
  | repetition {n : Quantity} {body q : Pattern} {key : CaptureKey} {rule : Option String}
      (h : Offers x body key rule q) : Offers x (.repetition n body) key rule q
  | enclosed {plural : List CaptureKey} {body q : Pattern} {key : CaptureKey}
      {rule : Option String} (h : Offers x body key rule q) :
      Offers x (.group none plural body) key rule q
  | group {key : CaptureKey} {plural : List CaptureKey} {body : Pattern} :
      Offers x (.group (some key) plural body) key none body
  | rule {r : Reference} {key : CaptureKey} {rule : Rule} (captured : r.key? = some key)
      (known : x.rules r.name = .ok rule) :
      Offers x (.ruleRef r) key (some rule.name) rule.pattern

namespace Capture

/-- What the keys of a capture are bound to is as its scope says. -/
structure Keyed (p : Pattern) (c : Capture) : Prop where
  /-- A key is bound to a list if and only if it is plural. -/
  lists : ∀ key, (∃ cs, c.get? key = some (.many cs)) ↔ key ∈ p.pluralKeys
  /-- A key that is not plural is bound to one capture at most. -/
  single : ∀ key, key ∉ p.pluralKeys → (under key c.entries).length ≤ 1
  /-- A key that is plural is bound, even if nothing was captured under it. -/
  present : ∀ key ∈ p.pluralKeys, c.has key = true

/-- A tree has the shape of a scope: the keys of the root are as the scope says, and each capture
    in it has the shape of a scope that this one offers under its key. -/
inductive Shaped (x : Lexicon) : Pattern → Capture → Prop
  | node {p : Pattern} {c : Capture} (keyed : c.Keyed p) (scope : CaptureKey × Capture → Pattern)
      (offered : ∀ e ∈ c.entries, p.Offers x e.1 e.2.label.rule (scope e))
      (inside : ∀ e ∈ c.entries, Shaped x (scope e) e.2) : Shaped x p c

/-- A capture of a scope: the plural keys are noted in it, and it holds what the scope may
    capture. -/
structure OfScope (x : Lexicon) (p : Pattern) (c : Capture) : Prop where
  plural : c.label.plural = p.pluralKeys
  inside : Yields x [p] c.entries

variable {x : Lexicon} {p : Pattern} {c : Capture}

/-- The counts of the scope bound what was captured, so that the table comes out as they say. -/
theorem OfScope.keyed (h : c.OfScope x p) : c.Keyed p := by
  have single (key : CaptureKey) (hkey : key ∉ p.pluralKeys) :
      (under key c.entries).length ≤ 1 := by
    have few : Pattern.rowCount [p] key ≤ 1 := by
      rw [Pattern.rowCount_cons]
      exact Pattern.captureCounts_le_one hkey
    exact Nat.le_trans (h.inside.under_le few) few
  have many (key : CaptureKey) (hkey : key ∈ p.pluralKeys) :
      c.get? key = some (.many (under key c.entries).toArray) := by
    rw [get?_eq, h.plural, if_pos hkey]
  refine ⟨fun key => ⟨fun ⟨cs, hcs⟩ => ?_, fun hkey => ⟨_, many key hkey⟩⟩, single, fun key hkey => ?_⟩
  · by_cases hkey : key ∈ p.pluralKeys
    · exact hkey
    · have le := single key hkey
      rw [get?_eq, h.plural, if_neg hkey] at hcs
      exact absurd (bindingOf_many hcs) (Nat.not_lt.mpr le)
  · unfold has
    rw [many key hkey]
    rfl

end Capture

/-! ## 2. Everything inside -/

section Inside

variable {x : Lexicon} {p : Pattern} {c : Capture} {row : List Pattern}
  {l : List (CaptureKey × Capture)}

/-- A node whose captures inside have the shapes of scopes that its own scope offers. -/
theorem Capture.OfScope.node (h : c.OfScope x p) (inside : ∀ e ∈ c.entries,
    ∃ q, p.Offers x e.1 e.2.label.rule q ∧ e.2.Shaped x q) : c.Shaped x p := by
  classical
  let scope (e : CaptureKey × Capture) : Pattern :=
    if he : e ∈ c.entries then (inside e he).choose else p
  have spec (e : CaptureKey × Capture) (he : e ∈ c.entries) :
      p.Offers x e.1 e.2.label.rule (scope e) ∧ e.2.Shaped x (scope e) := by
    simp only [scope, dif_pos he]
    exact (inside e he).choose_spec
  exact .node h.keyed scope (fun e he => (spec e he).1) fun e he => (spec e he).2

/-- **Whatever a row captures has the shape of a scope that is offered in it.** -/
theorem Match.Yields.shaped (marked : x.Marked) (h : Yields x row l)
    (hrow : ∀ p ∈ row, p.Marked) :
    ∀ e ∈ l, ∃ p ∈ row, ∃ q, p.Offers x e.1 e.2.label.rule q ∧ e.2.Shaped x q := by
  -- A capture in what stands for a pattern is one that the pattern offers.
  have lift {p : Pattern} {row row' : List Pattern} {e : CaptureKey × Capture}
      (up : ∀ p' ∈ row', p' ∈ row ∨ ∀ q, p'.Offers x e.1 e.2.label.rule q →
        p.Offers x e.1 e.2.label.rule q)
      (h : ∃ p' ∈ row', ∃ q, p'.Offers x e.1 e.2.label.rule q ∧ e.2.Shaped x q) :
      ∃ p' ∈ p :: row, ∃ q, p'.Offers x e.1 e.2.label.rule q ∧ e.2.Shaped x q := by
    obtain ⟨p', hp', q, offers, shaped⟩ := h
    rcases up p' hp' with mem | offered
    · exact ⟨p', List.mem_cons_of_mem p mem, q, offers, shaped⟩
    · exact ⟨p, List.mem_cons_self, q, offered q offers, shaped⟩
  induction h with
  | nil => exact fun _ he => by cases he
  | silent _ _ ih =>
    intro e he
    obtain ⟨first, later⟩ := List.forall_mem_cons.mp hrow
    exact lift (fun p' hp' => .inl hp') (ih later e he)
  | sequence _ ih =>
    intro e he
    obtain ⟨first, later⟩ := List.forall_mem_cons.mp hrow
    have parts := Pattern.marked_sequence.mp first
    refine lift (fun p' hp' => ?_) (ih (List.forall_mem_append.mpr ⟨parts, later⟩) e he)
    exact (List.mem_append.mp hp').symm.imp id fun mem q => .sequence mem
  | alternation mem _ ih =>
    intro e he
    obtain ⟨first, later⟩ := List.forall_mem_cons.mp hrow
    have branches := Pattern.marked_alternation.mp first
    refine lift (fun p' hp' => ?_) (ih (List.forall_mem_cons.mpr ⟨branches _ mem, later⟩) e he)
    rcases List.mem_cons.mp hp' with rfl | hp'
    · exact .inr fun q => .alternation mem
    · exact .inl hp'
  | repetition _ _ ih =>
    intro e he
    obtain ⟨first, later⟩ := List.forall_mem_cons.mp hrow
    have body := Pattern.marked_repetition.mp first
    refine lift (fun p' hp' => ?_) (ih (List.forall_mem_append.mpr ⟨fun p hp => ?_, later⟩) e he)
    · rcases List.mem_append.mp hp' with hp' | hp'
      · rw [(List.mem_replicate.mp hp').2]
        exact .inr fun q => .repetition
      · exact .inl hp'
    · rw [(List.mem_replicate.mp hp).2]
      exact body
  | enclosed _ ih =>
    intro e he
    obtain ⟨first, later⟩ := List.forall_mem_cons.mp hrow
    have body := Pattern.marked_enclosed.mp first
    refine lift (fun p' hp' => ?_) (ih (List.forall_mem_cons.mpr ⟨body, later⟩) e he)
    rcases List.mem_cons.mp hp' with rfl | hp'
    · exact .inr fun q => .enclosed
    · exact .inl hp'
  | group inside _ ihInside ih =>
    obtain ⟨first, later⟩ := List.forall_mem_cons.mp hrow
    obtain ⟨rfl, body⟩ := Pattern.marked_group.mp first
    refine List.forall_mem_cons.mpr ⟨?_, fun e he => lift (fun p' hp' => .inl hp') (ih later e he)⟩
    refine ⟨_, List.mem_cons_self, _, .group, Capture.OfScope.node ⟨rfl, inside⟩ fun e he => ?_⟩
    obtain ⟨p', hp', q, offers, shaped⟩ := ihInside (List.forall_mem_singleton.mpr body) e he
    rw [List.mem_singleton.mp hp'] at offers
    exact ⟨q, offers, shaped⟩
  | rule captured known named plural inside _ ihInside ih =>
    obtain ⟨_, later⟩ := List.forall_mem_cons.mp hrow
    refine List.forall_mem_cons.mpr ⟨?_, fun e he => lift (fun p' hp' => .inl hp') (ih later e he)⟩
    refine ⟨_, List.mem_cons_self, _, named ▸ .rule captured known,
      Capture.OfScope.node ⟨plural, inside⟩ fun e he => ?_⟩
    obtain ⟨p', hp', q, offers, shaped⟩ :=
      ihInside (List.forall_mem_singleton.mpr (marked _ _ known)) e he
    rw [List.mem_singleton.mp hp'] at offers
    exact ⟨q, offers, shaped⟩

/-- **A capture of a scope has its shape**, if the notes of plural keys are right. -/
theorem Capture.OfScope.shaped (h : c.OfScope x p) (marked : x.Marked) (hp : p.Marked) :
    c.Shaped x p := by
  refine h.node fun e he => ?_
  obtain ⟨p', hp', q, offers, shaped⟩ :=
    h.inside.shaped marked (List.forall_mem_singleton.mpr hp) e he
  rw [List.mem_singleton.mp hp'] at offers
  exact ⟨q, offers, shaped⟩

end Inside

end GrammarMatch
