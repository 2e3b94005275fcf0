/-
  File:      GrammarMatch/Proofs/Lexicon.lean
  Subject:   What a registry answers, whatever has been compiled in it on the way.

  A lookup may compile a deferred rule, so it leaves another registry behind. It answers as the
  one before did: `Registry.resolve` is the answer as a plain function of the registry, and no
  lookup changes it (`rule_spec`). What a match reads of its registry is therefore fixed from
  its start to its end; `Lexicon` holds it.
-/
import GrammarMatch.Match.State

namespace GrammarMatch

/-! ## 1. Answers of a registry -/

/-- The rule that an entry stands for. -/
def Entry.rule (name : String) : Entry → Except Failure Rule
  | .compiled rule => .ok rule
  | .deferred supply kind flags => (supply ()).bind (Rule.compile name kind flags)

/-- What is found for a key when another one is taken away. -/
theorem lookup_filter {α β : Type} [BEq α] [LawfulBEq α] [DecidableEq α] (l : List (α × β))
    (key k : α) : (l.filter fun x => x.1 != key).lookup k = if k = key then none else l.lookup k := by
  induction l with
  | nil => simp
  | cons x l ih =>
    obtain ⟨m, e⟩ := x
    by_cases hm : m = key
    · subst hm
      rw [List.filter_cons_of_neg (by simp), ih]
      by_cases hk : k = m
      · rw [if_pos hk, if_pos hk]
      · rw [if_neg hk, if_neg hk, List.lookup_cons, beq_false_of_ne hk]
    · rw [List.filter_cons_of_pos (by simpa using hm), List.lookup_cons, List.lookup_cons, ih]
      by_cases hk : k = m
      · subst hk
        rw [if_neg hm, if_neg hm]
      · rw [beq_false_of_ne hk]

namespace Registry

/-- The rule that a lookup of a name answers. -/
def resolve (r : Registry) (name : String) : Except Failure Rule :=
  match r.entries.lookup name with
  | some e => e.rule name
  | none =>
    match Rule.builtin? name with
    | some rule => .ok rule
    | none => .error (.undefinedRule name)

/-- Two registries that answer alike. -/
def Alike (r r' : Registry) : Prop := r'.resolve = r.resolve ∧ r'.defines = r.defines

theorem Alike.refl (r : Registry) : Alike r r := ⟨rfl, rfl⟩

/-- What is held for each name after something was held for one. -/
theorem lookup_put (r : Registry) (name n : String) (e : Entry) :
    (r.put name e).entries.lookup n = if n = name then some e else r.entries.lookup n := by
  unfold put
  rw [List.lookup_cons, lookup_filter]
  by_cases hn : n = name
  · rw [if_pos hn, hn]
    simp
  · rw [if_neg hn, if_neg hn, beq_false_of_ne hn]

theorem resolve_put (r : Registry) (name n : String) (e : Entry) :
    (r.put name e).resolve n = if n = name then e.rule n else r.resolve n := by
  unfold resolve
  rw [lookup_put]
  by_cases hn : n = name
  · rw [if_pos hn, if_pos hn]
  · rw [if_neg hn, if_neg hn]

/-- A deferred rule may be replaced by what it is compiled to. -/
theorem alike_put {r : Registry} {name : String} {e : Entry} {rule : Rule}
    (held : r.entries.lookup name = some e) (compiled : e.rule name = .ok rule) :
    Alike r (r.put name (.compiled rule)) := by
  constructor
  · funext n
    rw [resolve_put]
    by_cases hn : n = name
    · rw [if_pos hn, hn]
      unfold resolve
      rw [held]
      exact compiled.symm
    · rw [if_neg hn]
  · funext n
    unfold defines
    rw [lookup_put]
    by_cases hn : n = name
    · rw [if_pos hn, hn, held]
      rfl
    · rw [if_neg hn]

theorem get_ok (r : Registry) : (get : Access Registry) r = .ok r r := rfl

theorem modify_ok (g : Registry → Registry) (r : Registry) :
    (modify g : Access Unit) r = .ok () (g r) := rfl

/-- **A lookup answers `resolve`, and the registry it leaves behind answers alike.** -/
theorem rule_spec (name : String) (r : Registry) :
    match Registry.rule name r with
    | .ok rule r' => r.resolve name = .ok rule ∧ Alike r r'
    | .error f r' => r.resolve name = .error f ∧ Alike r r' := by
  unfold Registry.rule find?
  cases held : r.entries.lookup name with
  | none =>
    have hres : r.resolve name = match Rule.builtin? name with
        | some rule => .ok rule
        | none => .error (.undefinedRule name) := by
      unfold resolve
      rw [held]
    simp only [bind, EStateM.bind, get_ok, held, pure, EStateM.pure]
    rw [hres]
    cases Rule.builtin? name with
    | none => exact ⟨rfl, .refl r⟩
    | some rule => exact ⟨rfl, .refl r⟩
  | some e =>
    have hres : r.resolve name = e.rule name := by
      unfold resolve
      rw [held]
    rw [hres]
    cases e with
    | compiled rule =>
      simp only [bind, EStateM.bind, get_ok, held, pure, EStateM.pure]
      exact ⟨rfl, .refl r⟩
    | deferred supply kind flags =>
      simp only [bind, EStateM.bind, get_ok, modify_ok, held, pure, EStateM.pure]
      cases he : (supply ()).bind (Rule.compile name kind flags) with
      | error f =>
        refine ⟨he, ?_⟩
        exact .refl r
      | ok rule =>
        refine ⟨he, ?_⟩
        exact alike_put (r := { r with asked := name :: r.asked }) held he

/-! ## 2. Rules under their own names -/

/-- Each rule answers to its own name. -/
def Named (r : Registry) : Prop := ∀ name rule, r.resolve name = .ok rule → rule.name = name

theorem builtin_name {name : String} {rule : Rule} (h : Rule.builtin? name = some rule) :
    rule.name = name := by
  unfold Rule.builtin? at h
  obtain ⟨p, _, rfl⟩ := Option.map_eq_some_iff.mp h
  rfl

theorem compile_name {name : String} {kind : RuleKind} {flags : Flags} {source : Source}
    {rule : Rule} (h : Rule.compile name kind flags source = .ok rule) : rule.name = name := by
  unfold Rule.compile at h
  split at h
  · cases h
    rfl
  · cases h
  · split at h
    · cases h
      rfl
    · cases h

theorem named_empty : Named empty := by
  intro name rule h
  simp only [resolve, empty, List.lookup_nil] at h
  split at h
  · rename_i rule' hb
    cases h
    exact builtin_name hb
  · cases h

/-- Something under a name that compiles to a rule of that name may be held. -/
theorem named_put {r : Registry} (hr : r.Named) {name : String} {e : Entry}
    (he : ∀ rule, e.rule name = .ok rule → rule.name = name) : (r.put name e).Named := by
  intro n rule h
  rw [resolve_put] at h
  by_cases hn : n = name
  · rw [if_pos hn, hn] at h
    rw [hn]
    exact he rule h
  · rw [if_neg hn] at h
    exact hr n rule h

/-- **Every definition keeps the rules under their own names.** -/
theorem named_define {r r' : Registry} (hr : r.Named) {name : String} {d : Definition}
    {kind : RuleKind} {flags : Flags} (h : r.define name d kind flags = .ok r') : r'.Named := by
  cases d with
  | later supply =>
    cases h
    refine named_put hr fun rule hrule => ?_
    change (supply ()).bind (Rule.compile name kind flags) = .ok rule at hrule
    cases hs : supply () with
    | error f =>
      rw [hs] at hrule
      cases hrule
    | ok source =>
      rw [hs] at hrule
      exact compile_name hrule
  | now source =>
    change (Rule.compile name kind flags source).map _ = .ok r' at h
    cases hc : Rule.compile name kind flags source with
    | error f =>
      rw [hc] at h
      cases h
    | ok rule =>
      rw [hc] at h
      cases h
      refine named_put hr fun rule' hrule => ?_
      cases hrule
      exact compile_name hc

/-- Looking up rules keeps them under their own names. -/
theorem named_of_alike {r r' : Registry} (hr : r.Named) (h : Alike r r') : r'.Named := by
  intro name rule hrule
  rw [h.1] at hrule
  exact hr name rule hrule

/-- Registries as they come about: rules are defined one by one, and looked up in between. -/
inductive Built : Registry → Prop
  | empty : Built .empty
  | define {r r' : Registry} {name : String} {d : Definition} {kind : RuleKind} {flags : Flags}
      (h : Built r) (hd : r.define name d kind flags = .ok r') : Built r'
  | found {r r' : Registry} {name : String} {rule : Rule} (h : Built r)
      (hl : Registry.rule name r = .ok rule r') : Built r'
  | missed {r r' : Registry} {name : String} {f : Failure} (h : Built r)
      (hl : Registry.rule name r = .error f r') : Built r'

/-- **In a registry each rule answers to its own name.** -/
theorem Built.named {r : Registry} (h : r.Built) : r.Named := by
  induction h with
  | empty => exact named_empty
  | define _ hd ih => exact named_define ih hd
  | @found r r' name rule _ hl ih =>
    have spec := rule_spec name r
    rw [hl] at spec
    exact named_of_alike ih spec.2
  | @missed r r' name f _ hl ih =>
    have spec := rule_spec name r
    rw [hl] at spec
    exact named_of_alike ih spec.2

end Registry

namespace Match

/-! ## 3. What a match reads of its registry -/

/-- The answers of a registry: the rules by name, and whether it has a rule of its own for white
    space. -/
structure Lexicon where
  rules : String → Except Failure Rule
  space : Bool

/-- What a registry answers; without one there are no rules. -/
def Lexicon.of : Option Registry → Lexicon
  | none => ⟨fun name => .error (.undefinedRule name), false⟩
  | some r => ⟨r.resolve, r.defines "ws"⟩

/-- The answers of the registry that a matcher keeps. -/
def State.lexicon (s : State) : Lexicon := Lexicon.of s.registry

/-- Each rule answers to its own name. -/
def Lexicon.Named (x : Lexicon) : Prop := ∀ name rule, x.rules name = .ok rule → rule.name = name

theorem Lexicon.named_of {r : Option Registry} (h : ∀ r' ∈ r, r'.Built) : (Lexicon.of r).Named := by
  intro name rule hrule
  cases r with
  | none => cases hrule
  | some r' => exact (h r' rfl).named name rule hrule

theorem Lexicon.of_alike {r r' : Registry} (h : r.Alike r') :
    Lexicon.of (some r') = Lexicon.of (some r) := by
  show Lexicon.mk r'.resolve (r'.defines "ws") = Lexicon.mk r.resolve (r.defines "ws")
  rw [h.1, h.2]

end Match

end GrammarMatch
