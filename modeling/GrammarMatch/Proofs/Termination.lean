/-
  File:      GrammarMatch/Proofs/Termination.lean
  Subject:   Where every rule is atomic, matching comes to an end.

  A match may nest as deep as there is room. Where all rules of a grammar are atomic it needs no
  more room than `nesting` says, which depends on the grammar, the text and what is asked for,
  and not on what the search runs into: rules that call themselves, rounds of no width, looks
  behind that call rules. With so much room the matcher always comes to an end of its own, and
  with more room it comes to the same (`ask_ends`).
-/
import GrammarMatch.Proofs.Descent
import GrammarMatch.Proofs.StaticShape
import GrammarMatch.Proofs.Widening

namespace GrammarMatch

open Match

/-! ## 1. Registries of atomic rules -/

/-- The names of the rules that are always there. -/
def Rule.builtinNames : List String :=
  ["ws", "ident", "alpha", "digit", "alnum", "space", "upper", "lower"]

theorem Rule.builtin_spec {name : String} {rule : Rule} (h : Rule.builtin? name = some rule) :
    name ∈ builtinNames ∧ rule.kind = .token ∧ rule.pattern.NonNegative := by
  unfold Rule.builtin? at h
  obtain ⟨p, hp, rfl⟩ := Option.map_eq_some_iff.mp h
  refine ⟨?_, rfl, ?_⟩
  · unfold builtinPattern? builtinClass? at hp
    unfold builtinNames
    split at hp
    · simp
    · simp
    · split at hp <;> simp at hp ⊢
  · unfold builtinPattern? at hp
    split at hp
    · cases hp
      exact .whitespace
    · cases hp
      refine .sequence (List.forall_mem_cons.mpr ⟨.ruleRef, List.forall_mem_singleton.mpr ?_⟩)
      exact .repetition (Int.le_refl 0) .charClass
    · obtain ⟨items, _, rfl⟩ := Option.map_eq_some_iff.mp hp
      exact .charClass

/-- Every rule of the grammar is atomic, and repeats nothing less than not at all. -/
def Registry.Atomic (r : Registry) : Prop :=
  ∀ name e, r.entries.lookup name = some e → ∀ rule, e.rule name = .ok rule →
    rule.kind.atomic = true ∧ rule.pattern.NonNegative

namespace Match

/-- The names under which there may be a rule. -/
def callable : Option Registry → List String
  | none => []
  | some r => r.entries.map Prod.fst ++ Rule.builtinNames

/-- How high the pattern of a rule is. -/
def Lexicon.heightOf (x : Lexicon) (name : String) : Nat :=
  match x.rules name with
  | .ok rule => rule.pattern.height
  | .error _ => 0

/-- How high the patterns of the rules are at most. -/
def tallest (registry : Option Registry) : Nat :=
  ((callable registry).map (Lexicon.of registry).heightOf).foldr max 0

theorem le_foldr_max {l : List Nat} {n : Nat} (h : n ∈ l) : n ≤ l.foldr max 0 := by
  induction l with
  | nil => cases h
  | cons k l ih =>
    rcases List.mem_cons.mp h with rfl | h
    · exact Nat.le_max_left _ _
    · exact Nat.le_trans (ih h) (Nat.le_max_right _ _)

theorem lookup_listed {l : List (String × Entry)} {name : String} {e : Entry}
    (h : l.lookup name = some e) : name ∈ l.map Prod.fst := by
  obtain ⟨before, after, rfl, _⟩ := List.lookup_eq_some_iff.mp h
  simp

/-- What a name answers comes from an entry of the grammar, or is always there. -/
theorem resolve_cases {r : Registry} {name : String} {rule : Rule}
    (h : r.resolve name = .ok rule) :
    (∃ e, r.entries.lookup name = some e ∧ e.rule name = .ok rule) ∨
      Rule.builtin? name = some rule := by
  unfold Registry.resolve at h
  split at h
  · rename_i e held
    exact .inl ⟨e, held, h⟩
  · split at h
    · rename_i rule' builtin
      cases h
      exact .inr builtin
    · cases h

/-- The rules of a registry of atomic rules. -/
def atomicRules {registry : Option Registry} (built : ∀ r ∈ registry, r.Built)
    (atomic : ∀ r ∈ registry, r.Atomic) : (Lexicon.of registry).Atomic := by
  have listed (name : String) (rule : Rule) (h : (Lexicon.of registry).rules name = .ok rule) :
      name ∈ callable registry := by
    cases registry with
    | none => cases h
    | some r =>
      rcases resolve_cases h with ⟨e, held, _⟩ | builtin
      · exact List.mem_append_left _ (lookup_listed held)
      · exact List.mem_append_right _ (Rule.builtin_spec builtin).1
  have tame (name : String) (rule : Rule) (h : (Lexicon.of registry).rules name = .ok rule) :
      rule.kind.atomic = true ∧ rule.pattern.NonNegative := by
    cases registry with
    | none => cases h
    | some r =>
      rcases resolve_cases h with ⟨e, held, he⟩ | builtin
      · exact atomic r rfl name e held rule he
      · obtain ⟨_, kind, nonneg⟩ := Rule.builtin_spec builtin
        exact ⟨by rw [kind]; rfl, nonneg⟩
  refine ⟨callable registry, tallest registry, Lexicon.named_of built, listed,
    fun name rule h => (tame name rule h).1, fun name rule h => (tame name rule h).2,
    fun name rule h => ?_⟩
  have height : (Lexicon.of registry).heightOf name = rule.pattern.height := by
    simp only [Lexicon.heightOf, h]
  rw [← height]
  exact le_foldr_max (List.mem_map_of_mem (listed name rule h))

end Match

/-! ## 2. Queries -/

/-- What is asked for repeats nothing less than not at all. -/
def Query.NonNegative : Query → Prop
  | .pattern p => p.NonNegative
  | .rule _ _ => True

/-- How high what is asked for is. -/
def Query.height : Query → Nat
  | .pattern p => p.height
  | .rule _ _ => 0

namespace Match

/-- How deep a match can nest: the tree that is asked for, and each rule at each position once. -/
def nesting (registry : Option Registry) (text : Text) (q : Query) : Nat :=
  1 + q.height + (callable registry).length * (text.size + 1) * (tallest registry + 1)

variable {x : Lexicon}

/-- **A query does not run out of room**, if there is room for it. -/
theorem query_inRoom (env : Env) (a : x.Atomic) {q : Query} (nonneg : q.NonNegative) {pos : Int}
    (here : env.text.Span 0 pos)
    (fits : 1 + q.height + a.names.length * (env.text.size + 1) * (a.height + 1) ≤
      env.settings.room) :
    (roomy env a).Allows (q.run env pos) fun _ => True := by
  have reserve := a.reserve_le env.text []
  refine (roomy env a).query ?_ here
  cases q with
  | pattern p =>
    change 1 + p.height + _ ≤ _ at fits
    exact ⟨nonneg, show 1 + p.height + a.reserve env.text [] ≤ _ by omega⟩
  | rule name anchored => exact show 1 + a.reserve env.text [] ≤ _ by omega

end Match

/-- A matcher that was asked before keeps what ends in the text, and answers as its registry. -/
theorem Matcher.Reached.roomy {registry : Option Registry} (built : ∀ r ∈ registry, r.Built)
    {text : Text} {actions : Actions} {settings : Settings} {m : Matcher}
    (reached : (Matcher.start text registry actions settings).Reached m) :
    m.env = ⟨text, actions, settings⟩ ∧ m.state.lexicon = Lexicon.of registry ∧
      m.state.Lands text := by
  obtain ⟨env, sound⟩ := reached.sound (sound_start text registry)
  refine ⟨env, (reached.yielding (Lexicon.named_of built) (yielding_start rfl)).1, ?_⟩
  exact fun name pos stop c held here => (sound name pos stop c held).steps.inside here

/-- **Where every rule is atomic, matching comes to an end.** With as much room as `nesting` says a
    matcher does not run out of it, whatever it was asked for before: only a callback, or the
    supply of a rule, may fail as if it had. What it comes to with so much room it comes to with
    more, so that no chain of calls, rounds and looks goes on for ever. -/
theorem ask_ends {registry : Option Registry} (built : ∀ r ∈ registry, r.Built)
    (atomic : ∀ r ∈ registry, r.Atomic) {text : Text} {actions : Actions} {settings : Settings}
    {m : Matcher} (reached : (Matcher.start text registry actions settings).Reached m) {q : Query}
    (nonneg : q.NonNegative) {pos : Int} (here : text.Span 0 pos) :
    (∀ room, nesting registry text q ≤ room →
      ((m.withRoom room).ask q pos).1 = .error .stackExhausted →
        Feigns text actions (Lexicon.of registry)) ∧
    (¬Feigns text actions (Lexicon.of registry) → ∃ outcome, outcome ≠ .error .stackExhausted ∧
      ∀ room, nesting registry text q ≤ room → ((m.withRoom room).ask q pos).1 = outcome) := by
  obtain ⟨env, lexicon, lands⟩ := reached.roomy built
  have ends (room : Nat) (enough : nesting registry text q ≤ room)
      (exhausted : ((m.withRoom room).ask q pos).1 = .error .stackExhausted) :
      Feigns text actions (Lexicon.of registry) := by
    obtain ⟨_, state⟩ := m
    subst env
    have inRoom := query_inRoom (Env.withRoom ⟨text, actions, settings⟩ room)
      (atomicRules built atomic) nonneg here enough
    have asked := Matcher.advance_spec (m := Matcher.withRoom ⟨⟨text, actions, settings⟩, state⟩ room)
      (inRoom state ⟨lexicon, lands⟩)
    exact asked.1.2.2 _ exhausted rfl
  refine ⟨ends, fun honest => ?_⟩
  have enough : ((m.withRoom (nesting registry text q)).ask q pos).1 ≠ .error .stackExhausted :=
    fun exhausted => honest (ends _ (Nat.le_refl _) exhausted)
  exact ⟨_, enough, fun room le =>
    (ask_widened (m := m.withRoom (nesting registry text q)) le enough).1⟩

/-! ## 3. A rule that calls itself -/

/-- A rule that calls itself first, or else takes a letter. -/
def leftRule : Rule :=
  ⟨"left", .token, .alternation .ordered [.sequence [.ruleRef ⟨"left", none, true⟩,
    .literal ['a'] false], .literal ['a'] false], .none⟩

/-- A registry with that rule. -/
def leftward : Registry := Registry.empty.put "left" (.compiled leftRule)

theorem leftward_built : ∀ r ∈ some leftward, r.Built := by
  have define : Registry.empty.define "left" (.now (.pattern leftRule.pattern)) .token .none =
      .ok leftward := rfl
  rintro r ⟨⟩
  exact .define .empty define

theorem leftward_atomic : ∀ r ∈ some leftward, r.Atomic := by
  rintro r ⟨⟩ name e held rule hrule
  have nonneg : leftRule.pattern.NonNegative := by
    refine .alternation (List.forall_mem_cons.mpr ⟨.sequence ?_, ?_⟩)
    · exact List.forall_mem_cons.mpr ⟨.ruleRef, List.forall_mem_singleton.mpr .literal⟩
    · exact List.forall_mem_singleton.mpr .literal
  have entries : leftward.entries = [("left", .compiled leftRule)] := rfl
  rw [entries, List.lookup_cons] at held
  split at held
  · cases held
    cases hrule
    exact ⟨rfl, nonneg⟩
  · cases held

theorem leftward_honest : ¬Feigns #['a'] {} (Lexicon.of (some leftward)) := by
  rintro (⟨rule, c, failed⟩ | ⟨name, failed⟩)
  · cases failed
  · change leftward.resolve name = _ at failed
    unfold leftward at failed
    rw [Registry.resolve_put] at failed
    split at failed
    · cases failed
    · simp only [Registry.resolve, Registry.empty, List.lookup_nil] at failed
      split at failed <;> cases failed

/-- A rule that calls itself first comes to an end, and to the same in any room that is enough. -/
theorem ask_ends_leftward :
    (∀ r ∈ some leftward, r.Built) ∧ (∀ r ∈ some leftward, r.Atomic) ∧
      ((Matcher.start #['a'] (some leftward) {} {}).Reached
        (Matcher.start #['a'] (some leftward) {} {})) ∧ Query.NonNegative (.rule "left" true) ∧
      Text.Span #['a'] 0 0 ∧ ∃ outcome, outcome ≠ .error .stackExhausted ∧
        ∀ room, nesting (some leftward) #['a'] (.rule "left" true) ≤ room →
          (((Matcher.start #['a'] (some leftward) {} {}).withRoom room).ask (.rule "left" true)
            0).1 = outcome := by
  have here : Text.Span #['a'] 0 0 := Text.span_self (Int.le_refl 0) (by decide)
  have plain : Query.NonNegative (.rule "left" true) := trivial
  exact ⟨leftward_built, leftward_atomic, .start, plain, here,
    (ask_ends leftward_built leftward_atomic .start plain here).2 leftward_honest⟩

end GrammarMatch
