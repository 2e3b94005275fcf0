/-
  File:      GrammarMatch/Proofs/Compiled.lean
  Subject:   What the compiler builds.

  Whatever is compiled from a text is built in a few ways only (`Pattern.Compiled`): the members of
  its classes are known, its groups are captures, and with each of them the keys are noted that
  bind a list inside. This holds of the rules of a registry that was made from texts too
  (`Registry.FromText.compiled`), whether they are compiled at once or when they are needed, and
  of the rules that are always there.
-/
import GrammarMatch.Proofs.Assembly
import GrammarMatch.Proofs.Lexicon

namespace GrammarMatch

/-! ## 1. What is built -/

/-- A member of a class for which there is a test. -/
def ClassItem.Known : ClassItem → Prop
  | .range _ _ => True
  | .shorthand letter => (Shorthand.find? letter).isSome = true
  | .property name _ => Property.known name = true

instance : DecidablePred ClassItem.Known
  | .range _ _ => inferInstanceAs (Decidable True)
  | .shorthand letter => inferInstanceAs (Decidable ((Shorthand.find? letter).isSome = true))
  | .property name _ => inferInstanceAs (Decidable (Property.known name = true))

/-- What is built for a text. -/
inductive Pattern.Compiled : Pattern → Prop
  | literal {chars : List Char} {ignoreCase : Bool} : Compiled (.literal chars ignoreCase)
  | charClass {items : List ClassItem} {negated ignoreCase : Bool}
      (known : ∀ item ∈ items, item.Known) : Compiled (.charClass items negated ignoreCase)
  | sequence {parts : List Pattern} (h : ∀ p ∈ parts, Compiled p) : Compiled (.sequence parts)
  | alternation {mode : ChoiceMode} {branches : List Pattern} (h : ∀ p ∈ branches, Compiled p) :
      Compiled (.alternation mode branches)
  | repetition {q : Quantity} {body : Pattern} (h : Compiled body) : Compiled (.repetition q body)
  | group {key : CaptureKey} {body : Pattern} (h : Compiled body) :
      Compiled (.group (some key) body.pluralKeys body)
  | look {kind : LookKind} {body : Pattern} (h : Compiled body) : Compiled (.look kind body)
  | anchor {kind : AnchorKind} : Compiled (.anchor kind)
  | ruleRef {r : Reference} : Compiled (.ruleRef r)
  | whitespace : Compiled .whitespace

namespace Pattern

theorem compiled_empty : Compiled .empty := .sequence nofun

/-- An outcome is a failure or a pattern as the compiler builds it. -/
def CompiledOutcome {ε : Type} (v : Except ε Pattern) : Prop := ∀ p, v = .ok p → p.Compiled

theorem Compiled.outcome {ε : Type} {p : Pattern} (h : p.Compiled) :
    CompiledOutcome (.ok p : Except ε Pattern) := by
  rintro q ⟨⟩
  exact h

theorem compiledOutcome_error {ε : Type} (e : ε) : CompiledOutcome (.error e) := nofun

theorem compiledOutcome_map {ε α : Type} {v : Except ε α} {f : α → Pattern}
    (h : ∀ a, v = .ok a → (f a).Compiled) : CompiledOutcome (v.map f) := by
  cases v with
  | error e => exact compiledOutcome_error e
  | ok a => exact (h a rfl).outcome

theorem compiledOutcome_ite {ε : Type} {c : Prop} [Decidable c] {v w : Except ε Pattern}
    (hv : c → CompiledOutcome v) (hw : CompiledOutcome w) :
    CompiledOutcome (if c then v else w) := by
  split
  next h => exact hv h
  next => exact hw

/-! ## 2. Compilation -/

section Compile

open Syntax

variable {d : Dialect}

/-- There is a class for each letter of a shorthand. -/
theorem known_shorthand {c : Char} (h : isShorthand c = true) :
    (ClassItem.shorthand c.toString).Known := by
  have letters : c ∈ ['d', 'D', 'w', 'W', 's', 'S'] := List.contains_iff_mem.mp h
  simp only [List.mem_cons, List.not_mem_nil, or_false] at letters
  unfold ClassItem.Known
  rcases letters with rfl | rfl | rfl | rfl | rfl | rfl <;> decide

theorem known_property {name : List Char} {negated : Bool} {place : Nat} {item : ClassItem}
    (h : propertyItem name negated place = .ok item) : item.Known := by
  unfold propertyItem at h
  simp only at h
  split at h
  next known =>
    cases h
    exact known
  next => cases h

theorem compiled_escape (ignoreCase : Bool) (t : Token) :
    CompiledOutcome (escapePattern ignoreCase t) := by
  unfold escapePattern
  split
  · exact Compiled.literal.outcome
  · refine compiledOutcome_ite (fun letter => ?_) ?_
    · exact (Compiled.charClass (List.forall_mem_singleton.mpr (known_shorthand letter))).outcome
    · split
      · exact Compiled.literal.outcome
      · refine compiledOutcome_ite (fun _ => Compiled.anchor.outcome) ?_
        refine compiledOutcome_ite (fun _ => (Compiled.look .anchor).outcome) ?_
        refine compiledOutcome_ite (fun _ => Compiled.anchor.outcome) ?_
        refine compiledOutcome_ite (fun _ => Compiled.anchor.outcome) ?_
        refine compiledOutcome_ite (fun _ => compiledOutcome_map fun item hitem => ?_) ?_
        · exact .charClass (List.forall_mem_singleton.mpr (known_property hitem))
        · exact compiledOutcome_ite (fun _ => compiledOutcome_error _) Compiled.literal.outcome

theorem known_member {c : Char} {cs : List Char} {place n : Nat} {item : ClassItem}
    (h : readMember c cs place = .ok (.item item, n)) : item.Known := by
  unfold readMember at h
  split at h
  · cases h
  · split at h
    · cases h
    · rename_i e rest
      split at h
      next letter =>
        cases h
        exact known_shorthand letter
      next =>
        split at h
        · cases h
        · split at h
          · simp only at h
            split at h
            · cases h
            · cases hitem : propertyItem ((rest.drop 1).takeWhile (· != '\x7d')) (e == 'P') place with
              | error f =>
                rw [hitem] at h
                cases h
              | ok item' =>
                rw [hitem] at h
                cases h
                exact known_property hitem
          · split at h <;> cases h

theorem known_members (place : Nat) (cs : List Char) :
    ∀ items, readMembers place cs = .ok items → ∀ item ∈ items, item.Known := by
  have added {v : Except Fault (List ClassItem)} {item : ClassItem} (first : item.Known)
      (rest : ∀ items, v = .ok items → ∀ item ∈ items, item.Known) (items : List ClassItem)
      (h : v.map (item :: ·) = .ok items) : ∀ item ∈ items, item.Known := by
    cases v with
    | error f => cases h
    | ok items' =>
      cases h
      exact List.forall_mem_cons.mpr ⟨first, rest items' rfl⟩
  fun_induction readMembers place cs with
  | case1 =>
    rintro _ ⟨⟩
    exact List.forall_mem_nil _
  | case2 => nofun
  | case3 place c rest item n read ih => exact added (known_member read) ih
  | case4 => nofun
  | case5 => nofun
  | case6 => nofun
  | case7 => exact added trivial (by assumption)
  | case8 => exact added trivial (by assumption)

theorem compiled_class (ignoreCase : Bool) (t : Token) :
    CompiledOutcome (classPattern ignoreCase t) := by
  unfold classPattern
  split
  · exact compiledOutcome_map fun items read => .charClass (known_members _ _ items read)
  · exact compiledOutcome_map fun items read => .charClass (known_members _ _ items read)

theorem compiled_token (t : Token) : CompiledOutcome (ofToken d t) := by
  unfold ofToken
  split
  · exact Compiled.literal.outcome
  · exact Compiled.literal.outcome
  · exact compiled_class d.ignoreCase t
  · exact compiled_escape d.ignoreCase t
  · exact (Compiled.charClass (List.forall_mem_nil _)).outcome
  · exact Compiled.anchor.outcome
  · exact Compiled.anchor.outcome
  · exact Compiled.ruleRef.outcome
  · exact compiled_empty.outcome

/-- Patterns as the compiler builds them make up such patterns. -/
theorem closed_compiled : Closed d Compiled where
  token h := compiled_token _ _ h
  literal _ := .literal
  whitespace := .whitespace
  sequence h := .sequence h
  alternation h := .alternation h
  repetition _ _ h := .repetition h
  group _ _ h := .group h
  look _ _ h := .look h

/-- **What is compiled from a text is built in these ways only.** -/
theorem compiled_compile (source : List Char) (flags : Flags) (kind : RuleKind) :
    CompiledOutcome (compile source flags kind) := by
  intro p h
  exact closed_compiled.compile h

end Compile

end Pattern

/-! ## 3. Registries -/

/-- A pattern was compiled from a text. -/
def Pattern.FromText (p : Pattern) : Prop :=
  ∃ source flags kind, Pattern.compile source flags kind = .ok p

theorem Pattern.FromText.compiled {p : Pattern} (h : p.FromText) : p.Compiled := by
  obtain ⟨source, flags, kind, compiled⟩ := h
  exact compiled_compile source flags kind p compiled

/-- A pattern is given as a text, or was compiled from one. -/
def Source.FromText : Source → Prop
  | .text _ => True
  | .pattern p => p.FromText
  | .other _ => True

/-- A pattern is given or supplied as a text, or was compiled from one. -/
def Definition.FromText : Definition → Prop
  | .now source => source.FromText
  | .later supply => ∀ source, supply () = .ok source → source.FromText

namespace Registry

/-- Registries of rules that were compiled from texts: they are defined one by one, and looked up
    in between. -/
inductive FromText : Registry → Prop
  | empty : FromText .empty
  | define {r r' : Registry} {name : String} {d : Definition} {kind : RuleKind} {flags : Flags}
      (h : FromText r) (hd : d.FromText) (defined : r.define name d kind flags = .ok r') :
      FromText r'
  | found {r r' : Registry} {name : String} {rule : Rule} (h : FromText r)
      (hl : Registry.rule name r = .ok rule r') : FromText r'
  | missed {r r' : Registry} {name : String} {f : Failure} (h : FromText r)
      (hl : Registry.rule name r = .error f r') : FromText r'

theorem FromText.built {r : Registry} (h : r.FromText) : r.Built := by
  induction h with
  | empty => exact .empty
  | define _ _ defined ih => exact .define ih defined
  | found _ hl ih => exact .found ih hl
  | missed _ hl ih => exact .missed ih hl

/-- All rules are as the compiler builds them. -/
def Compiled (r : Registry) : Prop := ∀ name rule, r.resolve name = .ok rule → rule.pattern.Compiled

theorem known_builtin {name : String} {items : List ClassItem}
    (h : Rule.builtinClass? name = some items) : ∀ item ∈ items, item.Known := by
  unfold Rule.builtinClass? at h
  split at h
  case h_7 => cases h
  all_goals
    cases h
    decide

theorem compiled_builtin {name : String} {rule : Rule} (h : Rule.builtin? name = some rule) :
    rule.pattern.Compiled := by
  unfold Rule.builtin? at h
  obtain ⟨p, hp, rfl⟩ := Option.map_eq_some_iff.mp h
  unfold Rule.builtinPattern? at hp
  split at hp
  · cases hp
    exact .whitespace
  · cases hp
    refine .sequence (List.forall_mem_cons.mpr ⟨.ruleRef, ?_⟩)
    exact List.forall_mem_singleton.mpr (.repetition (.charClass (by decide)))
  · obtain ⟨items, hitems, rfl⟩ := Option.map_eq_some_iff.mp hp
    exact .charClass (known_builtin hitems)

theorem compiled_empty : Compiled empty := by
  intro name rule h
  simp only [resolve, empty, List.lookup_nil] at h
  split at h
  · rename_i rule' hb
    cases h
    exact compiled_builtin hb
  · cases h

theorem compiled_compileRule {name : String} {kind : RuleKind} {flags : Flags} {source : Source}
    (hs : source.FromText) {rule : Rule} (h : Rule.compile name kind flags source = .ok rule) :
    rule.pattern.Compiled := by
  cases source with
  | text chars =>
    unfold Rule.compile at h
    simp only at h
    split at h
    · rename_i p hp
      cases h
      exact Pattern.compiled_compile _ _ _ _ hp
    · cases h
  | pattern p =>
    cases h
    exact Pattern.FromText.compiled hs
  | other value => cases h

theorem compiled_put {r : Registry} (hr : r.Compiled) {name : String} {e : Entry}
    (he : ∀ rule, e.rule name = .ok rule → rule.pattern.Compiled) : (r.put name e).Compiled := by
  intro n rule h
  rw [resolve_put] at h
  by_cases hn : n = name
  · rw [if_pos hn, hn] at h
    exact he rule h
  · rw [if_neg hn] at h
    exact hr n rule h

theorem compiled_define {r r' : Registry} (hr : r.Compiled) {name : String} {d : Definition}
    (hd : d.FromText) {kind : RuleKind} {flags : Flags} (h : r.define name d kind flags = .ok r') :
    r'.Compiled := by
  cases d with
  | later supply =>
    cases h
    refine compiled_put hr fun rule hrule => ?_
    change (supply ()).bind (Rule.compile name kind flags) = .ok rule at hrule
    cases hs : supply () with
    | error f =>
      rw [hs] at hrule
      cases hrule
    | ok source =>
      rw [hs] at hrule
      exact compiled_compileRule (hd source hs) hrule
  | now source =>
    change (Rule.compile name kind flags source).map _ = .ok r' at h
    cases hc : Rule.compile name kind flags source with
    | error f =>
      rw [hc] at h
      cases h
    | ok rule =>
      rw [hc] at h
      cases h
      refine compiled_put hr fun rule' hrule => ?_
      cases hrule
      exact compiled_compileRule hd hc

/-- **The rules of a registry that was made from texts are as the compiler builds them.** -/
theorem FromText.compiled {r : Registry} (h : r.FromText) : r.Compiled := by
  induction h with
  | empty => exact compiled_empty
  | define _ hd defined ih => exact compiled_define ih hd defined
  | @found r r' name rule _ hl ih =>
    have spec := rule_spec name r
    rw [hl] at spec
    intro n rule' h
    exact ih n rule' (spec.2.1 ▸ h)
  | @missed r r' name f _ hl ih =>
    have spec := rule_spec name r
    rw [hl] at spec
    intro n rule' h
    exact ih n rule' (spec.2.1 ▸ h)

end Registry

/-- All rules are as the compiler builds them. -/
def Match.Lexicon.Compiled (x : Match.Lexicon) : Prop :=
  ∀ name rule, x.rules name = .ok rule → rule.pattern.Compiled

theorem Match.Lexicon.compiled_of {r : Option Registry} (h : ∀ r' ∈ r, r'.FromText) :
    (Match.Lexicon.of r).Compiled := by
  intro name rule hrule
  cases r with
  | none => cases hrule
  | some r' => exact (h r' rfl).compiled name rule hrule

end GrammarMatch
