/-
  File:      GrammarMatch/Proofs/Safety.lean
  Subject:   What was compiled from texts never fails while it is matched.

  The rules that a match may come to are those that the pattern calls, and those that their
  patterns call in turn. If each of them is known, and no repetition asks for less than no rounds,
  then nothing goes wrong in a match without callbacks and without a limit on nesting, but that
  there may not be room enough for it: no test reads outside the text or meets a class it does not
  know, no rule is missing, and every match ends at a position of the text
  (`matching_safe`). This is so for every way to ask.
-/
import GrammarMatch.Finder
import GrammarMatch.Proofs.Cut
import GrammarMatch.Proofs.Guarded
import GrammarMatch.Proofs.Termination

namespace GrammarMatch

open Match

/-! ## 1. Reachable rules -/

/-- The rules that are called for a query. -/
def Query.Calls (space : Bool) : Query → String → Prop
  | .pattern p => p.Calls space
  | .rule name _ => (· = name)

/-- The rules that can be called, directly or not, where some are called. -/
inductive Match.Lexicon.Reaches (x : Lexicon) (called : String → Prop) : String → Prop
  | called {name : String} (h : called name) : Reaches x called name
  | rule {name callee : String} {rule : Rule} (h : Reaches x called name)
      (known : x.rules name = .ok rule) (calls : rule.pattern.Calls x.space callee) :
      Reaches x called callee

/-- Every rule that can be called for a query is known, and repeats nothing less than not at all. -/
def Match.Lexicon.Covers (x : Lexicon) (q : Query) : Prop :=
  ∀ name, x.Reaches (q.Calls x.space) name →
    ∃ rule, x.rules name = .ok rule ∧ rule.pattern.NonNegative

/-- What is asked for is as the compiler builds it. -/
def Query.Compiled : Query → Prop
  | .pattern p => p.Compiled
  | .rule _ _ => True

/-- A query for which all is as the compiler builds it, all that it can come to is known, and no
    repetition asks for less than no rounds. -/
structure Query.Safe (x : Lexicon) (q : Query) : Prop where
  rules : x.Compiled
  compiled : q.Compiled
  nonNegative : q.NonNegative
  covered : x.Covers q

theorem Match.Lexicon.Reaches.mono {x : Lexicon} {called called' : String → Prop}
    (h : ∀ name, called name → called' name) {name : String} (hn : x.Reaches called name) :
    x.Reaches called' name := by
  induction hn with
  | called hc => exact .called (h _ hc)
  | rule _ known calls ih => exact .rule ih known calls

/-! ## 2. The guard -/

namespace Match

/-- What is entered is as the compiler builds it, repeats nothing less than not at all, and calls
    only rules that can be come to from those that are called. -/
def within (env : Env) {x : Lexicon} (called : String → Prop) (admits : Failure → Prop)
    (rules : x.Compiled) (silent : env.actions = {})
    (nonNegative : ∀ name rule, x.Reaches called name → x.rules name = .ok rule →
      rule.pattern.NonNegative)
    (room : admits .stackExhausted)
    (limit : ∀ depth pos f, (Basis.of env x).entry depth pos = .error f → admits f)
    (unknown : ∀ name f, x.Reaches called name → x.rules name = .error f → admits f) :
    Guard env x :=
  have body {name : String} {rule : Rule} (h : x.Reaches called name)
      (known : x.rules name = .ok rule) : rule.pattern.Compiled ∧ rule.pattern.NonNegative ∧
        ∀ callee, rule.pattern.Calls x.space callee → x.Reaches called callee :=
    ⟨rules name rule known, nonNegative name rule h known, fun _ calls => .rule h known calls⟩
  { admits := admits
    part _ _ p := p.Compiled ∧ p.NonNegative ∧
      ∀ name, p.Calls x.space name → x.Reaches called name
    call _ _ name := x.Reaches called name
    nonNegative h := h.2.1
    child := by
      rintro active depth p ⟨compiled, nonneg, calls⟩ c hc
      exact ⟨compiled.child hc, nonneg.child hc, fun name h => calls name (.child hc h)⟩
    ruleRef h := h.2.2 _ .ruleRef
    space h own := h.2.2 _ (.whitespace own)
    entry _ failed := limit _ _ _ failed
    test h here failed := absurd ⟨here, h.1⟩ (fails_test failed).2
    level _ _ := room
    callLevel _ _ := room
    lookup h failed := unknown _ _ h failed
    atomic h known _ _ _ := body h known
    nonAtomic h known _ := body h known
    callback failed := by
      rw [silent] at failed
      cases failed }

/-- Nothing goes wrong, but that there may not be room enough. -/
abbrev Sure {α : Type} (v : Except Failure α) : Prop := Fails (· = .stackExhausted) v

/-- For a safe query, without a limit on nesting. -/
def sure (env : Env) {x : Lexicon} {q : Query} (unlimited : env.settings.maxDepth = none)
    (silent : env.actions = {}) (safe : q.Safe x) : Guard env x :=
  have covered {name : String} {v : Except Failure Rule} (h : x.Reaches (q.Calls x.space) name)
      (found : x.rules name = v) : ∃ rule, v = .ok rule ∧ rule.pattern.NonNegative :=
    found ▸ safe.covered name h
  within env (q.Calls x.space) (· = .stackExhausted) safe.rules silent
    (fun _ _ h known => by
      obtain ⟨_, ⟨⟩, nonneg⟩ := covered h known
      exact nonneg)
    rfl
    (fun _ _ _ failed => by
      rw [entry_open unlimited] at failed
      cases failed)
    fun _ _ h failed => by
      obtain ⟨_, ⟨⟩, _⟩ := covered h failed

end Match

/-! ## 3. Queries -/

/-- A matcher of a text without callbacks and without a limit on nesting, whose results are for
    these rules and end in the text. -/
structure Matcher.Ready (x : Lexicon) (text : Text) (m : Matcher) : Prop where
  given : m.env.text = text
  unlimited : m.env.settings.maxDepth = none
  silent : m.env.actions = {}
  lexicon : m.state.lexicon = x
  lands : m.state.Lands text

theorem Matcher.ready_start {registry : Option Registry} {text : Text} {settings : Settings}
    (unlimited : settings.maxDepth = none) :
    (Matcher.start text registry {} settings).Ready (Lexicon.of registry) text where
  given := rfl
  unlimited := unlimited
  silent := rfl
  lexicon := rfl
  lands name pos stop c held := by
    simp only [Matcher.start, Std.HashMap.getElem?_empty] at held
    cases held

section Queries

variable {x : Lexicon} {q : Query} (safe : q.Safe x)

namespace Match

/-- **A safe query fails only for want of room.** -/
theorem query_sure {env : Env} (unlimited : env.settings.maxDepth = none)
    (silent : env.actions = {}) {pos : Int} (here : env.text.Span 0 pos) :
    (sure env unlimited silent safe).Allows (q.run env pos) fun _ => True := by
  refine Guard.query _ ?_ here
  have calls (name : String) (h : q.Calls x.space name) : x.Reaches (q.Calls x.space) name :=
    .called h
  cases q with
  | pattern p => exact ⟨safe.compiled, safe.nonNegative, calls⟩
  | rule name anchored => exact calls name rfl

end Match

variable {m : Matcher} {text : Text} (ready : m.Ready x text)

include ready

/-- A matcher that is ready keeps to its own text and to the rules. -/
theorem Matcher.Ready.keepsTo : m.KeepsTo m.env x :=
  ⟨rfl, ready.lexicon, ready.given ▸ ready.lands⟩

include safe

/-- Any computation that is as the guard demands fails only for want of room, and leaves a matcher
    that is ready. -/
theorem Matcher.Ready.advance {α : Type} {run : Run α}
    (allows : (sure m.env ready.unlimited ready.silent safe).Allows run fun _ => True) :
    Sure (m.advance run).1 ∧ (m.advance run).2.Ready x text := by
  obtain ⟨failure, same, lexicon, lands⟩ := Guard.advance _ ready.keepsTo allows
  refine ⟨failure, ?_⟩
  constructor
  · rw [same, ready.given]
  · rw [same, ready.unlimited]
  · rw [same, ready.silent]
  · exact lexicon
  · exact ready.given ▸ lands

theorem Matcher.Ready.ask {m' : Matcher} {pos : Int} {outcome : Except Failure (Option Found)}
    (nonneg : 0 ≤ pos) (le : pos ≤ text.stop) (asked : m.ask q pos = (outcome, m')) :
    Sure outcome ∧ m'.Ready x text := by
  have here : m.env.text.Span 0 pos := ready.given.symm ▸ ⟨Int.le_refl 0, nonneg, le⟩
  have spec := ready.advance safe (query_sure safe ready.unlimited ready.silent here)
  rwa [show m.advance (q.run m.env pos) = _ from asked] at spec

end Queries

/-! ## 4. Every way to ask -/

section TryMatch

variable {registry : Option Registry} {settings : Settings}

theorem Pattern.tryMatch_sure {p : Pattern} (safe : (Query.pattern p).Safe (Lexicon.of registry))
    (unlimited : settings.maxDepth = none) (cursor : Cursor) :
    Sure (p.tryMatch cursor registry {} settings).1 := by
  have here : cursor.text.Span 0 cursor.pos :=
    ⟨Int.le_refl 0, Int.natCast_nonneg _, Int.ofNat_le.mpr cursor.inside⟩
  unfold Pattern.tryMatch
  rcases hask : (Matcher.start cursor.text registry {} settings).pattern p cursor.pos with
    ⟨f | _ | found, m⟩
  · have asked := (Matcher.ready_start unlimited).ask safe here.le here.le_stop hask
    exact Fails.passed asked.1 rfl
  · exact fails_ok _
  · have covers := ask_covers cursor.text registry {} settings .start (.pattern p) here
      (congrArg Prod.fst hask)
    have span := covers.nested.ordered.span
    rw [covers.start, covers.stop] at span
    have there : cursor.text.Span 0 found.stop :=
      ⟨Int.le_refl 0, Int.le_trans here.le span.le, span.le_stop⟩
    obtain ⟨next, reached⟩ := Cursor.at_span there
    simp only [reached]
    exact fails_ok _

end TryMatch

namespace Grammar

variable {x : Lexicon} {r : Registry} {task : Task}

theorem parse_sure (ready : (task.matcher r).Ready x task.text)
    (safe : (Query.rule task.start true).Safe x) : Sure (parse r task).1 :=
  (sure _ ready.unlimited ready.silent safe).parse ready.keepsTo (.called rfl)

theorem subparse_sure (ready : (task.matcher r).Ready x task.text)
    (safe : (Query.rule task.start false).Safe x) {pos : Int} (here : task.text.Span 0 pos) :
    Sure (subparse r task pos).1 :=
  (sure _ ready.unlimited ready.silent safe).subparse ready.keepsTo (.called rfl) here

theorem scan_sure (ready : (task.matcher r).Ready x task.text)
    (safe : (Query.rule task.start false).Safe x) :
    ∀ f ∈ (scan r task).1.failure, f = .stackExhausted :=
  (sure _ ready.unlimited ready.silent safe).scan ready.keepsTo (.called rfl)

end Grammar

namespace Finder

section Search

variable {x : Lexicon} {p : Pattern} (safe : (Query.pattern p).Safe x)
  {text : Text} {m : Matcher}

include safe

/-- One attempt of a finder. -/
theorem attempt_sure {m m' : Matcher} {pos : Int} {outcome : Except Failure (Option Found)}
    (ready : m.Ready x text) (nonneg : 0 ≤ pos) (le : pos ≤ text.stop)
    (asked : m.pattern p pos = (outcome, m')) : Sure outcome ∧ m'.Ready x text :=
  ready.ask safe nonneg le asked

theorem searchFrom_sure {left : Nat} {pos : Int} (ready : m.Ready x text) (nonneg : 0 ≤ pos)
    (inside : pos + left ≤ text.stop) : Sure (searchFrom p m left pos) := by
  induction m, left, pos using searchFrom.induct p with
  | case1 left m pos f m' asked =>
    unfold searchFrom
    simp only [asked]
    exact Fails.passed (attempt_sure safe ready nonneg (by omega) asked).1 rfl
  | case2 left m pos found m' asked =>
    unfold searchFrom
    simp only [asked]
    exact fails_ok _
  | case3 m pos m' asked =>
    unfold searchFrom
    simp only [asked]
    exact fails_ok _
  | case4 m pos m' asked left ih =>
    unfold searchFrom
    simp only [asked]
    exact ih (attempt_sure safe ready nonneg (by omega) asked).2 (by omega) (by omega)

theorem findFrom_sure {left : Nat} {pos : Int} {found : List Capture} (ready : m.Ready x text)
    (nonneg : 0 ≤ pos) (inside : pos + left ≤ text.stop + 1) :
    ∀ f ∈ (findFrom p m left pos found).2, f = .stackExhausted := by
  induction m, left, pos, found using findFrom.induct p with
  | case1 m pos found =>
    rw [findFrom, if_pos rfl]
    simp
  | case2 m left pos found more f m' asked =>
    rw [findFrom, if_neg more]
    simp only [asked]
    rintro _ ⟨⟩
    exact (attempt_sure safe ready nonneg (by omega) asked).1 f rfl
  | case3 m left pos found more m' asked ih =>
    rw [findFrom, if_neg more]
    simp only [asked]
    exact ih (attempt_sure safe ready nonneg (by omega) asked).2 (by omega) (by omega)
  | case4 m left pos found more stop c m' asked wide ih =>
    rw [findFrom, if_neg more]
    simp only [asked, if_pos wide]
    have ready' := (attempt_sure safe ready nonneg (by omega) asked).2
    by_cases rest : left - (stop - pos).toNat = 0
    · rw [rest, findFrom, if_pos rfl]
      simp
    · exact ih ready' (by omega) (by omega)
  | case5 m left pos found more stop c m' asked narrow ih =>
    rw [findFrom, if_neg more]
    simp only [asked, if_neg narrow]
    exact ih (attempt_sure safe ready nonneg (by omega) asked).2 (by omega) (by omega)

end Search

section Made

variable {f : Finder} {source : String} {flags : Flags} {registry : Option Registry}
  {settings : Settings} (made : make source flags registry settings = .ok f)

include made

theorem made_of : f.pattern.FromText ∧ f.registry = registry ∧ f.settings = settings := by
  unfold make at made
  split at made
  · rename_i p compiled
    cases made
    exact ⟨⟨_, _, _, compiled⟩, rfl, rfl⟩
  · cases made

theorem matcher_ready (unlimited : settings.maxDepth = none) (text : Text) :
    (f.matcher text).Ready (Lexicon.of registry) text := by
  obtain ⟨_, rules, limits⟩ := made_of made
  unfold matcher
  rw [rules, limits]
  exact Matcher.ready_start unlimited

end Made

section Attempts

variable {x : Lexicon} {f : Finder} {text : Text} (ready : (f.matcher text).Ready x text)
  (safe : (Query.pattern f.pattern).Safe x)

/-- The end of the text calls no rule. -/
theorem whole_safe (safe : (Query.pattern f.pattern).Safe x) : (Query.pattern f.whole).Safe x where
  rules := safe.rules
  compiled := .sequence (List.forall_mem_cons.mpr
    ⟨safe.compiled, List.forall_mem_singleton.mpr .anchor⟩)
  nonNegative := .sequence (List.forall_mem_cons.mpr
    ⟨safe.nonNegative, List.forall_mem_singleton.mpr .anchor⟩)
  covered := by
    have calls (name : String) (h : f.whole.Calls x.space name) :
        f.pattern.Calls x.space name := by
      cases h with
      | child hc h =>
        rcases List.mem_cons.mp hc with rfl | hc
        · exact h
        · rw [List.mem_singleton.mp hc] at h
          cases h with
          | child hc _ => cases hc
    exact fun name h => safe.covered name (h.mono calls)

include ready safe

theorem matchAt_sure {pos : Int} (here : text.Span 0 pos) : Sure (f.matchAt text pos) := by
  obtain ⟨cursor, reached⟩ := Cursor.at_span here
  unfold matchAt
  rw [reached]
  exact Fails.map (ready.ask safe here.le here.le_stop rfl).1 _

theorem fullMatch_sure : Sure (f.fullMatch text) :=
  Fails.map (ready.ask (whole_safe safe) (Int.le_refl 0) text.span_whole.le rfl).1 _

theorem search_sure {pos : Int} (here : text.Span 0 pos) : Sure (f.search text pos) := by
  obtain ⟨cursor, reached⟩ := Cursor.at_span here
  have inside := here.le_stop
  unfold search
  rw [reached]
  exact searchFrom_sure safe ready here.le (by omega)

theorem findAll_sure : ∀ e ∈ (f.findAll text).2, e = .stackExhausted := by
  have whole : 0 + ((text.size + 1 : Nat) : Int) ≤ text.stop + 1 := by
    rw [Int.zero_add]
    exact Int.le_refl _
  exact findFrom_sure safe ready (Int.le_refl 0) whole

end Attempts

end Finder

/-- **Matching what was compiled from texts never fails**, but for want of room: without callbacks
    and without a limit on nesting, if every rule that can be called is known and no repetition
    asks for less than no rounds. This holds of a matcher, whatever it was asked for before, at a
    cursor, of a grammar, and of a finder. -/
theorem matching_safe {registry : Option Registry} (texts : ∀ r ∈ registry, r.FromText)
    {settings : Settings} (unlimited : settings.maxDepth = none) :
    (∀ text m, (Matcher.start text registry {} settings).Reached m → ∀ pos, text.Span 0 pos →
      (∀ p : Pattern, p.FromText → p.NonNegative → (Lexicon.of registry).Covers (.pattern p) →
        Sure (m.pattern p pos).1) ∧
      ∀ name anchored, (Lexicon.of registry).Covers (.rule name anchored) →
        Sure (m.rule name pos anchored).1) ∧
    (∀ p : Pattern, p.FromText → p.NonNegative → (Lexicon.of registry).Covers (.pattern p) →
      ∀ cursor, Sure (p.tryMatch cursor registry {} settings).1) ∧
    (∀ r ∈ registry, ∀ text start, (Lexicon.of registry).Covers (.rule start true) →
      Sure (Grammar.parse r ⟨text, start, {}, settings⟩).1 ∧
      (∀ pos, text.Span 0 pos → Sure (Grammar.subparse r ⟨text, start, {}, settings⟩ pos).1) ∧
      ∀ e ∈ (Grammar.scan r ⟨text, start, {}, settings⟩).1.failure, e = .stackExhausted) ∧
    ∀ source flags f, Finder.make source flags registry settings = .ok f → f.pattern.NonNegative →
      (Lexicon.of registry).Covers (.pattern f.pattern) → ∀ text : Text,
        (∀ pos, text.Span 0 pos → Sure (f.matchAt text pos) ∧ Sure (f.search text pos)) ∧
        Sure (f.fullMatch text) ∧ ∀ e ∈ (f.findAll text).2, e = .stackExhausted := by
  have rules : (Lexicon.of registry).Compiled := Lexicon.compiled_of texts
  have pattern {p : Pattern} (text : p.FromText) (nonneg : p.NonNegative)
      (covered : (Lexicon.of registry).Covers (.pattern p)) :
      (Query.pattern p).Safe (Lexicon.of registry) := ⟨rules, text.compiled, nonneg, covered⟩
  refine ⟨fun text m reached pos here => ?_, fun p text nonneg covered cursor => ?_,
    fun r hr text start covered => ?_, fun source flags f made nonneg covered text => ?_⟩
  · obtain ⟨env, lexicon, lands⟩ := reached.roomy fun r hr => (texts r hr).built
    have ready : m.Ready (Lexicon.of registry) text := by
      constructor
      · rw [env]
      · rw [env]
        exact unlimited
      · rw [env]
      · exact lexicon
      · exact lands
    constructor
    · intro p text nonneg covered
      exact (ready.ask (pattern text nonneg covered) here.le here.le_stop rfl).1
    · intro name anchored covered
      have safe : (Query.rule name anchored).Safe (Lexicon.of registry) :=
        ⟨rules, trivial, trivial, covered⟩
      exact (ready.ask safe here.le here.le_stop rfl).1
  · exact Pattern.tryMatch_sure (pattern text nonneg covered) unlimited cursor
  · obtain rfl : registry = some r := hr
    have ready : (Grammar.Task.matcher ⟨text, start, {}, settings⟩ r).Ready
        (Lexicon.of (some r)) text := Matcher.ready_start unlimited
    exact ⟨Grammar.parse_sure ready ⟨rules, trivial, trivial, covered⟩,
      fun pos here => Grammar.subparse_sure ready ⟨rules, trivial, trivial, covered⟩ here,
      Grammar.scan_sure ready ⟨rules, trivial, trivial, covered⟩⟩
  · have ready := Finder.matcher_ready made unlimited text
    have safe := pattern (Finder.made_of made).1 nonneg covered
    exact ⟨fun pos here =>
        ⟨Finder.matchAt_sure ready safe here, Finder.search_sure ready safe here⟩,
      Finder.fullMatch_sure ready safe, Finder.findAll_sure ready safe⟩

theorem letterRow_covered : (Lexicon.of (some letters)).Covers (.pattern letterRow) := by
  have row (name : String) (h : letterRow.Calls false name) : name = "letter" := by
    cases h with
    | child hc h =>
      rw [List.mem_singleton.mp hc] at h
      cases h with
      | ruleRef => rfl
      | child hc _ => cases hc
  have reached (name : String)
      (h : (Lexicon.of (some letters)).Reaches (letterRow.Calls false) name) : name = "letter" := by
    induction h with
    | called h => exact row _ h
    | rule _ known calls ih =>
      subst ih
      cases known
      cases calls with
      | child hc _ => cases hc
  intro name h
  rw [reached name h]
  exact ⟨letterRule, rfl, .literal⟩

/-- Any number of letters is matched without a failure, but for want of room. -/
theorem matching_safe_letters :
    (∀ r ∈ some letters, r.FromText) ∧ letterRow.FromText ∧ letterRow.NonNegative ∧
      (Lexicon.of (some letters)).Covers (.pattern letterRow) ∧ Text.Span #['a', 'a'] 0 0 ∧
        Sure ((Matcher.start #['a', 'a'] (some letters) {} {}).pattern letterRow 0).1 := by
  have nonneg : letterRow.NonNegative := .repetition (Int.le_refl 0) .ruleRef
  have here : Text.Span #['a', 'a'] 0 0 := Text.span_self (Int.le_refl 0) (by decide)
  have unlimited : ({} : Settings).maxDepth = none := rfl
  have matchers := (matching_safe letters_fromText unlimited).1
  exact ⟨letters_fromText, letterRow_fromText, nonneg, letterRow_covered, here,
    (matchers _ _ .start 0 here).1 letterRow letterRow_fromText nonneg letterRow_covered⟩

end GrammarMatch
