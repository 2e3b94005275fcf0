/-
  File:      GrammarMatch/Proofs/Sharing.lean
  Subject:   One matcher asked for one thing after the other.

  A matcher keeps the results of atomic rules from call to call. Each call is answered as a
  fresh matcher answers it if no results are kept, or if no call enters an atomic rule where it
  is being matched (`askAll_fresh`). That condition is needed: a rule that calls itself by way of
  another may be tried while the other is being matched, and what is found then is kept for later
  calls too (`askAll_forgets`).
-/
import GrammarMatch.Proofs.Enumeration
import GrammarMatch.Proofs.Memo

namespace GrammarMatch

open Match

/-! ## 1. Calls in a row -/

/-- Ask a matcher for one thing after the other: the outcomes, and the matcher after them. -/
def Matcher.askAll (m : Matcher) :
    List (Query × Int) → List (Except Failure (Option Found)) × Matcher
  | [] => ([], m)
  | (q, pos) :: calls =>
    let (outcome, m') := m.ask q pos
    let (outcomes, m'') := m'.askAll calls
    (outcome :: outcomes, m'')

/-- A query that is answered without kept results, on a matcher of its own, without entering an
    atomic rule where it is being matched and without running out of room. -/
def Query.Direct (q : Query) (text : Text) (registry : Option Registry) (actions : Actions)
    (settings : Settings) (pos : Int) : Prop :=
  ¬(q.fresh text registry actions settings false pos).2.state.Reentered ∧
    (q.fresh text registry actions settings false pos).1 ≠ .error .stackExhausted

namespace Match

variable {w : Basis} (T : Terms w)

/-- Where no answer of plain recursion is excused, each call comes to it, whatever calls there
    were before. -/
theorem askAll_answers {calls : List (Query × Int)}
    (inexcusable : ∀ c ∈ calls, ∀ f s, w.answer c.1 c.2 = .error f → ¬T.excuse f s) {s : State}
    (lexicon : s.lexicon = w.lexicon) (kept : T.Kept s) :
    (Matcher.askAll ⟨w.env, s⟩ calls).1 = calls.map fun c => w.answer c.1 c.2 := by
  induction calls generalizing s with
  | nil => rfl
  | cons c calls ih =>
    obtain ⟨q, pos⟩ := c
    obtain ⟨⟨grows, come⟩, env⟩ := Matcher.advance_spec (m := ⟨w.env, s⟩)
      (query_computes T q pos s lexicon)
    let next : Matcher := ((⟨w.env, s⟩ : Matcher).ask q pos).2
    -- What was kept is right after the call as well, so that the other calls may rely on it.
    have later (kept' : T.Kept next.state) :
        (next.askAll calls).1 = calls.map fun c => w.answer c.1 c.2 := by
      have same : next = ⟨w.env, next.state⟩ := congrArg (Matcher.mk · next.state) env
      rw [same]
      exact ih (fun c hc => inexcusable c (List.mem_cons_of_mem _ hc))
        (grows.lexicon.trans lexicon) kept'
    rcases come kept with ⟨answered, kept'⟩ | ⟨f, failed, excused⟩
    · have first : w.answer q pos = ((⟨w.env, s⟩ : Matcher).ask q pos).1 :=
        answered.trans (congrFun Except.map_id _)
      rw [List.map_cons, ← later kept', first]
      rfl
    · exact absurd excused (inexcusable _ List.mem_cons_self f _ failed)

end Match

/-! ## 2. The answers of fresh matchers -/

section Fresh

variable {text : Text} {registry : Option Registry} {actions : Actions} {settings : Settings}

/-- A query that is answered directly is answered so by plain recursion that gives up where an
    atomic rule is being matched. -/
theorem Query.Direct.answer {q : Query} {pos : Int} (memoize : Bool)
    (direct : q.Direct text registry actions settings pos) :
    (Basis.strict ⟨text, actions, { settings with memoize }⟩ (.of registry)).answer q pos =
      (q.fresh text registry actions settings false pos).1 := by
  let w : Basis := .strict ⟨text, actions, { settings with memoize := false }⟩ (.of registry)
  have same : (w.under { settings with memoize }).answer q pos = w.answer q pos :=
    answer_under (by rfl) (by rfl) q pos
  rcases ask_start (w := w) (.entered _ _ _ rfl) rfl q pos with ⟨off, _⟩ | ⟨f, _, _, entered⟩
  · exact same.trans off
  · exact absurd entered direct.1

/-- Without kept results each call is answered as on a fresh matcher. -/
theorem askAll_unkept (calls : List (Query × Int)) :
    ((Matcher.start text registry actions { settings with memoize := false }).askAll calls).1 =
      calls.map fun c => (c.1.fresh text registry actions settings false c.2).1 := by
  let env : Env := ⟨text, actions, { settings with memoize := false }⟩
  let T : Terms (Basis.of env (.of registry)) := Terms.unkept env (.of registry) rfl
  have inexcusable : ∀ c ∈ calls, ∀ f s,
      (Basis.of env (.of registry)).answer c.1 c.2 = .error f → ¬T.excuse f s :=
    fun _ _ _ _ _ excused => excused
  have all := askAll_answers T inexcusable rfl (kept_start T registry)
  refine all.trans (List.map_congr_left fun c _ => ?_)
  rcases ask_start T rfl c.1 c.2 with ⟨answered, _⟩ | ⟨f, _, excused⟩
  · exact answered
  · exact absurd excused id

/-- With kept results each call is answered as on a fresh matcher if all calls are answered
    directly. -/
theorem askAll_kept (built : ∀ r ∈ registry, r.Built) (unlimited : settings.maxDepth = none)
    {calls : List (Query × Int)}
    (direct : ∀ c ∈ calls, c.1.Direct text registry actions settings c.2) :
    ((Matcher.start text registry actions { settings with memoize := true }).askAll calls).1 =
      calls.map fun c => (c.1.fresh text registry actions settings true c.2).1 := by
  let env : Env := ⟨text, actions, { settings with memoize := true }⟩
  let T := Terms.kept env (.of registry) (Lexicon.named_of built)
  have inexcusable : ∀ c ∈ calls, ∀ f s,
      (Basis.strict env (.of registry)).answer c.1 c.2 = .error f → ¬T.excuse f s := by
    intro c hc f s failed excused
    have off := (direct c hc).answer true
    rcases excused with rfl | ⟨limited, _⟩
    · exact (direct c hc).2 (off.symm.trans failed)
    · exact limited unlimited
  have all := askAll_answers T inexcusable rfl (kept_start T registry)
  refine all.trans (List.map_congr_left fun c hc => ?_)
  rcases ask_start T rfl c.1 c.2 with ⟨answered, _⟩ | ⟨f, failed, excused⟩
  · exact answered
  · exact absurd excused (inexcusable c hc f _ failed)

/-- **A call does not depend on the calls before it**, if no results are kept, or if nesting is
    not limited and every call is answered directly. -/
theorem askAll_fresh (built : ∀ r ∈ registry, r.Built) (memoize : Bool) (calls : List (Query × Int))
    (direct : memoize = true → settings.maxDepth = none ∧
      ∀ c ∈ calls, c.1.Direct text registry actions settings c.2) :
    ((Matcher.start text registry actions { settings with memoize }).askAll calls).1 =
      calls.map fun c => (c.1.fresh text registry actions settings memoize c.2).1 := by
  cases memoize with
  | false => exact askAll_unkept calls
  | true => exact askAll_kept built (direct rfl).1 (direct rfl).2

end Fresh

/-- One rule after the other, where the second is nothing but a call of the first. -/
def nestedCalls : List (Query × Int) := [(.rule "gap" false, 0), (.rule "line" false, 0)]

theorem nestedCalls_direct :
    ∀ c ∈ nestedCalls, c.1.Direct #[] (some nested) {} {} c.2 := by
  have direct (rule : Rule) (name : String)
      (plain : (Basis.refusing ⟨#[], {}, { ({} : Settings) with memoize := false }⟩
        (.of (some nested)) .stackExhausted).answer (.rule name false) 0 =
          .ok (some ⟨0, rule.emptyCapture⟩)) :
      (Query.rule name false).Direct #[] (some nested) {} {} 0 := by
    obtain ⟨once, off⟩ := Query.fresh_once plain nofun
    refine ⟨once, ?_⟩
    rw [off]
    exact nofun
  refine List.forall_mem_cons.mpr ⟨direct gapRule "gap" rfl, ?_⟩
  exact List.forall_mem_singleton.mpr (direct lineRule "line" rfl)

/-- The second call uses what the first one kept, and is answered as on a fresh matcher. -/
theorem askAll_fresh_nested :
    (∀ r ∈ some nested, r.Built) ∧ ({} : Settings).maxDepth = none ∧
      (∀ c ∈ nestedCalls, c.1.Direct #[] (some nested) {} {} c.2) ∧
      ((Matcher.start #[] (some nested) {} { ({} : Settings) with memoize := true }).askAll
          nestedCalls).1 =
        nestedCalls.map fun c => (c.1.fresh #[] (some nested) {} {} true c.2).1 :=
  ⟨nested_built, rfl, nestedCalls_direct,
    askAll_fresh nested_built true nestedCalls fun _ => ⟨rfl, nestedCalls_direct⟩⟩

/-! ## 3. Rules that call themselves by way of each other -/

/-- A rule for what the other matches, or the letter `a`. -/
def headRule : Rule :=
  ⟨"head", .token, .alternation .ordered [.plainRef "tail", .literal ['a'] false], .none⟩

/-- A rule for what the other matches, followed by the letter `y`. -/
def tailRule : Rule :=
  ⟨"tail", .token, .sequence [.plainRef "head", .literal ['y'] false], .none⟩

/-- The two rules. -/
def crossing : Registry :=
  (Registry.empty.put "head" (.compiled headRule)).put "tail" (.compiled tailRule)

theorem crossing_built : ∀ r ∈ some crossing, r.Built := by
  have head : Registry.empty.define "head" (.now (.pattern headRule.pattern)) .token .none =
      .ok (Registry.empty.put "head" (.compiled headRule)) := rfl
  have tail : (Registry.empty.put "head" (.compiled headRule)).define "tail"
      (.now (.pattern tailRule.pattern)) .token .none = .ok crossing := rfl
  rintro r ⟨⟩
  exact .define (.define .empty head) tail

/-- What is given to a matcher for the two letters. -/
def crossingEnv : Env := ⟨#['a', 'y'], {}, {}⟩

/-- The capture of a rule from the start of the text on, with nothing captured in it. -/
def Rule.plainCapture (rule : Rule) (stop : Int) : Capture :=
  .build (some (.name rule.name)) 0 stop rule.plural (some rule.name) []

/-- The first rule matches the letter, and it is kept that the second one does not match: it was
    tried where the first one was being matched. -/
theorem seek_head : ∃ s,
    seek crossingEnv [] none [⟨[.call "head" (some (.name "head")) 1], 0, []⟩]
        { registry := some crossing } =
      .ok (some (⟨1, [(.name "head", headRule.plainCapture 1)]⟩, [])) s ∧
    s.registry = some crossing ∧ s.memo[("tail", (0 : Int))]? = some none := by
  let s₁ : State :=
    { registry := some crossing, ruleCalls := 3, peakDepth := 5, trace := [.reentered "head" 0] }
  let s₂ : State := { s₁ with
    memo := s₁.memo.insert ("tail", 0) none, trace := .settled "tail" 0 :: s₁.trace }
  let s₃ : State := { s₂ with
    memo := s₂.memo.insert ("head", 0) (some (1, headRule.plainCapture 1)),
    trace := .settled "head" 0 :: s₂.trace }
  let later : Thread := ⟨[.part (.literal ['a'] false) 3], 0, []⟩
  have tail : seek crossingEnv [("tail", 0), ("head", 0)] none
      [⟨[.part tailRule.pattern 4], 0, []⟩]
      { registry := some crossing, ruleCalls := 2, peakDepth := 3 } = .ok none s₁ :=
    calc
      _ = seek crossingEnv [("tail", 0), ("head", 0)] none
          [⟨[.part (.plainRef "head") 5, .part (.literal ['y'] false) 5], 0, []⟩]
          { registry := some crossing, ruleCalls := 2, peakDepth := 4 } :=
        seek_step (fun _ => rfl) rfl
      _ = seek crossingEnv [("tail", 0), ("head", 0)] none
          [⟨[.call "head" none 5, .part (.literal ['y'] false) 5], 0, []⟩]
          { registry := some crossing, ruleCalls := 2, peakDepth := 5 } :=
        seek_step (fun _ => rfl) rfl
      _ = seek crossingEnv [("tail", 0), ("head", 0)] none [] s₁ :=
        (seek_entered (by decide) rfl rfl rfl Std.HashMap.getElem?_empty (by decide)).trans rfl
      _ = _ := by rw [seek.eq_1]; rfl
  have head : seek crossingEnv [("head", 0)] none [⟨[.part headRule.pattern 2], 0, []⟩]
      { registry := some crossing, ruleCalls := 1 } = .ok (some (⟨1, []⟩, [])) s₂ :=
    calc
      _ = seek crossingEnv [("head", 0)] none [⟨[.part (.plainRef "tail") 3], 0, []⟩, later]
          { registry := some crossing, ruleCalls := 1, peakDepth := 2 } :=
        seek_step (fun _ => rfl) rfl
      _ = seek crossingEnv [("head", 0)] none [⟨[.call "tail" none 3], 0, []⟩, later]
          { registry := some crossing, ruleCalls := 1, peakDepth := 3 } :=
        seek_step (fun _ => rfl) rfl
      _ = seek crossingEnv [("head", 0)] none [later] s₂ :=
        (seek_vain (by decide) rfl rfl rfl Std.HashMap.getElem?_empty (by decide) tail).trans rfl
      _ = seek crossingEnv [("head", 0)] none [⟨[], 1, []⟩] s₂ := seek_step (fun _ => rfl) rfl
      _ = _ := by rw [seek.eq_2]; rfl
  refine ⟨s₃, ?_, rfl, ?_⟩
  · calc
      _ = seek crossingEnv [] none [⟨[], 1, [(.name "head", headRule.plainCapture 1)]⟩] s₃ :=
        (seek_fresh (by decide) rfl rfl rfl Std.HashMap.getElem?_empty rfl head rfl).trans rfl
      _ = _ := by rw [seek.eq_2]; rfl
  · show ((s₁.memo.insert ("tail", (0 : Int)) none).insert ("head", (0 : Int)) _)[_]? = _
    rw [Std.HashMap.getElem?_insert, if_neg (by decide)]
    exact Std.HashMap.getElem?_insert_self

/-- For a matcher that has kept nothing yet, the second rule matches both letters. -/
theorem seek_tail : ∃ s,
    seek crossingEnv [] none [⟨[.call "tail" (some (.name "tail")) 1], 0, []⟩]
        { registry := some crossing } =
      .ok (some (⟨2, [(.name "tail", tailRule.plainCapture 2)]⟩, [])) s := by
  let s₁ : State :=
    { registry := some crossing, ruleCalls := 3, peakDepth := 5, trace := [.reentered "tail" 0] }
  let s₂ : State := { s₁ with
    memo := s₁.memo.insert ("head", 0) (some (1, headRule.plainCapture 1)),
    trace := .settled "head" 0 :: s₁.trace }
  let s₃ : State := { s₂ with
    memo := s₂.memo.insert ("tail", 0) (some (2, tailRule.plainCapture 2)),
    trace := .settled "tail" 0 :: s₂.trace }
  let later : Thread := ⟨[.part (.literal ['a'] false) 5], 0, []⟩
  have head : seek crossingEnv [("head", 0), ("tail", 0)] none
      [⟨[.part headRule.pattern 4], 0, []⟩]
      { registry := some crossing, ruleCalls := 2, peakDepth := 3 } =
        .ok (some (⟨1, []⟩, [])) s₁ :=
    calc
      _ = seek crossingEnv [("head", 0), ("tail", 0)] none
          [⟨[.part (.plainRef "tail") 5], 0, []⟩, later]
          { registry := some crossing, ruleCalls := 2, peakDepth := 4 } :=
        seek_step (fun _ => rfl) rfl
      _ = seek crossingEnv [("head", 0), ("tail", 0)] none [⟨[.call "tail" none 5], 0, []⟩, later]
          { registry := some crossing, ruleCalls := 2, peakDepth := 5 } :=
        seek_step (fun _ => rfl) rfl
      _ = seek crossingEnv [("head", 0), ("tail", 0)] none [later] s₁ :=
        (seek_entered (by decide) rfl rfl rfl Std.HashMap.getElem?_empty (by decide)).trans rfl
      _ = seek crossingEnv [("head", 0), ("tail", 0)] none [⟨[], 1, []⟩] s₁ :=
        seek_step (fun _ => rfl) rfl
      _ = _ := by rw [seek.eq_2]; rfl
  have tail : seek crossingEnv [("tail", 0)] none [⟨[.part tailRule.pattern 2], 0, []⟩]
      { registry := some crossing, ruleCalls := 1 } = .ok (some (⟨2, []⟩, [])) s₂ :=
    calc
      _ = seek crossingEnv [("tail", 0)] none
          [⟨[.part (.plainRef "head") 3, .part (.literal ['y'] false) 3], 0, []⟩]
          { registry := some crossing, ruleCalls := 1, peakDepth := 2 } :=
        seek_step (fun _ => rfl) rfl
      _ = seek crossingEnv [("tail", 0)] none
          [⟨[.call "head" none 3, .part (.literal ['y'] false) 3], 0, []⟩]
          { registry := some crossing, ruleCalls := 1, peakDepth := 3 } :=
        seek_step (fun _ => rfl) rfl
      _ = seek crossingEnv [("tail", 0)] none [⟨[.part (.literal ['y'] false) 3], 1, []⟩] s₂ :=
        (seek_fresh (by decide) rfl rfl rfl Std.HashMap.getElem?_empty (by decide) head
          rfl).trans rfl
      _ = seek crossingEnv [("tail", 0)] none [⟨[], 2, []⟩] s₂ := seek_step (fun _ => rfl) rfl
      _ = _ := by rw [seek.eq_2]; rfl
  refine ⟨s₃, ?_⟩
  calc
    _ = seek crossingEnv [] none [⟨[], 2, [(.name "tail", tailRule.plainCapture 2)]⟩] s₃ :=
      (seek_fresh (by decide) rfl rfl rfl Std.HashMap.getElem?_empty rfl tail rfl).trans rfl
    _ = _ := by rw [seek.eq_2]; rfl

/-- What a matcher keeps after it has noted the end of a run. -/
def Match.State.noted (s : State) (name : String) (pos : Int) (matched : Bool) : State :=
  { s with trace := .ran name pos matched s.ruleCalls s.memoHits s.peakDepth :: s.trace }

/-- Asking for a rule is the search for it: what is found is read off its solution. -/
theorem Matcher.ask_rule {env : Env} {name : String} {pos : Int} {s s' : State}
    {found : Option (Solution × Agenda)} {answer : Option Found}
    (h : seek env [] none [⟨[.call name (some (.name name)) 1], pos, []⟩] s = .ok found s')
    (read : found.bind (fun r => (Query.rule name false).found pos r.1) = answer) :
    Matcher.ask ⟨env, s⟩ (.rule name false) pos =
      (.ok answer, ⟨env, s'.noted name pos answer.isSome⟩) := by
  have run : Matcher.runRule env name pos false s =
      .ok answer (s'.noted name pos answer.isSome) := by
    unfold Matcher.runRule
    refine (Run.bind_ok h).trans ?_
    rw [← read]
    rcases found with _ | ⟨⟨stop, _ | ⟨c, captured⟩⟩, rest⟩ <;> rfl
  show Matcher.advance ⟨env, s⟩ (Matcher.runRule env name pos false) = _
  unfold Matcher.advance
  simp only [run]

/-- A lookup that leaves the registry as it was leaves everything as it was. -/
theorem Match.Run.lookup_ok {name : String} {rule : Rule} {r : Registry} {s : State}
    (registry : s.registry = some r) (known : Registry.rule name r = .ok rule r) :
    Run.lookup name s = .ok rule s := by
  cases s
  subst registry
  unfold Run.lookup
  simp only [known]

/-- Where it is kept that the second rule does not match, it does not match. -/
theorem seek_tail_refused {s : State} (registry : s.registry = some crossing)
    (kept : s.memo[("tail", (0 : Int))]? = some none) :
    ∃ s', seek crossingEnv [] none [⟨[.call "tail" (some (.name "tail")) 1], 0, []⟩] s =
      .ok none s' := by
  have known : Run.lookup "tail" s = .ok tailRule s := Run.lookup_ok registry rfl
  have room : 1 ≤ crossingEnv.settings.room := by decide
  refine ⟨{ s with ruleCalls := s.ruleCalls + 1, memoHits := s.memoHits + 1 }, ?_⟩
  calc
    _ = seek crossingEnv [] none [] _ := seek_refused room known rfl rfl kept
    _ = _ := by rw [seek.eq_1]; rfl

/-- **With kept results a call may depend on the calls before it**: after the first rule the
    second one does not match, though for a fresh matcher it does. -/
theorem askAll_forgets :
    (∀ r ∈ some crossing, r.Built) ∧
      ((Matcher.start #['a', 'y'] (some crossing) {} {}).askAll
          [(.rule "head" false, 0), (.rule "tail" false, 0)]).1 =
        [.ok (some ⟨1, headRule.plainCapture 1⟩), .ok none] ∧
      ((Query.rule "tail" false).fresh #['a', 'y'] (some crossing) {} {} true 0).1 =
        .ok (some ⟨2, tailRule.plainCapture 2⟩) := by
  refine ⟨crossing_built, ?_, ?_⟩
  · obtain ⟨s, head, registry, kept⟩ := seek_head
    obtain ⟨s', tail⟩ := seek_tail_refused (s := s.noted "head" 0 true) registry kept
    have first : (Matcher.start #['a', 'y'] (some crossing) {} {}).ask (.rule "head" false) 0 =
        (.ok (some ⟨1, headRule.plainCapture 1⟩), ⟨crossingEnv, s.noted "head" 0 true⟩) :=
      Matcher.ask_rule head rfl
    have second := Matcher.ask_rule tail rfl
    unfold Matcher.askAll
    simp only [first]
    unfold Matcher.askAll
    simp only [second]
    rfl
  · obtain ⟨s, tail⟩ := seek_tail
    exact congrArg Prod.fst (Matcher.ask_rule tail rfl)

end GrammarMatch
