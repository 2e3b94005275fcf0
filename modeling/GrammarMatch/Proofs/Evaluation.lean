/-
  File:      GrammarMatch/Proofs/Evaluation.lean
  Subject:   Callbacks fold the tree and never change it.

  Callbacks run while a match is searched for, also on what is given up later, and not again for a
  result that was kept. The tree they leave behind is nevertheless the one that is found without
  them, evaluated from the leaves to the root (`callbacks_fold`): a search with callbacks goes in
  step with the same search without them, as long as each callback answers with a value.
-/
import GrammarMatch.Proofs.Lockstep
import GrammarMatch.Proofs.StaticShape

namespace GrammarMatch

/-! ## 1. Evaluation of a tree -/

namespace Capture

mutual

/-- The tree without the values attached in it. -/
def bare : Capture → Capture
  | .node label children => .node { label with made := none } (bareAll children)

/-- The captures of a scope without the values attached in them. -/
def bareAll : List (CaptureKey × Capture) → List (CaptureKey × Capture)
  | [] => []
  | (key, c) :: rest => (key, c.bare) :: bareAll rest

end

mutual

/-- The tree evaluated from the leaves to the root: the callback of a rule is run on its capture
    when all that is inside has been evaluated. -/
def evaluate (actions : Actions) (text : Text) : Capture → Except Failure Capture
  | .node label children =>
    (evaluateAll actions text children).bind fun children =>
      match label.rule with
      | some rule => actions.invoke text rule (.node label children)
      | none => .ok (.node label children)

/-- The captures of a scope, each evaluated. -/
def evaluateAll (actions : Actions) (text : Text) :
    List (CaptureKey × Capture) → Except Failure (List (CaptureKey × Capture))
  | [] => .ok []
  | (key, c) :: rest =>
    (c.evaluate actions text).bind fun c =>
      (evaluateAll actions text rest).map fun rest => (key, c) :: rest

end

/-- The capture without the value attached to it; what is inside keeps its values. -/
def unmade : Capture → Capture
  | .node label children => .node { label with made := none } children

/-- A value is attached to a capture if and only if it is one of a rule that has a callback, and
    the value is what the callback answers for the capture with all that is inside evaluated. -/
structure MadeBy (actions : Actions) (text : Text) (c : Capture) : Prop where
  made : c.label.made.isSome = true ↔
    ∃ rule, c.label.rule = some rule ∧ actions.hasAction rule = true
  value {rule : String} {callback : Callback} (hr : c.label.rule = some rule)
    (found : actions.find? rule = some callback) :
    ∃ v, callback text c.unmade = .ok v ∧ c.label.made = some v

variable {actions : Actions} {text : Text}

/-- What running the callback of a rule comes to. -/
theorem invoke_cases {rule : String} {c c' : Capture} (h : actions.invoke text rule c = .ok c') :
    (actions.find? rule = none ∧ c' = c) ∨
      ∃ callback v, actions.find? rule = some callback ∧ callback text c = .ok v ∧
        c' = c.make v := by
  unfold Actions.invoke at h
  cases found : actions.find? rule with
  | none =>
    rw [found] at h
    exact .inl ⟨rfl, (Except.ok.inj h).symm⟩
  | some callback =>
    rw [found] at h
    simp only at h
    split at h
    next v answered => exact .inr ⟨callback, v, rfl, answered, (Except.ok.inj h).symm⟩
    next => cases h
    next => cases h

theorem evaluate_node {label : Label} {children : List (CaptureKey × Capture)} {c : Capture}
    (h : (Capture.node label children).evaluate actions text = .ok c) :
    ∃ inner, evaluateAll actions text children = .ok inner ∧
      ((c = .node label inner ∧ ∀ rule, label.rule = some rule → actions.find? rule = none) ∨
        ∃ rule callback v, label.rule = some rule ∧ actions.find? rule = some callback ∧
          callback text (.node label inner) = .ok v ∧
            c = .node { label with made := some v } inner) := by
  unfold evaluate at h
  cases all : evaluateAll actions text children with
  | error f =>
    rw [all] at h
    cases h
  | ok inner =>
    rw [all] at h
    refine ⟨inner, rfl, ?_⟩
    simp only [Except.bind] at h
    rcases Option.eq_none_or_eq_some label.rule with hr | ⟨rule, hr⟩
    · rw [hr] at h
      exact .inl ⟨(Except.ok.inj h).symm, fun rule same => by rw [hr] at same; cases same⟩
    · rw [hr] at h
      rcases invoke_cases h with ⟨none, rfl⟩ | ⟨callback, v, found, answered, rfl⟩
      · refine .inl ⟨rfl, fun rule' same => ?_⟩
        cases hr.symm.trans same
        exact none
      · exact .inr ⟨rule, callback, v, hr, found, answered, rfl⟩

theorem evaluateAll_cons {key : CaptureKey} {c : Capture} {rest l : List (CaptureKey × Capture)}
    (h : evaluateAll actions text ((key, c) :: rest) = .ok l) :
    ∃ c' rest', c.evaluate actions text = .ok c' ∧ evaluateAll actions text rest = .ok rest' ∧
      l = (key, c') :: rest' := by
  unfold evaluateAll at h
  cases first : c.evaluate actions text with
  | error f =>
    rw [first] at h
    cases h
  | ok c' =>
    cases later : evaluateAll actions text rest with
    | error f =>
      rw [first, later] at h
      cases h
    | ok rest' =>
      rw [first, later] at h
      exact ⟨c', rest', rfl, rfl, (Except.ok.inj h).symm⟩

mutual

/-- Evaluation attaches values and changes nothing else. -/
theorem bare_evaluate {c' : Capture} (c : Capture) (h : c.evaluate actions text = .ok c') :
    c'.bare = c.bare := by
  cases c with
  | node label children =>
    obtain ⟨inner, all, h⟩ := evaluate_node h
    have alike := bare_evaluateAll children all
    rcases h with ⟨rfl, _⟩ | ⟨_, _, _, _, _, _, rfl⟩
    · simp only [bare, alike]
    · simp only [bare, alike]

theorem bare_evaluateAll {l' : List (CaptureKey × Capture)} (l : List (CaptureKey × Capture))
    (h : evaluateAll actions text l = .ok l') : bareAll l' = bareAll l := by
  cases l with
  | nil =>
    cases h
    rfl
  | cons e rest =>
    obtain ⟨c', rest', first, later, rfl⟩ := evaluateAll_cons h
    simp only [bareAll]
    rw [bare_evaluate e.2 first, bare_evaluateAll rest later]

end

mutual

/-- **What evaluation leaves in a tree** that had no values before. -/
theorem madeBy_evaluate {c' : Capture} (c : Capture) (plain : c.bare = c)
    (h : c.evaluate actions text = .ok c') : ∀ n ∈ c'.walk, n.MadeBy actions text := by
  cases c with
  | node label children =>
    unfold bare at plain
    injection plain with blank inside
    have unmade : label.made = none := by rw [← blank]
    obtain ⟨inner, all, h⟩ := evaluate_node h
    have below := madeBy_evaluateAll children inside all
    rcases h with ⟨rfl, silent⟩ | ⟨rule, callback, v, hr, found, answered, rfl⟩
    · refine List.forall_mem_cons.mpr ⟨⟨?_, fun hr found => ?_⟩, below⟩
      · refine ⟨fun made => ?_, fun ⟨rule, hr, has⟩ => ?_⟩
        · rw [show (Capture.node label inner).label.made = none from unmade] at made
          cases made
        · rw [Actions.hasAction, silent rule hr] at has
          cases has
      · rw [silent _ hr] at found
        cases found
    · refine List.forall_mem_cons.mpr ⟨⟨?_, fun hr' found' => ?_⟩, below⟩
      · exact ⟨fun _ => ⟨rule, hr, by rw [Actions.hasAction, found]; rfl⟩, fun _ => rfl⟩
      · cases hr.symm.trans hr'
        cases found.symm.trans found'
        refine ⟨v, ?_, rfl⟩
        have same : (Capture.node { label with made := some v } inner).unmade =
            .node label inner := congrArg (Capture.node · inner) blank
        rw [same]
        exact answered

theorem madeBy_evaluateAll {l' : List (CaptureKey × Capture)} (l : List (CaptureKey × Capture))
    (plain : bareAll l = l) (h : evaluateAll actions text l = .ok l') :
    ∀ n ∈ walkAll l', n.MadeBy actions text := by
  cases l with
  | nil =>
    cases h
    exact List.forall_mem_nil _
  | cons e rest =>
    obtain ⟨c', rest', first, later, rfl⟩ := evaluateAll_cons h
    unfold bareAll at plain
    injection plain with head tail
    have plain : e.2.bare = e.2 := congrArg Prod.snd head
    intro n hn
    rcases List.mem_append.mp hn with hn | hn
    · exact madeBy_evaluate e.2 plain first n hn
    · exact madeBy_evaluateAll rest tail later n hn

end

end Capture

/-! ## 2. Searches -/

namespace Match

/-- A capture of the search with callbacks is one of the search without them, evaluated. -/
def Evaluates (actions : Actions) (text : Text) (c plain : Capture) : Prop :=
  plain.evaluate actions text = .ok c ∧ plain.bare = plain

/-- States of the two searches that belong together: the kept results correspond, and all else
    is the same but for the trace, in which the callbacks leave notes. -/
structure Apart (actions : Actions) (text : Text) (s s' : State) : Prop where
  registry : s.registry = s'.registry
  ruleCalls : s.ruleCalls = s'.ruleCalls
  memoHits : s.memoHits = s'.memoHits
  peakDepth : s.peakDepth = s'.peakDepth
  peakPos : s.peakPos = s'.peakPos
  memo (key : String × Int) : Option.Rel
    (Option.Rel fun v v' => v.1 = v'.1 ∧ Evaluates actions text v.2 v'.2) s.memo[key]? s'.memo[key]?

/-- What belongs together with callbacks and without them. -/
def evaluated (actions : Actions) (text : Text) : Correspondence where
  same := Apart actions text
  captures := Evaluates actions text
  stops _ := False
  part _ := True
  level _ := True

section Steps

variable {actions : Actions} {text : Text}

open Correspondence

theorem evaluateAll_captured {captured captured' : Captured}
    (h : (evaluated actions text).captured captured captured') :
    Capture.evaluateAll actions text captured' = .ok captured ∧
      Capture.bareAll captured' = captured' := by
  induction h with
  | nil => exact ⟨rfl, rfl⟩
  | @cons e e' rest rest' he _ ih =>
    obtain ⟨key, c⟩ := e
    obtain ⟨key', c'⟩ := e'
    obtain ⟨rfl, evaluates, plain⟩ := he
    unfold Capture.evaluateAll Capture.bareAll
    rw [evaluates, ih.1, plain, ih.2]
    exact ⟨rfl, rfl⟩

/-- What evaluation does to a capture that is built from captures inside it. -/
theorem evaluate_build {name : Option CaptureKey} {start stop : Int} {plural : List CaptureKey}
    {rule : Option String} {captured captured' : Captured}
    (h : (evaluated actions text).captured captured captured') :
    (Capture.build name start stop plural rule captured').evaluate actions text =
        (match rule with
          | some rule => actions.invoke text rule (.build name start stop plural rule captured)
          | none => .ok (.build name start stop plural none captured)) ∧
      (Capture.build name start stop plural rule captured').bare =
        .build name start stop plural rule captured' := by
  obtain ⟨all, plain⟩ := evaluateAll_captured (List.forall₂_reverse_iff.mpr h)
  unfold Capture.build Capture.evaluate Capture.bare
  rw [all, plain]
  cases rule with
  | none => exact ⟨rfl, rfl⟩
  | some rule => exact ⟨rfl, rfl⟩

theorem Apart.entered {s s' : State} (same : Apart actions text s s') (depth : Nat) (pos : Int) :
    Apart actions text (s.entered depth pos) (s'.entered depth pos) := by
  unfold State.entered
  rw [same.peakDepth]
  split
  · exact { same with peakDepth := rfl, peakPos := rfl }
  · exact same

theorem apart_enter {env env' : Env} (limit : env'.settings.maxDepth = env.settings.maxDepth)
    {depth : Nat} {pos : Int} {s s' : State} (same : Apart actions text s s') :
    (evaluated actions text).Pace (fun _ _ => True) (Run.enter env depth pos s)
      (Run.enter env' depth pos s') := by
  have entered := same.entered depth pos
  rw [Run.enter_eq, Run.enter_eq, limit]
  cases env.settings.maxDepth with
  | none => exact .ok trivial entered
  | some limit =>
    by_cases beyond : limit < depth
    · simp only [if_pos beyond]
      exact .failed entered
    · simp only [if_neg beyond]
      exact .ok trivial entered

theorem apart_lookup (name : String) {s s' : State} (same : Apart actions text s s') :
    (evaluated actions text).Pace Eq (Run.lookup name s) (Run.lookup name s') := by
  unfold Run.lookup
  rw [← same.registry]
  cases s.registry with
  | none => exact .failed same
  | some r =>
    simp only
    cases Registry.rule name r with
    | ok rule r' => exact .ok rfl { same with registry := rfl }
    | error f r' => exact .failed { same with registry := rfl }

theorem apart_remembered {env env' : Env} (memoize : env'.settings.memoize = env.settings.memoize)
    (name : String) (pos : Int) {s s' : State} (same : Apart actions text s s') :
    (evaluated actions text).Pace (Option.Rel (evaluated actions text).verdict)
      (Run.remembered env name pos s) (Run.remembered env' name pos s') := by
  unfold Run.remembered
  rw [memoize]
  by_cases hm : env.settings.memoize = true
  · simp only [if_pos hm]
    have kept := same.memo (name, pos)
    simp only [bind, EStateM.bind, get, getThe, MonadStateOf.get, EStateM.get]
    generalize s.memo[(name, pos)]? = v at kept ⊢
    generalize s'.memo[(name, pos)]? = v' at kept ⊢
    cases kept with
    | none => exact .ok .none same
    | some h =>
      exact .ok (.some h) { same with memoHits := congrArg (· + 1) same.memoHits }
  · simp only [if_neg hm]
    exact .ok .none same

theorem apart_settle {env env' : Env} (memoize : env'.settings.memoize = env.settings.memoize)
    (name : String) (pos : Int) {v v' : Verdict} (hv : (evaluated actions text).verdict v v')
    {s s' : State} (same : Apart actions text s s') :
    (evaluated actions text).Pace Eq (Run.settle env name pos v s)
      (Run.settle env' name pos v' s') := by
  unfold Run.settle
  rw [memoize]
  by_cases hm : env.settings.memoize = true
  · simp only [if_pos hm]
    refine .ok rfl { same with memo := fun key => ?_ }
    rw [Std.HashMap.getElem?_insert, Std.HashMap.getElem?_insert]
    split
    · exact .some hv
    · exact same.memo key
  · simp only [if_neg hm]
    exact .ok rfl { same with }

/-- A rule is finished to what it is finished to without its callback, evaluated. -/
theorem apart_finish {env : Env} {rule : Rule} {opened stop : Int} {captured captured' : Captured}
    {s s' : State} (returns : ∃ c, env.actions.invoke env.text rule.name
      (node rule opened stop captured) = .ok c)
    (caps : (evaluated env.actions env.text).captured captured captured')
    (same : Apart env.actions env.text s s') :
    (evaluated env.actions env.text).Pace (Evaluates env.actions env.text)
      (Run.finish env rule opened stop captured s)
      (Run.finish { env with actions := {} } rule opened stop captured' s') := by
  obtain ⟨c, returns⟩ := returns
  have built : (node rule opened stop captured').evaluate env.actions env.text =
      env.actions.invoke env.text rule.name (node rule opened stop captured) ∧
        (node rule opened stop captured').bare = node rule opened stop captured' :=
    evaluate_build caps
  have result : Evaluates env.actions env.text c (node rule opened stop captured') :=
    ⟨built.1.trans returns, built.2⟩
  have silent : Run.finish { env with actions := {} } rule opened stop captured' s' =
      .ok (node rule opened stop captured') s' := rfl
  rw [silent]
  have invoked : env.actions.invoke env.text rule.name (Capture.build (some (.name rule.name))
      opened stop rule.plural (some rule.name) captured) = .ok c := returns
  unfold Run.finish
  simp only
  rw [invoked]
  by_cases has : env.actions.hasAction rule.name = true
  · simp only [if_pos has]
    exact .ok result { same with }
  · simp only [if_neg has]
    exact .ok result same

end Steps

/-- **A search with callbacks goes in step with the same search without them**, if each callback
    answers with a value for the captures that are given to it. -/
theorem evaluated_lockstep {env : Env} {start : Moment} (returns : ∀ rule c,
      Given env start rule c → ∃ c', env.actions.invoke env.text rule.name c = .ok c') :
    Lockstep env { env with actions := {} } start (evaluated env.actions env.text) where
  text := rfl
  room := Nat.le_refl _
  full beyond room := absurd room (Nat.not_le.mpr beyond)
  first := ⟨trivial, trivial⟩
  next _ := trivial
  build h := evaluate_build h
  enter _ _ same := apart_enter rfl same
  lookup name _ _ same := apart_lookup name same
  space {s s'} same := by
    have space : Run.definesSpace s = .ok ((s.registry.map (·.defines "ws")).getD false) s := rfl
    have space' :
        Run.definesSpace s' = .ok ((s'.registry.map (·.defines "ws")).getD false) s' := rfl
    rw [space, space', same.registry]
    exact .ok rfl same
  count same := .ok rfl { same with ruleCalls := congrArg (· + 1) same.ruleCalls }
  remembered name pos _ _ same := apart_remembered rfl name pos same
  reenter name pos _ _ same := .ok rfl { same with }
  settle name pos _ _ _ _ hv same := apart_settle rfl name pos hv same
  finish given caps same := apart_finish (returns _ _ given) caps same
  note name pos matched _ _ same := .ok rfl { same with }

end Match

/-! ## 3. Matchers -/

open Match

/-- Each callback answers with a value for the captures that are given to it when a matcher is
    asked. -/
def Matcher.Returns (m : Matcher) (q : Query) (pos : Int) : Prop :=
  ∀ (rule : Rule) callback c, m.env.actions.find? rule.name = some callback →
    Given m.env ⟨[], q.target m.env.text, [⟨[q.goal], pos, []⟩], m.state⟩ rule c →
      ∃ v, callback m.env.text c = .ok v

/-- Two matchers, one with callbacks and one without them, that were asked for the same before,
    when each callback answered with a value. -/
inductive Matcher.Twins (text : Text) (registry : Option Registry) (actions : Actions)
    (settings : Settings) : Matcher → Matcher → Prop
  | start : Twins text registry actions settings (Matcher.start text registry actions settings)
      (Matcher.start text registry {} settings)
  | ask {m m' : Matcher} (h : Twins text registry actions settings m m') {q : Query} {pos : Int}
      (returns : m.Returns q pos) :
      Twins text registry actions settings (m.ask q pos).2 (m'.ask q pos).2

namespace Matcher

variable {text : Text} {registry : Option Registry} {actions : Actions} {settings : Settings}
  {m m' : Matcher}

theorem ask_apart {env : Env} {s s' : State} (same : Apart env.actions env.text s s') {q : Query}
    {pos : Int} (returns : Matcher.Returns ⟨env, s⟩ q pos) :
    (evaluated env.actions env.text).outcome (Matcher.ask ⟨env, s⟩ q pos).1
        (Matcher.ask ⟨{ env with actions := {} }, s'⟩ q pos).1 ∧
      Apart env.actions env.text (Matcher.ask ⟨env, s⟩ q pos).2.state
        (Matcher.ask ⟨{ env with actions := {} }, s'⟩ q pos).2.state := by
  have invoked (rule : Rule) (c : Capture) (given : Given env
      ⟨[], q.target env.text, [⟨[q.goal], pos, []⟩], s⟩ rule c) :
      ∃ c', env.actions.invoke env.text rule.name c = .ok c' := by
    unfold Actions.invoke
    cases found : env.actions.find? rule.name with
    | none => exact ⟨c, rfl⟩
    | some callback =>
      obtain ⟨v, answered⟩ := returns rule callback c found given
      simp only [answered]
      exact ⟨_, rfl⟩
  rcases @Lockstep.ask ⟨env, s⟩ ⟨{ env with actions := {} }, s'⟩ _ q pos
    (evaluated_lockstep invoked) rfl same with ⟨f, stops, _⟩ | both
  · exact absurd stops id
  · exact both

/-- Two such matchers keep what corresponds. -/
theorem Twins.apart (h : Twins text registry actions settings m m') :
    m.env = ⟨text, actions, settings⟩ ∧ m'.env = ⟨text, {}, settings⟩ ∧
      Apart actions text m.state m'.state := by
  induction h with
  | start =>
    refine ⟨rfl, rfl, ⟨rfl, rfl, rfl, rfl, rfl, fun key => ?_⟩⟩
    simp only [Matcher.start, Std.HashMap.getElem?_empty]
    exact .none
  | @ask m m' _ q pos returns ih =>
    obtain ⟨env, env', same⟩ := ih
    obtain ⟨_, s⟩ := m
    obtain ⟨_, s'⟩ := m'
    subst env env'
    exact ⟨ask_env _ q pos, ask_env _ q pos, (ask_apart same returns).2⟩

end Matcher

/-- **Callbacks fold the tree and never change it.** If they answer with a value for each capture
    that is given to them, a match with callbacks fails, finds nothing or ends as it does without
    them. Then its tree is the one that is found without them, evaluated from the leaves to the
    root: apart from the values it is the same, and the captures with a value are those of rules
    with a callback. This is so whatever the matcher was asked for before. -/
theorem callbacks_fold {text : Text} {registry : Option Registry} {actions : Actions}
    {settings : Settings} {m m' : Matcher}
    (twins : Matcher.Twins text registry actions settings m m')
    {q : Query} {pos : Int} (returns : m.Returns q pos) :
    (∀ f, (m.ask q pos).1 = .error f ↔ (m'.ask q pos).1 = .error f) ∧
    ((m.ask q pos).1 = .ok none ↔ (m'.ask q pos).1 = .ok none) ∧
    ∀ plain, (m'.ask q pos).1 = .ok (some plain) → ∃ c, (m.ask q pos).1 = .ok (some ⟨plain.stop, c⟩) ∧
      plain.capture.evaluate actions text = .ok c ∧ c.bare = plain.capture ∧
        ∀ n ∈ c.walk, n.MadeBy actions text := by
  obtain ⟨env, env', same⟩ := twins.apart
  obtain ⟨_, s⟩ := m
  obtain ⟨_, s'⟩ := m'
  subst env env'
  have outcome : (evaluated actions text).outcome
      (Matcher.ask ⟨⟨text, actions, settings⟩, s⟩ q pos).1
      (Matcher.ask ⟨⟨text, {}, settings⟩, s'⟩ q pos).1 := (Matcher.ask_apart same returns).1
  generalize (Matcher.ask ⟨⟨text, actions, settings⟩, s⟩ q pos).1 = acting at outcome ⊢
  generalize (Matcher.ask ⟨⟨text, {}, settings⟩, s'⟩ q pos).1 = plain at outcome ⊢
  cases outcome with
  | error f => exact ⟨fun _ => Iff.rfl, ⟨nofun, nofun⟩, nofun⟩
  | ok h =>
    cases h with
    | none => exact ⟨fun _ => ⟨nofun, nofun⟩, Iff.rfl, nofun⟩
    | @some u u' h =>
      refine ⟨fun _ => ⟨nofun, nofun⟩, ⟨nofun, nofun⟩, ?_⟩
      rintro _ ⟨⟩
      obtain ⟨stop, capture⟩ := u
      obtain ⟨rfl, evaluates, plain⟩ := h
      exact ⟨capture, rfl, evaluates, (Capture.bare_evaluate _ evaluates).trans plain,
        Capture.madeBy_evaluate _ plain evaluates⟩

/-- A callback for letters: the text covered. -/
def letterText : Actions := ⟨[("letter", Callback.text)]⟩

/-- A letter gets its text as its value. -/
theorem callbacks_fold_letter :
    let settings : Settings := ⟨none, false, 4000⟩
    let acting := Matcher.start #['a'] (some letters) letterText settings
    let plain := Matcher.start #['a'] (some letters) {} settings
    Matcher.Twins #['a'] (some letters) letterText settings acting plain ∧
      acting.Returns (.rule "letter" false) 0 ∧
        ∃ c, (acting.ask (.rule "letter" false) 0).1 = .ok (some ⟨1, c⟩) ∧
          c.label.made = some (.string "a") := by
  intro settings acting plain
  let w : Basis := .of ⟨#['a'], {}, settings⟩ (.of (some letters))
  have lexicon : w.lexicon = Lexicon.of (some letters) := rfl
  have asked : ∃ c, (plain.ask (.rule "letter" false) 0).1 = .ok (some ⟨1, c⟩) ∧
      ∃ c', c.evaluate letterText #['a'] = .ok c' ∧ c'.label.made = some (.string "a") := by
    rcases ask_start (w := w) (.unkept _ _ rfl) lexicon (.rule "letter" false) 0 with
      ⟨answered, _⟩ | ⟨f, _, excused⟩
    · exact ⟨_, answered.symm, _, rfl, rfl⟩
    · exact absurd excused id
  obtain ⟨c, found, c', value, made⟩ := asked
  have returns : acting.Returns (.rule "letter" false) 0 := by
    intro rule callback c found _
    have text : callback = Callback.text := by
      unfold acting Matcher.start letterText Actions.find? at found
      simp only [List.lookup_cons, List.lookup_nil] at found
      split at found
      · exact (Option.some.inj found).symm
      · cases found
    exact ⟨_, by rw [text]; rfl⟩
  have twins : Matcher.Twins #['a'] (some letters) letterText settings acting plain := .start
  obtain ⟨_, _, fold⟩ := callbacks_fold twins returns
  obtain ⟨c'', acted, evaluated, _⟩ := fold _ found
  cases value.symm.trans evaluated
  exact ⟨twins, returns, c', acted, made⟩

end GrammarMatch
