/-
  File:      GrammarMatch/Proofs/EntryPoints.lean
  Subject:   Grammars and finders, asked for the same rule.

  A rule can be asked for by its name, at a position or against a whole text, or by a pattern that
  is nothing but a reference to it. The pattern finds a capture of the same span, with nothing in
  it but the capture of the rule under its name (`Capture.Wraps`), or it finds nothing, or fails in
  the same way. The whole text is matched by the first solution that ends where it ends
  (`facade_agrees`).
-/
import GrammarMatch.Finder
import GrammarMatch.Grammar
import GrammarMatch.Proofs.Anchored
import GrammarMatch.Proofs.Memo
import GrammarMatch.Proofs.RoundTrip
import GrammarMatch.Proofs.Scopes

namespace GrammarMatch

open Match

/-! ## 1. Computations and their outcomes -/

namespace Match

variable {α β γ : Type} {s : State}

/-- The outcome of a matcher is that of its run. -/
theorem advance_fst (m : Matcher) (x : Run α) : (m.advance x).1 = x.outcome m.state := by
  unfold Matcher.advance Run.outcome
  cases x m.state with
  | ok a s => rfl
  | error f s => rfl

/-- After the same beginning, what comes to results that are read off each other does so as a
    whole. -/
theorem Run.outcome_after {x : Run α} {k : α → Run β} {l : α → Run γ} {g : β → γ}
    (h : ∀ a s', (l a).outcome s' = ((k a).outcome s').map g) :
    (x >>= l).outcome s = ((x >>= k).outcome s).map g := by
  unfold Run.outcome at *
  simp only [bind, EStateM.bind]
  cases x s with
  | ok a s' => exact h a s'
  | error f s' => rfl

/-- What is found for a query is read off the first solution of its goal. -/
theorem query_outcome (env : Env) (q : Query) (pos : Int) (s : State) :
    (q.run env pos).outcome s =
      ((firstOf env [] (q.target env.text) ⟨[q.goal], pos, []⟩).outcome s).map
        (·.bind (q.found pos)) := by
  have read {target : Option Int} {goal : Goal}
      {k : Option (Solution × Agenda) → Run (Option Found)}
      (h : ∀ found s', (k found).outcome s' =
        .ok ((found.map Prod.fst).bind (q.found pos))) :
      (seek env [] target [⟨[goal], pos, []⟩] >>= k).outcome s =
        ((firstOf env [] target ⟨[goal], pos, []⟩).outcome s).map (·.bind (q.found pos)) := by
    rw [firstOf_outcome, Run.outcome_map h]
    cases (seek env [] target [⟨[goal], pos, []⟩]).outcome s with
    | ok found => rfl
    | error f => rfl
  cases q with
  | pattern p => exact read fun found s' => by cases found <;> rfl
  | rule name anchored =>
    refine read fun found s' => ?_
    rcases found with _ | ⟨⟨stop, _ | ⟨c, captured⟩⟩, rest⟩ <;> rfl

/-! ## 2. A rule and a reference to it -/

section References

variable {env : Env} {target : Option Int} {name : String} {pos : Int}

/-- The first solution of a rule at a position. -/
def ruleAt (env : Env) (target : Option Int) (name : String) (pos : Int) : Run (Option Solution) :=
  firstOf env [] target ⟨[.call name (some (.name name)) 1], pos, []⟩

/-- A reference that captures its rule under the name of the rule. -/
def reference (name : String) : Pattern := .ruleRef ⟨name, none, true⟩

/-- The call of a rule comes to the same from states that agree. -/
theorem State.Agrees.ruleAt {s' : State} (same : s.Agrees env.settings.memoize 0 s') :
    (ruleAt env target name pos).outcome s = (ruleAt env target name pos).outcome s' := by
  have lockstep := agreeing_lockstep env
    ⟨[], target, [⟨[.call name (some (.name name)) 1], pos, []⟩], s⟩ 0 0
    (fun _ => False) (.inr rfl) fun h => absurd rfl h
  have found := Lockstep.pace_firstOf
    (lockstep.seek .refl (.cons ⟨.cons (.call trivial) .nil, rfl, .nil⟩ .nil) same)
  have exact := found.mono fun u u' h => show u = u' by
    cases h with
    | none => rfl
    | some h => exact congrArg some (Correspondence.solution_eq rfl h)
  rcases exact.outcome with ⟨f, stops, _⟩ | h
  · exact absurd stops id
  · exact h

/-- A reference calls its rule. -/
theorem firstOf_reference (unlimited : env.settings.maxDepth = none) (room : 1 ≤ env.bounds.room)
    (s : State) :
    (firstOf env [] target ⟨[.part (reference name) 1], pos, []⟩).outcome s =
      (ruleAt env target name pos).outcome s := by
  have called (solve) : expand env [] pos [] (.part (reference name) 1) solve s =
      .ok _ (s.entered 1 pos) := (expand_entered unlimited room _ solve).trans rfl
  have next : seek env [] target [⟨[.part (reference name) 1], pos, []⟩] s =
      seek env [] target [⟨[.call name (some (.name name)) 1], pos, []⟩] (s.entered 1 pos) :=
    seek_step called rfl
  rw [firstOf_outcome, Run.outcome_congr next, ← firstOf_outcome]
  exact (s.agrees_entered 1 pos).ruleAt.symm

/-- Looking up the rule first changes nothing, as the call looks it up again. -/
theorem ruleAt_checked (room : 1 ≤ env.bounds.room) (s : State) :
    (Run.lookup name >>= fun _ => ruleAt env target name pos).outcome s =
      (ruleAt env target name pos).outcome s := by
  have spec := Run.lookup_spec (s := s) name
  have uncounted := Run.lookup_uncounted (s := s) name
  cases known : Run.lookup name s with
  | ok rule s' =>
    have steady := (spec.ok known).1
    have same : s.Agrees env.settings.memoize 0 s' :=
      ⟨steady.lexicon, fun _ => steady.memo, uncounted.ok known⟩
    rw [Run.outcome_congr (Run.bind_ok known)]
    exact same.ruleAt.symm
  | error f s' =>
    have missing : expand env [] pos [] (.call name (some (.name name)) 1) (solver env) s =
        .error f s' := by
      rw [expand_call room]
      exact Run.bind_error known
    have failed : seek env [] target [⟨[.call name (some (.name name)) 1], pos, []⟩] s =
        .error f s' := by
      rw [seek_goal]
      exact Run.bind_error missing
    rw [Run.outcome_error (Run.bind_error known), ruleAt, firstOf_outcome,
      Run.outcome_error failed]
    rfl

/-- A rule captures nothing but itself, and ends where it has to. -/
theorem ruleAt_captured {s : State} (sound : s.Sound env.text) {u : Solution}
    (h : (ruleAt env target name pos).outcome s = .ok (some u)) :
    (∃ c, u.captured = [(.name name, c)]) ∧ accepts target u.stop = true := by
  rw [ruleAt, firstOf_outcome] at h
  cases sought : seek env [] target [⟨[.call name (some (.name name)) 1], pos, []⟩] s with
  | error f s' =>
    rw [Run.outcome_error sought] at h
    cases h
  | ok found s' =>
    rw [Run.outcome_ok sought] at h
    obtain ⟨r, rfl, rfl⟩ := Option.map_eq_some_iff.mp (Except.ok.inj h)
    exact called_captured sound sought

end References

end Match

/-! ## 3. The same outcome -/

/-- The capture of the whole covers a span, with nothing in it but one capture, under the name of
    its rule. -/
structure Capture.Wraps (root : Capture) (name : String) (start stop : Int) (tree : Capture) :
    Prop where
  start : root.label.start = start
  stop : root.label.stop = stop
  children : root.children = [tree]
  bound : root.get? (.name name) = some (.one tree)

/-- Two ways to ask come to results that correspond, or both find nothing, or both fail alike. -/
structure SameOutcome {α : Type} (corresponds : Capture → α → Prop)
    (rule : Except Failure (Option α)) (pattern : Except Failure (Option Capture)) : Prop where
  matched : ∀ a, rule = .ok (some a) ↔ ∃ root, pattern = .ok (some root) ∧ corresponds root a
  unmatched : rule = .ok none ↔ pattern = .ok none
  failed : ∀ f, rule = .error f ↔ pattern = .error f

theorem map_map_option {α β γ : Type} (o : Except Failure (Option α)) (g : α → β) (k : β → γ) :
    (o.map (Option.map g)).map (Option.map k) = o.map (Option.map fun a => k (g a)) := by
  rcases o with f | _ | a <;> rfl

/-- What is read off the same in both ways is the same outcome, if each result determines the
    other. -/
theorem SameOutcome.of_map {α β : Type} {corresponds : Capture → α → Prop}
    {o : Except Failure (Option β)} {rule : Except Failure (Option α)}
    {pattern : Except Failure (Option Capture)} {g : β → α} {k : β → Capture}
    (left : rule = o.map (Option.map g)) (right : pattern = o.map (Option.map k))
    (h : ∀ b, o = .ok (some b) → ∀ a, g b = a ↔ corresponds (k b) a) :
    SameOutcome corresponds rule pattern := by
  subst left right
  rcases o with f | _ | b
  · exact ⟨by simp [Except.map], by simp [Except.map], by simp [Except.map]⟩
  · exact ⟨by simp [Except.map], by simp [Except.map], by simp [Except.map]⟩
  · refine ⟨fun a => ?_, by simp [Except.map], by simp [Except.map]⟩
    simpa [Except.map] using h b rfl a

theorem SameOutcome.error {α : Type} {corresponds : Capture → α → Prop} (f : Failure) :
    SameOutcome corresponds (.error f) (.error f) :=
  .of_map (o := (.error f : Except Failure (Option Empty))) (g := Empty.elim) (k := Empty.elim)
    rfl rfl fun b => b.elim

/-- What a reference finds wraps what its rule finds, and nothing else. -/
theorem wraps_iff {name : String} {start stop stop' : Int} {c tree : Capture} :
    (Capture.build none start stop (reference name).pluralKeys none
      [(.name name, c)]).Wraps name start stop' tree ↔ stop = stop' ∧ c = tree := by
  have single : (reference name).pluralKeys = [] := by
    simp [reference, Pattern.pluralKeys, Pattern.captureCounts, Reference.key?]
  rw [single]
  constructor
  · intro h
    exact ⟨h.stop, List.singleton_injective h.children⟩
  · rintro ⟨rfl, rfl⟩
    refine ⟨rfl, rfl, rfl, ?_⟩
    simp [Capture.get?, Capture.bindings, Capture.build, Capture.label, Capture.entries,
      Capture.Bindings.add, Capture.Bindings.alter]

/-! ## 4. Grammars and finders -/

/-- The capture that a solution of a pattern gives. -/
def Pattern.tree (p : Pattern) (start : Int) (u : Solution) : Capture :=
  .build none start u.stop p.pluralKeys none u.captured

theorem pattern_outcome (m : Matcher) (p : Pattern) (pos : Int) :
    (m.pattern p pos).1.map (Option.map Found.capture) =
      ((firstOf m.env [] none ⟨[.part p 1], pos, []⟩).outcome m.state).map
        (Option.map (p.tree pos)) := by
  have run : (Matcher.runPattern m.env p pos).outcome m.state =
      ((firstOf m.env [] none ⟨[.part p 1], pos, []⟩).outcome m.state).map
        (·.bind ((Query.pattern p).found pos)) := query_outcome m.env (.pattern p) pos m.state
  rw [Matcher.pattern, advance_fst, run]
  cases (firstOf m.env [] none ⟨[.part p 1], pos, []⟩).outcome m.state with
  | error f => rfl
  | ok found => cases found <;> rfl

/-- The end of the text after a pattern captures nothing. -/
theorem Finder.whole_tree (f : Finder) : f.whole.tree = f.pattern.tree := by
  have counts : f.whole.captureCounts = f.pattern.captureCounts := by
    simp [Finder.whole, Pattern.captureCounts, Pattern.captureCountsOfParts, Pattern.Counts.add,
      Pattern.Counts.mergeWith, Pattern.Counts.get]
  funext start u
  rw [Pattern.tree, Pattern.tree, Pattern.pluralKeys, Pattern.pluralKeys, counts]

/-- A rule that is asked for after it was looked up. -/
theorem checked_outcome (t : Grammar.Task) {env : Env} (room : 1 ≤ env.bounds.room)
    (anchored : Bool) (pos : Int) (s : State) :
    (t.check >>= fun _ => Matcher.runRule env t.start pos anchored).outcome s =
      ((ruleAt env ((Query.rule t.start anchored).target env.text) t.start pos).outcome s).map
        (·.bind ((Query.rule t.start anchored).found pos)) := by
  have check : (t.check >>= fun _ => Matcher.runRule env t.start pos anchored) =
      Run.lookup t.start >>= fun _ => Matcher.runRule env t.start pos anchored := by
    simp only [Grammar.Task.check, bind_assoc, pure_bind]
  rw [check, ← ruleAt_checked room]
  exact Run.outcome_after fun _ s' => query_outcome env (.rule t.start anchored) pos s'

/-- What is found of a rule determines the solution. -/
theorem ruleAt_read {env : Env} {s : State} (sound : s.Sound env.text) (target : Option Int)
    (name : String) (anchored : Bool) (pos : Int) :
    let found := ((ruleAt env target name pos).outcome s).map
      (·.bind ((Query.rule name anchored).found pos))
    (ruleAt env target name pos).outcome s =
        found.map (Option.map fun v => ⟨v.stop, [(.name name, v.capture)]⟩) ∧
      ∀ v, found = .ok (some v) → accepts target v.stop = true := by
  intro found
  cases outcome : (ruleAt env target name pos).outcome s with
  | error f =>
    have failed : found = .error f := congrArg (Except.map _) outcome
    rw [failed]
    exact ⟨rfl, fun v h => by cases h⟩
  | ok solution =>
    have read : found = .ok (solution.bind ((Query.rule name anchored).found pos)) :=
      congrArg (Except.map _) outcome
    rw [read]
    cases solution with
    | none => exact ⟨rfl, fun v h => by cases h⟩
    | some u =>
      obtain ⟨⟨c, captured⟩, accepted⟩ := ruleAt_captured sound outcome
      obtain ⟨stop, captured⟩ := u
      subst captured
      refine ⟨rfl, fun v h => ?_⟩
      cases h
      exact accepted

/-- The finder of a reference between angle brackets. -/
def referenceFinder (name : String) (registry : Option Registry) (settings : Settings) : Finder :=
  ⟨"<" ++ name ++ ">", .none, registry, settings, reference name⟩

theorem make_reference {name : String} (admitted : NameOf Syntax.isNameChar name)
    (registry : Option Registry) (settings : Settings) :
    Finder.make ("<" ++ name ++ ">") .none registry settings =
      .ok (referenceFinder name registry settings) := by
  have written : ("<" ++ name ++ ">").toList = (reference name).render true := by
    simp [reference, Pattern.render, Reference.render, String.toList_append]
  have writable : (reference name).Writable (Dialect.of .none .regex) :=
    .ruleRef ⟨admitted, fun a h => by cases h⟩
  have compiled : Pattern.compile ((reference name).render true) .none .regex =
      .ok (reference name) := Pattern.compile_written true .none .regex rfl writable
  unfold Finder.make
  rw [written, compiled]
  rfl

section Facade

variable (r : Registry) (name : String) {settings : Settings} (text : Text)
  (unlimited : settings.maxDepth = none)

include unlimited

/-- What a reference finds, read off what its rule finds, unless there is no room for it. -/
theorem reference_outcome (target : Option Int) (anchored : Bool) (pos : Int) :
    let env : Env := ⟨text, {}, settings⟩
    let solution := (firstOf env [] target ⟨[.part (reference name) 1], pos, []⟩).outcome
      { registry := some r }
    let found := ((ruleAt env target name pos).outcome { registry := some r }).map
      (·.bind ((Query.rule name anchored).found pos))
    solution ≠ .error .stackExhausted → 1 ≤ env.bounds.room ∧
      solution.map (Option.map ((reference name).tree pos)) = found.map (Option.map fun v =>
        (reference name).tree pos ⟨v.stop, [(.name name, v.capture)]⟩) ∧
      ∀ v, found = .ok (some v) → accepts target v.stop = true := by
  intro env solution found enough
  by_cases room : 1 ≤ env.bounds.room
  · have same : solution = (ruleAt env target name pos).outcome { registry := some r } :=
      firstOf_reference unlimited room { registry := some r }
    have sound : State.Sound env.text { registry := some r } := sound_start text (some r)
    obtain ⟨read, accepted⟩ := ruleAt_read sound target name anchored pos
    refine ⟨room, ?_, accepted⟩
    rw [same, read]
    exact map_map_option _ _ _
  · have full : solution = .error .stackExhausted :=
      Run.outcome_error (Run.bind_error (seek_full unlimited room []))
    exact absurd full enough

/-- **A rule at a position, and a finder of a reference to it there, come to the same.** -/
theorem subparse_facade (pos : Int)
    (enough : (referenceFinder name (some r) settings).matchAt text pos ≠ .error .stackExhausted) :
    SameOutcome (fun root (found : Found) => root.Wraps name pos found.stop found.capture)
      (Grammar.subparse r ⟨text, name, {}, settings⟩ pos).1
      ((referenceFinder name (some r) settings).matchAt text pos) := by
  let task : Grammar.Task := ⟨text, name, {}, settings⟩
  let f := referenceFinder name (some r) settings
  let env : Env := ⟨text, {}, settings⟩
  cases cursor : Cursor.at text pos with
  | error e =>
    have matched : f.matchAt text pos = .error e := by
      unfold Finder.matchAt
      rw [cursor]
    have parsed : (Grammar.subparse r task pos).1 = .error e := by
      rw [Grammar.subparse, advance_fst, cursor]
      rfl
    rw [matched, parsed]
    exact SameOutcome.error e
  | ok c =>
    have matched : f.matchAt text pos =
        ((firstOf env [] none ⟨[.part (reference name) 1], pos, []⟩).outcome
          { registry := some r }).map (Option.map ((reference name).tree pos)) := by
      unfold Finder.matchAt
      rw [cursor]
      exact pattern_outcome (f.matcher text) (reference name) pos
    obtain ⟨room, read, _⟩ := reference_outcome r name text unlimited none false pos
      fun exhausted => enough (by rw [matched, exhausted]; rfl)
    have parsed : (Grammar.subparse r task pos).1 =
        ((ruleAt env none name pos).outcome { registry := some r }).map
          (·.bind ((Query.rule name false).found pos)) := by
      rw [Grammar.subparse, advance_fst, cursor]
      exact checked_outcome task room false pos _
    refine SameOutcome.of_map (g := id) ?_ (matched.trans read) fun v _ a => ?_
    · rw [parsed, Option.map_id, Except.map_id]
      rfl
    · refine Iff.trans ⟨fun h => ?_, fun h => ?_⟩ wraps_iff.symm
      · subst h
        exact ⟨rfl, rfl⟩
      · exact congrArg₂ Found.mk h.1 h.2

/-- **A rule against the whole text, and a finder of a reference to it, come to the same.** -/
theorem parse_facade
    (enough : (referenceFinder name (some r) settings).fullMatch text ≠ .error .stackExhausted) :
    SameOutcome (fun root tree => root.Wraps name 0 text.stop tree)
      (Grammar.parse r ⟨text, name, {}, settings⟩).1
      ((referenceFinder name (some r) settings).fullMatch text) := by
  let task : Grammar.Task := ⟨text, name, {}, settings⟩
  let f := referenceFinder name (some r) settings
  let env : Env := ⟨text, {}, settings⟩
  let target : Option Int := some text.stop
  have matched : f.fullMatch text =
      ((firstOf env [] none ⟨[.part f.whole 1], 0, []⟩).outcome { registry := some r }).map
        (Option.map ((reference name).tree 0)) := by
    rw [Finder.fullMatch, pattern_outcome, f.whole_tree]
    rfl
  have whole : (firstOf env [] none ⟨[.part f.whole 1], 0, []⟩).outcome { registry := some r } =
      (firstOf env [] target ⟨[.part (reference name) 1], 0, []⟩).outcome
        { registry := some r } := by
    have free : env.settings.maxDepth = none := unlimited
    rcases firstOf_whole free (reference name) with exhausted | same
    · exact absurd (by rw [matched]; exact congrArg _ exhausted) enough
    · exact same
  rw [whole] at matched
  obtain ⟨room, read, accepted⟩ := reference_outcome r name text unlimited target true 0
    fun exhausted => enough (by rw [matched, exhausted]; rfl)
  have parsed : (Grammar.parse r task).1 =
      (((ruleAt env target name 0).outcome { registry := some r }).map
        (·.bind ((Query.rule name true).found 0))).map (Option.map Found.capture) := by
    have run := checked_outcome task room true 0 { registry := some r }
    have read : (Grammar.parse r task).1 =
        ((task.check >>= fun _ => Matcher.runRule env name 0 true).outcome
          { registry := some r }).map (Option.map Found.capture) := by
      rw [Grammar.parse, advance_fst]
      exact Run.outcome_after fun _ _ => Run.outcome_map fun _ _ => rfl
    exact read.trans (congrArg _ run)
  refine SameOutcome.of_map parsed (matched.trans read) fun v found tree => ?_
  have atEnd : v.stop = text.stop := eq_of_beq (accepted v found)
  refine Iff.trans ⟨fun h => ?_, fun h => ?_⟩ wraps_iff.symm
  · exact ⟨atEnd, h⟩
  · exact h.2

end Facade

/-- **The whole text is matched by the first solution that ends where it ends**, of all that the
    pattern has at the start. -/
theorem fullMatch_first {f : Finder} (unlimited : f.settings.maxDepth = none) (text : Text)
    {y : Answers Solution} (enough : f.fullMatch text ≠ .error .stackExhausted)
    (all : Enumerates ⟨text, {}, f.settings⟩ [] [⟨[.part f.pattern 1], 0, []⟩]
      { registry := f.registry } y) :
    f.fullMatch text =
      (y.filter fun u => u.stop == text.stop).first.map (Option.map (f.pattern.tree 0)) := by
  let env : Env := ⟨text, {}, f.settings⟩
  have matched : f.fullMatch text =
      ((firstOf env [] none ⟨[.part f.whole 1], 0, []⟩).outcome { registry := f.registry }).map
        (Option.map (f.pattern.tree 0)) := by
    rw [Finder.fullMatch, pattern_outcome, f.whole_tree]
    rfl
  have free : env.settings.maxDepth = none := unlimited
  rw [matched]
  rcases firstOf_whole free f.pattern with exhausted | same
  · exact absurd (by rw [matched]; exact congrArg _ exhausted) enough
  · refine congrArg _ (same.trans ?_)
    rw [firstOf_outcome]
    exact all.sought (some text.stop)

/-- At the start the first solution of all is found. -/
theorem matchAt_first {f : Finder} (text : Text) {y : Answers Solution}
    (all : Enumerates ⟨text, {}, f.settings⟩ [] [⟨[.part f.pattern 1], 0, []⟩]
      { registry := f.registry } y) :
    f.matchAt text 0 = y.first.map (Option.map (f.pattern.tree 0)) := by
  have inside : 0 ≤ (0 : Int) ∧ 0 ≤ text.stop := ⟨Int.le_refl 0, Int.natCast_nonneg _⟩
  have every : (firstOf ⟨text, {}, f.settings⟩ [] none ⟨[.part f.pattern 1], 0, []⟩).outcome
      { registry := f.registry } = y.first := by
    rw [firstOf_outcome, all.sought none]
    exact congrArg Answers.first (Answers.filter_true y)
  unfold Finder.matchAt Cursor.at Cursor.of?
  rw [dif_pos inside, ← every]
  exact pattern_outcome (f.matcher text) f.pattern 0

/-- **A grammar and a finder of a reference come to the same**, at a position and against the whole
    text, and the whole text is matched by the first solution that ends where it ends, if nesting
    is not limited and the finder does not run out of room. -/
theorem facade_agrees (r : Registry) {name : String} (admitted : NameOf Syntax.isNameChar name)
    {settings : Settings} (unlimited : settings.maxDepth = none) (text : Text) :
    (∃ f, Finder.make ("<" ++ name ++ ">") .none (some r) settings = .ok f ∧
      (f.fullMatch text ≠ .error .stackExhausted →
        SameOutcome (fun root tree => root.Wraps name 0 text.stop tree)
          (Grammar.parse r ⟨text, name, {}, settings⟩).1 (f.fullMatch text)) ∧
      ∀ pos, f.matchAt text pos ≠ .error .stackExhausted →
        SameOutcome (fun root (found : Found) => root.Wraps name pos found.stop found.capture)
          (Grammar.subparse r ⟨text, name, {}, settings⟩ pos).1 (f.matchAt text pos)) ∧
    ∀ f : Finder, f.settings.maxDepth = none → f.fullMatch text ≠ .error .stackExhausted →
      ∃ y, Enumerates ⟨text, {}, f.settings⟩ [] [⟨[.part f.pattern 1], 0, []⟩]
          { registry := f.registry } y ∧
        f.matchAt text 0 = y.first.map (Option.map (f.pattern.tree 0)) ∧
        f.fullMatch text =
          (y.filter fun u => u.stop == text.stop).first.map (Option.map (f.pattern.tree 0)) ∧
        ∀ c, f.matchAt text 0 = .ok (some c) → c.label.stop = text.stop →
          f.fullMatch text = .ok (some c) := by
  refine ⟨⟨_, make_reference admitted _ settings, parse_facade r name text unlimited,
    subparse_facade r name text unlimited⟩, fun f free enough => ?_⟩
  have seen : ∃ y, Enumerates ⟨text, {}, f.settings⟩ [] [⟨[.part f.pattern 1], 0, []⟩]
      { registry := f.registry } y := Enumerates.total _ _
  obtain ⟨y, all⟩ := seen
  have whole := fullMatch_first free text enough all
  have start := matchAt_first text all
  refine ⟨y, all, start, whole, fun c found atEnd => ?_⟩
  rw [start] at found
  rw [whole]
  cases y with
  | done => cases found
  | failed e => cases found
  | found u later =>
    cases found
    have accepted : (u.stop == text.stop) = true := beq_of_eq atEnd
    show ((Answers.only (u.stop == text.stop) u) ++ _).first.map _ = _
    rw [Answers.only, if_pos accepted]
    rfl

theorem gap_admitted : NameOf Syntax.isNameChar "gap" := by
  refine ⟨'g', ['a', 'p'], rfl, rfl, ?_⟩
  intro d hd
  rcases List.mem_pair.mp hd with h | h
  · rw [h]
    rfl
  · rw [h]
    rfl

/-- The pattern that is a reference to the rule that matches the empty text finds its capture. -/
theorem fullMatch_gap :
    (referenceFinder "gap" (some nested) {}).fullMatch #[] = .ok (some (.build none 0 0
      (reference "gap").pluralKeys none [(.name "gap", gapRule.emptyCapture)])) := by
  let env : Env := ⟨#[], {}, {}⟩
  let s₁ : State := { registry := some nested, peakDepth := 2 }
  let s₂ : State := { s₁ with peakDepth := 3, ruleCalls := 1 }
  let s₃ : State := { s₂ with
    memo := s₂.memo.insert ("gap", 0) (some (0, gapRule.emptyCapture)),
    trace := .settled "gap" 0 :: s₂.trace }
  let atEnd : Goal := .part (.anchor .endOfString) 2
  have free : env.settings.maxDepth = none := rfl
  have body : seek env [("gap", 0)] none [⟨[.part gapRule.pattern 3], 0, []⟩]
      { s₁ with ruleCalls := 1 } = .ok (some (⟨0, []⟩, [])) s₂ :=
    calc
      _ = seek env [("gap", 0)] none [⟨[], 0, []⟩] s₂ := seek_step (fun _ => rfl) rfl
      _ = _ := by rw [seek.eq_2]; rfl
  have found : seek env [] none
      [⟨[.part (.sequence [reference "gap", .anchor .endOfString]) 1], 0, []⟩]
      { registry := some nested } =
        .ok (some (⟨0, [(.name "gap", gapRule.emptyCapture)]⟩, [])) s₃ :=
    calc
      _ = seek env [] none [⟨[.part (reference "gap") 2, atEnd], 0, []⟩]
          { registry := some nested, peakDepth := 1 } := seek_step (fun _ => rfl) rfl
      _ = seek env [] none [⟨[.call "gap" (some (.name "gap")) 2, atEnd], 0, []⟩] s₁ :=
        seek_step (fun _ => rfl) rfl
      _ = seek env [] none [⟨[atEnd], 0, [(.name "gap", gapRule.emptyCapture)]⟩] s₃ :=
        (seek_fresh (by decide) rfl rfl rfl Std.HashMap.getElem?_empty rfl body rfl).trans rfl
      _ = _ := seek_end free (by decide) []
  have first : (firstOf env [] none
      ⟨[.part (.sequence [reference "gap", .anchor .endOfString]) 1], 0, []⟩).outcome
        { registry := some nested } = .ok (some ⟨0, [(.name "gap", gapRule.emptyCapture)]⟩) :=
    Run.outcome_ok (Run.bind_ok found)
  rw [Finder.fullMatch, pattern_outcome, Finder.whole_tree]
  exact congrArg (Except.map _) first

/-- The rule that matches the empty text is found by its name and by a reference to it. -/
theorem facade_agrees_gap :
    NameOf Syntax.isNameChar "gap" ∧ ({} : Settings).maxDepth = none ∧
      ∃ f root tree, Finder.make ("<" ++ "gap" ++ ">") .none (some nested) {} = .ok f ∧
        f.fullMatch #[] = .ok (some root) ∧
        (Grammar.parse nested ⟨#[], "gap", {}, {}⟩).1 = .ok (some tree) ∧
        root.Wraps "gap" 0 0 tree := by
  obtain ⟨f, made, parsed, _⟩ :=
    (facade_agrees nested gap_admitted (show ({} : Settings).maxDepth = none from rfl) #[]).1
  have same : f = referenceFinder "gap" (some nested) {} :=
    Except.ok.inj (made.symm.trans (make_reference gap_admitted _ _))
  let root : Capture := .build none 0 0 (reference "gap").pluralKeys none
    [(.name "gap", gapRule.emptyCapture)]
  have found : f.fullMatch #[] = .ok (some root) := same ▸ fullMatch_gap
  have wraps : root.Wraps "gap" 0 0 gapRule.emptyCapture := wraps_iff.mpr ⟨rfl, rfl⟩
  refine ⟨gap_admitted, rfl, f, root, gapRule.emptyCapture, made, found, ?_, wraps⟩
  exact ((parsed (by rw [found]; exact nofun)).matched _).mpr ⟨root, found, wraps⟩

end GrammarMatch
