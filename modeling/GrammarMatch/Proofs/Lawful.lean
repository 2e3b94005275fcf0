/-
  File:      GrammarMatch/Proofs/Lawful.lean
  Subject:   Working off goals, once for every discipline.

  What a goal is worked off to depends on the goal, on a few tests of the text, on the rules, and on
  searches inside. A discipline passes on what goals need if each kind of goal needs no less than
  its ways do (`Discipline.Passes`); it is lawful if, besides, the steps on the way are judged as it
  demands (`Discipline.Lawful`). Both are read off goal by goal, and a lawful discipline is obeyed
  (`Discipline.Lawful.obeyed`): what holds of one run of the search is an instance of this.
-/
import GrammarMatch.Proofs.Agenda
import GrammarMatch.Proofs.Discipline
import GrammarMatch.Proofs.Faults

namespace GrammarMatch.Match

/-- The level at which a goal is worked off, where that takes one. -/
def Goal.level : Goal → Nat
  | .part _ depth | .call _ _ depth | .round _ _ _ _ depth | .retreat _ _ depth => depth
  | .close .. | .finish .. => 0

namespace Discipline

variable (D : Discipline)

/-! ## 1. What is passed on -/

/-- What is needed to choose, after some rounds of a repetition, whether to stop or to go on. -/
structure Chooses (active : Active) (K : Int → Captured → Prop) (q : Quantity) (body : Pattern)
    (count depth : Nat) (pos : Int) (captured : Captured) : Prop where
  stop (enough : q.mayStop count = true) : K pos captured
  goOn (more : q.mayGoOn count = true) : D.needs active
    (D.needs active K (.round q body count pos depth)) (.part body (depth + 1)) pos captured

/-- What a goal needs is enough for whatever may take its place, where the rules are such. -/
structure Passes (env : Env) (X : Lexicon → Prop) : Prop where
  literal {active K chars ignoreCase depth pos captured stop}
    (h : D.needs active K (.part (.literal chars ignoreCase) depth) pos captured)
    (stands : literalStop? env.text chars ignoreCase pos = some stop) : K stop captured
  charClass {active K items negated ignoreCase depth pos captured}
    (h : D.needs active K (.part (.charClass items negated ignoreCase) depth) pos captured)
    (holds : classHolds env.text items negated ignoreCase pos = .ok true) : K (pos + 1) captured
  sequence {active K parts depth pos captured}
    (h : D.needs active K (.part (.sequence parts) depth) pos captured) :
    D.goals active K (parts.map (Goal.part · (depth + 1))) pos captured
  branch {active K mode branches depth pos captured}
    (h : D.needs active K (.part (.alternation mode branches) depth) pos captured) {p}
    (mem : p ∈ branches) : D.needs active K (.part p (depth + 1)) pos captured
  repetition {active K q body depth pos captured}
    (h : D.needs active K (.part (.repetition q body) depth) pos captured) :
    D.Chooses active K q body 0 depth pos captured
  enclosed {active K plural body depth pos captured}
    (h : D.needs active K (.part (.group none plural body) depth) pos captured) :
    D.needs active K (.part body (depth + 1)) pos captured
  group {active K key plural body depth pos captured}
    (h : D.needs active K (.part (.group (some key) plural body) depth) pos captured) :
    D.needs active (D.needs active K (.close key plural pos captured))
      (.part body (depth + 1)) pos []
  ahead {active K kind body depth pos captured}
    (h : D.needs active K (.part (.look kind body) depth) pos captured)
    (forward : ¬kind.backward = true) :
    D.needs active (fun _ _ => True) (.part body (depth + 1)) pos []
  behind {active K kind body depth pos captured}
    (h : D.needs active K (.part (.look kind body) depth) pos captured)
    (backward : kind.backward = true) :
    D.needs active (fun _ _ => True) (.retreat body (retreatFrom body pos).1 depth)
      (retreatFrom body pos).2 []
  looked {active K kind body depth pos captured}
    (h : D.needs active K (.part (.look kind body) depth) pos captured) : K pos captured
  anchor {active K kind depth pos captured}
    (h : D.needs active K (.part (.anchor kind) depth) pos captured)
    (holds : anchorHolds env.text pos kind = .ok true) : K pos captured
  ruleRef {active K r depth pos captured}
    (h : D.needs active K (.part (.ruleRef r) depth) pos captured) :
    D.needs active K (.call r.name r.key? depth) pos captured
  space {active K depth pos captured} (h : D.needs active K (.part .whitespace depth) pos captured)
    {x} (given : X x) (own : x.space = true) : D.needs active K (.call "ws" none depth) pos captured
  gap {active K depth pos captured} (h : D.needs active K (.part .whitespace depth) pos captured)
    {x} (given : X x) (spaceless : x.space = false) {stop}
    (stops : gapStop? env.text pos = .ok (some stop)) : K stop captured
  leftOpen {active K name key depth pos captured}
    (h : D.needs active K (.call name key depth) pos captured) {x} (given : X x) {rule}
    (known : x.rules name = .ok rule) (opened : ¬rule.kind.atomic = true) :
    D.needs active (D.needs active K (.finish rule key pos captured))
      (.part rule.pattern (depth + 1)) pos []
  round {active K q body count opened depth pos captured}
    (h : D.needs active K (.round q body count opened depth) pos captured)
    (further : opened < pos ∧ opened < env.bounds.stop) :
    D.Chooses active K q body (count + 1) depth pos captured
  rest {active K q body count opened depth pos captured}
    (h : D.needs active K (.round q body count opened depth) pos captured)
    (stuck : ¬(opened < pos ∧ opened < env.bounds.stop)) : K pos captured
  close {active K key plural opened outer pos captured}
    (h : D.needs active K (.close key plural opened outer) pos captured) :
    K pos ((key, .build (some key) opened pos plural none captured) :: outer)
  retreat {active K body left depth pos captured}
    (h : D.needs active K (.retreat body (left + 1) depth) pos captured) :
    D.needs active K (.part body (depth + 1)) pos captured ∧
      D.needs active K (.retreat body left depth) (pos - 1) captured

/-- What a goal needs is enough for what may take its place, and for the steps on the way. -/
structure Lawful (env : Env) (X : Lexicon → Prop) : Prop extends D.Passes env X where
  full {active K g pos captured} (h : D.needs active K g pos captured)
    (beyond : ¬g.level ≤ env.settings.room) {α : Type} {P : α → Prop} :
    (D.judge active).deems (throw .stackExhausted) P
  enter {active K p depth pos captured} (h : D.needs active K (.part p depth) pos captured) :
    (D.judge active).deems (Run.enter env depth pos) fun _ => True
  test {active K p depth pos captured} (h : D.needs active K (.part p depth) pos captured)
    {α : Type} {v : Except Failure α} (fault : ∀ f, v = .error f → p.Faults env.text pos f) :
    (D.judge active).deems (Run.ofExcept v) fun a => v = .ok a
  definesSpace {active K depth pos captured}
    (h : D.needs active K (.part .whitespace depth) pos captured) :
    (D.judge active).deems Run.definesSpace fun own => ∃ x, X x ∧ x.space = own
  lookup {active K name key depth pos captured}
    (h : D.needs active K (.call name key depth) pos captured) :
    (D.judge active).deems (Run.lookup name) fun rule => ∃ x, X x ∧ x.rules name = .ok rule
  count {active K name key depth pos captured}
    (h : D.needs active K (.call name key depth) pos captured) :
    (D.judge active).deems Run.countCall fun _ => True
  verdict {active K name key depth pos captured}
    (h : D.needs active K (.call name key depth) pos captured) {x} (given : X x) {rule}
    (known : x.rules name = .ok rule) (atomic : rule.kind.atomic = true)
    (room : depth ≤ env.bounds.room) {solve : Solver env.bounds (Goal.callSize env.bounds depth)}
    (hsolve : D.Solves solve) :
    (D.judge active).deems (Match.verdict env active depth room pos solve rule) fun v =>
      ∀ stop c, v = some (stop, c) → K stop (capturedUnder key c captured)
  finish {active K rule key opened outer pos captured}
    (h : D.needs active K (.finish rule key opened outer) pos captured) :
    (D.judge active).deems (Run.finish env rule opened pos captured) fun c =>
      K pos (capturedUnder key c outer)

/-! ## 2. Working off goals -/

namespace Lawful

variable {D} {env : Env} {X : Lexicon → Prop} (lawful : D.Lawful env X) {active : Active}
  {K : Int → Captured → Prop} {depth : Nat} {pos : Int} {captured : Captured}

theorem ways_choices {q : Quantity} {body : Pattern} {count : Nat} {m : Nat × Nat}
    (h : D.Chooses active K q body count depth pos captured)
    {hp : (Goal.part body (depth + 1)).Under env.bounds m}
    {hr : (Goal.round q body count pos depth).Under env.bounds m} :
    D.ways active K (choices env q body count depth pos captured hp hr) :=
  forall_choices h.stop h.goOn

include lawful

/-- **A part is worked off to ways that need no more than the part.** -/
theorem part (room : depth ≤ env.bounds.room)
    {solve : Solver env.bounds (Goal.partSize env.bounds depth)} (hsolve : D.Solves solve)
    {p : Pattern} (h : D.needs active K (.part p depth) pos captured) :
    (D.judge active).deems (expandPart env active depth room pos captured solve p)
      (D.ways active K) := by
  let J := D.judge active
  cases p with
  | literal chars ignoreCase =>
    simp only [expandPart]
    cases stands : literalStop? env.text chars ignoreCase pos with
    | none => exact J.result ways_none
    | some stop => exact J.result (ways_one (lawful.literal h stands))
  | charClass items negated ignoreCase =>
    refine J.next (lawful.test h fun f failed => .charClass failed) fun holds same =>
      J.result (forall_wayIf fun passed => ?_)
    exact lawful.charClass h (passed ▸ same)
  | sequence parts => exact J.result (ways_one (lawful.sequence h))
  | alternation mode branches =>
    cases mode with
    | ordered =>
      refine J.result fun way hway => ?_
      obtain ⟨p, mem, rfl⟩ := List.mem_map.mp hway
      exact lawful.branch h mem
    | longest =>
      -- only the first solution of each branch counts, and it ends as the branch has to
      refine J.next (J.each fun p mem => hsolve _ _ _ _ K (lawful.branch h mem)) fun found hfound =>
        J.result fun way hway => ?_
      obtain ⟨u, mem, rfl⟩ := List.mem_map.mp hway
      exact hfound _ (mem_longestFirst.mp mem) u rfl
  | repetition q body => exact J.result (ways_choices (lawful.repetition h))
  | group key plural body =>
    cases key with
    | none => exact J.result (ways_one (lawful.enclosed h))
    | some key => exact J.result (ways_one (lawful.group h))
  | look kind body =>
    simp only [expandPart]
    have way (found : Option Solution) (_ : ∀ u, found = some u → True) :
        J.deems (pure (wayIf env (found.isSome != kind.negative) pos captured))
          (D.ways active K : List (Branch env.bounds (Goal.partSize env.bounds depth)) → Prop) :=
      J.result (forall_wayIf fun _ => lawful.looked h)
    by_cases backward : kind.backward = true
    · rw [if_pos backward]
      exact J.next (hsolve _ _ _ _ (fun _ _ => True) (lawful.behind h backward)) way
    · rw [if_neg backward]
      exact J.next (hsolve _ _ _ _ (fun _ _ => True) (lawful.ahead h backward)) way
  | anchor kind =>
    refine J.next (lawful.test h fun f failed => .anchor failed) fun holds same =>
      J.result (forall_wayIf fun passed => ?_)
    exact lawful.anchor h (passed ▸ same)
  | ruleRef r => exact J.result (ways_one (lawful.ruleRef h))
  | whitespace =>
    simp only [expandPart]
    refine J.next (lawful.definesSpace h) fun own hown => ?_
    obtain ⟨x, given, rfl⟩ := hown
    cases own : x.space with
    | true => exact J.result (ways_one (lawful.space h given own))
    | false =>
      refine J.next (lawful.test h fun f failed => .whitespace failed) fun found stops => ?_
      cases found with
      | none => exact J.result ways_none
      | some stop => exact J.result (ways_one (lawful.gap h given own stops))

/-- **A call is worked off to ways that need no more than the call.** -/
theorem call (room : depth ≤ env.bounds.room)
    {solve : Solver env.bounds (Goal.callSize env.bounds depth)} (hsolve : D.Solves solve)
    {name : String} {key : Option CaptureKey}
    (h : D.needs active K (.call name key depth) pos captured) :
    (D.judge active).deems (expandCall env active depth room pos captured solve name key)
      (D.ways active K) := by
  let J := D.judge active
  refine J.next (lawful.lookup h) fun rule found => ?_
  obtain ⟨x, given, known⟩ := found
  refine J.next (lawful.count h) fun _ _ => ?_
  by_cases atomic : rule.kind.atomic = true
  · simp only [if_pos atomic]
    refine J.next (lawful.verdict h given known atomic room hsolve) fun v hv => ?_
    cases v with
    | none => exact J.result ways_none
    | some v => exact J.result (ways_one (hv v.1 v.2 rfl))
  · simp only [if_neg atomic]
    exact J.result (ways_one (lawful.leftOpen h given known atomic))

/-- **A lawful discipline is obeyed.** -/
theorem obeyed : D.Obeyed env := by
  intro active K g pos captured solve hsolve h
  let J := D.judge active
  have level {r : g.level ≤ env.bounds.room → Run (List (Branch env.bounds (g.size env.bounds)))}
      (hr : ∀ room, J.deems (r room) (D.ways active K)) :
      J.deems (if room : g.level ≤ env.bounds.room then r room else throw .stackExhausted)
        (D.ways active K) :=
    Run.room_cases (Q := fun r => J.deems r (D.ways active K)) hr fun beyond => lawful.full h beyond
  cases g with
  | part p depth =>
    exact J.next (lawful.enter h) fun _ _ => level fun room => lawful.part room hsolve h
  | call name key depth => exact level fun room => lawful.call room hsolve h
  | round q body count opened depth =>
    refine level fun room => ?_
    by_cases further : opened < pos ∧ opened < env.bounds.stop
    · rw [dif_pos further]
      exact J.result (ways_choices (lawful.round h further))
    · rw [dif_neg further]
      exact J.result (ways_one (lawful.rest h further))
  | close key plural opened outer => exact J.result (ways_one (lawful.close h))
  | finish rule key opened outer =>
    exact J.next (lawful.finish h) fun c hc => J.result (ways_one hc)
  | retreat body left depth =>
    cases left with
    | zero => exact J.result ways_none
    | succ left =>
      obtain ⟨here, back⟩ := lawful.retreat h
      exact level fun room => J.result (List.forall_mem_cons.mpr ⟨here, ways_one back⟩)

end Lawful

end Discipline

end GrammarMatch.Match
