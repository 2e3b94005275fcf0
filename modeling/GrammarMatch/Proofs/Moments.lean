/-
  File:      GrammarMatch/Proofs/Moments.lean
  Subject:   What a search passes through.

  A moment of a search is its agenda and all that the next step depends on. A step works off the
  first goal, or starts a search inside it: a look, a branch of an alternation that prefers the
  longest, or the body of an atomic rule (`Leads`). What a search passes through from its start on
  (`Reaches`) are the parts that it enters and the captures that it gives to callbacks.
-/
import GrammarMatch.Proofs.Query
import GrammarMatch.Proofs.Stepping
import Mathlib.Logic.Relation

namespace GrammarMatch.Match

/-! ## 1. Moments -/

/-- A moment of a search: the calls that are active, where a solution has to end, what is left to
    do, and what is kept. -/
structure Moment where
  active : Active
  target : Option Int
  agenda : Agenda
  state : State

/-- The first solution of a thread, by a search of its own. -/
def firstOf (env : Env) (active : Active) (target : Option Int) (th : Thread) :
    Run (Option Solution) := do
  let found ← seek env active target [th]
  return found.map Prod.fst

/-- Smaller goals are matched by searches of their own. -/
def solver (env : Env) {b : Bounds} {m : Nat × Nat} : Solver b m :=
  fun active target th _ => firstOf env active target th

/-- The search goes on with what the first goal is worked off to. -/
theorem seek_goal (env : Env) (active : Active) (target : Option Int) (g : Goal)
    (goals : List Goal) (pos : Int) (captured : Captured) (rest : Agenda) :
    seek env active target (⟨g :: goals, pos, captured⟩ :: rest) =
      expand env active pos captured g (solver env) >>= fun ways =>
        seek env active target (ways.map (Branch.thread goals) ++ rest) := by
  rw [seek.eq_3]
  rfl

/-- The capture of a rule that matched, before its callback is run. -/
def node (rule : Rule) (start stop : Int) (captured : Captured) : Capture :=
  .build (some (.name rule.name)) start stop rule.plural (some rule.name) captured

/-- The call of an atomic rule enters its body: there is room for it, no result is kept, and the
    rule is not being matched there. -/
structure Enters (env : Env) (active : Active) (name : String) (depth : Nat) (pos : Int)
    (s : State) (rule : Rule) (s' : State) : Prop where
  room : depth ≤ env.bounds.room
  known : ∃ s₁, Run.lookup name s = .ok rule s₁ ∧
    Run.remembered env rule.name pos { s₁ with ruleCalls := s₁.ruleCalls + 1 } = .ok none s'
  atomic : rule.kind.atomic = true
  fresh : ¬active.contains (rule.name, pos) = true

/-- The searches that are started inside a goal, before it is worked off. -/
inductive Starts (env : Env) (active : Active) (pos : Int) (captured : Captured) (s : State) :
    Goal → Moment → Prop
  /-- One of the branches that compete for the longest is tried, after those before it. -/
  | branch {before after : List Pattern} {p : Pattern} {depth : Nat} {s₁ s₂ : State}
      {found : List (Option Solution)} (room : depth ≤ env.bounds.room)
      (entered : Run.enter env depth pos s = .ok () s₁)
      (tried : (before.mapM fun p => firstOf env active none ⟨[.part p (depth + 1)], pos, captured⟩)
        s₁ = .ok found s₂) :
      Starts env active pos captured s (.part (.alternation .longest (before ++ p :: after)) depth)
        ⟨active, none, [⟨[.part p (depth + 1)], pos, captured⟩], s₂⟩
  /-- The body of a look ahead is tried. -/
  | ahead {kind : LookKind} {body : Pattern} {depth : Nat} {s₁ : State}
      (room : depth ≤ env.bounds.room) (entered : Run.enter env depth pos s = .ok () s₁)
      (hk : ¬kind.backward = true) :
      Starts env active pos captured s (.part (.look kind body) depth)
        ⟨active, none, [⟨[.part body (depth + 1)], pos, []⟩], s₁⟩
  /-- The body of a look behind is tried. -/
  | behind {kind : LookKind} {body : Pattern} {depth : Nat} {s₁ : State}
      (room : depth ≤ env.bounds.room) (entered : Run.enter env depth pos s = .ok () s₁)
      (hk : kind.backward = true) :
      Starts env active pos captured s (.part (.look kind body) depth)
        ⟨active, some pos,
          [⟨[.retreat body (retreatFrom body pos).1 depth], (retreatFrom body pos).2, []⟩], s₁⟩
  /-- The body of an atomic rule is tried. -/
  | body {name : String} {key : Option CaptureKey} {depth : Nat} {s' : State} {rule : Rule}
      (h : Enters env active name depth pos s rule s') :
      Starts env active pos captured s (.call name key depth)
        ⟨(rule.name, pos) :: active, none, [⟨[.part rule.pattern (depth + 1)], pos, []⟩], s'⟩

/-- What a moment of a search leads to next. -/
inductive Leads (env : Env) : Moment → Moment → Prop
  /-- A solution that ends elsewhere is passed over. -/
  | passed {active : Active} {target : Option Int} {pos : Int} {captured : Captured}
      {rest : Agenda} {s : State} (h : ¬accepts target pos = true) :
      Leads env ⟨active, target, ⟨[], pos, captured⟩ :: rest, s⟩ ⟨active, target, rest, s⟩
  /-- The first goal is worked off. -/
  | worked {active : Active} {target : Option Int} {g : Goal} {goals : List Goal} {pos : Int}
      {captured : Captured} {rest : Agenda} {s s' : State}
      {ways : List (Branch env.bounds (g.size env.bounds))}
      (h : expand env active pos captured g (solver env) s = .ok ways s') :
      Leads env ⟨active, target, ⟨g :: goals, pos, captured⟩ :: rest, s⟩
        ⟨active, target, ways.map (Branch.thread goals) ++ rest, s'⟩
  /-- A search inside the first goal is started. -/
  | inner {active : Active} {target : Option Int} {g : Goal} {goals : List Goal} {pos : Int}
      {captured : Captured} {rest : Agenda} {s : State} {m : Moment}
      (h : Starts env active pos captured s g m) :
      Leads env ⟨active, target, ⟨g :: goals, pos, captured⟩ :: rest, s⟩ m

/-- What a search passes through from a moment on. -/
abbrev Reaches (env : Env) (start : Moment) : Moment → Prop :=
  Relation.ReflTransGen (Leads env) start

/-- A part is entered at a depth and a position, when no part was entered so deep before. -/
def FirstEntered (env : Env) (start : Moment) (depth : Nat) (pos : Int) : Prop :=
  ∃ active target p goals captured rest s,
    Reaches env start ⟨active, target, ⟨.part p depth :: goals, pos, captured⟩ :: rest, s⟩ ∧
      s.peakDepth < depth

/-- The captures that are given to callbacks, each with its rule: when a rule that was left open
    is finished, and when the body of an atomic rule has matched. -/
inductive Given (env : Env) (start : Moment) : Rule → Capture → Prop
  | finish {active : Active} {target : Option Int} {rule : Rule} {key : Option CaptureKey}
      {opened pos : Int} {outer captured : Captured} {goals : List Goal} {rest : Agenda}
      {s : State} (h : Reaches env start
        ⟨active, target, ⟨.finish rule key opened outer :: goals, pos, captured⟩ :: rest, s⟩) :
      Given env start rule (node rule opened pos captured)
  | body {active : Active} {target : Option Int} {name : String} {key : Option CaptureKey}
      {depth : Nat} {pos : Int} {captured : Captured} {goals : List Goal} {rest : Agenda}
      {s s₁ s₂ : State} {rule : Rule} {u : Solution} (h : Reaches env start
        ⟨active, target, ⟨.call name key depth :: goals, pos, captured⟩ :: rest, s⟩)
      (entered : Enters env active name depth pos s rule s₁)
      (found : firstOf env ((rule.name, pos) :: active) none
        ⟨[.part rule.pattern (depth + 1)], pos, []⟩ s₁ = .ok (some u) s₂) :
      Given env start rule (node rule pos u.stop u.captured)

end GrammarMatch.Match

namespace GrammarMatch

open Match

/-- The start of the search for a query, by a matcher that has kept nothing yet. -/
def Query.moment (text : Text) (registry : Option Registry) (q : Query) (pos : Int) : Moment :=
  ⟨[], q.target text, [⟨[q.goal], pos, []⟩], { registry }⟩

end GrammarMatch
