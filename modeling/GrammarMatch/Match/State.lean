/-
  File:      GrammarMatch/Match/State.lean
  Subject:   What a matcher is given, and what it keeps while it works.

  Given are the text, the callbacks and the settings. Kept are the registry,
  in which a deferred rule may be compiled on the way, the results of rules
  that are final once found, the counters, and a trace of what happened. All
  of it outlives a failure.
-/
import GrammarMatch.Action
import GrammarMatch.Registry
import Std.Data.HashMap

namespace GrammarMatch

/-! ## 1. Settings -/

/-- Limits and switches of a match. -/
structure Settings where
  /-- How deep matching may nest; without a limit it is bounded by `room`. -/
  maxDepth : Option Nat := none
  /-- Results of atomic rules are kept for later calls. -/
  memoize : Bool := true
  /-- How deep matching can nest at all. -/
  room : Nat := 4000
  deriving DecidableEq, Repr

/-- Settings with a limit on nesting, which must be positive. -/
def Settings.make (maxDepth : Option Int) (memoize : Bool) : Except Failure Settings :=
  match maxDepth with
  | none => .ok { memoize }
  | some limit =>
    if limit < 1 then .error (.badDepthLimit limit)
    else .ok { maxDepth := some limit.toNat, memoize }

namespace Match

/-- What a matcher is given. -/
structure Env where
  text : Text
  actions : Actions
  settings : Settings

/-! ## 2. What is kept -/

/-- What happened during a match. -/
inductive Event where
  /-- The callback of a rule was run on a span. -/
  | called (rule : String) (start stop : Int)
  /-- The body of an atomic rule was tried to the end at a position. -/
  | settled (rule : String) (start : Int)
  /-- An atomic rule was called at a position where it was being matched. -/
  | reentered (rule : String) (start : Int)
  /-- A run that was asked for a rule at a position came to an end, when the
      counters of the matcher stood as given. -/
  | ran (rule : String) (start : Int) (matched : Bool) (ruleCalls memoHits peakDepth : Nat)
  deriving DecidableEq, Repr

/-- The result of an atomic rule at a position: where it ends and what it
    captured, or that it does not match there. -/
abbrev Verdict := Option (Int × Capture)

/-- What a matcher keeps. -/
structure State where
  /-- The rules, if there are any. -/
  registry : Option Registry
  /-- The results of atomic rules, by name and position. -/
  memo : Std.HashMap (String × Int) Verdict := {}
  /-- How often a rule was called. -/
  ruleCalls : Nat := 0
  /-- How often a kept result was used. -/
  memoHits : Nat := 0
  /-- The greatest depth that was reached. -/
  peakDepth : Nat := 0
  /-- The position at which it was first reached. -/
  peakPos : Int := 0
  /-- What happened, the latest first. -/
  trace : List Event := []

/-- A step of a match: it may fail, and goes on with what it keeps. -/
abbrev Run := EStateM Failure State

namespace Run

/-- The outcome of a test that keeps nothing. -/
def ofExcept {α : Type} : Except Failure α → Run α
  | .ok a => pure a
  | .error f => throw f

/-- Add to the trace. -/
def log (e : Event) : Run Unit := modify fun s => { s with trace := e :: s.trace }

/-- The rule of a name. Without a registry there is none. -/
def lookup (name : String) : Run Rule := fun s =>
  match s.registry with
  | none => .error (.undefinedRule name) s
  | some r =>
    match Registry.rule name r with
    | .ok rule r => .ok rule { s with registry := some r }
    | .error f r => .error f { s with registry := some r }

/-- Whether the grammar defines a rule for white space. -/
def definesSpace : Run Bool := return ((← get).registry.map (·.defines "ws")).getD false

/-- Enter a part of a pattern at a depth: the peak is recorded, and the limit
    on nesting is checked before the room there is. -/
def enter (env : Env) (depth : Nat) (pos : Int) : Run Unit := do
  modify fun s => if s.peakDepth < depth then { s with peakDepth := depth, peakPos := pos } else s
  match env.settings.maxDepth with
  | some limit => if limit < depth then throw (.depthLimit depth pos)
  | none => pure ()

/-- Count the call of a rule. -/
def countCall : Run Unit := modify fun s => { s with ruleCalls := s.ruleCalls + 1 }

/-- The kept result of an atomic rule at a position; its use is counted. -/
def remembered (env : Env) (name : String) (pos : Int) : Run (Option Verdict) := do
  if env.settings.memoize then
    match (← get).memo[(name, pos)]? with
    | some verdict =>
      modify fun s => { s with memoHits := s.memoHits + 1 }
      return some verdict
    | none => return none
  else return none

/-- Keep the result of an atomic rule at a position. -/
def settle (env : Env) (name : String) (pos : Int) (verdict : Verdict) : Run Unit := do
  log (.settled name pos)
  if env.settings.memoize then
    modify fun s => { s with memo := s.memo.insert (name, pos) verdict }

/-- Note the end of a run that was asked for a rule. -/
def logRun (name : String) (pos : Int) (matched : Bool) : Run Unit := modify fun s =>
  { s with trace := .ran name pos matched s.ruleCalls s.memoHits s.peakDepth :: s.trace }

/-- The capture of a rule that matched, with the value of its callback. -/
def finish (env : Env) (rule : Rule) (start stop : Int) (captured : Captured) : Run Capture := do
  let c := Capture.build (some (.name rule.name)) start stop rule.plural (some rule.name) captured
  if env.actions.hasAction rule.name then log (.called rule.name start stop)
  ofExcept (env.actions.invoke env.text rule.name c)

end Run

end Match

end GrammarMatch
