/-
  File:      GrammarMatch/Matcher.lean
  Subject:   Matchers: runs of patterns and rules over one text.

  A matcher keeps its state from run to run, so that results of atomic rules
  found in one run serve the next. A run matches a pattern, or a rule of the
  registry, at a position.
-/
import GrammarMatch.Match.Search

namespace GrammarMatch

open Match

/-- A matcher: what it was given and what it keeps. -/
structure Matcher where
  env : Env
  state : State

/-- A successful run: where the match ends, and its capture. -/
structure Match.Found where
  stop : Int
  capture : Capture

namespace Matcher

/-- A fresh matcher for a text. -/
def start (text : Text) (registry : Option Registry) (actions : Actions) (settings : Settings) :
    Matcher :=
  ⟨⟨text, actions, settings⟩, { registry }⟩

/-- Go on with a computation, also after a failure. -/
def advance (m : Matcher) (run : Run α) : Except Failure α × Matcher :=
  match run m.state with
  | .ok a s => (.ok a, { m with state := s })
  | .error f s => (.error f, { m with state := s })

/-- Match a pattern at a position. The capture of the whole has no name. -/
def runPattern (env : Env) (p : Pattern) (pos : Int) : Run (Option Found) := do
  match ← seek env [] none [⟨[.part p 1], pos, []⟩] with
  | none => return none
  | some (s, _) =>
    return some ⟨s.stop, Capture.build none pos s.stop p.pluralKeys none s.captured⟩

/-- Match a rule at a position. If the match has to reach the end of the
    text, the search goes on until it does. -/
def runRule (env : Env) (name : String) (pos : Int) (anchored : Bool) : Run (Option Found) := do
  let target := if anchored then some env.text.stop else none
  let found ← seek env [] target [⟨[.call name (some (.name name)) 1], pos, []⟩]
  let result : Option Found := match found with
    | some (⟨stop, (_, c) :: _⟩, _) => some ⟨stop, c⟩
    | _ => none
  Run.logRun name pos result.isSome
  return result

/-- Match a pattern at a position. -/
def pattern (m : Matcher) (p : Pattern) (pos : Int) : Except Failure (Option Found) × Matcher :=
  m.advance (runPattern m.env p pos)

/-- Match a rule at a position. -/
def rule (m : Matcher) (name : String) (pos : Int) (anchored : Bool) :
    Except Failure (Option Found) × Matcher :=
  m.advance (runRule m.env name pos anchored)

end Matcher

/-- Match a pattern at a cursor: the cursor after the match and the capture. -/
def Pattern.tryMatch (p : Pattern) (c : Cursor) (registry : Option Registry) (actions : Actions)
    (settings : Settings) : Except Failure (Option (Cursor × Capture)) × Matcher :=
  let (outcome, m) := (Matcher.start c.text registry actions settings).pattern p c.pos
  (match outcome with
    | .error f => .error f
    | .ok none => .ok none
    | .ok (some found) => (Cursor.at c.text found.stop).map fun c' => some (c', found.capture), m)

end GrammarMatch
