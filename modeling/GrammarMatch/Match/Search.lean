/-
  File:      GrammarMatch/Match/Search.lean
  Subject:   The search for matches.

  `expand` says how a goal is worked off: which smaller goals may take its
  place, the preferred way first. Most goals leave the choice open, and the
  search comes back to it when what follows fails. Four things are settled on
  the spot by a search of their own, of which only the first solution counts:
  a look at the text beside the position, the branches of an alternation
  that prefers the longest, and the body of an atomic rule.

  `seek` works off an agenda until a thread has no goals left. It answers
  with the solution and the threads that are left, so that the next solution
  can be asked for.
-/
import GrammarMatch.Match.Goal
import GrammarMatch.Match.Test

namespace GrammarMatch.Match

/-- Atomic rules that are being matched, with the positions at which they
    were called. -/
abbrev Active := List (String × Int)

section Expansion

variable (env : Env) (active : Active)

/-! ## 1. Choices -/

/-- The way on if a test holds. -/
def wayIf {m : Nat × Nat} (holds : Bool) (pos : Int) (captured : Captured) :
    List (Branch env.bounds m) :=
  if holds then [.done pos captured] else []

/-- The choices of a repetition after `count` rounds: stop, if there were
    enough, or go on, if there may be more. -/
def choices {m : Nat × Nat} (q : Quantity) (body : Pattern) (count : Nat) (depth : Nat) (pos : Int)
    (captured : Captured) (hp : (Goal.part body (depth + 1)).Under env.bounds m)
    (hr : (Goal.round q body count pos depth).Under env.bounds m) :
    List (Branch env.bounds m) :=
  let stop := wayIf env (q.min ≤ count) pos captured
  let mayGoOn := match q.max with
    | none => true
    | some max => count < max
  let goOn := if mayGoOn then
      [.both (.part body (depth + 1)) (.round q body count pos depth) hp hr pos captured]
    else []
  if q.greedy then goOn ++ stop else stop ++ goOn

/-- The starting points of a look behind: those from which a match of the
    width of the body can end at the position, the nearest first. How many
    there are, and which is the first. -/
def retreatFrom (body : Pattern) (pos : Int) : Nat × Int :=
  let first := pos - body.width.low
  let last := match body.width.high with
    | none => 0
    | some high => max 0 (pos - high)
  ((first - last + 1).toNat, first)

/-! ## 2. Parts of patterns -/

/-- The first solutions of branches that compete for the longest, longest
    first; of two equally long ones the earlier branch comes first. -/
def longestFirst (found : List (Option Solution)) : List Solution :=
  (found.filterMap id).mergeSort (fun a b => b.stop ≤ a.stop)

/-- How a part of a pattern is matched. -/
def expandPart (depth : Nat) (room : depth ≤ env.bounds.room) (pos : Int) (captured : Captured)
    (solve : Solver env.bounds (Goal.partSize env.bounds depth)) :
    Pattern → Run (List (Branch env.bounds (Goal.partSize env.bounds depth)))
  | .literal chars ignoreCase =>
    match literalStop? env.text chars ignoreCase pos with
    | some stop => return [.done stop captured]
    | none => return []
  | .charClass items negated ignoreCase => do
    let holds ← Run.ofExcept (classHolds env.text items negated ignoreCase pos)
    return wayIf env holds (pos + 1) captured
  | .sequence parts =>
    return [⟨parts.map (Goal.part · (depth + 1)), pos, captured, by
      intro g hg
      obtain ⟨p, _, rfl⟩ := List.mem_map.mp hg
      exact Goal.part_under_part room p⟩]
  | .alternation .ordered branches =>
    return branches.map fun p =>
      .single (.part p (depth + 1)) (Goal.part_under_part room p) pos captured
  | .alternation .longest branches => do
    let found ← branches.mapM fun p =>
      solve active none ⟨[.part p (depth + 1)], pos, captured⟩
        (by simpa using Goal.part_under_part room p)
    return (longestFirst found).map fun s => .done s.stop s.captured
  | .repetition q body =>
    return choices env q body 0 depth pos captured (Goal.part_under_part room body)
      (Goal.round_under_part q body 0 pos depth)
  | .group none _ body =>
    return [.single (.part body (depth + 1)) (Goal.part_under_part room body) pos captured]
  | .group (some key) plural body =>
    return [.both (.part body (depth + 1)) (.close key plural pos captured)
      (Goal.part_under_part room body) (Goal.close_under_part key plural pos captured depth)
      pos []]
  | .look kind body => do
    let found ←
      if kind.backward then
        let (left, first) := retreatFrom body pos
        solve active (some pos) ⟨[.retreat body left depth], first, []⟩
          (by simpa using Goal.retreat_under_part body left depth)
      else
        solve active none ⟨[.part body (depth + 1)], pos, []⟩
          (by simpa using Goal.part_under_part room body)
    return wayIf env (found.isSome != kind.negative) pos captured
  | .anchor kind => do
    let holds ← Run.ofExcept (anchorHolds env.text pos kind)
    return wayIf env holds pos captured
  | .ruleRef r =>
    return [.single (.call r.name r.key? depth) (Goal.call_under_part r.name r.key? depth) pos
      captured]
  | .whitespace => do
    if ← Run.definesSpace then
      return [.single (.call "ws" none depth) (Goal.call_under_part "ws" none depth) pos captured]
    else
      match ← Run.ofExcept (gapStop? env.text pos) with
      | some stop => return [.done stop captured]
      | none => return []

/-! ## 3. Rules -/

/-- What is captured after a rule: its capture under the key, if there is
    one. -/
def capturedUnder (key : Option CaptureKey) (c : Capture) (outer : Captured) : Captured :=
  match key with
  | some key => (key, c) :: outer
  | none => outer

/-- The result of an atomic rule: the first match of its body, with its
    callback run. A kept result is taken as it is, and a rule that is already
    being matched at the position does not match there. -/
def verdict (depth : Nat) (room : depth ≤ env.bounds.room) (pos : Int)
    (solve : Solver env.bounds (Goal.callSize env.bounds depth)) (rule : Rule) : Run Verdict := do
  match ← Run.remembered env rule.name pos with
  | some kept => return kept
  | none =>
    if active.contains (rule.name, pos) then
      Run.log (.reentered rule.name pos)
      return none
    else
      let found ← solve ((rule.name, pos) :: active) none
        ⟨[.part rule.pattern (depth + 1)], pos, []⟩
        (by simpa [Goal.callSize] using Goal.part_under room rule.pattern 0)
      let result ← match found with
        | none => pure none
        | some s => do
          let c ← Run.finish env rule pos s.stop s.captured
          pure (some (s.stop, c))
      Run.settle env rule.name pos result
      return result

/-- How a rule is called. An atomic rule has at most one match; any other
    rule is as open as its body. -/
def expandCall (depth : Nat) (room : depth ≤ env.bounds.room) (pos : Int) (captured : Captured)
    (solve : Solver env.bounds (Goal.callSize env.bounds depth)) (name : String)
    (key : Option CaptureKey) :
    Run (List (Branch env.bounds (Goal.callSize env.bounds depth))) := do
  let rule ← Run.lookup name
  Run.countCall
  if rule.kind.atomic then
    match ← verdict env active depth room pos solve rule with
    | none => return []
    | some (stop, c) => return [.done stop (capturedUnder key c captured)]
  else
    return [.both (.part rule.pattern (depth + 1)) (.finish rule key pos captured)
      (Goal.part_under room rule.pattern 0) (Goal.finish_under_call room rule key pos captured)
      pos []]

/-! ## 4. Goals -/

/-- How a goal is worked off. -/
def expand (pos : Int) (captured : Captured) :
    (g : Goal) → Solver env.bounds (g.size env.bounds) →
      Run (List (Branch env.bounds (g.size env.bounds)))
  | .part p depth, solve => do
    Run.enter env depth pos
    if room : depth ≤ env.bounds.room then
      expandPart env active depth room pos captured solve p
    else throw .stackExhausted
  | .call name key depth, solve =>
    if room : depth ≤ env.bounds.room then
      expandCall env active depth room pos captured solve name key
    else throw .stackExhausted
  | .round q body count start depth, _ =>
    if room : depth ≤ env.bounds.room then
      if h : start < pos ∧ start < env.bounds.stop then
        return choices env q body (count + 1) depth pos captured
          (Goal.part_under room body _)
          (Goal.round_under_round h.1 h.2 q body count (count + 1) depth)
      else return [.done pos captured]
    else throw .stackExhausted
  | .close key plural start outer, _ =>
    return [.done pos ((key, Capture.build (some key) start pos plural none captured) :: outer)]
  | .finish rule key start outer, _ => do
    let c ← Run.finish env rule start pos captured
    return [.done pos (capturedUnder key c outer)]
  | .retreat _ 0 _, _ => return []
  | .retreat body (left + 1) depth, _ =>
    if room : depth ≤ env.bounds.room then
      return [.single (.part body (depth + 1)) (Goal.part_under room body _) pos captured,
        .single (.retreat body left depth) (Goal.retreat_under_retreat body left depth) (pos - 1)
          captured]
    else throw .stackExhausted

end Expansion

/-! ## 5. The search -/

/-- Whether a solution may end at a position. -/
def accepts (target : Option Int) (pos : Int) : Bool :=
  match target with
  | some stop => pos == stop
  | none => true

/-- The first solution of an agenda, and what is left of the agenda then. If
    a target is given, only solutions that end there count. -/
def seek (env : Env) (active : Active) (target : Option Int) (agenda : Agenda) :
    Run (Option (Solution × Agenda)) :=
  match agenda with
  | [] => return none
  | ⟨[], pos, captured⟩ :: rest =>
    if accepts target pos then return some (⟨pos, captured⟩, rest)
    else seek env active target rest
  | ⟨g :: goals, pos, captured⟩ :: rest => do
    let ways ← expand env active pos captured g fun active' target' t _h => do
      let found ← seek env active' target' [t]
      return found.map Prod.fst
    seek env active target (ways.map (Branch.thread goals) ++ rest)
termination_by Job.mk (b := env.bounds) agenda
decreasing_by
  · exact Shrinks.replace [] (by simp)
  · refine Shrinks.alone [t] ?_
    intro u hu
    rw [List.mem_singleton.mp hu]
    exact Shrinks.alone _ _h
  · refine Shrinks.replace _ ?_
    intro u hu
    obtain ⟨w, _, rfl⟩ := List.mem_map.mp hu
    exact Shrinks.replace w.goals w.below

end GrammarMatch.Match
