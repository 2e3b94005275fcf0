/-
  File:      GrammarMatch/Proofs/Plain.lean
  Subject:   Matching by plain recursion on patterns.

  The search works off an agenda, with the choices that are left in a list of threads. Here the
  same patterns are matched by recursion, and every part answers with all its solutions in
  order: a sequence binds its parts one after the other, an alternation appends its branches, a
  repetition is a recursion over its rounds. No results are kept and nothing is counted.

  `eval` is by recursion on the levels of nesting that are left. One level is `part`, which gets
  the answers of the parts one level deeper as a function.
-/
import GrammarMatch.Match.Search
import GrammarMatch.Proofs.Answers
import GrammarMatch.Proofs.Lexicon

namespace GrammarMatch

/-! ## 1. Rounds of a repetition -/

/-- A repetition may stop after so many rounds. -/
def Quantity.mayStop (q : Quantity) (count : Nat) : Bool := q.min ≤ count

/-- A repetition may go on after so many rounds. -/
def Quantity.mayGoOn (q : Quantity) (count : Nat) : Bool :=
  match q.max with
  | none => true
  | some max => count < max

namespace Match

/-- The solutions of a repetition after `count` rounds, given those of its body. A round of no
    width is the last one, so that there are at most as many rounds as characters left, and one
    more: `left` bounds them. -/
def rounds (q : Quantity) (body : Solution → Answers Solution) :
    Nat → Nat → Solution → Answers Solution
  | 0, _, _ => .done
  | left + 1, count, s =>
    let goOn := if q.mayGoOn count then
        (body s).bind fun t =>
          if t.stop = s.stop then .just t else rounds q body left (count + 1) t
      else .done
    .only (!q.greedy && q.mayStop count) s ++ goOn ++ .only (q.greedy && q.mayStop count) s

/-! ## 2. Parts of patterns -/

/-- What matching by plain recursion depends on. -/
structure Basis where
  env : Env
  lexicon : Lexicon
  /-- What an atomic rule answers where it is already being matched. -/
  again : Except Failure Verdict

/-- The matcher's own basis: where an atomic rule is already being matched it does not match. -/
def Basis.of (env : Env) (x : Lexicon) : Basis := ⟨env, x, .ok none⟩

/-- The solutions of patterns one level deeper, while some calls are active. -/
abbrev Inner := Active → Pattern → Solution → Answers Solution

namespace Basis

variable (w : Basis)

/-- Nesting so deep is allowed. -/
def entry (depth : Nat) (pos : Int) : Except Failure Unit :=
  match w.env.settings.maxDepth with
  | some limit => if limit < depth then .error (.depthLimit depth pos) else .ok ()
  | none => .ok ()

/-- The capture of a rule that matched from a start on, with the value of its callback. -/
def finished (rule : Rule) (start : Int) (t : Solution) : Except Failure Capture :=
  w.env.actions.invoke w.env.text rule.name
    (.build (some (.name rule.name)) start t.stop rule.plural (some rule.name) t.captured)

/-- The result of an atomic rule: its first solution, finished. -/
def verdict (inner : Inner) (active : Active) (rule : Rule) (pos : Int) : Except Failure Verdict :=
  if active.contains (rule.name, pos) then w.again
  else
    (inner ((rule.name, pos) :: active) rule.pattern ⟨pos, []⟩).first.bind fun
      | none => .ok none
      | some t => (w.finished rule pos t).map fun c => some (t.stop, c)

/-- The solution that a result stands for. -/
def settled (key : Option CaptureKey) (s : Solution) : Verdict → Answers Solution
  | none => .done
  | some (stop, c) => .just ⟨stop, capturedUnder key c s.captured⟩

/-- The solution of a rule whose body was matched. -/
def closed (rule : Rule) (key : Option CaptureKey) (start : Int) (outer : Captured) (t : Solution) :
    Answers Solution :=
  .attempt (w.finished rule start t) fun c => .just ⟨t.stop, capturedUnder key c outer⟩

/-- The solutions of a call: an atomic rule has at most one, any other rule those of its body. -/
def call (inner : Inner) (active : Active) (name : String) (key : Option CaptureKey)
    (s : Solution) : Answers Solution :=
  .attempt (w.lexicon.rules name) fun rule =>
    if rule.kind.atomic then .attempt (w.verdict inner active rule s.stop) (settled key s)
    else (inner active rule.pattern ⟨s.stop, []⟩).bind (w.closed rule key s.stop s.captured)

/-- The solution of a group whose body was matched. -/
def grouped (key : CaptureKey) (plural : List CaptureKey) (start : Int) (outer : Captured)
    (t : Solution) : Solution :=
  ⟨t.stop, (key, .build (some key) start t.stop plural none t.captured) :: outer⟩

/-- The solutions from so many starts, the given one and those before it. -/
def retreat (body : Solution → Answers Solution) : Nat → Solution → Answers Solution
  | 0, _ => .done
  | left + 1, s => body s ++ retreat body left ⟨s.stop - 1, s.captured⟩

/-- What a look finds: the first solution ahead, or the first one that comes from behind and ends
    at the position. -/
def looked (inner : Inner) (active : Active) (kind : LookKind) (body : Pattern) (pos : Int) :
    Except Failure (Option Solution) :=
  if kind.backward then
    ((retreat (inner active body) (retreatFrom body pos).1 ⟨(retreatFrom body pos).2, []⟩).filter
      fun t => accepts (some pos) t.stop).first
  else (inner active body ⟨pos, []⟩).first

/-- How many rounds a repetition can have from a position on. -/
def roundsLeft (pos : Int) : Nat := (w.env.text.stop - pos).toNat + 1

/-- The solutions of a part, given those of the parts one level deeper. -/
def part (inner : Inner) (active : Active) (s : Solution) : Pattern → Answers Solution
  | .literal chars ignoreCase =>
    match literalStop? w.env.text chars ignoreCase s.stop with
    | some stop => .just ⟨stop, s.captured⟩
    | none => .done
  | .charClass items negated ignoreCase =>
    .attempt (classHolds w.env.text items negated ignoreCase s.stop) fun holds =>
      .only holds ⟨s.stop + 1, s.captured⟩
  | .sequence parts => .chain (parts.map (inner active)) s
  | .alternation .ordered branches => .concat (branches.map fun p => inner active p s)
  | .alternation .longest branches =>
    .attempt (branches.mapM fun p => (inner active p s).first) fun found =>
      .ofList (longestFirst found)
  | .repetition q body => rounds q (inner active body) (w.roundsLeft s.stop) 0 s
  | .group none _ body => inner active body s
  | .group (some key) plural body =>
    (inner active body ⟨s.stop, []⟩).map (grouped key plural s.stop s.captured)
  | .look kind body =>
    .attempt (looked inner active kind body s.stop) fun found =>
      .only (found.isSome != kind.negative) s
  | .anchor kind => .attempt (anchorHolds w.env.text s.stop kind) fun holds => .only holds s
  | .ruleRef r => w.call inner active r.name r.key? s
  | .whitespace =>
    if w.lexicon.space then w.call inner active "ws" none s
    else .attempt (gapStop? w.env.text s.stop) fun
      | some stop => .just ⟨stop, s.captured⟩
      | none => .done

/-! ## 3. All levels -/

/-- The solutions of a pattern at a depth, with so many levels of nesting left. -/
def eval : Nat → Nat → Inner
  | 0, depth, _, _, s => .attempt (w.entry depth s.stop) fun _ => .failed .stackExhausted
  | levels + 1, depth, active, p, s =>
    .attempt (w.entry depth s.stop) fun _ => w.part (eval levels (depth + 1)) active s p

/-- The solutions of a pattern at a depth. -/
def solutions (depth : Nat) : Inner := w.eval (w.env.settings.room + 1 - depth) depth

end Basis

end Match

end GrammarMatch
