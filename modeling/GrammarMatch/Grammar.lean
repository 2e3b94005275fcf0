/-
  File:      GrammarMatch/Grammar.lean
  Subject:   Parsing a text by the rules of a grammar.

  A parse matches the start rule against the whole text; a partial parse
  matches it at a position, wherever it ends; a scan finds one match after
  the other. Each works with a matcher of its own and leaves a registry
  behind, in which deferred rules may have been compiled.
-/
import GrammarMatch.Matcher

namespace GrammarMatch

open Match

namespace Grammar

/-- What a grammar works with beside its rules. -/
structure Task where
  text : Text
  start : String
  actions : Actions
  settings : Settings

/-- A matcher for a task. -/
def Task.matcher (t : Task) (r : Registry) : Matcher :=
  Matcher.start t.text (some r) t.actions t.settings

/-- The start rule must exist before anything is matched. -/
def Task.check (t : Task) : Run Unit := do
  let _ ← Run.lookup t.start

/-- Match the start rule against the whole text. -/
def parse (r : Registry) (t : Task) : Except Failure (Option Capture) × Matcher :=
  let m := t.matcher r
  m.advance do
    t.check
    let found ← Matcher.runRule m.env t.start 0 true
    return found.map Found.capture

/-- Match the start rule at a position of the text. -/
def subparse (r : Registry) (t : Task) (pos : Int) : Except Failure (Option Found) × Matcher :=
  let m := t.matcher r
  m.advance do
    let _ ← Run.ofExcept (Cursor.at t.text pos)
    t.check
    Matcher.runRule m.env t.start pos false

/-- The result of a scan: the matches up to its end or up to a failure. -/
structure Scanned where
  found : List Capture
  failure : Option Failure

/-- The matches of a rule from a position on; `left` characters are left
    there. Where the rule fails or matches nothing, one character is skipped. -/
def scanFrom (m : Matcher) (start : String) (left : Nat) (pos : Int) (found : List Capture) :
    Scanned × Matcher :=
  if left = 0 then (⟨found.reverse, none⟩, m)
  else
    match m.rule start pos false with
    | (.error f, m) => (⟨found.reverse, some f⟩, m)
    | (.ok result, m) =>
      match result with
      | some ⟨stop, c⟩ =>
        if _h : pos < stop then
          scanFrom m start (left - (stop - pos).toNat) stop (c :: found)
        else scanFrom m start (left - 1) (pos + 1) found
      | none => scanFrom m start (left - 1) (pos + 1) found
termination_by left
decreasing_by all_goals omega

/-- All matches of the start rule that are not empty, from left to right. -/
def scan (r : Registry) (t : Task) : Scanned × Matcher :=
  match (t.matcher r).advance t.check with
  | (.error f, m) => (⟨[], some f⟩, m)
  | (.ok _, m) => scanFrom m t.start t.text.size 0 []

end Grammar

end GrammarMatch
