/-
  File:      GrammarMatch/Finder.lean
  Subject:   Finding a single pattern in texts.

  A finder is a compiled pattern with its flags. It matches at a position,
  against a whole text, at the first position that succeeds, or again and
  again; rules that the pattern refers to come from a registry, if there is
  one.
-/
import GrammarMatch.Matcher

namespace GrammarMatch

open Match

/-- A pattern that is ready to be found. -/
structure Finder where
  source : String
  flags : Flags
  registry : Option Registry
  settings : Settings
  pattern : Pattern

namespace Finder

/-- Compile a pattern for finding. -/
def make (source : String) (flags : Flags) (registry : Option Registry) (settings : Settings) :
    Except Failure Finder :=
  match Pattern.compile source.toList flags .regex with
  | .ok pattern => .ok { source, flags, registry, settings, pattern }
  | .error e => .error (.badSyntax e)

/-- The text that shows the finder. -/
def quoted (f : Finder) : String :=
  "Pattern(" ++ Quoted.text f.source ++ ", " ++ f.flags.quoted ++ ")"

/-- A fresh matcher for a text. -/
def matcher (f : Finder) (text : Text) : Matcher :=
  Matcher.start text f.registry {} f.settings

/-- The pattern followed by the end of the text. -/
def whole (f : Finder) : Pattern := .sequence [f.pattern, .anchor .endOfString]

/-- The capture of the pattern at a position. -/
def matchAt (f : Finder) (text : Text) (pos : Int) : Except Failure (Option Capture) :=
  match Cursor.at text pos with
  | .error e => .error e
  | .ok _ => ((f.matcher text).pattern f.pattern pos).1.map (·.map Found.capture)

/-- The capture of the pattern against the whole text. -/
def fullMatch (f : Finder) (text : Text) : Except Failure (Option Capture) :=
  ((f.matcher text).pattern f.whole 0).1.map (·.map Found.capture)

/-- The first capture from a position on; `left` more positions are tried
    after it. -/
def searchFrom (p : Pattern) (m : Matcher) (left : Nat) (pos : Int) :
    Except Failure (Option Capture) :=
  match m.pattern p pos with
  | (.error e, _) => .error e
  | (.ok (some found), _) => .ok (some found.capture)
  | (.ok none, m) =>
    match left with
    | 0 => .ok none
    | left + 1 => searchFrom p m left (pos + 1)

/-- The first capture at or after a position. -/
def search (f : Finder) (text : Text) (pos : Int) : Except Failure (Option Capture) :=
  match Cursor.at text pos with
  | .error e => .error e
  | .ok _ => searchFrom f.pattern (f.matcher text) (text.stop - pos).toNat pos

/-- All captures from a position on, and the failure that ended the search,
    if one did; `left` positions are left. After an empty match the search
    goes on one character further. -/
def findFrom (p : Pattern) (m : Matcher) (left : Nat) (pos : Int) (found : List Capture) :
    List Capture × Option Failure :=
  if left = 0 then (found.reverse, none)
  else
    match m.pattern p pos with
    | (.error e, _) => (found.reverse, some e)
    | (.ok none, m) => findFrom p m (left - 1) (pos + 1) found
    | (.ok (some ⟨stop, c⟩), m) =>
      if pos < stop then findFrom p m (left - (stop - pos).toNat) stop (c :: found)
      else findFrom p m (left - 1) (pos + 1) (c :: found)
termination_by left
decreasing_by all_goals omega

/-- All captures that do not overlap, from left to right. -/
def findAll (f : Finder) (text : Text) : List Capture × Option Failure :=
  findFrom f.pattern (f.matcher text) (text.size + 1) 0 []

/-- All captures if the pattern is global, else at most the first. -/
def captures (f : Finder) (text : Text) : Except Failure (List Capture) :=
  if f.flags.global then
    match f.findAll text with
    | (found, none) => .ok found
    | (_, some e) => .error e
  else (f.search text 0).map Option.toList

end Finder

end GrammarMatch
