/-
  File:      GrammarMatch/Flags.lean
  Subject:   Flags of patterns and kinds of rules.

  Flags change how the text of a pattern is compiled. The kind of a rule
  decides three things at once: whether white space may stand between the
  parts of its pattern, how its alternatives compete, and whether a match
  of the rule is final once it is found.
-/
import GrammarMatch.Failure
import GrammarMatch.Unicode.Case

namespace GrammarMatch

/-! ## 1. Flags -/

/-- The flags of a pattern. -/
structure Flags where
  /-- Letters match without regard to case. -/
  ignoreCase : Bool := false
  /-- All matches of a text are wanted, not just the first. -/
  global : Bool := false
  /-- The anchors for the start and the end hold at every line. -/
  multiline : Bool := false
  /-- White space is allowed between the parts of every sequence. -/
  sigspace : Bool := false
  deriving DecidableEq, Repr, Inhabited

namespace Flags

/-- No flag. -/
def none : Flags := {}

/-- The flags of either set. -/
def union (a b : Flags) : Flags :=
  { ignoreCase := a.ignoreCase || b.ignoreCase
    global := a.global || b.global
    multiline := a.multiline || b.multiline
    sigspace := a.sigspace || b.sigspace }

/-- The names of the flags that are set, in the order of their weights. -/
def names (f : Flags) : List String :=
  (if f.ignoreCase then ["IGNORECASE"] else []) ++ (if f.global then ["GLOBAL"] else []) ++
  (if f.multiline then ["MULTILINE"] else []) ++ (if f.sigspace then ["SIGSPACE"] else [])

/-- The flags as a number: the sum of their weights. -/
def weight (f : Flags) : Nat :=
  f.ignoreCase.toNat + 2 * f.global.toNat + 4 * f.multiline.toNat + 8 * f.sigspace.toNat

/-- The text that shows the flags with their number. -/
def quoted (f : Flags) : String :=
  let shown := if f.names.isEmpty then "NONE" else "|".intercalate f.names
  s!"<Flags.{shown}: {f.weight}>"

/-- The flag that a declaration calls by a name. -/
def ofName? : String → Option Flags
  | "ignore-case" => some { ignoreCase := true }
  | "multiline" => some { multiline := true }
  | "sigspace" => some { sigspace := true }
  | "global" => some { global := true }
  | _ => Option.none

/-- The flags that a declaration names. Case and white space around a name
    do not matter, and an empty name adds nothing. -/
def ofNames : List String → Except Failure Flags
  | [] => .ok none
  | name :: rest =>
    let key := Unicode.lower (String.ofList (Unicode.trim name.toList))
    if key.isEmpty then ofNames rest
    else match ofName? key with
      | some flag => (ofNames rest).map flag.union
      | Option.none => .error (.unknownFlag name)

end Flags

/-! ## 2. Kinds of rules -/

/-- How alternatives compete: the first that fits, or the longest. -/
inductive ChoiceMode where
  | ordered
  | longest
  deriving DecidableEq, Repr, Inhabited

/-- The kind of a rule. -/
inductive RuleKind where
  | token
  | rule
  | regex
  deriving DecidableEq, Repr, Inhabited

namespace RuleKind

/-- The name of the kind. -/
def name : RuleKind → String
  | .token => "token"
  | .rule => "rule"
  | .regex => "regex"

/-- The kind that a name denotes; case does not matter. -/
def ofName? (s : String) : Option RuleKind :=
  match Unicode.lower s with
  | "token" => some .token
  | "rule" => some .rule
  | "regex" => some .regex
  | _ => none

/-- The kind that a value denotes. Only texts denote one: the text of any
    other value is no name of a kind. -/
def ofDatum : Datum → Except Failure RuleKind
  | .string s =>
    match ofName? s with
    | some kind => .ok kind
    | none => .error (.unknownKind (.string s))
  | given => .error (.unknownKind given)

/-- White space may stand between the parts of such a rule. -/
def sigspace (kind : RuleKind) : Bool := kind == .rule

/-- How the alternatives of such a rule compete. -/
def choiceMode : RuleKind → ChoiceMode
  | .regex => .ordered
  | _ => .longest

/-- A match of such a rule is final once it is found. -/
def atomic (kind : RuleKind) : Bool := kind != .regex

end RuleKind

end GrammarMatch
