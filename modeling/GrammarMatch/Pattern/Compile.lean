/-
  File:      GrammarMatch/Pattern/Compile.lean
  Subject:   From the tree of tokens to the pattern.

  The tree is walked once, from left to right. The number of the next group
  without a name goes along: the branches of an alternation start from the
  same number, and what a capture or a look encloses is a scope of its own,
  counted from zero. Back come the pattern, the next free number and the
  named captures of the scope with the places of their openers, so that a
  row of parts can refuse a name that two of its parts capture.
-/
import GrammarMatch.Syntax.Tree
import GrammarMatch.Syntax.Part

namespace GrammarMatch

open Syntax

/-- What the flags and the kind of a pattern decide about its compilation. -/
structure Dialect where
  ignoreCase : Bool
  multiline : Bool
  sigspace : Bool
  mode : ChoiceMode
  deriving DecidableEq, Repr

/-- The dialect of flags and a kind; rules always allow white space. -/
def Dialect.of (flags : Flags) (kind : RuleKind) : Dialect :=
  { ignoreCase := flags.ignoreCase, multiline := flags.multiline
    sigspace := flags.sigspace || kind.sigspace, mode := kind.choiceMode }

/-- A named capture and the place of its opener. -/
abbrev Named := String × Nat

/-- A compiled part: its pattern, the next free number, and the named
    captures that belong to the scope around it. -/
structure Part where
  pattern : Pattern
  next : Nat
  names : List Named

namespace Pattern

/-! ## 1. Rows -/

/-- The first name of a list that occurred before it, with its place. -/
def repeatedName? (seen : List String) : List Named → Option Named
  | [] => none
  | n :: rest => if seen.contains n.1 then some n else repeatedName? (n.1 :: seen) rest

/-- White space between the neighbours of a row. -/
def interspersed : List Pattern → List Pattern
  | [] => []
  | [p] => [p]
  | p :: rest => p :: .whitespace :: interspersed rest

/-- A row of patterns as one: a row of one is that one. -/
def row (d : Dialect) : List Pattern → Pattern
  | [] => .empty
  | [p] => p
  | ps => .sequence (if d.sigspace then interspersed ps else ps)

/-- A row of parts as one part, if no name is captured twice. -/
def joinRow (d : Dialect) (next : Nat) (parts : List Part) : Except Fault Part :=
  let names := parts.flatMap Part.names
  match repeatedName? [] names with
  | some (name, place) => .error ⟨.repeatedName name, place, []⟩
  | none => .ok ⟨row d (parts.map Part.pattern), next, names⟩

/-! ## 2. Alternatives -/

/-- The names of several branches, each name once, where it occurs first. -/
def distinctNames : List Named → List Named
  | [] => []
  | n :: rest => n :: (distinctNames rest).filter (fun m => m.1 != n.1)

/-- Branches as one part: a single branch is that branch. -/
def joinBranches (d : Dialect) (next : Nat) : List Part → Part
  | [p] => p
  | parts =>
    ⟨.alternation d.mode (parts.map Part.pattern), (parts.map Part.next).foldl Nat.max next,
      distinctNames (parts.flatMap Part.names)⟩

/-! ## 3. Single tokens -/

/-- The pattern of a token that is an atom of its own. -/
def ofToken (d : Dialect) (t : Token) : Except Fault Pattern :=
  match t.kind with
  | .quoted => .ok (.literal (unescape (inside t.text)) d.ignoreCase)
  | .chars => .ok (.literal t.text d.ignoreCase)
  | .charClass => classPattern d.ignoreCase t
  | .escape => escapePattern d.ignoreCase t
  | .dot => .ok .anyChar
  | .caret => .ok (.anchor (if d.multiline then .startOfLine else .startOfString))
  | .dollar => .ok (.anchor (if d.multiline then .endOfLine else .endOfString))
  | .reference => .ok (.ruleRef (referenceOf t))
  | _ => .ok .empty

/-- A pattern with its quantifier. -/
def repeated (p : Pattern) : Option Token → Except Fault Pattern
  | none => .ok p
  | some quantifier => (quantityOf quantifier).map fun q => .repetition q p

/-- A run of characters with its quantifier, which repeats only the last
    character of the run. -/
def repeatedRun (d : Dialect) (run : List Char) : Option Token → Except Fault Pattern
  | none => .ok (.literal run d.ignoreCase)
  | some quantifier => (quantityOf quantifier).map fun q =>
    match run.getLast? with
    | some last =>
      if 1 < run.length then
        .sequence [.literal run.dropLast d.ignoreCase,
          .repetition q (.literal [last] d.ignoreCase)]
      else .repetition q (.literal run d.ignoreCase)
    | none => .repetition q (.literal run d.ignoreCase)

/-- The part of an atom with its quantifier. -/
def quantified (d : Dialect) (atom : Atom) (part : Part) (quantifier : Option Token) :
    Except Fault Part :=
  let pattern := match atom with
    | .leaf t =>
      if t.kind = TokenKind.chars then repeatedRun d t.text quantifier
      else repeated part.pattern quantifier
    | .group .. => repeated part.pattern quantifier
  pattern.map fun p => { part with pattern := p }

/-- A group around a part, where `next` is the next free number outside. -/
def enclose (kind : GroupKind) (place next : Nat) (inner : Part) : Part :=
  match kind with
  | .numbered =>
    ⟨.group (some (.index next)) inner.pattern.pluralKeys inner.pattern, next + 1, []⟩
  | .plain => inner
  | .look test => ⟨.look test inner.pattern, next, []⟩
  | .named name =>
    ⟨.group (some (.name name)) inner.pattern.pluralKeys inner.pattern, next, [(name, place)]⟩

/-- The number that the first group inside a group gets: only plain groups
    go on counting. -/
def firstInside (kind : GroupKind) (next : Nat) : Nat :=
  match kind with
  | .plain => next
  | _ => 0

/-! ## 4. Trees -/

mutual

/-- The part of an atom, without its quantifier. -/
def ofAtom (d : Dialect) (next : Nat) : Atom → Except Fault Part
  | .leaf t => (ofToken d t).map fun p => ⟨p, next, []⟩
  | .group opener body _ =>
    let kind := groupKindOf opener
    let first := firstInside kind next
    match branchesOf d first body with
    | .error f => .error f
    | .ok branches => .ok (enclose kind opener.offset next (joinBranches d first branches))

/-- The branches of alternatives, each counted from the same number. -/
def branchesOf (d : Dialect) (next : Nat) : Alternatives → Except Fault (List Part)
  | .one items =>
    match partsOf d next [] items with
    | .error f => .error f
    | .ok (parts, after) => (joinRow d after parts).map fun branch => [branch]
  | .more items _ rest =>
    match partsOf d next [] items with
    | .error f => .error f
    | .ok (parts, after) =>
      match joinRow d after parts with
      | .error f => .error f
      | .ok branch => (branchesOf d next rest).map (branch :: ·)

/-- The parts of a row and the next free number after it; the parts before it
    are given, the latest first. -/
def partsOf (d : Dialect) (next : Nat) (done : List Part) :
    Items → Except Fault (List Part × Nat)
  | .nil => .ok (done.reverse, next)
  | .cons atom quantifier rest =>
    match ofAtom d next atom with
    | .error f => .error f
    | .ok part =>
      match quantified d atom part quantifier with
      | .error f => .error f
      | .ok part => partsOf d part.next (part :: done) rest

end

/-- The pattern of a tree. -/
def ofTree (d : Dialect) (tree : Alternatives) : Except Fault Pattern :=
  (branchesOf d 0 tree).map fun branches => (joinBranches d 0 branches).pattern

/-! ## 5. Texts -/

/-- Why the compilation of a pattern was given up. -/
inductive CompileError where
  /-- The text is no pattern. -/
  | form (fault : Fault)
  /-- The text has the form of a pattern, but some part of it means nothing. -/
  | meaning (fault : Fault)
  deriving DecidableEq, Repr

/-- The fault at either stage. -/
def CompileError.fault : CompileError → Fault
  | .form f => f
  | .meaning f => f

/-- Compile the text of a pattern in a dialect. -/
def compileIn (d : Dialect) (source : List Char) : Except CompileError Pattern :=
  match Alternatives.parse source with
  | .error f => .error (.form f)
  | .ok tree => (ofTree d tree).mapError .meaning

/-- Compile the text of a pattern. -/
def compile (source : List Char) (flags : Flags) (kind : RuleKind) :
    Except SyntaxError Pattern :=
  (compileIn (Dialect.of flags kind) source).mapError fun e => e.fault.inSource source.toArray

end Pattern

end GrammarMatch
