/-
  File:      GrammarMatch/Grammar/File.lean
  Subject:   Grammar files.

  A grammar file states its version and then declares rules, each on a line:

    version 1.0
    # a comment
    token number = \d+
    rule TOP = <number> '+' <number>
    regex date with ignore-case, multiline = (?<year>\d{4})-(?<month>\d{2})

  A line that ends in a backslash goes on with the next one. The patterns are
  not compiled yet; what is faulty in the lines themselves is reported at
  the start of the line.
-/
import GrammarMatch.Registry
import GrammarMatch.Text.Line

namespace GrammarMatch

/-- The version of the format. -/
def formatVersion : String := "1.0"

/-- What a grammar file says. -/
structure GrammarFile where
  version : String
  rules : List Registry.Declaration
  path : Option String

namespace GrammarFile

open Unicode (trim trimLeft)

/-! ## 1. Logical lines -/

/-- A logical line: its characters, its number counted from one, and where
    its first physical line begins. -/
structure LogicalLine where
  chars : List Char
  number : Nat
  offset : Nat
  deriving DecidableEq, Repr

/-- Whether a line, given backwards, is continued: apart from white space it
    ends in a backslash. -/
def continued (back : List Char) : Bool := (trimLeft back).head? == some '\\'

/-- A continued line with the next one, where the line and the result are
    backwards: one backslash and the white space at the seam are replaced by
    a blank. -/
def splice (back next : List Char) : List Char :=
  (trimLeft next).reverseAux (' ' :: (trimLeft back).tail)

/-- A line, given backwards, with what continues it, and how many lines that
    took beside those taken before. -/
def extend (taken : Nat) (back : List Char) : List Line → List Char × Nat
  | [] => (back.reverse, taken)
  | l :: rest =>
    if continued back then extend (taken + 1) (splice back l.chars) rest
    else (back.reverse, taken)

/-- The logical lines of physical ones, of which the first has a number. -/
def logicalFrom (number : Nat) (ls : List Line) : List LogicalLine :=
  match ls with
  | [] => []
  | l :: rest =>
    let (chars, n) := extend 0 l.chars.reverse rest
    ⟨chars, number, l.offset⟩ :: logicalFrom (number + n + 1) (rest.drop n)
termination_by ls.length
decreasing_by simp only [List.length_cons, List.length_drop]; omega

/-- The logical lines of a text. -/
def logicalLines (code : List Char) : List LogicalLine := logicalFrom 1 (Line.list code)

/-- Whether a line says nothing: it is empty or a comment. -/
def isIdle (s : List Char) : Bool :=
  match trim s with
  | [] => true
  | c :: _ => c == '#'

/-! ## 2. Statements -/

/-- The words of a line, separated by white space. -/
def firstWord (s : List Char) : List Char × List Char :=
  let s := trimLeft s
  let word := s.takeWhile (!Unicode.isSpace ·)
  (word, s.drop word.length)

/-- The version that a line states. -/
def versionOf? (s : List Char) : Option (List Char) :=
  let (keyword, rest) := firstWord s
  let (version, rest) := firstWord rest
  if keyword == "version".toList && !version.isEmpty && (trim rest).isEmpty then some version
  else none

/-- A line that declares a rule. -/
structure Statement where
  kind : RuleKind
  name : List Char
  flags : List Char
  pattern : List Char

/-- The kind that begins a declaration, and what follows it. -/
def kindOf? (s : List Char) : Option (RuleKind × List Char) :=
  let (word, rest) := firstWord s
  if word == "token".toList then some (.token, rest)
  else if word == "rule".toList then some (.rule, rest)
  else if word == "regex".toList then some (.regex, rest)
  else none

/-- The name of a rule at the start of a text, and what follows it. -/
def nameOf? (s : List Char) : Option (List Char × List Char) :=
  match s with
  | [] => none
  | c :: rest =>
    if Syntax.isNameStart c then
      let more := rest.takeWhile Syntax.isNameChar
      some (c :: more, rest.drop more.length)
    else none

/-- Characters of the name of a flag. -/
def isFlagChar (c : Char) : Bool := c.isAlpha || c == '-'

/-- The length of a list of flags, of which `n` characters were read: names
    with commas between them, and white space around the commas. -/
def flagsReach (n : Nat) (s : List Char) : Nat :=
  let name := s.takeWhile isFlagChar
  let gap := (s.drop name.length).takeWhile Unicode.isSpace
  match _h : s.drop (name.length + gap.length) with
  | ',' :: rest =>
    let gap' := rest.takeWhile Unicode.isSpace
    if isFlagChar ((rest.drop gap'.length).headD ' ') then
      flagsReach (n + name.length + gap.length + 1 + gap'.length) (rest.drop gap'.length)
    else n + name.length
  | _ => n + name.length
termination_by s.length
decreasing_by
  have := congrArg List.length _h
  simp only [List.length_drop, List.length_cons] at *
  omega

/-- The flags of a declaration and what follows them; without the word
    `with` there are none. -/
def flagsOf? (s : List Char) : Option (List Char × List Char) :=
  let (word, rest) := firstWord s
  if Unicode.isSpace (s.headD 'x') && word == "with".toList then
    let body := trimLeft rest
    if body.length == rest.length || !isFlagChar (body.headD ' ') then none
    else
      let n := flagsReach 0 body
      some (body.take n, body.drop n)
  else some ([], s)

/-- The declaration that a line makes. -/
def statementOf? (s : List Char) : Option Statement := do
  let (kind, rest) ← kindOf? s
  let (name, rest) ← nameOf? (trimLeft rest)
  let (flags, rest) ← flagsOf? rest
  match trimLeft rest with
  | '=' :: pattern => some ⟨kind, name, flags, trim pattern⟩
  | _ => none

/-- The pieces of a text between commas. -/
def splitCommas (s : List Char) : List (List Char) :=
  s.foldr (fun c pieces => if c == ',' then [] :: pieces else match pieces with
    | [] => [[c]]
    | p :: rest => (c :: p) :: rest) [[]]

/-- The names of flags in a list of them. -/
def flagNames (s : List Char) : List String :=
  ((splitCommas s).map trim).filter (!·.isEmpty) |>.map String.ofList

/-! ## 3. Faults -/

/-- What is wrong with a grammar file. -/
inductive Complaint where
  /-- The first statement is no version. -/
  | noVersion
  /-- The version is not the one that is understood. -/
  | otherVersion (version : String)
  /-- A line declares no rule. -/
  | noDeclaration
  /-- The flags of a declaration cannot be read. -/
  | badFlags (cause : Failure)

namespace Complaint

/-- The complaint in words. -/
def message : Complaint → String
  | .noVersion => "Grammar must start with a version statement"
  | .otherVersion version =>
    s!"Unsupported pegex DSL version: {version}. Expected {formatVersion}."
  | .noDeclaration => "Expected a declaration: token|rule|regex NAME [with FLAGS] = PATTERN"
  | .badFlags cause => cause.message

/-- The words that could have begun the line. -/
def expected : Complaint → List String
  | .noVersion => ["version"]
  | .noDeclaration => ["token", "rule", "regex"]
  | _ => []

/-- The complaint as an error about a place of the file. -/
def inFile (c : Complaint) (code : List Char) (offset : Nat) : SyntaxError :=
  SyntaxError.near c.message code.toArray offset c.expected none

end Complaint

/-! ## 4. Files -/

/-- The declaration of a logical line. -/
def declarationOf (code : List Char) (l : LogicalLine) :
    Except SyntaxError Registry.Declaration :=
  match statementOf? l.chars with
  | none => .error (Complaint.inFile .noDeclaration code l.offset)
  | some s =>
    let names := flagNames s.flags
    match Flags.ofNames names with
    | .error f => .error (Complaint.inFile (.badFlags f) code l.offset)
    | .ok _ => .ok ⟨String.ofList s.name, s.kind, s.pattern, names, l.number⟩

/-- The version in the first line that says something. -/
def readVersion (code : List Char) (l : LogicalLine) : Except SyntaxError String :=
  match versionOf? l.chars with
  | none => .error (Complaint.inFile .noVersion code l.offset)
  | some v =>
    let version := String.ofList v
    if version == formatVersion then .ok version
    else .error (Complaint.inFile (.otherVersion version) code l.offset)

/-- Read a grammar file. -/
def read (code : List Char) (path : Option String) : Except SyntaxError GrammarFile :=
  match (logicalLines code).filter (fun l => !isIdle l.chars) with
  | [] => .error (Complaint.inFile .noVersion code code.length)
  | first :: rest => do
    let version ← readVersion code first
    let rules ← rest.mapM (declarationOf code)
    return ⟨version, rules, path⟩

/-- The registry of a grammar file. -/
def compile (file : GrammarFile) : Except Failure Registry :=
  Registry.ofSpecs (file.rules.map .declared)

end GrammarFile

end GrammarMatch
