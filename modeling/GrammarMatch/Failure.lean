/-
  File:      GrammarMatch/Failure.lean
  Subject:   Why a compilation or a match is given up.

  That a pattern does not match is an answer and no failure. A failure is a
  cause with the data it is about; `Failure.message` is the only place where
  it is put into words.
-/
import GrammarMatch.Cursor
import GrammarMatch.Datum

namespace GrammarMatch

/-! ## 1. Keys -/

/-- What a capture is called in its scope: a name, or its number among the
    groups without a name. -/
inductive CaptureKey where
  | index (number : Int)
  | name (text : String)
  deriving DecidableEq, Repr, Inhabited

namespace CaptureKey

/-- Numbers come before names; names are ordered by their characters. -/
def le : CaptureKey → CaptureKey → Bool
  | .index m, .index n => m ≤ n
  | .index _, .name _ => true
  | .name _, .index _ => false
  | .name s, .name t => !(t < s)

/-- The key as a value. -/
def toDatum : CaptureKey → Datum
  | .index n => .int n
  | .name s => .string s

end CaptureKey

/-! ## 2. Syntax errors -/

/-- A fault in the text of a pattern or a grammar, at a place of that text.
    The place always lies in the text. -/
structure SyntaxError where
  message : String
  source : Text
  offset : Nat
  inside : offset ≤ source.size
  expected : List String
  rule : Option String

namespace SyntaxError

/-- A fault near a place, with what would have been expected there in
    alphabetical order. -/
def near (message : String) (source : Text) (place : Int) (expected : List String)
    (rule : Option String) : SyntaxError :=
  let cursor := Cursor.nearest source place
  { message, source, offset := cursor.pos, inside := cursor.inside,
    expected := expected.mergeSort (fun a b => !(b < a)), rule }

/-- The same fault, attributed to a rule. -/
def forRule (e : SyntaxError) (rule : String) : SyntaxError := { e with rule := some rule }

/-- The place of the fault. -/
def cursor (e : SyntaxError) : Cursor := ⟨e.source, e.offset, e.inside⟩

/-- Where the fault is: the rule, if one is named, the line and the column. -/
def location (e : SyntaxError) : String :=
  let place := s!"line {e.cursor.line}, column {e.cursor.column}"
  match e.rule with
  | some rule => if rule.isEmpty then place else s!"rule '{rule}', {place}"
  | none => place

/-- The faulty line, and below it a mark under the place. -/
def excerpt (e : SyntaxError) : String :=
  let mark := List.replicate (e.cursor.column - 1) ' ' ++ ['^']
  "\n    " ++ String.ofList e.cursor.lineText ++ "\n    " ++ String.ofList mark

/-- The whole message. -/
def text (e : SyntaxError) : String :=
  let wanted := if e.expected.isEmpty then "" else
    "; expected one of: " ++ ", ".intercalate e.expected
  s!"{e.message} ({e.location})" ++ wanted ++ (if e.source.isEmpty then "" else e.excerpt)

end SyntaxError

/-! ## 3. Failures -/

/-- What a callback raised: a kind of exception and its message. -/
structure Raised where
  kind : String
  message : String
  deriving DecidableEq, Repr

/-- The causes of failure. -/
inductive Failure where
  /-- The text of a pattern or a grammar is faulty. -/
  | badSyntax (error : SyntaxError)
  /-- No rule of that name is known. -/
  | undefinedRule (name : String)
  /-- Matching nests deeper than was allowed. -/
  | depthLimit (depth : Nat) (position : Int)
  /-- Matching nests deeper than there is room for. -/
  | stackExhausted
  /-- The callback of a rule raised an exception. -/
  | actionFailed (rule : String) (cause : Raised)
  /-- A text has no such position. -/
  | badPosition (position : Int) (length : Nat)
  /-- A limit on nesting must be positive. -/
  | badDepthLimit (limit : Int)
  /-- No kind of rule has that name. -/
  | unknownKind (given : Datum)
  /-- No flag has that name. -/
  | unknownFlag (name : String)
  /-- A rule is defined by three or four things. -/
  | badDefinition (size : Nat)
  /-- Only a text or a compiled pattern can be a pattern. -/
  | notAPattern (rule : String) (given : Datum)
  /-- Only a function can be a callback. -/
  | notCallable (rule : String)
  /-- No property of characters has that name. -/
  | unknownProperty (name : String)
  /-- No shorthand class has that letter. -/
  | unknownShorthand (letter : String)
  /-- Nothing was captured under that key. -/
  | missingKey (key : CaptureKey)
  /-- A character was read outside the text. -/
  | outsideText
  /-- A character was read so far outside that the place is no index. -/
  | outsideIndices
  /-- An integer has too many digits to be written. -/
  | longInteger

namespace Failure

/-- The failure in words. -/
def message : Failure → String
  | .badSyntax e => e.text
  | .undefinedRule name => s!"Undefined rule: <{name}>"
  | .depthLimit depth position =>
    s!"Recursion limit exceeded at depth {depth} (input offset {position})"
  | .stackExhausted => "Recursion limit exceeded"
  | .actionFailed rule cause =>
    s!"Action for rule '{rule}' failed: {cause.kind}: {cause.message}"
  | .badPosition position length => s!"Cursor position {position} outside 0..{length}"
  | .badDepthLimit limit => s!"max_depth must be positive, got {limit}"
  | .unknownKind given => s!"Unknown rule kind: " ++ given.quoted
  | .unknownFlag name =>
    s!"Unknown flag '{name}'. Expected one of: global, ignore-case, multiline, sigspace"
  | .badDefinition size => s!"Rule definition must have 3 or 4 elements, got {size}"
  | .notAPattern rule given =>
    s!"Rule '{rule}' pattern must be a string or a compiled node, got " ++ given.typeName
  | .notCallable rule => s!"Action for rule '{rule}' is not callable"
  | .unknownProperty name => Quoted.text name
  | .unknownShorthand letter => Quoted.text letter
  | .missingKey key => key.toDatum.quoted
  | .outsideText => "string index out of range"
  | .outsideIndices => "cannot fit 'int' into an index-sized integer"
  | .longInteger =>
    s!"Exceeds the limit ({Integer.maxDigits} digits) for integer string conversion; " ++
      "use sys.set_int_max_str_digits() to increase the limit"

end Failure

/-- The cursor at a position; a position outside the text is a failure. -/
def Cursor.at (text : Text) (p : Int) : Except Failure Cursor :=
  match Cursor.of? text p with
  | some cursor => .ok cursor
  | none => .error (.badPosition p text.size)

end GrammarMatch
