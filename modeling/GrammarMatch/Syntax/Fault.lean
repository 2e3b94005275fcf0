/-
  File:      GrammarMatch/Syntax/Fault.lean
  Subject:   What can be wrong with the text of a pattern.

  A fault is a complaint about a place. Complaints about the form come up
  while tokens are read; complaints about the meaning concern a token that is
  well formed, or a name that is captured twice. `Complaint.message` is the
  only place where they are put into words.
-/
import GrammarMatch.Failure

namespace GrammarMatch.Syntax

/-- What is wrong. -/
inductive Complaint where
  /-- No token begins with the character. -/
  | strayCharacter (c : Char)
  /-- A token stands where none of its kind may stand. -/
  | misplaced (token : List Char)
  /-- The text ends inside a group. -/
  | unclosedGroup
  /-- The bounds of a quantifier are no integers. -/
  | badBounds (quantifier : List Char)
  /-- A quantifier has no bounds. -/
  | noBounds (quantifier : List Char)
  /-- The bounds of a quantifier are out of order. -/
  | reversedBounds (min max : Int)
  /-- A letter or number means nothing after a backslash. -/
  | unknownEscape (c : Char)
  /-- A letter or number means nothing after a backslash in a class. -/
  | unknownClassEscape (c : Char)
  /-- There is no property of that name. -/
  | unknownProperty (name : String)
  /-- The name of a property in a class has no end. -/
  | unclosedProperty
  /-- A range in a class does not end in a character. -/
  | badRangeEnd
  /-- A range in a class ends before it starts. -/
  | reversedRange (first last : Char)
  /-- Two parts of a row capture under the same name. -/
  | repeatedName (name : String)
  deriving DecidableEq, Repr

/-- The complaint in words. -/
def Complaint.message : Complaint → String
  | .strayCharacter c => "Unexpected character " ++ Quoted.text (String.ofList [c])
  | .misplaced token => "Unexpected " ++ Quoted.text (String.ofList token)
  | .unclosedGroup => "Unexpected end of pattern"
  | .badBounds quantifier => "Invalid quantifier bounds '" ++ String.ofList quantifier ++ "'"
  | .noBounds quantifier => "Empty quantifier '" ++ String.ofList quantifier ++ "'"
  | .reversedBounds min max =>
    s!"Minimum value ({min}) cannot be greater than maximum value ({max}) in quantifier"
  | .unknownEscape c => "Unknown escape '\\" ++ c.toString ++ "'"
  | .unknownClassEscape c => "Unknown escape '\\" ++ c.toString ++ "' in class"
  | .unknownProperty name => s!"Unknown Unicode property '{name}'"
  | .unclosedProperty => "Unterminated property in class"
  | .badRangeEnd => "Invalid range end in class"
  | .reversedRange first last =>
    s!"Range out of order in class: {first.toString}-{last.toString}"
  | .repeatedName name => s!"Named capture '{name}' is defined more than once in one alternative"

/-- A fault of a pattern: a complaint about a place of its text, and the kinds
    of tokens that could have stood there. -/
structure Fault where
  complaint : Complaint
  place : Nat
  expected : List String := []
  deriving DecidableEq, Repr

/-- The fault as an error about the whole text. -/
def Fault.inSource (f : Fault) (source : Text) : SyntaxError :=
  SyntaxError.near f.complaint.message source f.place f.expected none

end GrammarMatch.Syntax
