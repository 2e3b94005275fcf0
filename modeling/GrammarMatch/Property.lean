/-
  File:      GrammarMatch/Property.lean
  Subject:   Properties of characters by name, and the shorthand classes.

  A property is a general category or a major class of them, under its
  abbreviation or its long name, or one of a few named classes. A shorthand
  is a letter; its capital stands for the complement.
-/
import GrammarMatch.Unicode.Case

namespace GrammarMatch

namespace Property

/-- The abbreviation that a long name of a category stands for; any other
    name stands for itself. -/
def abbreviate : String → String
  | "Letter" => "L"
  | "Mark" => "M"
  | "Number" => "N"
  | "Punctuation" => "P"
  | "Symbol" => "S"
  | "Separator" => "Z"
  | "Other" => "C"
  | "Uppercase_Letter" => "Lu"
  | "Lowercase_Letter" => "Ll"
  | "Decimal_Number" => "Nd"
  | name => name

/-- The classes that have a name of their own. -/
def named? : String → Option (Char → Bool)
  | "Alpha" => some Unicode.isLetter
  | "Alnum" => some Unicode.isAlphanumeric
  | "Digit" => some Unicode.isDecimalDigit
  | "Space" => some Unicode.isSpace
  | "Upper" => some Unicode.isUpper
  | "Lower" => some Unicode.isLower
  | "Word" => some Unicode.isWord
  | "Any" => some fun _ => true
  | _ => none

/-- The characters of a category. -/
def ofCategory (k : Unicode.Category) (c : Char) : Bool := Unicode.category c == k

/-- The characters of a major class. -/
def ofMajor (m : String) (c : Char) : Bool := (Unicode.category c).major == m

/-- The property of a name. -/
def find? (name : String) : Option (Char → Bool) :=
  let short := abbreviate name
  match named? short with
  | some test => some test
  | none =>
    match Unicode.Category.ofAbbreviation? short with
    | some k => some (ofCategory k)
    | none => if Unicode.Category.majors.contains short then some (ofMajor short) else none

/-- Whether there is a property of that name. -/
def known (name : String) : Bool := (find? name).isSome

end Property

namespace Shorthand

/-- The class of a small letter. -/
def base? : String → Option (Char → Bool)
  | "d" => some Unicode.isDecimalDigit
  | "w" => some Unicode.isWord
  | "s" => some Unicode.isSpace
  | _ => none

/-- The class of a letter; a capital letter negates. -/
def find? (letter : String) : Option (Char → Bool) :=
  match base? (Unicode.lower letter) with
  | none => none
  | some test =>
    if letter.toList.all Unicode.isUpper then some fun c => !test c else some test

end Shorthand

end GrammarMatch
