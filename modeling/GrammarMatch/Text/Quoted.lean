/-
  File:      GrammarMatch/Text/Quoted.lean
  Subject:   Texts in quotes, as messages and values show them.

  A text stands between single quotes, or between double quotes when it
  holds a single quote and no double quote. The backslash and the quote in
  use are escaped, line feed, return and tab have letters of their own, and
  any other character that does not print is written by its number, with
  two, four or eight hexadecimal digits.
-/
import GrammarMatch.Unicode.Category

namespace GrammarMatch.Quoted

/-- The digits of a number in base 16, at least `width` of them. -/
def hexadecimal (width n : Nat) : List Char :=
  let digits := Nat.toDigits 16 n
  List.replicate (width - digits.length) '0' ++ digits

/-- The quote for a text: single, unless only a double one needs no escape. -/
def quoteFor (s : List Char) : Char :=
  if s.contains '\'' && !s.contains '"' then '"' else '\''

/-- One character inside quotes. -/
def escape (quote c : Char) : List Char :=
  if c == quote || c == '\\' then ['\\', c]
  else if c == '\n' then ['\\', 'n']
  else if c == '\r' then ['\\', 'r']
  else if c == '\t' then ['\\', 't']
  else if Unicode.isPrintable c then [c]
  else if c.toNat < 0x100 then '\\' :: 'x' :: hexadecimal 2 c.toNat
  else if c.toNat < 0x10000 then '\\' :: 'u' :: hexadecimal 4 c.toNat
  else '\\' :: 'U' :: hexadecimal 8 c.toNat

/-- A text in quotes, as a list of characters. -/
def chars (s : List Char) : List Char :=
  let quote := quoteFor s
  quote :: s.flatMap (escape quote) ++ [quote]

/-- A text in quotes. -/
def text (s : String) : String := String.ofList (chars s.toList)

end GrammarMatch.Quoted
