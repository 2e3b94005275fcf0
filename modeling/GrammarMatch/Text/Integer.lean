/-
  File:      GrammarMatch/Text/Integer.lean
  Subject:   Reading integers.

  An integer is written with an optional sign and decimal digits of any
  script; single underscores may stand between digits, and white space
  around the whole. At most 4300 digits are read, leading zeros included,
  and no integer of more digits is turned into text.
-/
import GrammarMatch.Unicode.Category

namespace GrammarMatch.Integer

/-- Most digits that are read as an integer, and that are written. -/
def maxDigits : Nat := 4300

/-- The first number with too many digits to be written. -/
def writeLimit : Nat := Nat.pow 10 maxDigits

/-- Whether an integer has few enough digits to be written. -/
def isWritable (n : Int) : Bool := n.natAbs < writeLimit

/-- White space around an integer: below U+0080 the six characters of
    layout only, above that every white space. -/
def isPadding (c : Char) : Bool :=
  if c.toNat < 0x80 then (9 ≤ c.toNat && c.toNat ≤ 13) || c == ' ' else Unicode.isSpace c

/-- The value of a digit of an integer. -/
def digit? (c : Char) : Option Nat :=
  if c.toNat < 0x80 then (if c.isDigit then some (c.toNat - 48) else none)
  else Unicode.digitValue? c

/-- Why a text is not read as an integer. -/
inductive Refusal where
  /-- The text has not the form of an integer. -/
  | malformed
  /-- The text is an integer of more digits than are read. -/
  | tooLong (digits : Nat)
  deriving DecidableEq, Repr

/-- A number with one more digit, which is the `count`th; digits beyond those
    that are read do not matter. -/
def withDigit (value count digit : Nat) : Nat :=
  if count ≤ maxDigits then value * 10 + digit else value

/-- Digits with single underscores between them: the value so far, the
    number of digits so far, and the rest. A digit is due at the start and
    after an underscore. -/
def readDigits (value count : Nat) : List Char → Option (Nat × Nat × List Char)
  | [] => some (value, count, [])
  | c :: rest =>
    match digit? c with
    | some d => readDigits (withDigit value (count + 1) d) (count + 1) rest
    | none =>
      if c == '_' then
        match rest with
        | [] => none
        | c' :: rest' =>
          match digit? c' with
          | some d => readDigits (withDigit value (count + 1) d) (count + 1) rest'
          | none => none
      else some (value, count, c :: rest)

/-- The sign of an integer and what follows it. -/
def splitSign : List Char → Bool × List Char
  | '+' :: rest => (false, rest)
  | '-' :: rest => (true, rest)
  | rest => (false, rest)

/-- Read an integer. -/
def read (s : List Char) : Except Refusal Int :=
  let (negative, body) := splitSign (s.dropWhile isPadding)
  match body with
  | [] => .error .malformed
  | c :: _ =>
    if (digit? c).isNone then .error .malformed
    else match readDigits 0 0 body with
      | none => .error .malformed
      | some (value, count, rest) =>
        if maxDigits < count then .error (.tooLong count)
        else if rest.all isPadding then .ok (if negative then -(value : Int) else value)
        else .error .malformed

end GrammarMatch.Integer
