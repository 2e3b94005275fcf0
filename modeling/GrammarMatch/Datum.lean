/-
  File:      GrammarMatch/Datum.lean
  Subject:   Values that callbacks attach to captures, and their texts.

  A callback may answer with any value: nothing, a truth value, a number, a
  text, a list, a tuple or a dictionary. Two texts of a value are used: the
  one that shows its structure (texts in quotes), and the plain one, which
  differs only for a text itself; a value that holds an integer of too many
  digits has neither. Addition is that of numbers, where truth values count
  as one and zero.
-/
import GrammarMatch.Text.Integer
import GrammarMatch.Text.Quoted
import GrammarMatch.Decimal.Shortest

namespace GrammarMatch

/-- A value of a callback. -/
inductive Datum where
  | null
  | bool (value : Bool)
  | int (value : Int)
  | float (value : Float)
  | string (value : String)
  | list (items : List Datum)
  | tuple (items : List Datum)
  | dict (entries : List (String × Datum))
  deriving Inhabited

/-! ## 1. Texts of numbers -/

/-- How a float is written: positional from `10 ^ -4` up to below `10 ^ 16`
    and with at least one digit after the point; otherwise one digit before
    the point and an exponent of at least two digits, always with its sign. -/
def Decimal.write (d : Decimal.Scaled) : List Char :=
  let all := Nat.toDigits 10 d.digits
  let digits := (all.reverse.dropWhile (· == '0')).reverse
  let point : Int := d.exponent + all.length
  if -4 < point && point ≤ 16 then
    if point ≤ 0 then '0' :: '.' :: List.replicate (-point).toNat '0' ++ digits
    else
      let whole := digits.take point.toNat
      let fraction := digits.drop point.toNat
      whole ++ List.replicate (point.toNat - whole.length) '0' ++ '.' ::
        (if fraction.isEmpty then ['0'] else fraction)
  else
    let exponent := point - 1
    let size := Nat.toDigits 10 exponent.natAbs
    digits.take 1 ++ (if digits.length ≤ 1 then [] else '.' :: digits.drop 1) ++
      'e' :: (if exponent < 0 then '-' else '+') ::
      List.replicate (2 - size.length) '0' ++ size

/-- The text of a float: the shortest decimal that reads back as it. -/
def Decimal.ofFloat (x : Float) : String :=
  let bits := x.toBits
  let sign := if bits >>> 63 == 0 then "" else "-"
  let biased := (bits >>> 52 &&& 0x7ff).toNat
  let fraction := (bits &&& 0xfffffffffffff).toNat
  if biased == 0x7ff then (if fraction == 0 then sign ++ "inf" else "nan")
  else if biased == 0 && fraction == 0 then sign ++ "0.0"
  else
    let m := if biased == 0 then fraction else fraction + 0x10000000000000
    let q : Int := (if biased == 0 then 1 else (biased : Int)) - 1075
    let narrow := fraction == 0 && 1 < biased
    sign ++ String.ofList (Decimal.write (Decimal.shortest m q narrow))

namespace Datum

/-! ## 2. The text that shows structure -/

mutual

/-- The text of a value that shows its structure. -/
def quoted : Datum → String
  | .null => "None"
  | .bool true => "True"
  | .bool false => "False"
  | .int n => toString n
  | .float x => Decimal.ofFloat x
  | .string s => Quoted.text s
  | .list items => "[" ++ ", ".intercalate (quotedItems items) ++ "]"
  | .tuple items =>
    "(" ++ ", ".intercalate (quotedItems items) ++ (if items.length == 1 then ",)" else ")")
  | .dict entries => "\x7b" ++ ", ".intercalate (quotedEntries entries) ++ "\x7d"

/-- The texts of the items of a list. -/
def quotedItems : List Datum → List String
  | [] => []
  | item :: rest => quoted item :: quotedItems rest

/-- The texts of the entries of a dictionary. -/
def quotedEntries : List (String × Datum) → List String
  | [] => []
  | (key, value) :: rest => (Quoted.text key ++ ": " ++ quoted value) :: quotedEntries rest

end

/-- The plain text of a value: a text is its own. -/
def plain : Datum → String
  | .string s => s
  | d => d.quoted

mutual

/-- Whether a value has a text: no integer in it has too many digits. -/
def isWritable : Datum → Bool
  | .int n => Integer.isWritable n
  | .list items => areWritable items
  | .tuple items => areWritable items
  | .dict entries => entriesAreWritable entries
  | _ => true

/-- Whether all items of a list have texts. -/
def areWritable : List Datum → Bool
  | [] => true
  | item :: rest => isWritable item && areWritable rest

/-- Whether all values of a dictionary have texts. -/
def entriesAreWritable : List (String × Datum) → Bool
  | [] => true
  | (_, value) :: rest => isWritable value && entriesAreWritable rest

end

/-- A value of one piece, which needs no text to be written in an answer. -/
def isScalar : Datum → Bool
  | .list _ | .tuple _ | .dict _ => false
  | _ => true

/-- A value as it is written in an answer: what has parts is given by its
    text. -/
def flat (d : Datum) : Datum := if d.isScalar then d else .string d.quoted

/-- Whether a value can be written in an answer. -/
def hasFlat (d : Datum) : Bool := d.isScalar || d.isWritable

/-! ## 3. Numbers -/

/-- The name of the type of a value. -/
def typeName : Datum → String
  | .null => "NoneType"
  | .bool _ => "bool"
  | .int _ => "int"
  | .float _ => "float"
  | .string _ => "str"
  | .list _ => "list"
  | .tuple _ => "tuple"
  | .dict _ => "dict"

/-- A whole number, if the value counts as one. -/
def int? : Datum → Option Int
  | .bool b => some (if b then 1 else 0)
  | .int n => some n
  | _ => none

/-- Why two values have no sum. -/
inductive SumFault where
  /-- One of them is no number. -/
  | noNumber
  /-- A whole number is too large for a float. -/
  | tooLarge
  deriving DecidableEq, Repr

/-- The first number that is too large for a float: half way from the largest
    float to the next power of two. -/
def floatLimit : Nat := Nat.pow 2 1024 - Nat.pow 2 970

/-- A number as a float. -/
def toFloat : Datum → Except SumFault Float
  | .float x => .ok x
  | d =>
    match d.int? with
    | some n => if n.natAbs < floatLimit then .ok (Float.ofInt n) else .error .tooLarge
    | none => .error .noNumber

/-- Whether a value is a number. -/
def isNumber : Datum → Bool
  | .float _ => true
  | d => d.int?.isSome

/-- The sum of two numbers: whole if both are, else a float. -/
def add (a b : Datum) : Except SumFault Datum :=
  match a.int?, b.int? with
  | some m, some n => .ok (.int (m + n))
  | _, _ =>
    if a.isNumber && b.isNumber then do
      let x ← a.toFloat
      let y ← b.toFloat
      return .float (x + y)
    else .error .noNumber

end Datum

end GrammarMatch
