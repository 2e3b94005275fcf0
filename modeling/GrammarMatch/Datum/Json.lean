/-
  File:      GrammarMatch/Datum/Json.lean
  Subject:   Values as JSON text.

  A value is written on one line, with a blank after each comma and colon,
  or over several lines, two blanks deeper for each level. In a text only
  the quote, the backslash and the controls below U+0020 are escaped.
-/
import GrammarMatch.Datum

namespace GrammarMatch.Json

/-! ## 1. Texts -/

/-- One character inside quotes. -/
def escape (c : Char) : List Char :=
  if c == '"' then ['\\', '"']
  else if c == '\\' then ['\\', '\\']
  else if c == '\n' then ['\\', 'n']
  else if c == '\r' then ['\\', 'r']
  else if c == '\t' then ['\\', 't']
  else if c.toNat == 8 then ['\\', 'b']
  else if c.toNat == 12 then ['\\', 'f']
  else if c.toNat < 0x20 then '\\' :: 'u' :: Quoted.hexadecimal 4 c.toNat
  else [c]

/-- A text in quotes. -/
def text (s : String) : String :=
  String.ofList ('"' :: s.toList.flatMap escape ++ ['"'])

/-- A float: its shortest text, and words for what is no number. -/
def float (x : Float) : String :=
  match Decimal.ofFloat x with
  | "inf" => "Infinity"
  | "-inf" => "-Infinity"
  | "nan" => "NaN"
  | s => s

/-! ## 2. Values -/

/-- How the parts of a value are set apart: on one line, or on lines of
    their own at a depth. -/
inductive Layout where
  | line
  | lines
  deriving DecidableEq, Repr

/-- The line break before a part at a depth. -/
def Layout.breakAt : Layout → Nat → String
  | .line, _ => ""
  | .lines, depth => "\n" ++ String.ofList (List.replicate (2 * depth) ' ')

/-- What separates two parts at a depth. -/
def Layout.separator : Layout → Nat → String
  | .line, _ => ", "
  | .lines, depth => "," ++ Layout.lines.breakAt depth

/-- Parts between brackets; nothing is set apart between empty brackets. -/
def Layout.enclose (layout : Layout) (depth : Nat) (opening closing : String) :
    List String → String
  | [] => opening ++ closing
  | parts =>
    opening ++ layout.breakAt (depth + 1) ++ (layout.separator (depth + 1)).intercalate parts ++
      layout.breakAt depth ++ closing

mutual

/-- A value at a depth. -/
def write (layout : Layout) (depth : Nat) : Datum → String
  | .null => "null"
  | .bool true => "true"
  | .bool false => "false"
  | .int n => toString n
  | .float x => float x
  | .string s => text s
  | .list items => layout.enclose depth "[" "]" (writeItems layout (depth + 1) items)
  | .tuple items => layout.enclose depth "[" "]" (writeItems layout (depth + 1) items)
  | .dict entries => layout.enclose depth "\x7b" "\x7d" (writeEntries layout (depth + 1) entries)

/-- The items of a list. -/
def writeItems (layout : Layout) (depth : Nat) : List Datum → List String
  | [] => []
  | item :: rest => write layout depth item :: writeItems layout depth rest

/-- The entries of a dictionary. -/
def writeEntries (layout : Layout) (depth : Nat) : List (String × Datum) → List String
  | [] => []
  | (key, value) :: rest =>
    (text key ++ ": " ++ write layout depth value) :: writeEntries layout depth rest

end

/-- A value on one line. -/
def line (d : Datum) : String := write .line 0 d

/-- A value over several lines. -/
def lines (d : Datum) : String := write .lines 0 d

end GrammarMatch.Json
