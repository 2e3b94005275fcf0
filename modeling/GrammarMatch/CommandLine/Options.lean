/-
  File:      GrammarMatch/CommandLine/Options.lean
  Subject:   The options of the command line.

  Arguments are read in two passes. The first tells options from operands: an
  option may be shortened as long as only one name begins that way, its
  value may be attached, and after `--` everything is an operand. The second
  takes them in order: both operands are placed as soon as one is met that
  no option claims, so a single operand in front of an option leaves the
  second place empty for good. Two dashes in the place of a value make the
  option void: it is set, but to nothing.
-/
import GrammarMatch.Text.Integer

namespace GrammarMatch.CommandLine

/-! ## 1. Options -/

/-- How severe a message is. -/
inductive Level where
  | debug
  | info
  | warning
  | error
  | critical
  deriving DecidableEq, Repr

namespace Level

/-- The name of a level. -/
def name : Level → String
  | .debug => "DEBUG"
  | .info => "INFO"
  | .warning => "WARNING"
  | .error => "ERROR"
  | .critical => "CRITICAL"

/-- The rank of a level. -/
def rank : Level → Nat
  | .debug => 10
  | .info => 20
  | .warning => 30
  | .error => 40
  | .critical => 50

/-- The level of a name. -/
def ofName? (s : String) : Option Level :=
  [debug, info, warning, error, critical].find? (fun l => l.name == s)

end Level

/-- The value of an option. -/
inductive Setting (α : Type) where
  | value (a : α)
  /-- The option was set, but to nothing. -/
  | void
  deriving DecidableEq, Repr

/-- What the command line asks for. -/
structure Options where
  grammar : Option String := none
  input : Option String := none
  start : Setting String := .value "TOP"
  subparse : Bool := false
  scan : Bool := false
  maxDepth : Option (Setting Int) := none
  prettyPrint : Bool := false
  logLevel : Setting Level := .value .warning
  version : Bool := false
  showTiming : Bool := false
  /-- The file to be written; a void name is none. -/
  output : Option String := none
  deriving Repr

/-- The options by what they set. -/
inductive Switch where
  | help
  | start
  | subparse
  | scan
  | maxDepth
  | prettyPrint
  | logLevel
  | version
  | showTiming
  | output
  deriving DecidableEq, Repr

namespace Switch

/-- The names of the options. -/
def names : List (String × Switch) :=
  [("-h", help), ("--help", help), ("--start", start), ("--subparse", subparse), ("--scan", scan),
   ("--max-depth", maxDepth), ("--pretty-print", prettyPrint), ("--log-level", logLevel),
   ("--version", version), ("--show-timing", showTiming), ("-o", output), ("--output", output)]

/-- Whether the option needs a value. -/
def takesValue : Switch → Bool
  | .start | .maxDepth | .logLevel | .output => true
  | _ => false

end Switch

/-- The result of reading the command line. -/
inductive Outcome where
  | options (o : Options)
  | help
  | refused
  deriving Repr

/-! ## 2. Options and operands -/

/-- An argument, seen on its own. -/
inductive Item where
  | operand (text : String)
  /-- What makes operands of all that follows. -/
  | separator
  | option (switch : Switch) (short : Bool) (attached : Option (List Char))
  /-- What looks like an option but is none. -/
  | unknown
  deriving DecidableEq, Repr

/-- The part of an argument before an equals sign, and the part after it. -/
def splitEquals (cs : List Char) : List Char × Option (List Char) :=
  let left := cs.takeWhile (· != '=')
  (left, if left.length == cs.length then none else some (cs.drop (left.length + 1)))

/-- One or more decimal digits, and nothing else but a line feed at the end. -/
def isDigits (cs : List Char) : Bool :=
  let digits := cs.takeWhile Unicode.isDecimalDigit
  let rest := cs.drop digits.length
  !digits.isEmpty && (rest.isEmpty || rest == ['\n'])

/-- Whether a text is a negative number: digits after a minus sign, with a
    point before or among them, and perhaps a line feed at the end. -/
def isNegativeNumber : List Char → Bool
  | '-' :: rest =>
    match rest.dropWhile Unicode.isDecimalDigit with
    | '.' :: fraction => isDigits fraction
    | _ => isDigits rest
  | _ => false

/-- The options whose name an argument can stand for, when it is no full
    name. -/
def candidates (cs : List Char) : List Item :=
  match cs with
  | '-' :: '-' :: _ =>
    let (stem, attached) := splitEquals cs
    (Switch.names.filter fun n => stem.isPrefixOf n.1.toList).map fun n =>
      .option n.2 false attached
  | _ =>
    Switch.names.filterMap fun n =>
      if n.1.toList == cs.take 2 then some (.option n.2 true (some (cs.drop 2)))
      else if cs.isPrefixOf n.1.toList then some (.option n.2 true none)
      else none

/-- Tell an option from an operand. There is no answer where a shortened
    name could be more than one. -/
def classify (arg : String) : Option Item :=
  let cs := arg.toList
  let short := cs.drop 1 |>.head? |>.all (· != '-')
  match cs with
  | '-' :: _ :: _ =>
    match Switch.names.lookup arg with
    | some s => some (.option s short none)
    | none =>
      let (stem, attached) := splitEquals cs
      match (if attached.isSome then Switch.names.lookup (String.ofList stem) else none) with
      | some s => some (.option s short attached)
      | none =>
        match candidates cs with
        | [item] => some item
        | _ :: _ :: _ => none
        | [] => some (if isNegativeNumber cs || cs.contains ' ' then .operand arg else .unknown)
  | _ => some (.operand arg)

/-- The items of all arguments. -/
def itemsOf : List String → Option (List Item)
  | [] => some []
  | "--" :: rest => some (.separator :: rest.map .operand)
  | arg :: rest => do
    let item ← classify arg
    let items ← itemsOf rest
    return item :: items

/-- Whether an item is meant as an option. -/
def Item.isOption : Item → Bool
  | .option .. | .unknown => true
  | _ => false

/-! ## 3. Operands -/

/-- One operand at the front of the items, with separators around it: its
    text, if there is one, and the items after it. -/
def takeOperand (items : List Item) : Option String × List Item :=
  let before := items.takeWhile (· == .separator)
  let rest := items.drop before.length
  let (operand, rest) : List String × List Item := match rest with
    | .operand t :: rest => ([t], rest)
    | _ => ([], rest)
  let after := rest.takeWhile (· == .separator)
  let texts := before.map (fun _ => "--") ++ operand ++ after.map (fun _ => "--")
  ((texts.erase "--").head?, rest.drop after.length)

/-- What was read so far: the options, whether the operands were placed, and
    whether something was left over. -/
structure Reading where
  options : Options := {}
  placed : Bool := false
  surplus : Bool := false

/-- Place both operands, unless they were placed before. -/
def place (r : Reading) (items : List Item) : Reading × List Item :=
  if r.placed then (r, items)
  else
    let (grammar, items) := takeOperand items
    let (input, items) := takeOperand items
    ({ r with options := { r.options with grammar, input }, placed := true }, items)

/-! ## 4. Reading -/

/-- Set an option that needs no value. The two modes exclude each other. -/
def setFlag (o : Options) : Switch → Option Options
  | .subparse => if o.scan then none else some { o with subparse := true }
  | .scan => if o.subparse then none else some { o with scan := true }
  | .prettyPrint => some { o with prettyPrint := true }
  | .version => some { o with version := true }
  | .showTiming => some { o with showTiming := true }
  | _ => none

/-- Set an option to nothing. -/
def setVoid (o : Options) : Switch → Option Options
  | .start => some { o with start := .void }
  | .output => some { o with output := none }
  | .maxDepth => some { o with maxDepth := some .void }
  | .logLevel => some { o with logLevel := .void }
  | _ => none

/-- Set an option to a value, if the value is one of its kind. -/
def setValue (o : Options) (s : Switch) (value : String) : Option Options :=
  if value == "--" then setVoid o s
  else match s with
  | .start => some { o with start := .value value }
  | .output => some { o with output := some value }
  | .maxDepth =>
    match Integer.read value.toList with
    | .ok n => some { o with maxDepth := some (.value n) }
    | .error _ => none
  | .logLevel => (Level.ofName? value).map fun l => { o with logLevel := .value l }
  | _ => none

/-- Letters attached to the short option for help, and whether an operand
    follows: each letter must be a short option of its own, up to one that
    takes the rest, or the operand, as its value. Help comes first then. -/
def helpWith (operandNext : Bool) : List Char → Outcome
  | ['h'] => .help
  | 'h' :: rest => helpWith operandNext rest
  | ['o'] => if operandNext then .help else .refused
  | 'o' :: _ => .help
  | _ => .refused

/-- Whether the next item is an operand. -/
def operandNext : List Item → Bool
  | .operand _ :: _ => true
  | _ => false

/-- Read items in order. While options are left, operands in front of them
    are placed, or are left over if all places are taken. -/
def readItems (fuel : Nat) (r : Reading) (items : List Item) : Outcome :=
  match fuel with
  | 0 => .refused
  | fuel + 1 =>
    if items.any Item.isOption then
      match items with
      | .option s short attached :: rest =>
        if s == .help then
          match attached with
          | none => .help
          | some value => if short then helpWith (operandNext rest) value else .refused
        else if s.takesValue then
          match attached, rest with
          | some value, rest => setAndGoOn fuel r s (String.ofList value) rest
          | none, .operand value :: rest => setAndGoOn fuel r s value rest
          | none, _ => .refused
        else if attached.isSome then .refused
        else
          match setFlag r.options s with
          | some o => readItems fuel { r with options := o } rest
          | none => .refused
      | .unknown :: rest => readItems fuel { r with surplus := true } rest
      | items =>
        if r.placed then
          readItems fuel { r with surplus := true } (items.dropWhile (!·.isOption))
        else
          let (r, rest) := place r items
          readItems fuel r rest
    else
      let (r, rest) := place r items
      if r.surplus || !rest.isEmpty then .refused else .options r.options
where
  /-- Set an option to a value and read on. -/
  setAndGoOn (fuel : Nat) (r : Reading) (s : Switch) (value : String) (rest : List Item) :
      Outcome :=
    match setValue r.options s value with
    | some o => readItems fuel { r with options := o } rest
    | none => .refused

/-- Read the arguments of the command line. Each step takes at least one
    argument. -/
def read (args : List String) : Outcome :=
  match itemsOf args with
  | none => .refused
  | some items => readItems (items.length + 1) {} items

end GrammarMatch.CommandLine
