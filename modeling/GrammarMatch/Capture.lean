/-
  File:      GrammarMatch/Capture.lean
  Subject:   Captures: the record of a match as a tree.

  A capture covers a span of the text. What was captured inside it is kept
  once, in the order of the text, each capture under its key; the table of
  the keys is read off that list. A key binds one capture or a list of them:
  a list if it is plural in its scope or was captured more than once.
-/
import GrammarMatch.Failure

namespace GrammarMatch

/-! ## 1. Captures -/

/-- What a capture says about itself. -/
structure Label where
  /-- The key it was captured under; the capture of a whole pattern has none. -/
  name : Option CaptureKey
  start : Int
  stop : Int
  /-- The rule that matched, if it was a rule. -/
  rule : Option String
  /-- The value that a callback attached, if one ran. -/
  made : Option Datum
  /-- The keys that bind a list inside. -/
  plural : List CaptureKey

/-- A capture, with what was captured inside it in the order of the text. -/
inductive Capture where
  | node (label : Label) (children : List (CaptureKey × Capture))

/-- Captures of one scope under their keys, the latest first. -/
abbrev Captured := List (CaptureKey × Capture)

namespace Capture

/-- What the capture says about itself. -/
def label : Capture → Label
  | .node label _ => label

/-- The captures inside, under their keys, in the order of the text. -/
def entries : Capture → List (CaptureKey × Capture)
  | .node _ children => children

/-- The captures inside, in the order of the text. -/
def children (c : Capture) : List Capture := c.entries.map Prod.snd

/-- The number of characters covered. -/
def length (c : Capture) : Int := c.label.stop - c.label.start

/-- The characters covered. -/
def chars (source : Text) (c : Capture) : List Char := source.slice c.label.start c.label.stop

/-- The text covered. -/
def text (source : Text) (c : Capture) : String := String.ofList (c.chars source)

/-- The capture with a value attached. -/
def make (value : Datum) : Capture → Capture
  | .node label children => .node { label with made := some value } children

/-- The value attached, or none. -/
def made (c : Capture) : Datum := c.label.made.getD .null

/-- The value attached, or else the text covered. -/
def value (source : Text) (c : Capture) : Datum :=
  c.label.made.getD (.string (c.text source))

/-- The capture of a span from the captures of its scope, the latest first. -/
def build (name : Option CaptureKey) (start stop : Int) (plural : List CaptureKey)
    (rule : Option String) (captured : Captured) : Capture :=
  .node { name, start, stop, rule, made := none, plural } captured.reverse

/-! ## 2. The table of keys -/

/-- What a key is bound to. -/
inductive Binding where
  | one (capture : Capture)
  | many (captures : Array Capture)

/-- A table of keys, in the order in which they were first bound. -/
abbrev Bindings := List (CaptureKey × Binding)

namespace Bindings

/-- Change what a key is bound to; a key that is not bound comes last. -/
def alter (key : CaptureKey) (change : Option Binding → Binding) : Bindings → Bindings
  | [] => [(key, change none)]
  | (k, b) :: rest =>
    if k = key then (k, change (some b)) :: rest else (k, b) :: alter key change rest

/-- One more capture under a key. -/
def add (plural : List CaptureKey) (table : Bindings) (entry : CaptureKey × Capture) :
    Bindings :=
  table.alter entry.1 fun
    | none => if plural.contains entry.1 then .many #[entry.2] else .one entry.2
    | some (.one first) => .many #[first, entry.2]
    | some (.many captures) => .many (captures.push entry.2)

/-- An empty list for a plural key under which nothing was captured. -/
def addEmpty (table : Bindings) (key : CaptureKey) : Bindings :=
  table.alter key fun
    | none => .many #[]
    | some b => b

end Bindings

/-- The table of the keys of a capture. -/
def bindings (c : Capture) : Bindings :=
  c.label.plural.foldl Bindings.addEmpty (c.entries.foldl (Bindings.add c.label.plural) [])

/-- What a key is bound to in a capture. -/
def get? (c : Capture) (key : CaptureKey) : Option Binding := c.bindings.lookup key

/-- Whether a key is bound in a capture. -/
def has (c : Capture) (key : CaptureKey) : Bool := (c.get? key).isSome

/-- What a key is bound to; it is a failure if it is not bound. -/
def get (c : Capture) (key : CaptureKey) : Except Failure Binding :=
  match c.get? key with
  | some b => .ok b
  | none => .error (.missingKey key)

/-- All captures that a key binds, in the order of the text. -/
def Binding.toList : Binding → List Capture
  | .one c => [c]
  | .many cs => cs.toList

/-! ## 3. The whole tree -/

mutual

/-- A capture and all captures inside it, each before what is inside it. -/
def walk : Capture → List Capture
  | .node label children => .node label children :: walkAll children

/-- The captures of a scope and all captures inside them. -/
def walkAll : List (CaptureKey × Capture) → List Capture
  | [] => []
  | (_, c) :: rest => c.walk ++ walkAll rest

end

mutual

/-- Whether the tree can be written: no value attached in it holds an integer
    of too many digits for its text. -/
def isWritable : Capture → Bool
  | .node label children => label.made.all Datum.hasFlat && areWritable children

/-- Whether the captures of a scope can be written. -/
def areWritable : List (CaptureKey × Capture) → Bool
  | [] => true
  | (_, c) :: rest => c.isWritable && areWritable rest

end

/-- The fields of a capture that are written before its children. -/
def fields (source : Text) (label : Label) : List (String × Datum) :=
  [("name", (label.name.map CaptureKey.toDatum).getD .null), ("start", .int label.start),
    ("end", .int label.stop),
    ("text", .string (String.ofList (source.slice label.start label.stop)))] ++
  (match label.rule with
    | some rule => [("rule", .string rule)]
    | none => []) ++
  (match label.made with
    | some value => [("made", value.flat)]
    | none => [])

mutual

/-- The tree as a value. -/
def toDatum (source : Text) : Capture → Datum
  | .node label children =>
    let parts := toData source children
    .dict (fields source label ++ (if parts.isEmpty then [] else [("children", .list parts)]))

/-- The captures of a scope as values. -/
def toData (source : Text) : List (CaptureKey × Capture) → List Datum
  | [] => []
  | (_, c) :: rest => c.toDatum source :: toData source rest

end

end Capture

end GrammarMatch
