/-
  File:      GrammarMatch/Registry.lean
  Subject:   The rules of a grammar by name.

  A registry holds for each name the last definition that was accepted. A
  definition is a compiled rule, or is deferred: then the pattern is asked
  for and compiled when the rule is first looked up, and stays deferred as
  long as that fails. Names that the grammar does not define fall back to a
  few rules that are always there.
-/
import GrammarMatch.Pattern.Compile

namespace GrammarMatch

/-! ## 1. Rules -/

/-- A compiled rule. -/
structure Rule where
  name : String
  kind : RuleKind
  pattern : Pattern
  flags : Flags

namespace Rule

/-- The keys that bind a list in the captures of the rule. -/
def plural (r : Rule) : List CaptureKey := r.pattern.pluralKeys

/-- The class of characters that a built-in rule of one character matches. -/
def builtinClass? : String → Option (List ClassItem)
  | "alpha" => some [.property "L" false, .range ['_'] ['_']]
  | "digit" => some [.shorthand "d"]
  | "alnum" => some [.property "L" false, .property "N" false, .range ['_'] ['_']]
  | "space" => some [.shorthand "s"]
  | "upper" => some [.property "Lu" false]
  | "lower" => some [.property "Ll" false]
  | _ => none

/-- The pattern of a built-in rule. An identifier begins with a letter and
    goes on with word characters. -/
def builtinPattern? : String → Option Pattern
  | "ws" => some .whitespace
  | "ident" => some (.sequence [.ruleRef { name := "alpha", alias? := none, capture := false },
      .repetition ⟨0, none, true⟩ (.charClass [.shorthand "w"] false false)])
  | name => (builtinClass? name).map fun items => .charClass items false false

/-- The built-in rule of a name. -/
def builtin? (name : String) : Option Rule :=
  (builtinPattern? name).map fun p => ⟨name, .token, p, .none⟩

end Rule

/-! ## 2. Definitions -/

/-- What a rule can be defined by. -/
inductive Source where
  /-- The text of a pattern. -/
  | text (chars : List Char)
  /-- A compiled pattern. -/
  | pattern (p : Pattern)
  /-- A value that is no pattern. -/
  | other (value : Datum)

/-- A definition: given now, or to be supplied when it is needed. -/
inductive Definition where
  | now (source : Source)
  | later (supply : Unit → Except Failure Source)

/-- The kind in which the text of a rule is compiled. A rule for white space
    must not itself allow white space between its parts. -/
def Rule.compileKind (name : String) (kind : RuleKind) : RuleKind :=
  if name = "ws" ∧ kind = .rule then .token else kind

/-- Compile the definition of a rule. A fault of its text is attributed to
    the rule. -/
def Rule.compile (name : String) (kind : RuleKind) (flags : Flags) : Source → Except Failure Rule
  | .pattern p => .ok ⟨name, kind, p, flags⟩
  | .other value => .error (.notAPattern name value)
  | .text chars =>
    match Pattern.compile chars flags (compileKind name kind) with
    | .ok p => .ok ⟨name, kind, p, flags⟩
    | .error e => .error (.badSyntax (e.forRule name))

/-- What a registry holds for a name. -/
inductive Entry where
  | compiled (rule : Rule)
  | deferred (supply : Unit → Except Failure Source) (kind : RuleKind) (flags : Flags)

/-- The rules of a grammar. -/
structure Registry where
  /-- The names and what is held for them, each name once. -/
  entries : List (String × Entry) := []
  /-- The deferred definitions that were asked for, the latest first. -/
  asked : List String := []

namespace Registry

/-- The registry without any rule of its own. -/
def empty : Registry := {}

/-- Hold something for a name, in the place of what was held for it. -/
def put (r : Registry) (name : String) (e : Entry) : Registry :=
  { r with entries := (name, e) :: r.entries.filter (fun x => x.1 != name) }

/-- Add or replace a rule. What fails changes nothing. -/
def define (r : Registry) (name : String) (d : Definition) (kind : RuleKind) (flags : Flags) :
    Except Failure Registry :=
  match d with
  | .later supply => .ok (r.put name (.deferred supply kind flags))
  | .now source => (Rule.compile name kind flags source).map fun rule =>
      r.put name (.compiled rule)

/-- Whether the grammar itself defines a name. -/
def defines (r : Registry) (name : String) : Bool := (r.entries.lookup name).isSome

/-- The names that the grammar defines, in alphabetical order. -/
def names (r : Registry) : List String :=
  (r.entries.map Prod.fst).mergeSort (fun a b => !(b < a))

/-- How many rules the grammar defines. -/
def size (r : Registry) : Nat := r.entries.length

/-! ## 3. Lookup -/

/-- A computation that may look up rules: it goes on with the registry that
    it leaves behind, also when it fails. -/
abbrev Access := EStateM Failure Registry

/-- The outcome of a computation without a state. -/
def ofExcept : Except Failure α → Access α
  | .ok a => pure a
  | .error f => throw f

/-- The rule of a name, if there is one. A deferred definition is compiled
    now. -/
def find? (name : String) : Access (Option Rule) := do
  match (← get).entries.lookup name with
  | some (.compiled rule) => return some rule
  | some (.deferred supply kind flags) =>
    modify fun r => { r with asked := name :: r.asked }
    let rule ← ofExcept ((supply ()).bind (Rule.compile name kind flags))
    modify fun r => r.put name (.compiled rule)
    return some rule
  | none => return Rule.builtin? name

/-- The rule of a name; it is a failure if there is none. -/
def rule (name : String) : Access Rule := do
  match ← find? name with
  | some rule => return rule
  | none => throw (.undefinedRule name)

/-- The compiled pattern of a rule. -/
def pattern (name : String) : Access Pattern := do
  return (← rule name).pattern

/-- Whether a name stands for a rule, be it a built-in one. -/
def contains (name : String) : Access Bool := do
  return (← find? name).isSome

/-! ## 4. Grammars -/

/-- A rule of a grammar, declared with the names of its flags. -/
structure Declaration where
  name : String
  kind : RuleKind
  source : List Char
  flags : List String
  line : Nat

/-- A rule as it may be given to the compiler of grammars: a declaration, or
    a row of values of which the right number makes a rule. -/
inductive RuleSpec where
  | declared (d : Declaration)
  | tuple (name : String) (kind : Datum) (definition : Definition)
      (flags : Except (List String) Flags)
  | malformed (size : Nat)

/-- Define what a specification says. The flags are read before the kind. -/
def defineSpec (r : Registry) : RuleSpec → Except Failure Registry
  | .declared d => do
    let flags ← Flags.ofNames d.flags
    r.define d.name (.now (.text d.source)) d.kind flags
  | .tuple name kind definition flags => do
    let flags ← match flags with
      | .ok f => .ok f
      | .error names => Flags.ofNames names
    let kind ← RuleKind.ofDatum kind
    r.define name definition kind flags
  | .malformed size => throw (.badDefinition size)

/-- The registry of a grammar: its rules defined one after the other. -/
def ofSpecs (specs : List RuleSpec) : Except Failure Registry :=
  specs.foldlM defineSpec empty

end Registry

end GrammarMatch
