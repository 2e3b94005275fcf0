/-
  File:      GrammarMatch/Syntax/Tree.lean
  Subject:   The tree of a pattern's tokens.

  The tree follows the grammar of the pattern language:

    alternatives  =  items  ( bar  items )*
    items         =  ( atom  quantifier? )*
    atom          =  token  |  opener  alternatives  closer

  `Alternatives.tokens` writes a tree back as the list of its tokens, and
  `Alternatives.ofTokens?` reads it. It takes the tokens from the last to the
  first, so that every list is built at its front: a closer begins a group
  whose opener is still to come, and a quantifier waits for its atom.
-/
import GrammarMatch.Syntax.Token

namespace GrammarMatch.Syntax

/-! ## 1. Trees -/

mutual

/-- What can be repeated: one token, or a group. -/
inductive Atom where
  | leaf (token : Token)
  | group (opener : Token) (body : Alternatives) (closer : Token)

/-- Alternatives, with the bars between them. -/
inductive Alternatives where
  | one (items : Items)
  | more (items : Items) (bar : Token) (rest : Alternatives)

/-- A row of atoms, each with its quantifier if it has one. -/
inductive Items where
  | nil
  | cons (atom : Atom) (quantifier : Option Token) (rest : Items)

end

mutual

/-- The tokens of an atom. -/
def Atom.tokens : Atom → List Token
  | .leaf t => [t]
  | .group opener body closer => opener :: (body.tokens ++ [closer])

/-- The tokens of alternatives. -/
def Alternatives.tokens : Alternatives → List Token
  | .one items => items.tokens
  | .more items bar rest => items.tokens ++ bar :: rest.tokens

/-- The tokens of a row of atoms. -/
def Items.tokens : Items → List Token
  | .nil => []
  | .cons atom quantifier rest => atom.tokens ++ (quantifier.toList ++ rest.tokens)

end

/-! ## 2. Reading a tree -/

/-- What was read of one level of nesting, from its end: a quantifier that
    waits for its atom, the row of atoms, and the alternatives after it. -/
structure Level where
  quantifier : Option Token
  items : Items
  later : Option (Token × Alternatives)

namespace Level

/-- The end of a level. -/
def empty : Level := ⟨none, .nil, none⟩

/-- The alternatives of a level whose beginning was reached, unless a
    quantifier still waits for its atom. -/
def close? (l : Level) : Option Alternatives :=
  match l.quantifier, l.later with
  | some _, _ => none
  | none, none => some (.one l.items)
  | none, some (bar, rest) => some (.more l.items bar rest)

/-- An atom in front of a level takes the quantifier that waits. -/
def push (l : Level) (atom : Atom) : Level :=
  { l with quantifier := none, items := .cons atom l.quantifier l.items }

end Level

/-- What was read of a pattern from its end: the level that is being read,
    and for each group around it its closer and the level outside. -/
structure Partial where
  level : Level
  outer : List (Token × Level)

namespace Partial

/-- The end of a pattern. -/
def empty : Partial := ⟨Level.empty, []⟩

/-- One more token in front. -/
def push? (p : Partial) (t : Token) : Option Partial :=
  match t.kind with
  | .closer => some ⟨Level.empty, (t, p.level) :: p.outer⟩
  | .opener =>
    match p.outer, p.level.close? with
    | (closer, level) :: outer, some body => some ⟨level.push (.group t body closer), outer⟩
    | _, _ => none
  | .quantifier =>
    match p.level.quantifier with
    | none => some { p with level := { p.level with quantifier := some t } }
    | some _ => none
  | .bar =>
    match p.level.close? with
    | some rest => some { p with level := ⟨none, .nil, some (t, rest)⟩ }
    | none => none
  | _ => some { p with level := p.level.push (.leaf t) }

end Partial

/-- The tree of a list of tokens, if they form one. -/
def Alternatives.ofTokens? (ts : List Token) : Option Alternatives :=
  match ts.reverse.foldlM Partial.push? Partial.empty with
  | some ⟨level, []⟩ => level.close?
  | _ => none

/-- The tree of the text of a pattern. Tokens that were read always form a
    tree, since each was admitted at its place and every group was closed. -/
def Alternatives.parse (cs : List Char) : Except Fault Alternatives :=
  match Syntax.tokens cs with
  | .error f => .error f
  | .ok ts =>
    match ofTokens? ts with
    | some tree => .ok tree
    | none => .error ⟨.unclosedGroup, cs.length, []⟩

end GrammarMatch.Syntax
