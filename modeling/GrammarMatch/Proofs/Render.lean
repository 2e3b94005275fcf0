/-
  File:      GrammarMatch/Proofs/Render.lean
  Subject:   Writing a pattern as a text, and which patterns can be written.

  Characters stand between quotes or in classes, with a backslash where one is needed. What is
  part of something larger stands in plain brackets, so that no precedence matters. A quantifier
  is written with both bounds.

  A pattern is writable in a dialect if the language has a text for it: there are things that only
  a program can build, such as a row of one part, a repetition whose bounds are out of order, or a
  name that is none. Groups without a name carry a number; it is not written, but follows from the
  place of the group (`Pattern.renumbered`).
-/
import GrammarMatch.Pattern.Compile

namespace GrammarMatch

open Syntax

/-! ## 1. Writing -/

/-- A character between quotes: a backslash stands before a backslash and before a quote. -/
def quotedChar (c : Char) : List Char := if c = '\\' ∨ c = '\'' then ['\\', c] else [c]

/-- A character in a class: a backslash stands before it, unless it is alphanumeric. -/
def classChar (c : Char) : List Char := if Unicode.isAlphanumeric c then [c] else ['\\', c]

/-- A member of a class. A single character may be written as a range in `full`, or just once. -/
def ClassItem.render (full : Bool) : ClassItem → List Char
  | .range first last =>
    if first = last ∧ full = false then first.flatMap classChar
    else first.flatMap classChar ++ '-' :: last.flatMap classChar
  | .shorthand letter => '\\' :: letter.toList
  | .property name negated =>
    '\\' :: (if negated then 'P' else 'p') :: '\x7b' :: (name.toList ++ ['\x7d'])

/-- The digits of a bound. -/
def digits (n : Int) : List Char := Nat.toDigits 10 n.toNat

/-- The digits of an upper bound, if there is one. -/
def upperDigits : Option Int → List Char
  | some max => digits max
  | none => []

/-- Both bounds of a repetition between braces, and a mark if seldom is tried first. -/
def Quantity.render (q : Quantity) : List Char :=
  '\x7b' :: (digits q.min ++ ',' :: (upperDigits q.max ++ '\x7d' ::
    if q.greedy then [] else ['?']))

/-- A reference between angle brackets, with its alias if it has one, or with a point if its match
    is not captured. -/
def Reference.render (r : Reference) : List Char :=
  '<' :: ((match r.alias? with
    | some alternative => alternative.toList ++ '=' :: r.name.toList
    | none => if r.capture then r.name.toList else '.' :: r.name.toList) ++ ['>'])

/-- The anchor of a place. -/
def AnchorKind.render : AnchorKind → List Char
  | .startOfString => ['\\', 'A']
  | .endOfString => ['\\', 'z']
  | .startOfLine => ['^']
  | .endOfLine => ['$']
  | .wordBoundary => ['\\', 'b']

/-- What opens a look. -/
def LookKind.opener : LookKind → List Char
  | .ahead => ['(', '?', '=']
  | .notAhead => ['(', '?', '!']
  | .behind => ['(', '?', '<', '=']
  | .notBehind => ['(', '?', '<', '!']

/-- What opens a group. -/
def CaptureKey.opener : CaptureKey → List Char
  | .index _ => ['(']
  | .name s => '(' :: '?' :: '<' :: (s.toList ++ ['>'])

namespace Pattern

/-- Something in plain brackets. -/
def wrapped (cs : List Char) : List Char := '(' :: '?' :: ':' :: (cs ++ [')'])

/-- A literal between quotes. -/
def renderLiteral (chars : List Char) : List Char := '\'' :: (chars.flatMap quotedChar ++ ['\''])

/-- A class between brackets, or the point that stands for any character. -/
def renderClass (full : Bool) (items : List ClassItem) (negated : Bool) : List Char :=
  if items = [] ∧ negated = true then ['.']
  else '[' :: ((if negated then ['^'] else []) ++ (items.flatMap (ClassItem.render full) ++ [']']))

mutual

/-- A pattern as a text. -/
def render (full : Bool) : Pattern → List Char
  | .literal chars _ => renderLiteral chars
  | .charClass items negated _ => renderClass full items negated
  | .sequence parts => renderRow full parts
  | .alternation _ branches => renderBranches full branches
  | .repetition q body => wrapped (render full body) ++ q.render
  | .group (some key) _ body => key.opener ++ (render full body ++ [')'])
  | .group none _ body => wrapped (render full body)
  | .look kind body => kind.opener ++ (render full body ++ [')'])
  | .anchor kind => kind.render
  | .ruleRef r => r.render
  | .whitespace => []

/-- One part after the other. -/
def renderRow (full : Bool) : List Pattern → List Char
  | [] => []
  | p :: rest => wrapped (render full p) ++ renderRow full rest

/-- Branches with bars between them. -/
def renderBranches (full : Bool) : List Pattern → List Char
  | [] => []
  | [p] => wrapped (render full p)
  | p :: rest => wrapped (render full p) ++ '|' :: renderBranches full rest

end

/-! ## 2. Names and numbers -/

mutual

/-- The names of the groups that belong to the scope of a pattern. -/
def names : Pattern → List String
  | .group (some (.name s)) _ _ => [s]
  | .group none _ body => names body
  | .sequence parts => namesOfAll parts
  | .alternation _ branches => namesOfAll branches
  | .repetition _ body => names body
  | _ => []

/-- The names of several patterns. -/
def namesOfAll : List Pattern → List String
  | [] => []
  | p :: rest => names p ++ namesOfAll rest

end

mutual

/-- The number that is free after a pattern, if one is free before it. -/
def freeAfter (next : Nat) : Pattern → Nat
  | .group (some (.index _)) _ _ => next + 1
  | .group none _ body => freeAfter next body
  | .sequence parts => freeAfterRow next parts
  | .alternation _ branches => freeAfterBranches next branches
  | .repetition _ body => freeAfter next body
  | _ => next

/-- The number that is free after parts, one after the other. -/
def freeAfterRow (next : Nat) : List Pattern → Nat
  | [] => next
  | p :: rest => freeAfterRow (freeAfter next p) rest

/-- The number that is free after branches that are each counted from the same number. -/
def freeAfterBranches (next : Nat) : List Pattern → Nat
  | [] => next
  | p :: rest => max (freeAfter next p) (freeAfterBranches next rest)

end

mutual

/-- A pattern with the numbers that its groups get from their places, and with the notes on plural
    keys that go with them, where the next free number of the scope is given. -/
def renumbered (next : Nat) : Pattern → Pattern
  | .group (some (.index _)) _ body =>
    .group (some (.index next)) (renumbered 0 body).pluralKeys (renumbered 0 body)
  | .group (some (.name s)) _ body =>
    .group (some (.name s)) (renumbered 0 body).pluralKeys (renumbered 0 body)
  | .group none plural body => .group none plural (renumbered next body)
  | .sequence parts => .sequence (renumberedRow next parts)
  | .alternation mode branches => .alternation mode (renumberedBranches next branches)
  | .repetition q body => .repetition q (renumbered next body)
  | .look kind body => .look kind (renumbered 0 body)
  | p => p

/-- The parts of a row are numbered one after the other. -/
def renumberedRow (next : Nat) : List Pattern → List Pattern
  | [] => []
  | p :: rest => renumbered next p :: renumberedRow (freeAfter next p) rest

/-- Branches are each numbered from the same number. -/
def renumberedBranches (next : Nat) : List Pattern → List Pattern
  | [] => []
  | p :: rest => renumbered next p :: renumberedBranches next rest

end

mutual

/-- Groups without a name carry the numbers that they get from their places. -/
def Numbered (next : Nat) : Pattern → Prop
  | .group (some (.index k)) _ body => k = next ∧ Numbered 0 body
  | .group (some (.name _)) _ body => Numbered 0 body
  | .group none _ body => Numbered next body
  | .sequence parts => NumberedRow next parts
  | .alternation _ branches => NumberedBranches next branches
  | .repetition _ body => Numbered next body
  | .look _ body => Numbered 0 body
  | _ => True

/-- The parts of a row carry the numbers that they get one after the other. -/
def NumberedRow (next : Nat) : List Pattern → Prop
  | [] => True
  | p :: rest => Numbered next p ∧ NumberedRow (freeAfter next p) rest

/-- Branches each carry the numbers that they get from the same number on. -/
def NumberedBranches (next : Nat) : List Pattern → Prop
  | [] => True
  | p :: rest => Numbered next p ∧ NumberedBranches next rest

end

end Pattern

/-! ## 3. What can be written -/

/-- A letter or an underscore, and then characters that are allowed. -/
def NameOf (allowed : Char → Bool) (s : String) : Prop :=
  ∃ c cs, s.toList = c :: cs ∧ isNameStart c = true ∧ ∀ d ∈ cs, allowed d = true

/-- A range between two characters in order, a letter of a shorthand, or a known property. -/
inductive ClassItem.Writable : ClassItem → Prop
  | range {first last : Char} (ordered : first ≤ last) : Writable (.range [first] [last])
  | shorthand {letter : Char} (known : isShorthand letter = true) :
      Writable (.shorthand letter.toString)
  | property {name : String} {negated : Bool} (known : Property.known name = true) :
      Writable (.property name negated)

/-- The name of a rule, and either a name as an alias, whose match is captured, or none. -/
structure Reference.Writable (r : Reference) : Prop where
  name : NameOf isNameChar r.name
  alternative : ∀ a ∈ r.alias?, NameOf isNameChar a ∧ r.capture = true

/-- Bounds in order, of no more digits than are read. -/
structure Quantity.Writable (q : Quantity) : Prop where
  least : 0 ≤ q.min
  ordered : ∀ max ∈ q.max, q.min ≤ max
  short : (digits q.min).length ≤ Integer.maxDigits
  shortMax : ∀ max ∈ q.max, (digits max).length ≤ Integer.maxDigits

/-- Patterns for which a dialect has a text. -/
inductive Pattern.Writable (d : Dialect) : Pattern → Prop
  | literal {chars : List Char} : Writable d (.literal chars d.ignoreCase)
  | anyChar : Writable d .anyChar
  | charClass {items : List ClassItem} {negated : Bool} (some : items ≠ [])
      (h : ∀ item ∈ items, item.Writable) : Writable d (.charClass items negated d.ignoreCase)
  | sequence {parts : List Pattern} (several : parts.length ≠ 1) (h : ∀ p ∈ parts, Writable d p)
      (apart : parts.Pairwise fun p q => ∀ s ∈ p.names, s ∉ q.names) :
      Writable d (.sequence parts)
  | alternation {branches : List Pattern} (several : 2 ≤ branches.length)
      (h : ∀ p ∈ branches, Writable d p) : Writable d (.alternation d.mode branches)
  | repetition {q : Quantity} {body : Pattern} (bounds : q.Writable) (h : Writable d body) :
      Writable d (.repetition q body)
  | numbered {k : Int} {plural : List CaptureKey} {body : Pattern} (h : Writable d body) :
      Writable d (.group (some (.index k)) plural body)
  | named {s : String} {plural : List CaptureKey} {body : Pattern} (name : NameOf Unicode.isWord s)
      (h : Writable d body) : Writable d (.group (some (.name s)) plural body)
  | look {kind : LookKind} {body : Pattern} (h : Writable d body) : Writable d (.look kind body)
  | anchor {kind : AnchorKind}
      (lines : kind = .startOfLine ∨ kind = .endOfLine → d.multiline = true) :
      Writable d (.anchor kind)
  | ruleRef {r : Reference} (h : r.Writable) : Writable d (.ruleRef r)

end GrammarMatch
