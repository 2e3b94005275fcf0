/-
  File:      GrammarMatch/Syntax/Part.lean
  Subject:   What single tokens mean.

  A token that is well formed may still mean nothing: bounds out of order, an
  escape or a property that does not exist, a range that ends before it
  starts. Each fault is reported where the offending piece of the token
  begins.
-/
import GrammarMatch.Syntax.Token
import GrammarMatch.Text.Integer
import GrammarMatch.Property
import GrammarMatch.Pattern

namespace GrammarMatch.Syntax

/-- A text without its first and its last character. -/
def inside (text : List Char) : List Char := (text.drop 1).dropLast

/-! ## 1. Escapes -/

/-- The control character that a letter stands for after a backslash. -/
def control? : Char → Option Char
  | 'n' => some '\n'
  | 't' => some '\t'
  | 'r' => some '\r'
  | 'f' => some '\x0c'
  | 'v' => some '\x0b'
  | _ => none

/-- The letters of shorthand classes. -/
def isShorthand (c : Char) : Bool := "dDwWsS".toList.contains c

/-- The property of a name, or its complement. -/
def propertyItem (name : List Char) (negated : Bool) (place : Nat) : Except Fault ClassItem :=
  let name := String.ofList name
  if Property.known name then .ok (.property name negated)
  else .error ⟨.unknownProperty name, place, []⟩

/-- The pattern of an escape. A letter or number that has no meaning after a
    backslash is a fault; any other character stands for itself. -/
def escapePattern (ignoreCase : Bool) (t : Token) : Except Fault Pattern :=
  match t.text.drop 1 with
  -- out of reach: a token has a character behind its backslash (`parsed_escapes`)
  | [] => .ok (.literal [] ignoreCase)
  | c :: body =>
    if isShorthand c then .ok (.charClass [.shorthand c.toString] false false)
    else match control? c with
      | some d => .ok (.literal [d] ignoreCase)
      | none =>
        if c == 'b' then .ok (.anchor .wordBoundary)
        else if c == 'B' then .ok (.look .notAhead (.anchor .wordBoundary))
        else if c == 'A' then .ok (.anchor .startOfString)
        else if c == 'z' then .ok (.anchor .endOfString)
        else if (c == 'p' || c == 'P') && !body.isEmpty then
          (propertyItem (inside body) (c == 'P') t.offset).map fun item =>
            .charClass [item] false false
        else if Unicode.isAlphanumeric c then
          .error ⟨.unknownEscape c, t.offset, []⟩
        else .ok (.literal [c] ignoreCase)

/-! ## 2. Quoted characters -/

/-- Characters between quotes with their escapes resolved: a backslash takes
    the next character, or the control character that it stands for. -/
def unescape : List Char → List Char
  | [] => []
  | ['\\'] => ['\\']
  | '\\' :: c :: rest => (control? c).getD c :: unescape rest
  | c :: rest => c :: unescape rest

/-! ## 3. Classes of characters -/

/-- A member of a class before it is known whether a range begins with it. -/
inductive Member where
  | char (c : Char)
  | item (item : ClassItem)

/-- The member that begins with `c` at a place, and how many of the following
    characters belong to it. -/
def readMember (c : Char) (cs : List Char) (place : Nat) : Except Fault (Member × Nat) :=
  if c != '\\' then .ok (.char c, 0)
  else match cs with
    -- out of reach as well: no member of a class begins with a backslash at its end
    | [] => .ok (.char c, 0)
    | e :: rest =>
      if isShorthand e then .ok (.item (.shorthand e.toString), 1)
      else match control? e with
        | some d => .ok (.char d, 1)
        | none =>
          if (e == 'p' || e == 'P') && rest.head? == some '\x7b' then
            let body := rest.drop 1
            let name := body.takeWhile (· != '\x7d')
            if name.length == body.length then
              .error ⟨.unclosedProperty, place, []⟩
            else (propertyItem name (e == 'P') place).map fun item =>
              (.item item, name.length + 3)
          else if Unicode.isAlphanumeric e then
            .error ⟨.unknownClassEscape e, place, []⟩
          else .ok (.char e, 1)

/-- The members of a class from a place on. After a character, a minus sign
    with something behind it makes a range. -/
def readMembers (place : Nat) (cs : List Char) : Except Fault (List ClassItem) :=
  match cs with
  | [] => .ok []
  | c :: rest =>
    match readMember c rest place with
    | .error f => .error f
    | .ok (.item item, n) => (readMembers (place + n + 1) (rest.drop n)).map (item :: ·)
    | .ok (.char first, n) =>
      let here := place + n + 1
      match _h : rest.drop n with
      | '-' :: e :: tail =>
        match readMember e tail (here + 1) with
        | .error f => .error f
        | .ok (.item _, _) => .error ⟨.badRangeEnd, here + 1, []⟩
        | .ok (.char last, k) =>
          if last < first then .error ⟨.reversedRange first last, here, []⟩
          else
            (readMembers (here + k + 2) (tail.drop k)).map (.range [first] [last] :: ·)
      | other => (readMembers here other).map (.range [first] [first] :: ·)
termination_by cs.length
decreasing_by
  · simp only [List.length_cons, List.length_drop]; omega
  · have := congrArg List.length _h
    simp only [List.length_drop, List.length_cons] at *
    omega
  · have := congrArg List.length _h
    simp only [List.length_drop, List.length_cons] at *
    omega

/-- The pattern of a class between brackets. -/
def classPattern (ignoreCase : Bool) (t : Token) : Except Fault Pattern :=
  match inside t.text with
  | '^' :: members =>
    (readMembers (t.offset + 2) members).map fun items => .charClass items true ignoreCase
  | members =>
    (readMembers (t.offset + 1) members).map fun items => .charClass items false ignoreCase

/-! ## 4. References -/

/-- The rule that a reference names. A point before the name says that the
    match is not captured, unless there is an alias. -/
def referenceOf (t : Token) : Reference :=
  let body := inside t.text
  let left := body.takeWhile (· != '=')
  if left.length == body.length then
    { name := String.ofList (body.dropWhile (· == '.')), alias? := none
      capture := body.head? != some '.' }
  else
    { name := String.ofList ((body.drop (left.length + 1)).dropWhile (· == '.'))
      alias? := some (String.ofList left), capture := true }

/-! ## 5. Quantifiers -/

/-- One bound: `absent` stands for an empty text. -/
def readBound (absent : Option Int) (text : List Char) : Option (Option Int) :=
  if text.isEmpty then some absent
  else match Integer.read text with
    | .ok n => some (some n)
    | .error _ => none

/-- Bounds without their braces and blanks. -/
def readBounds (t : Token) (greedy : Bool) (inner : List Char) : Except Fault Quantity :=
  let low := inner.takeWhile (· != ',')
  let rest := inner.drop low.length
  let invalid : Except Fault Quantity := .error ⟨.badBounds t.text, t.offset, []⟩
  match readBound (some 0) low, rest with
  | some (some min), [] =>
    if low.isEmpty then .error ⟨.noBounds t.text, t.offset, []⟩
    else .ok ⟨min, some min, greedy⟩
  | some (some min), _ :: high =>
    match readBound none high with
    | none => invalid
    | some none => .ok ⟨min, none, greedy⟩
    | some (some max) =>
      if max < min then .error ⟨.reversedBounds min max, t.offset, []⟩
      else .ok ⟨min, some max, greedy⟩
  | _, _ => invalid

/-- How often a quantifier repeats. A question mark at its end, unless it is
    all of it, makes the quantifier lazy. -/
def quantityOf (t : Token) : Except Fault Quantity :=
  let isLazy := 1 < t.text.length && t.text.getLast? == some '?'
  let text := if isLazy then t.text.dropLast else t.text
  match text with
  | ['*'] => .ok ⟨0, none, !isLazy⟩
  | ['+'] => .ok ⟨1, none, !isLazy⟩
  | ['?'] => .ok ⟨0, some 1, !isLazy⟩
  | _ => readBounds t (!isLazy) ((inside text).filter (· != ' '))

/-! ## 6. Groups -/

/-- What a group does with what it encloses. -/
inductive GroupKind where
  /-- A capture under the next free number. -/
  | numbered
  /-- No more than brackets. -/
  | plain
  /-- A test of the text beside the position. -/
  | look (kind : LookKind)
  /-- A capture under a name. -/
  | named (name : String)
  deriving DecidableEq, Repr

/-- The kind of group that an opener begins. -/
def groupKindOf (t : Token) : GroupKind :=
  match t.text with
  | ['(', '?', ':'] => .plain
  | ['(', '?', '='] => .look .ahead
  | ['(', '?', '!'] => .look .notAhead
  | ['(', '?', '<', '='] => .look .behind
  | ['(', '?', '<', '!'] => .look .notBehind
  | '(' :: '?' :: '<' :: rest => .named (String.ofList rest.dropLast)
  | _ => .numbered

end GrammarMatch.Syntax
