/-
  File:      GrammarMatch/Syntax/Token.lean
  Subject:   The tokens of the pattern language.

  The first character of a token decides its kind, and the kind decides how
  far the token reaches. Between tokens may stand layout: blanks, tabs, form
  feeds, line ends, and comments from `#` to the end of the line.

  Which tokens may come next depends only on the token before and on whether
  a group is open: a quantifier must follow something to repeat, and a group
  is closed only where one was opened. So reading tokens from left to right
  finds every fault of the syntax at the first token that cannot stand there.
-/
import GrammarMatch.Syntax.Fault

namespace GrammarMatch.Syntax

/-! ## 1. Tokens -/

/-- The kinds of tokens. -/
inductive TokenKind where
  /-- Characters between quotes. -/
  | quoted
  /-- A run of characters that stand for themselves. -/
  | chars
  /-- A class of characters between brackets. -/
  | charClass
  /-- A backslash with what it escapes. -/
  | escape
  | dot
  | caret
  | dollar
  /-- A reference to a rule between angle brackets. -/
  | reference
  /-- What opens a group. -/
  | opener
  /-- What says how often something is repeated. -/
  | quantifier
  /-- What separates alternatives. -/
  | bar
  /-- What closes a group. -/
  | closer
  deriving DecidableEq, Repr

namespace TokenKind

/-- The name of the kind in lists of what was expected. -/
def label : TokenKind → String
  | .quoted => "QUOTED"
  | .chars => "CHARS"
  | .charClass => "CHARCLASS"
  | .escape => "ESCAPE"
  | .dot => "DOT"
  | .caret => "CARET"
  | .dollar => "DOLLAR"
  | .reference => "RULEREF"
  | .opener => "GROUP_OPEN"
  | .quantifier => "QUANT"
  | .bar => "VBAR"
  | .closer => "RPAR"

/-- The kinds that begin an element: all but quantifiers, bars and closers. -/
def atoms : List TokenKind :=
  [.caret, .charClass, .chars, .dollar, .dot, .escape, .opener, .quoted, .reference]

end TokenKind

/-- A token: its characters and where they stand. -/
structure Token where
  kind : TokenKind
  text : List Char
  offset : Nat
  deriving DecidableEq, Repr

/-! ## 2. How far a token reaches

Each function gets the characters after the first one and says how many of
them belong to the token. -/

/-- Layout characters. -/
def isLayout (c : Char) : Bool :=
  c == ' ' || c == '\t' || c == '\x0c' || c == '\r' || c == '\n'

/-- Characters that stand for themselves without quotes. -/
def isBare (c : Char) : Bool :=
  !Unicode.isSpace c && !"()[]\x7b\x7d|*+?.^$\\'\"<#".toList.contains c

/-- Letters that begin a name. -/
def isNameStart (c : Char) : Bool := c.isAlpha || c == '_'

/-- Characters of the name of a rule. -/
def isNameChar (c : Char) : Bool := Unicode.isWord c || c == '-'

/-- Characters up to and with the closing quote; a backslash escapes the
    character after it. -/
def quotedReach (quote : Char) : List Char → Option Nat
  | [] => none
  | '\\' :: [] => none
  | '\\' :: _ :: rest => (quotedReach quote rest).map (· + 2)
  | c :: rest => if c == quote then some 1 else (quotedReach quote rest).map (· + 1)

/-- Members of a class up to and with the closing bracket. A class has at
    least one member; `some` says whether one was read. -/
def classReach (hasMember : Bool) : List Char → Option Nat
  | [] => none
  | '\\' :: [] => none
  | '\\' :: _ :: rest => (classReach true rest).map (· + 2)
  | c :: rest =>
    if c == ']' then (if hasMember then some 1 else none)
    else (classReach true rest).map (· + 1)

/-- What a backslash escapes: the braces of a property if they are well
    formed, else one character. -/
def escapeReach : List Char → Option Nat
  | [] => none
  | c :: rest =>
    match rest with
    | '\x7b' :: body =>
      let name := body.takeWhile isNameStart
      if (c == 'p' || c == 'P') && !name.isEmpty && (body.drop name.length).head? == some '\x7d'
      then some (name.length + 3) else some 1
    | _ => some 1

/-- The length of a name of a rule at the start of the characters. -/
def nameReach : List Char → Option Nat
  | [] => none
  | c :: rest => if isNameStart c then some ((rest.takeWhile isNameChar).length + 1) else none

/-- The end of a reference, after the alias: an optional point, a name and
    the closing bracket. -/
def targetReach (cs : List Char) : Option Nat :=
  let point := if cs.head? == some '.' then 1 else 0
  match nameReach (cs.drop point) with
  | none => none
  | some n => if (cs.drop (point + n)).head? == some '>' then some (point + n + 1) else none

/-- A reference: an optional alias with an equals sign, and the target. -/
def referenceReach (cs : List Char) : Option Nat :=
  match nameReach cs with
  | none => targetReach cs
  | some n =>
    if (cs.drop n).head? == some '=' then (targetReach (cs.drop (n + 1))).map (· + (n + 1))
    else targetReach cs

/-- What opens a group: a mark of its kind or a name, else nothing more. -/
def openerReach : List Char → Nat
  | '?' :: ':' :: _ => 2
  | '?' :: '=' :: _ => 2
  | '?' :: '!' :: _ => 2
  | '?' :: '<' :: '=' :: _ => 3
  | '?' :: '<' :: '!' :: _ => 3
  | '?' :: '<' :: c :: rest =>
    let name := rest.takeWhile Unicode.isWord
    if isNameStart c && (rest.drop name.length).head? == some '>' then name.length + 4 else 0
  | _ => 0

/-- A mark after a quantifier that makes it lazy. -/
def lazyReach : List Char → Nat
  | '?' :: _ => 1
  | _ => 0

/-- Bounds up to and with the closing brace, and the mark. -/
def boundsReach (cs : List Char) : Option Nat :=
  let inner := cs.takeWhile (· != '\x7d')
  match cs.drop inner.length with
  | [] => none
  | _ :: rest => some (inner.length + 1 + lazyReach rest)

/-- The kind of the token that starts with `c`, and how many of the following
    characters belong to it. -/
def tokenReach (c : Char) (cs : List Char) : Option (TokenKind × Nat) :=
  match c with
  | '(' => some (.opener, openerReach cs)
  | ')' => some (.closer, 0)
  | '|' => some (.bar, 0)
  | '*' | '+' | '?' => some (.quantifier, lazyReach cs)
  | '\x7b' => (boundsReach cs).map fun n => (.quantifier, n)
  | '.' => some (.dot, 0)
  | '^' => some (.caret, 0)
  | '$' => some (.dollar, 0)
  | '<' => (referenceReach cs).map fun n => (.reference, n)
  | '\'' | '"' => (quotedReach c cs).map fun n => (.quoted, n)
  | '\\' => (escapeReach cs).map fun n => (.escape, n)
  | '[' => (classReach false cs).map fun n => (.charClass, n)
  | _ => if isBare c then some (.chars, (cs.takeWhile isBare).length) else none

/-! ## 3. What may come next -/

/-- What was read before a place. -/
inductive Place where
  /-- Nothing. -/
  | start
  /-- Something after which an element may begin, but nothing be repeated:
      an opener, a quantifier or a bar. -/
  | fresh
  /-- An element. -/
  | element
  deriving DecidableEq, Repr

namespace Place

/-- The place after a token. -/
def after : TokenKind → Place
  | .opener | .quantifier | .bar => .fresh
  | _ => .element

/-- Whether a token of a kind is looked for at the place. -/
def admits : Place → TokenKind → Bool
  | .element, _ => true
  | .fresh, kind => kind != .quantifier
  | .start, kind => kind != .quantifier && kind != .closer

/-- The kinds that are looked for at the place. -/
def expected (place : Place) : List String :=
  ((TokenKind.atoms ++ [TokenKind.quantifier, TokenKind.closer, TokenKind.bar]).filter
    place.admits).map TokenKind.label

/-- The place after the tokens read so far, the latest of them first. -/
def ofRead : List Token → Place
  | [] => .start
  | t :: _ => after t.kind

end Place

/-! ## 4. Reading tokens -/

/-- What stands after layout, and `n` plus the length of the layout. In a
    comment everything up to the line end is layout. -/
def skipLayout (inComment : Bool) (n : Nat) : List Char → List Char × Nat
  | [] => ([], n)
  | c :: rest =>
    if inComment then skipLayout (c != '\n') (n + 1) rest
    else if isLayout c || c == '#' then skipLayout (c == '#') (n + 1) rest
    else (c :: rest, n)

/-- What is skipped and what is left make up the whole. -/
theorem length_skipLayout (inComment : Bool) (n : Nat) (cs : List Char) :
    (skipLayout inComment n cs).1.length + (skipLayout inComment n cs).2 = cs.length + n := by
  induction cs generalizing inComment n with
  | nil => rfl
  | cons c rest ih =>
    simp only [skipLayout]
    split
    · have := ih (c != '\n') (n + 1); simp only [List.length_cons]; omega
    · split
      · have := ih (c == '#') (n + 1); simp only [List.length_cons]; omega
      · rfl

/-- Skipping does not go back. -/
theorem le_skipLayout (inComment : Bool) (n : Nat) (cs : List Char) :
    n ≤ (skipLayout inComment n cs).2 := by
  induction cs generalizing inComment n with
  | nil => exact Nat.le_refl n
  | cons c rest ih =>
    simp only [skipLayout]
    split
    · have := ih (c != '\n') (n + 1); omega
    · split
      · have := ih (c == '#') (n + 1); omega
      · exact Nat.le_refl n

/-- How many groups are open after a token. -/
def openAfter (opened : Nat) : TokenKind → Nat
  | .opener => opened + 1
  | .closer => opened - 1
  | _ => opened

/-- What is missing where a text ends in an open group: an element could
    still begin right after the opener, else only the end of the group is
    missing. -/
def missingAtEnd : List Token → List String
  | t :: _ => if t.kind = .opener then Place.expected .fresh else [TokenKind.label .closer]
  | [] => [TokenKind.label .closer]

/-- Read the characters from `offset` on. The tokens read so far are given,
    the latest first, and how many groups they leave open. -/
def readTokens (seen : List Token) (opened offset : Nat) (cs : List Char) :
    Except Fault (List Token) :=
  match _h : skipLayout false offset cs with
  | ([], here) =>
    if opened = 0 then .ok seen.reverse
    else .error ⟨.unclosedGroup, here, missingAtEnd seen⟩
  | (c :: rest, here) =>
    let place := Place.ofRead seen
    match tokenReach c rest with
    | none => .error ⟨.strayCharacter c, here, place.expected⟩
    | some (kind, reach) =>
      let token : Token := ⟨kind, c :: rest.take reach, here⟩
      if !place.admits kind then .error ⟨.misplaced token.text, here, place.expected⟩
      else if kind = .closer ∧ opened = 0 then .error ⟨.misplaced token.text, here, ["$END"]⟩
      else
        readTokens (token :: seen) (openAfter opened kind) (here + token.text.length)
          (rest.drop reach)
termination_by cs.length
decreasing_by
  have := length_skipLayout false offset cs
  have hle : offset ≤ (skipLayout false offset cs).2 := le_skipLayout false offset cs
  rw [_h] at this hle
  simp only [List.length_cons, List.length_drop] at *
  omega

/-- The tokens of a text. -/
def tokens (cs : List Char) : Except Fault (List Token) := readTokens [] 0 0 cs

end GrammarMatch.Syntax
