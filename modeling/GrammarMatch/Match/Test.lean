/-
  File:      GrammarMatch/Match/Test.lean
  Subject:   The tests of a pattern that look at the text alone.

  A literal, a class, an anchor and the white space between the parts of a
  rule match at a position in at most one way, which depends on nothing but
  the text. Positions beyond the text are legal; a character outside the
  text is a failure only where a test cannot do without it.
-/
import GrammarMatch.Pattern
import GrammarMatch.Property

namespace GrammarMatch.Match

/-! ## 1. Characters of the text -/

/-- The first number that is too large for an index. -/
def indexLimit : Int := 0x8000000000000000

/-- The character at a position. -/
def charAt (t : Text) (i : Int) : Except Failure Char :=
  match t.at? i with
  | some c => .ok c
  | none => .error (if -indexLimit ≤ i ∧ i < indexLimit then .outsideText else .outsideIndices)

/-- Whether a word character stands at a position. -/
def wordAt (t : Text) (i : Int) : Except Failure Bool := (charAt t i).map Unicode.isWord

/-! ## 2. Literals -/

/-- The end of a literal at a position. Without regard to case, as many
    characters as the literal has must fold to the same text as it does. -/
def literalStop? (t : Text) (chars : List Char) (ignoreCase : Bool) (pos : Int) : Option Int :=
  let size := chars.length
  let ok := if ignoreCase then
      let segment := t.slice pos (pos + size)
      segment.length == size && Unicode.fold segment == Unicode.fold chars
    else t.standsAt chars pos
  if ok then some (pos + size) else none

/-! ## 3. Classes -/

/-- Order of texts by their characters. -/
def notAfter : List Char → List Char → Bool
  | [], _ => true
  | _ :: _, [] => false
  | c :: s, d :: t => c < d || (c == d && notAfter s t)

/-- Whether a character belongs to a member of a class. -/
def itemHas (c : Char) : ClassItem → Except Failure Bool
  | .range first last => .ok (notAfter first [c] && notAfter [c] last)
  | .shorthand letter =>
    match Shorthand.find? letter with
    | some test => .ok (test c)
    | none => .error (.unknownShorthand (Unicode.lower letter))
  | .property name negated =>
    match Property.find? name with
    | some test => .ok (test c != negated)
    | none => .error (.unknownProperty name)

/-- Whether a character belongs to one of the members; they are tried in
    order, and no further than needed. -/
def someItemHas (c : Char) : List ClassItem → Except Failure Bool
  | [] => .ok false
  | item :: rest =>
    match itemHas c item with
    | .error f => .error f
    | .ok true => .ok true
    | .ok false => someItemHas c rest

/-- Whether one of several characters belongs to a class. -/
def someCharIn (items : List ClassItem) : List Char → Except Failure Bool
  | [] => .ok false
  | c :: rest =>
    match someItemHas c items with
    | .error f => .error f
    | .ok true => .ok true
    | .ok false => someCharIn items rest

/-- Whether a class matches a character. Without regard to case, the other
    cases of the character are tried too. -/
def classHas (items : List ClassItem) (negated ignoreCase : Bool) (c : Char) :
    Except Failure Bool :=
  (someCharIn items (c :: if ignoreCase then Unicode.caseVariants c else [])).map (· != negated)

/-- Whether a class matches at a position. -/
def classHolds (t : Text) (items : List ClassItem) (negated ignoreCase : Bool) (pos : Int) :
    Except Failure Bool :=
  if pos < t.stop then (charAt t pos).bind (classHas items negated ignoreCase) else .ok false

/-! ## 4. Anchors -/

/-- Whether an anchor holds at a position. -/
def anchorHolds (t : Text) (pos : Int) : AnchorKind → Except Failure Bool
  | .startOfString => .ok (pos == 0)
  | .endOfString => .ok (pos == t.stop)
  | .startOfLine => if pos = 0 then .ok true else (charAt t (pos - 1)).map (· == '\n')
  | .endOfLine => if pos = t.stop then .ok true else (charAt t pos).map (· == '\n')
  | .wordBoundary =>
    (if 0 < pos then wordAt t (pos - 1) else .ok false).bind fun before =>
      (if pos < t.stop then wordAt t pos else .ok false).map fun after => before != after

/-! ## 5. White space -/

/-- The end of the white space at a position; at most `left` characters are
    left there. -/
def spaceStop (t : Text) : Nat → Int → Except Failure Int
  | 0, pos => .ok pos
  | left + 1, pos =>
    if pos < t.stop then
      match charAt t pos with
      | .error f => .error f
      | .ok c => if Unicode.isSpace c then spaceStop t left (pos + 1) else .ok pos
    else .ok pos

/-- The end of the white space between two parts of a rule. It may be empty,
    but not inside a word. -/
def gapStop? (t : Text) (pos : Int) : Except Failure (Option Int) :=
  match spaceStop t (t.stop - pos).toNat pos with
  | .error f => .error f
  | .ok stop =>
    if stop = pos ∧ 0 < pos ∧ pos < t.stop then
      (wordAt t (pos - 1)).bind fun before =>
        if before then
          (wordAt t pos).map fun after => if after then none else some stop
        else .ok (some stop)
    else .ok (some stop)

end GrammarMatch.Match
