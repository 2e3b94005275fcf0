/-
  File:      GrammarMatch/Pattern.lean
  Subject:   Compiled patterns.

  A pattern is a tree. Rules refer to each other by name only, so the tree
  is finite even where a grammar is recursive. Everything that the flags of
  the source decided is in the tree: case marks on literals and classes, the
  kind of each anchor, the white space between the parts of a sequence and
  the way its alternatives compete.
-/
import GrammarMatch.Flags

namespace GrammarMatch

/-! ## 1. Parts of patterns -/

/-- A member of a character class. -/
inductive ClassItem where
  /-- The characters from `first` to `last`. -/
  | range (first last : List Char)
  /-- A shorthand such as `\d`, or its negation `\D`. -/
  | shorthand (letter : String)
  /-- A Unicode property by name, or its complement. -/
  | property (name : String) (negated : Bool)
  deriving DecidableEq, Repr

/-- The tests that look at the text beside a position. -/
inductive LookKind where
  | ahead
  | notAhead
  | behind
  | notBehind
  deriving DecidableEq, Repr

namespace LookKind

/-- The test holds when nothing is found. -/
def negative : LookKind → Bool
  | .notAhead | .notBehind => true
  | _ => false

/-- The test looks at what ends at the position. -/
def backward : LookKind → Bool
  | .behind | .notBehind => true
  | _ => false

end LookKind

/-- The places that an anchor can ask for. -/
inductive AnchorKind where
  | startOfString
  | endOfString
  | startOfLine
  | endOfLine
  | wordBoundary
  deriving DecidableEq, Repr

/-- How often something is repeated, and whether often or seldom is tried
    first. The bounds may be any integers: a negative one is no less a bound. -/
structure Quantity where
  min : Int
  /-- No upper bound is `none`. -/
  max : Option Int
  greedy : Bool
  deriving DecidableEq, Repr

/-- A reference to a rule. -/
structure Reference where
  name : String
  /-- The name under which the match is captured instead. -/
  alias? : Option String
  /-- Whether the match is captured at all. -/
  capture : Bool
  deriving DecidableEq, Repr

namespace Reference

/-- The key of the capture: the alias, unless it is missing or empty. -/
def captureName (r : Reference) : String :=
  match r.alias? with
  | some a => if a.isEmpty then r.name else a
  | none => r.name

/-- The key under which the match is captured, if it is. -/
def key? (r : Reference) : Option CaptureKey :=
  if r.capture then some (.name r.captureName) else none

end Reference

/-! ## 2. Patterns -/

/-- A compiled pattern. -/
inductive Pattern where
  /-- The characters themselves. -/
  | literal (chars : List Char) (ignoreCase : Bool)
  /-- One character in, or not in, a set. -/
  | charClass (items : List ClassItem) (negated ignoreCase : Bool)
  /-- One part after the other. -/
  | sequence (parts : List Pattern)
  /-- One of several branches. -/
  | alternation (mode : ChoiceMode) (branches : List Pattern)
  /-- The body again and again. -/
  | repetition (quantity : Quantity) (body : Pattern)
  /-- The body as a capture, or merely enclosed. The keys in `plural` bind a
      list of captures inside the group. -/
  | group (key : Option CaptureKey) (plural : List CaptureKey) (body : Pattern)
  /-- A test of what stands beside the position. -/
  | look (kind : LookKind) (body : Pattern)
  /-- A test of the position itself. -/
  | anchor (kind : AnchorKind)
  /-- A rule by name. -/
  | ruleRef (reference : Reference)
  /-- The white space between the parts of a rule. -/
  | whitespace
  deriving Inhabited

namespace Pattern

/-- The pattern that matches the empty text everywhere. -/
def empty : Pattern := .sequence []

/-- The pattern that matches any one character. -/
def anyChar : Pattern := .charClass [] true false

/-! ## 3. Equality -/

mutual

/-- Whether two patterns are the same tree. The plural keys of a group
    follow from its body and are not compared. -/
def same : Pattern → Pattern → Bool
  | .literal s i, .literal t j => s == t && i == j
  | .charClass xs n i, .charClass ys m j => xs == ys && n == m && i == j
  | .sequence ps, .sequence qs => sameAll ps qs
  | .alternation m ps, .alternation k qs => m == k && sameAll ps qs
  | .repetition x p, .repetition y q => x == y && same p q
  | .group k _ p, .group l _ q => k == l && same p q
  | .look k p, .look l q => k == l && same p q
  | .anchor k, .anchor l => k == l
  | .ruleRef r, .ruleRef s => r == s
  | .whitespace, .whitespace => true
  | _, _ => false

/-- Whether two lists of patterns are the same. -/
def sameAll : List Pattern → List Pattern → Bool
  | [], [] => true
  | p :: ps, q :: qs => same p q && sameAll ps qs
  | _, _ => false

end

/-! ## 4. Plural keys -/

/-- Counts of captures by key. -/
abbrev Counts := List (CaptureKey × Nat)

namespace Counts

/-- The count of a key. -/
def get (c : Counts) (k : CaptureKey) : Nat := (c.lookup k).getD 0

/-- One key, with the counts of two tables combined. -/
def mergeWith (f : Nat → Nat → Nat) (a b : Counts) : Counts :=
  a.map (fun e => (e.1, f e.2 (b.get e.1))) ++ b.filter (fun e => (a.lookup e.1).isNone)

/-- The counts of two things that both happen. -/
def add (a b : Counts) : Counts := mergeWith (· + ·) a b

/-- The counts of two things of which one happens. -/
def sup (a b : Counts) : Counts := mergeWith Nat.max a b

end Counts

mutual

/-- How often each key of the scope of a pattern can be captured, at most;
    two stands for any larger number. What is captured inside a group with a
    key belongs to the scope of that group, and what is captured inside a
    look is forgotten. -/
def captureCounts : Pattern → Counts
  | .group (some key) _ _ => [(key, 1)]
  | .group none _ body => captureCounts body
  | .ruleRef r => match r.key? with
    | some key => [(key, 1)]
    | none => []
  | .sequence parts => captureCountsOfParts parts
  | .alternation _ branches => captureCountsOfBranches branches
  | .repetition q body =>
    let inner := captureCounts body
    match q.max with
    | none => inner.map fun e => (e.1, 2)
    | some high => if 1 < high then inner.map fun e => (e.1, 2) else inner
  | _ => []

/-- The counts of parts that all match: their sum. -/
def captureCountsOfParts : List Pattern → Counts
  | [] => []
  | p :: rest => (captureCounts p).add (captureCountsOfParts rest)

/-- The counts of branches of which one matches: their maximum. -/
def captureCountsOfBranches : List Pattern → Counts
  | [] => []
  | p :: rest => (captureCounts p).sup (captureCountsOfBranches rest)

end

/-- The keys of the scope of a pattern that can be captured more than once,
    in order. They bind a list of captures, even a list of one. -/
def pluralKeys (p : Pattern) : List CaptureKey :=
  ((p.captureCounts.filter fun e => 1 < e.2).map Prod.fst).mergeSort CaptureKey.le

/-! ## 5. Widths -/

/-- The least and the greatest length of a match; `none` where there is no
    greatest length, or none is known. -/
structure Width where
  low : Int
  high : Option Int
  deriving DecidableEq, Repr

namespace Width

/-- The width of one thing after another. -/
def add (a b : Width) : Width :=
  ⟨a.low + b.low, match a.high, b.high with
    | some x, some y => some (x + y)
    | _, _ => none⟩

/-- The width of one of two things. -/
def sup (a b : Width) : Width :=
  ⟨min a.low b.low, match a.high, b.high with
    | some x, some y => some (max x y)
    | _, _ => none⟩

/-- The width of a repetition. Without an upper bound it is unbounded,
    unless the body takes no room. -/
def times (a : Width) (q : Quantity) : Width :=
  ⟨a.low * q.min, match q.max, a.high with
    | some n, some x => some (x * n)
    | _, some x => if x == 0 then some 0 else none
    | _, none => none⟩

end Width

mutual

/-- The width of the matches of a pattern, as far as the tree shows it: a
    reference may match anything. -/
def width : Pattern → Width
  | .literal chars _ => ⟨chars.length, some chars.length⟩
  | .charClass _ _ _ => ⟨1, some 1⟩
  | .sequence parts => widthOfParts parts
  | .alternation _ [] => ⟨0, some 0⟩
  | .alternation _ (p :: rest) => widthOfBranches (width p) rest
  | .repetition q body => (width body).times q
  | .group _ _ body => width body
  | .look _ _ => ⟨0, some 0⟩
  | .anchor _ => ⟨0, some 0⟩
  | .ruleRef _ => ⟨0, none⟩
  | .whitespace => ⟨0, none⟩

/-- The width of parts that all match. -/
def widthOfParts : List Pattern → Width
  | [] => ⟨0, some 0⟩
  | p :: rest => (width p).add (widthOfParts rest)

/-- The width of branches of which one matches, beside one of a given
    width. -/
def widthOfBranches (w : Width) : List Pattern → Width
  | [] => w
  | p :: rest => widthOfBranches (w.sup (width p)) rest

end

end Pattern

end GrammarMatch
