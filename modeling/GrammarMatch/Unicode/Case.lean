/-
  File:      GrammarMatch/Unicode/Case.lean
  Subject:   Lower case, upper case and case folding.

  Three mappings of one character and two of a text. A character class that
  ignores case tries the single-character variants of the character it
  tests; a literal that ignores case compares folded texts, where a
  character may fold to several (`ß` to `ss`). Names of kinds and flags are
  compared in lower case, and only there does the place of a letter in its
  text matter: a capital sigma that ends a word has a small form of its own.
-/
import GrammarMatch.Unicode.Category
import GrammarMatch.Unicode.CaseData

namespace GrammarMatch.Unicode

/-! ## 1. Single characters -/

/-- The lower case of a character when it is one other character. -/
def lowerVariant? (c : Char) : Option Char :=
  if c.toNat < 0x80 then (if c.isUpper then some c.toLower else none)
  else (imageIn? lowerRuns c.toNat).map Char.ofNat

/-- The upper case of a character when it is one other character. -/
def upperVariant? (c : Char) : Option Char :=
  if c.toNat < 0x80 then (if c.isLower then some c.toUpper else none)
  else (imageIn? upperRuns c.toNat).map Char.ofNat

/-- The characters that a test without regard to case tries after the
    character itself: its lower case, then its upper case. -/
def caseVariants (c : Char) : List Char :=
  (lowerVariant? c).toList ++ (upperVariant? c).toList

/-- The full case folding of a character. -/
def foldChar (c : Char) : List Char :=
  if c.toNat < 0x80 then [c.toLower]
  else match longFolds.find? (fun entry => entry.1 == c.toNat) with
    | some entry => entry.2.map Char.ofNat
    | none => [((imageIn? foldRuns c.toNat).map Char.ofNat).getD c]

/-! ## 2. Texts -/

/-- The full case folding of a text: character by character. -/
def fold (s : List Char) : List Char := s.flatMap foldChar

/-- Texts are folded piece by piece. -/
theorem fold_append (s t : List Char) : fold (s ++ t) = fold s ++ fold t := by
  simp [fold]

/-- Characters that belong to a word without being letters of it: marks,
    format characters, modifiers, and the punctuation used inside words. -/
def isCaseIgnorable (c : Char) : Bool :=
  (match category c with
    | .mn | .me | .cf | .lm | .sk => true
    | _ => false)
  || [0x27, 0x2E, 0x3A, 0xB7, 0x387, 0x55F, 0x5F4, 0x2018, 0x2019, 0x2024, 0x2027, 0xFE13,
      0xFE52, 0xFE55, 0xFF07, 0xFF0E, 0xFF1A].contains c.toNat

/-- A character with case: upper, lower or title. -/
def isCased (c : Char) : Bool := isUpper c || isLower c || category c == .lt

/-- Whether the nearest character of a text that counts for words is cased. -/
def startsCased (s : List Char) : Bool :=
  match s.dropWhile isCaseIgnorable with
  | [] => false
  | c :: _ => isCased c

/-- The lower case of a character between the text `before` it (nearest
    first) and the text `after` it. -/
def lowerBetween (before : List Char) (c : Char) (after : List Char) : List Char :=
  if c.toNat == 0x3A3 then
    [Char.ofNat (if startsCased before && !startsCased after then 0x3C2 else 0x3C3)]
  else if c.toNat == 0x130 then [Char.ofNat 0x69, Char.ofNat 0x307]
  else [(lowerVariant? c).getD c]

/-- Lower case of the rest of a text whose beginning, reversed, is `before`. -/
def lowerFrom (before : List Char) : List Char → List Char
  | [] => []
  | c :: after => lowerBetween before c after ++ lowerFrom (c :: before) after

/-- The lower case of a text. -/
def lower (s : String) : String := String.ofList (lowerFrom [] s.toList)

end GrammarMatch.Unicode
