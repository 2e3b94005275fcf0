/-
  File:      GrammarMatch/Unicode/Category.lean
  Subject:   General categories and the classes of characters built on them.

  Letters, numbers and white space are what patterns ask for by name; each
  class here is the Unicode property of that name (version 14.0.0), decided
  for one character. The characters below U+0080 are decided without a table.
-/
import GrammarMatch.Unicode.CategoryData

namespace GrammarMatch.Unicode

/-! ## 1. General categories -/

/-- The general category of a character, under the standard's two-letter
    abbreviations. -/
inductive Category where
  /-- `Lu`: an upper-case letter. -/
  | lu
  /-- `Ll`: a lower-case letter. -/
  | ll
  /-- `Lt`: a title-case letter. -/
  | lt
  /-- `Lm`: a modifier letter. -/
  | lm
  /-- `Lo`: any other letter. -/
  | lo
  /-- `Mn`: a mark of no width. -/
  | mn
  /-- `Mc`: a spacing mark. -/
  | mc
  /-- `Me`: an enclosing mark. -/
  | me
  /-- `Nd`: a decimal digit. -/
  | nd
  /-- `Nl`: a letter-like numeral. -/
  | nl
  /-- `No`: any other number. -/
  | no
  /-- `Pc`: connecting punctuation. -/
  | pc
  /-- `Pd`: a dash. -/
  | pd
  /-- `Ps`: an opening bracket. -/
  | ps
  /-- `Pe`: a closing bracket. -/
  | pe
  /-- `Pi`: an opening quotation mark. -/
  | pi
  /-- `Pf`: a closing quotation mark. -/
  | pf
  /-- `Po`: any other punctuation. -/
  | po
  /-- `Sm`: a mathematical symbol. -/
  | sm
  /-- `Sc`: a currency sign. -/
  | sc
  /-- `Sk`: a modifier symbol. -/
  | sk
  /-- `So`: any other symbol. -/
  | so
  /-- `Zs`: a space. -/
  | zs
  /-- `Zl`: the line separator. -/
  | zl
  /-- `Zp`: the paragraph separator. -/
  | zp
  /-- `Cc`: a control character. -/
  | cc
  /-- `Cf`: an invisible format character. -/
  | cf
  /-- `Cs`: a surrogate. -/
  | cs
  /-- `Co`: a private-use character. -/
  | co
  /-- `Cn`: an unassigned code point. -/
  | cn
  deriving DecidableEq, Repr

namespace Category

/-- All categories, in the order in which the table numbers them. -/
def all : List Category :=
  [.lu, .ll, .lt, .lm, .lo, .mn, .mc, .me, .nd, .nl, .no, .pc, .pd, .ps, .pe, .pi, .pf,
   .po, .sm, .sc, .sk, .so, .zs, .zl, .zp, .cc, .cf, .cs, .co, .cn]

/-- The standard's abbreviation. -/
def abbreviation : Category → String
  | .lu => "Lu"
  | .ll => "Ll"
  | .lt => "Lt"
  | .lm => "Lm"
  | .lo => "Lo"
  | .mn => "Mn"
  | .mc => "Mc"
  | .me => "Me"
  | .nd => "Nd"
  | .nl => "Nl"
  | .no => "No"
  | .pc => "Pc"
  | .pd => "Pd"
  | .ps => "Ps"
  | .pe => "Pe"
  | .pi => "Pi"
  | .pf => "Pf"
  | .po => "Po"
  | .sm => "Sm"
  | .sc => "Sc"
  | .sk => "Sk"
  | .so => "So"
  | .zs => "Zs"
  | .zl => "Zl"
  | .zp => "Zp"
  | .cc => "Cc"
  | .cf => "Cf"
  | .cs => "Cs"
  | .co => "Co"
  | .cn => "Cn"

/-- The major class: the first letter of the abbreviation. -/
def major (k : Category) : String := (k.abbreviation.take 1).toString

/-- The category that an abbreviation names. -/
def ofAbbreviation? (s : String) : Option Category := all.find? (fun k => k.abbreviation == s)

/-- The major classes, each named once by some category. -/
def majors : List String := ["L", "M", "N", "P", "S", "Z", "C"]

end Category

/-- The general category of a character. -/
def category (c : Char) : Category :=
  (Category.all[categoryRuns.lookup c.toNat]?).getD .cn

/-! ## 2. Ranges beside the categories -/

/-- Membership in a list of closed ranges of code points. -/
def inRanges (ranges : List (Nat × Nat)) (n : Nat) : Bool :=
  ranges.any fun r => r.1 ≤ n && n ≤ r.2

/-- White space: the separators `Zs`, `Zl`, `Zp` and the controls that
    direct text like white space or a paragraph end. -/
def spaceRanges : List (Nat × Nat) :=
  [(0x0009, 0x000D), (0x001C, 0x0020), (0x0085, 0x0085), (0x00A0, 0x00A0), (0x1680, 0x1680),
   (0x2000, 0x200A), (0x2028, 0x2029), (0x202F, 0x202F), (0x205F, 0x205F), (0x3000, 0x3000)]

/-- Upper-case characters that are no letters of category `Lu`: Roman
    numerals and enclosed letters. -/
def otherUpperRanges : List (Nat × Nat) :=
  [(0x2160, 0x216F), (0x24B6, 0x24CF), (0x1F130, 0x1F149), (0x1F150, 0x1F169), (0x1F170, 0x1F189)]

/-- Lower-case characters that are no letters of category `Ll`: ordinal
    indicators, modifier letters, numerals and enclosed letters. -/
def otherLowerRanges : List (Nat × Nat) :=
  [(0x00AA, 0x00AA), (0x00BA, 0x00BA), (0x02B0, 0x02B8), (0x02C0, 0x02C1), (0x02E0, 0x02E4),
   (0x0345, 0x0345), (0x037A, 0x037A), (0x1D2C, 0x1D6A), (0x1D78, 0x1D78), (0x1D9B, 0x1DBF),
   (0x2071, 0x2071), (0x207F, 0x207F), (0x2090, 0x209C), (0x2170, 0x217F), (0x24D0, 0x24E9),
   (0x2C7C, 0x2C7D), (0xA69C, 0xA69D), (0xA770, 0xA770), (0xA7F8, 0xA7F9), (0xAB5C, 0xAB5F),
   (0x10780, 0x10780), (0x10783, 0x10785), (0x10787, 0x107B0), (0x107B2, 0x107BA)]

/-- The zeros of the decimal scripts; the nine code points after each zero
    are the digits one to nine. -/
def digitZeros : List Nat :=
  [0x0030, 0x0660, 0x06F0, 0x07C0, 0x0966, 0x09E6, 0x0A66, 0x0AE6, 0x0B66,
   0x0BE6, 0x0C66, 0x0CE6, 0x0D66, 0x0DE6, 0x0E50, 0x0ED0, 0x0F20, 0x1040,
   0x1090, 0x17E0, 0x1810, 0x1946, 0x19D0, 0x1A80, 0x1A90, 0x1B50, 0x1BB0,
   0x1C40, 0x1C50, 0xA620, 0xA8D0, 0xA900, 0xA9D0, 0xA9F0, 0xAA50, 0xABF0,
   0xFF10, 0x104A0, 0x10D30, 0x11066, 0x110F0, 0x11136, 0x111D0, 0x112F0, 0x11450,
   0x114D0, 0x11650, 0x116C0, 0x11730, 0x118E0, 0x11950, 0x11C50, 0x11D50, 0x11DA0,
   0x16A60, 0x16AC0, 0x16B50, 0x1D7CE, 0x1D7D8, 0x1D7E2, 0x1D7EC, 0x1D7F6, 0x1E140,
   0x1E2F0, 0x1E950, 0x1FBF0]

/-! ## 3. Classes of characters -/

/-- A letter: any category `L`. -/
def isLetter (c : Char) : Bool :=
  if c.toNat < 0x80 then c.isAlpha
  else match category c with
    | .lu | .ll | .lt | .lm | .lo => true
    | _ => false

/-- A letter or a number: any category `L` or `N`. -/
def isAlphanumeric (c : Char) : Bool :=
  if c.toNat < 0x80 then c.isAlphanum
  else match category c with
    | .lu | .ll | .lt | .lm | .lo | .nd | .nl | .no => true
    | _ => false

/-- A word character: alphanumeric or the underscore. -/
def isWord (c : Char) : Bool := c == '_' || isAlphanumeric c

/-- White space. -/
def isSpace (c : Char) : Bool := inRanges spaceRanges c.toNat

/-- The value of a decimal digit of any script. -/
def digitValue? (c : Char) : Option Nat :=
  (digitZeros.find? fun z => z ≤ c.toNat && c.toNat ≤ z + 9).map (c.toNat - ·)

/-- A decimal digit: category `Nd`. -/
def isDecimalDigit (c : Char) : Bool :=
  if c.toNat < 0x80 then c.isDigit else category c == .nd

/-- An upper-case character. -/
def isUpper (c : Char) : Bool :=
  if c.toNat < 0x80 then c.isUpper
  else category c == .lu || inRanges otherUpperRanges c.toNat

/-- A lower-case character. -/
def isLower (c : Char) : Bool :=
  if c.toNat < 0x80 then c.isLower
  else category c == .ll || inRanges otherLowerRanges c.toNat

/-- Characters that show as themselves in quoted text: everything but
    controls, separators and what has no glyph, and of the spaces U+0020. -/
def isPrintable (c : Char) : Bool :=
  if c.toNat < 0x80 then 0x20 ≤ c.toNat && c.toNat < 0x7F
  else match category c with
    | .cc | .cf | .cs | .co | .cn | .zl | .zp | .zs => false
    | _ => true

/-! ## 4. White space around a text -/

/-- A text without white space at its start. -/
def trimLeft (s : List Char) : List Char := s.dropWhile isSpace

/-- A text without white space at its end. -/
def trimRight (s : List Char) : List Char := (s.reverse.dropWhile isSpace).reverse

/-- A text without white space at either end. -/
def trim (s : List Char) : List Char := trimRight (trimLeft s)

end GrammarMatch.Unicode
