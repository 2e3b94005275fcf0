/-
  File:      GrammarMatch/Text/Line.lean
  Subject:   The lines of a text.

  A line ends at a line feed, a return, or a return with a line feed after
  it, and also at the vertical tab, the form feed, the separators U+001C to
  U+001E, the next-line control, and the line and paragraph separators. A
  line end at the end of a text begins no further line.
-/
namespace GrammarMatch

/-- Characters that end a line. -/
def Line.isBreak (c : Char) : Bool :=
  (0x0A ≤ c.toNat && c.toNat ≤ 0x0D) || (0x1C ≤ c.toNat && c.toNat ≤ 0x1E) || c.toNat == 0x85 ||
    c.toNat == 0x2028 || c.toNat == 0x2029

/-- A line of a text: its characters without the line end, and where it
    begins. -/
structure Line where
  chars : List Char
  offset : Nat
  deriving DecidableEq, Repr

/-- The lines of a text from `offset` on. The line that is being read began
    at `start`, and its characters are given, the latest first; the lines
    before it are given too, the latest first. -/
def Line.listFrom (done : List Line) (start offset : Nat) (current : List Char) :
    List Char → List Line
  | [] => if offset = start then done.reverse else (⟨current.reverse, start⟩ :: done).reverse
  | '\r' :: '\n' :: rest =>
    listFrom (⟨current.reverse, start⟩ :: done) (offset + 2) (offset + 2) [] rest
  | c :: rest =>
    if isBreak c then
      listFrom (⟨current.reverse, start⟩ :: done) (offset + 1) (offset + 1) [] rest
    else listFrom done start (offset + 1) (c :: current) rest

/-- The lines of a text. -/
def Line.list (cs : List Char) : List Line := listFrom [] 0 0 [] cs

end GrammarMatch
