/-
  File:      GrammarMatch/Proofs/LineColumn.lean
  Subject:   Where a line and a column point.

  Line and column of a position are found by looking at what stands before it, the line itself also
  by looking at what stands after it. These looks meet in one line of the text, cut at its line
  feeds: before it stand as many lines as the number of the line says, each with its line feed, and
  in it as many characters as the column says (`Cursor.cut_at`). So a position is told by its line
  and column, and the mark in a message stands under the character at the fault (`places_exact`).
-/
import GrammarMatch.Failure

namespace GrammarMatch

/-! ## 1. Lines of a text -/

/-- The lines of a text, which end at line feeds and nowhere else. -/
def Text.lines (t : Text) : List (List Char) := t.toList.splitOn '\n'

namespace LineFeed

theorem length_splitOn (s : List Char) : (s.splitOn '\n').length = s.count '\n' + 1 := by
  induction s with
  | nil => rfl
  | cons c s ih =>
    rw [List.splitOn_cons_eq_if_modifyHead, List.count_cons]
    by_cases feed : (c == '\n') = true
    · rw [if_pos feed, if_pos feed, List.length_cons, ih]
    · rw [if_neg feed, if_neg feed, List.length_modifyHead, ih, Nat.add_zero]

/-- The lines make up the text, but for the line feeds. -/
theorem length_flatten (s : List Char) :
    (s.splitOn '\n').flatten.length + s.count '\n' = s.length := by
  induction s with
  | nil => rfl
  | cons c s ih =>
    rw [List.splitOn_cons_eq_if_modifyHead, List.count_cons, List.length_cons]
    by_cases feed : (c == '\n') = true
    · rw [if_pos feed, if_pos feed, List.flatten_cons, List.nil_append, ← Nat.add_assoc, ih]
    · rw [if_neg feed, if_neg feed]
      cases lines : s.splitOn '\n' with
      | nil => exact absurd lines (List.splitOn_ne_nil _ _)
      | cons l ls =>
        rw [lines, List.flatten_cons, List.length_append] at ih
        rw [List.modifyHead_cons, List.flatten_cons, List.length_append, List.length_cons]
        omega

/-- What stands before the first line feed of a text. -/
abbrev run (s : List Char) : List Char := s.takeWhile (· != '\n')

theorem not_mem_run (s : List Char) : '\n' ∉ run s := fun mem => by
  have other := List.all_eq_true.mp List.all_takeWhile _ mem
  exact absurd other (by decide)

/-- A text is one run, or goes on with a line feed after the first one. -/
theorem run_cases (s : List Char) : s = run s ∨ ∃ rest, s = run s ++ '\n' :: rest := by
  induction s with
  | nil => exact .inl rfl
  | cons c s ih =>
    by_cases feed : c = '\n'
    · exact .inr ⟨s, by rw [feed]; rfl⟩
    · have goes : run (c :: s) = c :: run s :=
        List.takeWhile_cons_of_pos (bne_iff_ne.mpr feed)
      rw [goes]
      rcases ih with whole | ⟨rest, more⟩
      · exact .inl (congrArg (c :: ·) whole)
      · exact .inr ⟨rest, congrArg (c :: ·) more⟩

/-- The first line of what follows a piece of it. -/
theorem splitOn_head {s : List Char} (unbroken : '\n' ∉ s) (rest : List Char) :
    ∃ later, (s ++ rest).splitOn '\n' = (s ++ run rest) :: later := by
  have line : '\n' ∉ s ++ run rest := fun mem =>
    (List.mem_append.mp mem).elim unbroken (not_mem_run rest)
  rcases run_cases rest with whole | ⟨more, next⟩
  · refine ⟨[], ?_⟩
    rw [← whole] at line ⊢
    exact List.splitOn_eq_singleton line
  · refine ⟨more.splitOn '\n', ?_⟩
    conv => lhs; rw [next, ← List.append_assoc]
    exact List.splitOn_append_cons_self_of_not_mem line more

end LineFeed

/-! ## 2. Cursors -/

namespace Cursor

open LineFeed

theorem not_mem_lineBefore (c : Cursor) : '\n' ∉ c.lineBefore := fun mem =>
  not_mem_run _ (List.mem_reverse.mp mem)

theorem not_mem_lineText (c : Cursor) : '\n' ∉ c.lineText := fun mem =>
  (List.mem_append.mp mem).elim c.not_mem_lineBefore (not_mem_run _)

theorem length_before (c : Cursor) : c.before.length = c.pos :=
  List.length_take_of_le c.inside

/-- What stands before a position is the beginning of its line, or ends in it after a line feed. -/
theorem before_cases (c : Cursor) :
    c.before = c.lineBefore ∨ ∃ done, c.before = done ++ '\n' :: c.lineBefore := by
  rcases run_cases c.before.reverse with whole | ⟨back, more⟩
  · exact .inl (by rw [lineBefore, ← run, ← whole, List.reverse_reverse])
  · refine .inr ⟨back.reverse, ?_⟩
    have turned := congrArg List.reverse more
    rwa [List.reverse_reverse, List.reverse_append, List.reverse_cons, List.append_assoc] at turned

/-- **A position cuts its text in its own line**: so many lines stand before that one, and so many
    characters before the position, those of the lines, their line feeds and those in the line. -/
theorem cut_at (c : Cursor) : ∃ earlier later, c.text.lines = earlier ++ c.lineText :: later ∧
    c.line = earlier.length + 1 ∧
    c.pos = earlier.flatten.length + earlier.length + c.lineBefore.length := by
  have whole : c.text.lines = (c.before ++ c.remaining).splitOn '\n' := by
    rw [before, remaining, List.take_append_drop]
    rfl
  obtain ⟨later, here⟩ := splitOn_head c.not_mem_lineBefore c.remaining
  have silent : c.lineBefore.count '\n' = 0 := List.count_eq_zero.mpr c.not_mem_lineBefore
  rcases c.before_cases with first | ⟨done, further⟩
  · refine ⟨[], later, ?_, ?_, ?_⟩
    · rw [whole, first]
      exact here
    · rw [line, first, silent]
      rfl
    · rw [← c.length_before, first]
      exact (Nat.zero_add _).symm
  · have counted : c.before.count '\n' = done.count '\n' + 1 := by
      rw [further, List.count_append, List.count_cons_self, silent]
    have long : c.before.length = done.length + (c.lineBefore.length + 1) := by
      rw [further, List.length_append, List.length_cons]
    refine ⟨done.splitOn '\n', later, ?_, ?_, ?_⟩
    · rw [whole, further, List.append_assoc, List.cons_append, List.splitOn_append_cons_self, here]
      rfl
    · rw [line, counted, length_splitOn]
    · have made := length_flatten done
      rw [← c.length_before, long, length_splitOn]
      omega

/-- The line and the column of a position point at it. -/
structure Pointed (c : Cursor) : Prop where
  line : 1 ≤ c.line ∧ c.line ≤ c.text.lines.length
  text : c.text.lines[c.line - 1]? = some c.lineText
  column : 1 ≤ c.column ∧ c.column ≤ c.lineText.length + 1
  pos : c.pos = (c.text.lines.take (c.line - 1)).flatten.length + (c.line - 1) + (c.column - 1)

theorem pointed (c : Cursor) : c.Pointed := by
  obtain ⟨earlier, later, lines, number, place⟩ := c.cut_at
  have count : c.line - 1 = earlier.length := by omega
  constructor
  case line =>
    rw [lines, List.length_append, List.length_cons]
    omega
  case text => rw [lines, count, List.getElem?_append_right (Nat.le_refl _), Nat.sub_self, List.getElem?_cons_zero]
  case column =>
    rw [column, lineText, List.length_append]
    omega
  case pos =>
    rw [lines, count, List.take_left, column, Nat.add_sub_cancel]
    exact place

/-- Where the lines and columns of two positions of a text are the same, the positions are. -/
theorem pos_of_pointed {c c' : Cursor} (text : c.text = c'.text) (line : c.line = c'.line)
    (column : c.column = c'.column) : c.pos = c'.pos := by
  rw [c.pointed.pos, c'.pointed.pos, text, line, column]

end Cursor

/-! ## 3. Messages -/

namespace SyntaxError

/-- The last two lines of a message are the faulty line of the text, four blanks further right, and
    a mark that stands, after blanks only, under the character at the place of the fault. Under a
    line feed and at the end of the text it stands right after the line. -/
def Marks (e : SyntaxError) : Prop :=
  ∃ said shown mark i, e.text.toList.splitOn '\n' = said ++ [shown, mark] ∧
    e.source.lines[e.cursor.line - 1]?.map ("    ".toList ++ ·) = some shown ∧
    mark = List.replicate i ' ' ++ ['^'] ∧ i ≤ shown.length ∧
    shown[i]? = (e.source[e.offset]?).filter (· != '\n')

/-- Where a message shows its line and its mark. -/
theorem text_eq {e : SyntaxError} (h : e.source ≠ #[]) : ∃ said : List Char,
    e.text.toList = said ++ '\n' :: ("    ".toList ++ e.cursor.lineText ++
      '\n' :: (List.replicate (4 + e.cursor.lineBefore.length) ' ' ++ ['^'])) := by
  have shown : e.source.isEmpty = false := Bool.not_eq_true _ ▸ fun none => h (by simpa using none)
  obtain ⟨said, split⟩ : ∃ said, e.text = said ++ e.excerpt := by
    rw [text, shown, if_neg Bool.false_ne_true]
    exact ⟨_, rfl⟩
  have feed : "\n    ".toList = '\n' :: "    ".toList := rfl
  have blanks : List.replicate 4 ' ' = "    ".toList := rfl
  refine ⟨said.toList, ?_⟩
  rw [split, excerpt, Cursor.column, Nat.add_sub_cancel, ← List.replicate_append_replicate, blanks]
  simp only [String.toList_append, String.toList_ofList, feed, List.append_assoc,
    List.cons_append]

theorem marks {e : SyntaxError} (h : e.source ≠ #[]) : e.Marks := by
  obtain ⟨said, message⟩ := text_eq h
  have blanks : '\n' ∉ "    ".toList := by decide
  have unbroken : '\n' ∉ "    ".toList ++ e.cursor.lineText := fun mem =>
    (List.mem_append.mp mem).elim blanks e.cursor.not_mem_lineText
  have unbroken' (n : Nat) : '\n' ∉ List.replicate n ' ' ++ ['^'] := by simp
  refine ⟨said.splitOn '\n', "    ".toList ++ e.cursor.lineText, _,
    4 + e.cursor.lineBefore.length, ?_, ?_, rfl, ?_, ?_⟩
  · rw [message, List.splitOn_append_cons_self,
      List.splitOn_append_cons_self_of_not_mem unbroken, List.splitOn_eq_singleton (unbroken' _)]
  · rw [show e.source.lines[e.cursor.line - 1]? = _ from e.cursor.pointed.text]
    rfl
  · rw [List.length_append, Cursor.lineText, List.length_append]
    show 4 + _ ≤ 4 + _
    omega
  · rw [List.getElem?_append_right (by show 4 ≤ _; omega)]
    show (e.cursor.lineBefore ++ LineFeed.run e.cursor.remaining)[4 + _ - 4]? = _
    rw [Nat.add_sub_cancel_left, List.getElem?_append_right (Nat.le_refl _), Nat.sub_self,
      ← List.head?_eq_getElem?, List.head?_takeWhile, Cursor.remaining, List.head?_drop,
      Array.getElem?_toList]
    rfl

theorem offset_near (message : String) (source : Text) (place : Int) (expected : List String)
    (rule : Option String) :
    ((near message source place expected rule).offset : Int) = max 0 (min place source.stop) := by
  show ((min place.toNat source.size : Nat) : Int) = _
  unfold Text.stop
  omega

end SyntaxError

/-- **Line and column of a position point at it**, and at no other position of the text; and the
    message of a fault ends with the faulty line and a mark under its place, which is the nearest
    one in the text to where the fault was said to be. -/
theorem lineColumn_exact :
    (∀ c : Cursor, c.Pointed) ∧
    (∀ c c' : Cursor, c.text = c'.text → c.line = c'.line → c.column = c'.column →
      c.pos = c'.pos) ∧
    (∀ e : SyntaxError, e.source ≠ #[] → e.Marks) ∧
    ∀ (message : String) (source : Text) (place : Int) (expected : List String)
      (rule : Option String), ((SyntaxError.near message source place expected rule).offset : Int) =
        max 0 (min place source.stop) :=
  ⟨Cursor.pointed, fun _ _ => Cursor.pos_of_pointed, fun _ => SyntaxError.marks,
    SyntaxError.offset_near⟩

/-- The place of this fault is in the second line, beyond the end of which it was said to be. -/
def secondLine : SyntaxError := .near "no digit" #['1', '\n', 'a'] 7 [] none

theorem lineColumn_exact_secondLine : secondLine.source ≠ #[] ∧ secondLine.offset = 3 ∧
    (secondLine.cursor.line, secondLine.cursor.column) = (2, 2) ∧ secondLine.cursor.Pointed ∧
    secondLine.Marks := by
  have filled : secondLine.source ≠ #[] := by decide
  obtain ⟨pointed, -, marks, -⟩ := lineColumn_exact
  exact ⟨filled, rfl, rfl, pointed _, marks _ filled⟩

end GrammarMatch
