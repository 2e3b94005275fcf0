/-
  File:      GrammarMatch/Proofs/Continuation.lean
  Subject:   Which physical lines make up a logical line.

  A line that ends in a backslash, white space aside, goes on with the next one. So the physical
  lines fall into blocks, in each of which every line but the last one ends in a backslash
  (`Line.blocks`). What the reader looks at is not the line that was added last, though, but all
  that was joined so far. A seam takes away one backslash, and a blank line has none of its own: it
  goes on after all if there is another backslash in front of it. The logical lines are the blocks
  if and only if that does not happen (`logicalLines_blocks`).

  How many backslashes there are at the end of what was joined is counted (`trailing`), and what a
  seam does to that number (`trailing_splice`) decides how far a logical line reaches.
-/
import GrammarMatch.Proofs.WrittenGrammar
import Mathlib

namespace GrammarMatch

open GrammarFile
open Unicode (isSpace trimLeft trimRight)

/-! ## 1. Blocks of lines -/

namespace Line

/-- A line ends in a backslash, white space aside. -/
def continues (l : Line) : Bool := (trimRight l.chars).getLast? == some '\\'

/-- Lines in blocks: a line is in one block with the next one if it ends in a backslash. -/
def blocks (ls : List Line) : List (List Line) := ls.splitBy fun l _ => l.continues

/-- White space or a backslash. -/
def loose (c : Char) : Bool := isSpace c || c == '\\'

/-- The backslashes at the end of a text that is given backwards, white space aside. -/
def trailing : List Char → Nat
  | [] => 0
  | c :: back => if c = '\\' then trailing back + 1 else if isSpace c then trailing back else 0

/-- The backslashes that are left at the end of lines when they are joined: a seam takes one away,
    and of a line with anything else in it only those at its end are left. -/
def spare (ls : List Line) : Nat :=
  ls.foldl (fun n l => if l.chars.all loose then n - 1 + trailing l.chars.reverse
    else trailing l.chars.reverse) 0

end Line

namespace GrammarFile

open Line (continues blocks loose trailing spare)

/-- Lines joined one after the other to one that is given, all backwards. -/
def joinedTo (back : List Char) (ls : List Line) : List Char :=
  ls.foldl (fun back l => splice back l.chars) back

/-- The logical lines of blocks, of which the first begins with a line of a number. -/
def LogicalLine.ofBlocks (number : Nat) : List (List Line) → List LogicalLine
  | [] => []
  | [] :: rest => ofBlocks number rest
  | (l :: ls) :: rest =>
    ⟨(joinedTo l.chars.reverse ls).reverse, number, l.offset⟩ ::
      ofBlocks (number + (ls.length + 1)) rest

/-! ## 2. Backslashes at the end -/

theorem isSpace_backslash : isSpace '\\' = false := by decide

theorem trailing_append (s t : List Char) :
    trailing (s ++ t) = if s.all loose then trailing s + trailing t else trailing s := by
  induction s with
  | nil => simp [trailing]
  | cons c s ih =>
    by_cases mark : c = '\\'
    · subst mark
      simp only [List.cons_append, trailing, if_pos, ih, List.all_cons, loose, BEq.rfl, Bool.or_true,
        Bool.true_and]
      split
      · omega
      · rfl
    · by_cases space : isSpace c = true
      · simp [trailing, mark, space, ih, loose]
      · simp [trailing, mark, space, loose]

theorem ne_of_space {c : Char} (h : isSpace c = true) : c ≠ '\\' := by
  rintro rfl
  rw [isSpace_backslash] at h
  cases h

theorem trailing_of_space {s : List Char} (h : ∀ c ∈ s, isSpace c = true) : trailing s = 0 := by
  induction s with
  | nil => rfl
  | cons c s ih =>
    obtain ⟨space, others⟩ := List.forall_mem_cons.mp h
    simp only [trailing, if_neg (ne_of_space space), if_pos space, ih others]

/-- A line is continued if there is a backslash at its end. The seam takes it away. -/
theorem continued_cases (back : List Char) :
    continued back = true ∧ trailing back = trailing (trimLeft back).tail + 1 ∨
      continued back = false ∧ trailing back = 0 := by
  induction back with
  | nil => exact .inr ⟨rfl, rfl⟩
  | cons c back ih =>
    by_cases space : isSpace c = true
    · have skip : trimLeft (c :: back) = trimLeft back := List.dropWhile_cons_of_pos space
      rw [continued, skip, trailing, if_neg (ne_of_space space), if_pos space]
      exact ih
    · have stay : trimLeft (c :: back) = c :: back := List.dropWhile_cons_of_neg space
      rw [continued, stay, trailing]
      by_cases mark : c = '\\'
      · subst mark
        exact .inl ⟨rfl, rfl⟩
      · rw [if_neg mark, if_neg space]
        exact .inr ⟨beq_eq_false_iff_ne.mpr fun h => mark (Option.some.inj h), rfl⟩

theorem continued_iff {back : List Char} : continued back = true ↔ 0 < trailing back := by
  rcases continued_cases back with ⟨yes, count⟩ | ⟨no, count⟩
  · exact iff_of_true yes (count ▸ Nat.succ_pos _)
  · exact iff_of_false (no ▸ Bool.false_ne_true) (count ▸ Nat.lt_irrefl 0)

/-- White space at the beginning of a line does not count. -/
theorem trailing_trimLeft (next : List Char) :
    trailing (trimLeft next).reverse = trailing next.reverse ∧
      (trimLeft next).reverse.all loose = next.all loose := by
  obtain ⟨blank, hblank, split⟩ : ∃ blank, (∀ c ∈ blank, isSpace c = true) ∧
      next = blank ++ trimLeft next :=
    ⟨next.takeWhile isSpace, fun _ => List.mem_takeWhile_imp, List.takeWhile_append_dropWhile.symm⟩
  have nothing : trailing blank.reverse = 0 :=
    trailing_of_space fun c hc => hblank c (List.mem_reverse.mp hc)
  have free : blank.all loose = true :=
    List.all_eq_true.mpr fun c hc => Bool.or_eq_true_iff.mpr (.inl (hblank c hc))
  constructor
  · conv_rhs => rw [split, List.reverse_append, trailing_append, nothing]
    split <;> rfl
  · conv_rhs => rw [split, List.all_append, free, Bool.true_and]
    exact List.all_reverse

/-- **What a seam does**: it takes a backslash away, and those at the end of the next line are
    added if there is nothing else in it. -/
theorem trailing_splice {back : List Char} (h : continued back = true) (next : List Char) :
    trailing (splice back next) =
      if next.all loose then trailing back - 1 + trailing next.reverse
      else trailing next.reverse := by
  rcases continued_cases back with ⟨_, count⟩ | ⟨no, _⟩
  · obtain ⟨own, all⟩ := trailing_trimLeft next
    have seam : trailing (' ' :: (trimLeft back).tail) = trailing back - 1 := by
      rw [count]
      rfl
    rw [splice, List.reverseAux_eq, trailing_append, seam, own, all, Nat.add_comm]
  · rw [h] at no
    cases no

/-! ## 3. How far a logical line reaches -/

/-- A line that ends in a backslash goes on, whatever was in front of it. -/
theorem continued_splice {back : List Char} {l : Line} (h : continued back = true)
    (ends : l.continues = true) : continued (splice back l.chars) = true := by
  have own : 0 < trailing l.chars.reverse :=
    continued_iff.mp ((continued_reverse l.chars).trans ends)
  rw [continued_iff, trailing_splice h]
  split <;> omega

/-- All of the lines that continue one another are taken. -/
theorem extend_append {ls : List Line} (chain : ls.IsChain fun l _ => l.continues)
    {back : List Char} (first : ls ≠ [] → continued back = true) (taken : Nat) (rest : List Line) :
    extend taken back (ls ++ rest) = extend (taken + ls.length) (joinedTo back ls) rest := by
  induction ls generalizing back taken with
  | nil => rfl
  | cons l ls ih =>
    have goes := first (List.cons_ne_nil l ls)
    rw [List.cons_append, extend, if_pos goes]
    have later : ls ≠ [] → continued (splice back l.chars) = true := by
      cases ls with
      | nil => exact fun h => absurd rfl h
      | cons m ls => exact fun _ => continued_splice goes (List.isChain_cons_cons.mp chain).1
    rw [ih chain.tail later, List.length_cons, Nat.add_assoc, Nat.add_comm 1]
    rfl

/-- The backslashes at the end of lines that continue one another are those to spare. -/
theorem trailing_joinedTo {l : Line} {ls : List Line}
    (chain : (l :: ls).IsChain fun l _ => l.continues) :
    trailing (joinedTo l.chars.reverse ls) = spare (l :: ls) := by
  have fold {back : List Char} {l : Line} {ls : List Line}
      (chain : (l :: ls).IsChain fun l _ => l.continues)
      (first : ls ≠ [] → continued back = true) : trailing (joinedTo back ls) =
        ls.foldl (fun n l => if l.chars.all loose then n - 1 + trailing l.chars.reverse
          else trailing l.chars.reverse) (trailing back) := by
    induction ls generalizing back l with
    | nil => rfl
    | cons m ls ih =>
      have goes := first (List.cons_ne_nil m ls)
      rw [joinedTo, List.foldl_cons, List.foldl_cons, ← trailing_splice goes]
      refine ih chain.tail ?_
      cases ls with
      | nil => exact fun h => absurd rfl h
      | cons m' ls =>
        exact fun _ => continued_splice goes (List.isChain_cons_cons.mp chain.tail).1
  have start : trailing l.chars.reverse = if l.chars.all loose
      then 0 - 1 + trailing l.chars.reverse else trailing l.chars.reverse := by
    split
    · rw [Nat.zero_sub, Nat.zero_add]
    · rfl
  rw [spare, List.foldl_cons, ← start]
  refine fold chain fun several => ?_
  cases ls with
  | nil => exact absurd rfl several
  | cons m ls => exact (continued_reverse l.chars).trans (List.isChain_cons_cons.mp chain).1

theorem le_extend (taken : Nat) (back : List Char) (rest : List Line) :
    taken ≤ (extend taken back rest).2 := by
  induction rest generalizing taken back with
  | nil => exact Nat.le_refl taken
  | cons l rest ih =>
    rw [extend]
    split
    · exact Nat.le_of_succ_le (ih (taken + 1) _)
    · exact Nat.le_refl taken

/-! ## 4. Logical lines -/

theorem logicalFrom_eq (number : Nat) (l : Line) (rest : List Line) :
    logicalFrom number (l :: rest) =
      ⟨(extend 0 l.chars.reverse rest).1, number, l.offset⟩ ::
        logicalFrom (number + (extend 0 l.chars.reverse rest).2 + 1)
          (rest.drop (extend 0 l.chars.reverse rest).2) := by
  rw [logicalFrom]

/-- The first logical line has the number from which lines are counted. -/
theorem number_logicalFrom {number : Nat} {ls : List Line} {first : LogicalLine}
    (h : (logicalFrom number ls).head? = some first) : first.number = number := by
  cases ls with
  | nil =>
    rw [logicalFrom] at h
    cases h
  | cons l rest =>
    rw [logicalFrom_eq] at h
    cases h
    rfl

/-- What is joined of a block whose lines continue one another, and where it ends. -/
theorem extend_block {l : Line} {ls : List Line}
    (chain : (l :: ls).IsChain fun l _ => l.continues) (rest : List Line) :
    extend 0 l.chars.reverse (ls ++ rest) =
      extend ls.length (joinedTo l.chars.reverse ls) rest := by
  have later : ls.IsChain fun l _ => l.continues := chain.tail
  have first : ls ≠ [] → continued l.chars.reverse = true := by
    cases ls with
    | nil => exact fun h => absurd rfl h
    | cons m ls =>
      exact fun _ => (continued_reverse l.chars).trans (List.isChain_cons_cons.mp chain).1
  rw [extend_append later first, Nat.zero_add]

/-- A block with nothing to spare is a logical line. -/
theorem logicalFrom_block {l : Line} {ls : List Line}
    (chain : (l :: ls).IsChain fun l _ => l.continues) {rest : List Line}
    (settled : rest = [] ∨ spare (l :: ls) = 0) (number : Nat) :
    logicalFrom number (l :: (ls ++ rest)) =
      ⟨(joinedTo l.chars.reverse ls).reverse, number, l.offset⟩ ::
        logicalFrom (number + (ls.length + 1)) rest := by
  have stop : extend ls.length (joinedTo l.chars.reverse ls) rest =
      ((joinedTo l.chars.reverse ls).reverse, ls.length) := by
    cases rest with
    | nil => rfl
    | cons m rest =>
      rcases settled with none | settled
      · cases none
      · have whole : ¬continued (joinedTo l.chars.reverse ls) = true := by
          rw [continued_iff, trailing_joinedTo chain, settled]
          exact Nat.lt_irrefl 0
        rw [extend, if_neg whole]
  rw [logicalFrom_eq, extend_block chain, stop, List.drop_left, Nat.add_assoc]

/-- A block with a backslash to spare takes the next line as well. -/
theorem lt_extend_block {l : Line} {ls : List Line}
    (chain : (l :: ls).IsChain fun l _ => l.continues) (more : spare (l :: ls) ≠ 0) (m : Line)
    (rest : List Line) : ls.length < (extend 0 l.chars.reverse (ls ++ m :: rest)).2 := by
  have goes : continued (joinedTo l.chars.reverse ls) = true := by
    rw [continued_iff, trailing_joinedTo chain]
    exact Nat.pos_of_ne_zero more
  rw [extend_block chain, extend, if_pos goes]
  exact le_extend (ls.length + 1) _ rest

/-- Blocks of lines that continue one another are the logical lines if and only if no block but the
    last one has a backslash to spare. -/
theorem logicalFrom_flatten {bs : List (List Line)} (filled : [] ∉ bs)
    (chains : ∀ b ∈ bs, b.IsChain fun l _ => l.continues) (number : Nat) :
    logicalFrom number bs.flatten = LogicalLine.ofBlocks number bs ↔
      ∀ b ∈ bs.dropLast, spare b = 0 := by
  induction bs generalizing number with
  | nil =>
    refine iff_of_true ?_ (List.forall_mem_nil _)
    rw [List.flatten_nil, logicalFrom]
    rfl
  | cons b bs ih =>
    obtain ⟨chain, others⟩ := List.forall_mem_cons.mp chains
    have own : b ≠ [] := fun h => filled (h ▸ List.mem_cons_self)
    obtain ⟨l, ls, rfl⟩ := List.exists_cons_of_ne_nil own
    have later : [] ∉ bs := fun mem => filled (List.mem_cons_of_mem _ mem)
    rw [List.flatten_cons, List.cons_append, LogicalLine.ofBlocks]
    cases bs with
    | nil =>
      refine iff_of_true ?_ (List.forall_mem_nil _)
      rw [List.flatten_nil, logicalFrom_block chain (.inl rfl), logicalFrom, LogicalLine.ofBlocks]
    | cons c bs =>
      rw [List.dropLast_cons_cons, List.forall_mem_cons]
      by_cases settled : spare (l :: ls) = 0
      · rw [logicalFrom_block chain (.inr settled), List.cons_inj_right, ih later others]
        exact (and_iff_right settled).symm
      · refine iff_of_false (fun same => ?_) fun all => settled all.1
        -- The next logical line has a greater number than the next block.
        obtain ⟨m, ms, rfl⟩ : ∃ m ms, c = m :: ms :=
          List.exists_cons_of_ne_nil fun h => later (h ▸ List.mem_cons_self)
        rw [logicalFrom_eq, LogicalLine.ofBlocks] at same
        have next := number_logicalFrom (congrArg List.head? (List.tail_eq_of_cons_eq same))
        have reach := lt_extend_block chain settled m (ms ++ bs.flatten)
        change number + (ls.length + 1) = _ at next
        rw [List.flatten_cons, List.cons_append] at next
        omega

theorem spare_concat (ls : List Line) (l : Line) : spare (ls ++ [l]) =
    if l.chars.all loose then spare ls - 1 + trailing l.chars.reverse
    else trailing l.chars.reverse := by
  rw [spare, List.foldl_append]
  rfl

/-- Where no line has more than one backslash at its end, those of the last line are left. -/
theorem spare_single {ls : List Line} (single : ∀ l ∈ ls, trailing l.chars.reverse ≤ 1) (l : Line) :
    spare (ls ++ [l]) = trailing l.chars.reverse := by
  have few : spare ls ≤ 1 := by
    induction ls using List.reverseRecOn with
    | nil => exact Nat.zero_le 1
    | append_singleton ls m ih =>
      have := ih fun l hl => single l (List.mem_append_left _ hl)
      have own := single m (List.mem_append_right _ List.mem_cons_self)
      rw [spare_concat]
      split <;> omega
  rw [spare_concat]
  split <;> omega

/-- A block that another one follows ends in a line that does not end in a backslash. -/
theorem last_of_mem_dropLast {bs : List (List Line)}
    (between : bs.IsChain fun a b => ∃ (ha : a ≠ []) (_ : b ≠ []), (a.getLast ha).continues = false)
    {b : List Line} (hb : b ∈ bs.dropLast) : ∃ ls l, b = ls ++ [l] ∧ l.continues = false := by
  induction bs with
  | nil => cases hb
  | cons a bs ih =>
    cases bs with
    | nil => cases hb
    | cons c bs =>
      obtain ⟨⟨filled, _, whole⟩, later⟩ := List.isChain_cons_cons.mp between
      rcases List.mem_cons.mp hb with rfl | hb
      · exact ⟨b.dropLast, b.getLast filled, (List.dropLast_append_getLast filled).symm, whole⟩
      · exact ih later hb

/-- Where no line has more than one backslash at its end, no block but the last one has any to
    spare. -/
theorem spare_of_mem_blocks {ls : List Line} (single : ∀ l ∈ ls, trailing l.chars.reverse ≤ 1)
    {b : List Line} (hb : b ∈ (blocks ls).dropLast) : spare b = 0 := by
  obtain ⟨before, l, rfl, whole⟩ :=
    last_of_mem_dropLast (List.isChain_getLast_head_splitBy (fun l _ => l.continues) ls) hb
  have among {m : Line} (hm : m ∈ before ++ [l]) : m ∈ ls := by
    rw [← List.flatten_splitBy (fun l _ => l.continues) ls]
    exact List.mem_flatten.mpr ⟨_, List.dropLast_subset _ hb, hm⟩
  rw [spare_single fun m hm => single m (among (List.mem_append_left _ hm))]
  have none : ¬continued l.chars.reverse = true := by
    rw [continued_reverse]
    exact Bool.eq_false_iff.mp whole
  rw [continued_iff] at none
  exact Nat.eq_zero_of_not_pos none

/-- **The logical lines of a text are its blocks of physical lines if and only if no block but the
    last one has a backslash to spare.** Each line that ends in a backslash is in one block with the
    next one, and no other line is. -/
theorem logicalLines_blocks (code : List Char) :
    logicalLines code = LogicalLine.ofBlocks 1 (blocks (Line.list code)) ↔
      ∀ b ∈ (blocks (Line.list code)).dropLast, spare b = 0 := by
  have filled : [] ∉ blocks (Line.list code) := List.nil_notMem_splitBy _ _
  have cut := logicalFrom_flatten filled (fun b hb => List.isChain_of_mem_splitBy hb) 1
  rwa [blocks, List.flatten_splitBy] at cut

/-- A comment with two backslashes at its end, a blank line, and a declaration. -/
def doubleBackslash : List Char := "version 1.0\n# c\\\\\n\ntoken a = b\n".toList

/-- **One backslash too many takes the line after a blank one as well**: the declaration is part of
    the comment, though the line before it is blank. -/
theorem logicalLines_doubleBackslash :
    (blocks (Line.list doubleBackslash)).map List.length = [1, 2, 1] ∧
      (logicalLines doubleBackslash).map LogicalLine.number = [1, 2] ∧
      (GrammarFile.read doubleBackslash none).map GrammarFile.rules = .ok [] := by
  refine ⟨?_, ?_, ?_⟩
  · cbv
  · cbv
  · cbv

end GrammarFile

end GrammarMatch
