/-
  File:      GrammarMatch/Proofs/FaultyLines.lean
  Subject:   The line that a fault of a grammar file names.

  What is faulty in a grammar file is a logical line (`read_error`), and the fault is placed where
  its first physical line begins. Physical lines have ends of many kinds; the line that the message
  names is found by counting line feeds. A line end with a line feed in it counts for both, any
  other one ends a physical line and is not counted (`Line.oddEnds`). So the number of the line is
  too small by the number of those line ends, and it is right, with the column one, if and only if
  there are none before the line (`fault_line`).

  What stands before a line of a text is described by `Line.Lead`, by induction along the reading
  of the lines (`Line.lead_listFrom`).
-/
import GrammarMatch.Proofs.Continuation

namespace GrammarMatch

open GrammarFile

/-! ## 1. Lines and line feeds -/

namespace Line

/-- The line ends of a text that have no line feed in them. -/
def oddEnds : List Char → Nat
  | [] => 0
  | '\r' :: '\n' :: rest => oddEnds rest
  | c :: rest => (if isBreak c && c != '\n' then 1 else 0) + oddEnds rest

theorem oddEnds_cons {c : Char} {rest : List Char} (pair : c = '\r' → rest.head? ≠ some '\n') :
    oddEnds (c :: rest) = (if isBreak c && c != '\n' then 1 else 0) + oddEnds rest := by
  refine oddEnds.eq_3 _ _ fun rest' hc hr => ?_
  subst hr
  exact pair hc rfl

theorem oddEnds_append {s : List Char} (unbroken : Unbroken s) (rest : List Char) :
    oddEnds (s ++ rest) = oddEnds rest := by
  induction s with
  | nil => rfl
  | cons c s ih =>
    obtain ⟨hc, hs⟩ := List.forall_mem_cons.mp unbroken
    have alone : c = '\r' → (s ++ rest).head? ≠ some '\n' := by
      rintro rfl
      cases hc
    rw [List.cons_append, oddEnds_cons alone, hc, Bool.false_and, if_neg Bool.false_ne_true,
      Nat.zero_add, ih hs]

theorem count_unbroken {s : List Char} (unbroken : Unbroken s) : s.count '\n' = 0 :=
  List.count_eq_zero.mpr fun mem => by cases unbroken _ mem

/-- A line end is counted once: by its line feed, or as one without. -/
theorem count_ending {ending : List Char} (he : Ending ending) {rest : List Char}
    (next : ending = ['\r'] → rest.head? ≠ some '\n') :
    (ending ++ rest).count '\n' + oddEnds (ending ++ rest) =
      rest.count '\n' + oddEnds rest + 1 := by
  cases he with
  | pair =>
    show (['\r', '\n'] ++ rest).count '\n' + oddEnds rest = _
    rw [List.count_append]
    have one : ['\r', '\n'].count '\n' = 1 := rfl
    omega
  | @single c broken =>
    rw [List.singleton_append, oddEnds_cons fun hc => next (by rw [hc]), broken, Bool.true_and,
      List.count_cons]
    by_cases feed : c = '\n'
    · subst feed
      rw [if_pos (beq_self_eq_true _), if_neg (by decide)]
      omega
    · rw [if_neg (by simpa using feed), if_pos (by simpa using feed)]
      omega

/-- The lines that were read stay where they are. -/
theorem prefix_listFrom (done : List Line) (start offset : Nat) (current rest : List Char) :
    done.reverse <+: listFrom done start offset current rest := by
  induction done, start, offset, current, rest using listFrom.induct with
  | case1 done start current =>
    rw [listFrom, if_pos rfl]
  | case2 done start offset current more =>
    rw [listFrom, if_neg more, List.reverse_cons]
    exact List.prefix_append _ _
  | case3 done start offset current rest ih =>
    rw [listFrom]
    rw [List.reverse_cons] at ih
    exact (List.prefix_append _ _).trans ih
  | case4 done start offset current c rest pair broken ih =>
    rw [listFrom.eq_3 _ _ _ _ _ _ pair, if_pos broken]
    rw [List.reverse_cons] at ih
    exact (List.prefix_append _ _).trans ih
  | case5 done start offset current c rest pair plain ih =>
    rw [listFrom.eq_3 _ _ _ _ _ _ pair, if_neg plain]
    exact ih

/-- What stands in a text before one of its lines: so many lines, each with its end. -/
structure Lead (text : List Char) (lines : Nat) (s : List Char) : Prop where
  before : s <+: text
  counted : lines = s.count '\n' + oddEnds s
  last : ∀ c ∈ s.getLast?, isBreak c = true

theorem Lead.nil (text : List Char) : Lead text 0 [] := ⟨List.nil_prefix, rfl, nofun⟩

/-- One more line in front. -/
theorem Lead.line {text s l ending : List Char} {lines : Nat} (h : Lead text lines s)
    (unbroken : Unbroken l) (he : Ending ending)
    (next : ending = ['\r'] → text.head? ≠ some '\n') :
    Lead (l ++ (ending ++ text)) (lines + 1) (l ++ (ending ++ s)) where
  before := by
    obtain ⟨rest, rfl⟩ := h.before
    exact ⟨rest, by simp only [List.append_assoc]⟩
  counted := by
    have next' : ending = ['\r'] → s.head? ≠ some '\n' := by
      intro single feed
      obtain ⟨rest, rfl⟩ := h.before
      refine next single ?_
      cases s with
      | nil => cases feed
      | cons c s => exact feed
    have counted := count_ending he next'
    rw [oddEnds_append unbroken, List.count_append, count_unbroken unbroken, Nat.zero_add, counted,
      h.counted]
  last := by
    intro c hc
    have filled : ending ≠ [] := by cases he <;> exact List.cons_ne_nil _ _
    rw [List.getLast?_append_of_ne_nil _ (by simp [filled])] at hc
    cases s with
    | nil =>
      rw [List.append_nil] at hc
      cases he with
      | pair =>
        cases hc
        rfl
      | single broken =>
        cases hc
        exact broken
    | cons d s =>
      rw [List.getLast?_append_of_ne_nil _ (List.cons_ne_nil d s)] at hc
      exact h.last c hc

section ListFrom

variable {done : List Line} {start offset k : Nat} {current rest : List Char} {l : Line}

/-- What stands before the lines after an ending is what stands before them in the rest, and the
    line that ends there. -/
theorem lead_ended {ending : List Char} (unbroken : Unbroken current.reverse)
    (he : Ending ending) (next : ending = ['\r'] → rest.head? ≠ some '\n')
    (here : offset = start + current.length + ending.length)
    (later : ∀ {k l}, (listFrom (⟨current.reverse, start⟩ :: done) offset offset [] rest)[
      done.length + 1 + k]? = some l → ∃ s, Lead rest k s ∧ l.offset = offset + s.length)
    (h : (listFrom (⟨current.reverse, start⟩ :: done) offset offset [] rest)[
      done.length + k]? = some l) :
    ∃ s, Lead (current.reverse ++ (ending ++ rest)) k s ∧ l.offset = start + s.length := by
  cases k with
  | zero =>
    have kept := prefix_listFrom (⟨current.reverse, start⟩ :: done) offset offset [] rest
    obtain ⟨others, whole⟩ := kept
    have same : some l = some ⟨current.reverse, start⟩ := by
      rw [← h, ← whole, List.reverse_cons]
      simp
    cases same
    exact ⟨[], .nil _, rfl⟩
  | succ k =>
    rw [Nat.add_comm k, ← Nat.add_assoc] at h
    obtain ⟨s, lead, place⟩ := later h
    refine ⟨_, lead.line unbroken he next, ?_⟩
    rw [place, here]
    simp only [List.length_append, List.length_reverse]
    omega

/-- **Before a line stand as many lines as its index says**, each with its end. -/
theorem lead_listFrom (here : offset = start + current.length)
    (unbroken : Unbroken current.reverse)
    (h : (listFrom done start offset current rest)[done.length + k]? = some l) :
    ∃ s, Lead (current.reverse ++ rest) k s ∧ l.offset = start + s.length := by
  induction done, start, offset, current, rest using listFrom.induct generalizing k l with
  | case1 done start current =>
    rw [listFrom, if_pos rfl, List.getElem?_eq_none (by rw [List.length_reverse]; omega)] at h
    cases h
  | case2 done start offset current more =>
    rw [listFrom, if_neg more, List.reverse_cons] at h
    cases k with
    | zero =>
      have same : l = ⟨current.reverse, start⟩ := by simpa using h.symm
      rw [same]
      exact ⟨[], .nil _, rfl⟩
    | succ k =>
      rw [List.getElem?_eq_none (by simp)] at h
      cases h
  | case3 done start offset current rest ih =>
    rw [listFrom] at h
    exact lead_ended unbroken .pair (fun h => by cases h) (congrArg (· + 2) here)
      (fun h => ih rfl (fun _ h => by cases h) h) h
  | case4 done start offset current c rest pair broken ih =>
    rw [listFrom.eq_3 _ _ _ _ _ _ pair, if_pos broken] at h
    have next : [c] = ['\r'] → rest.head? ≠ some '\n' := by
      intro single feed
      cases rest with
      | nil => cases feed
      | cons d rest =>
        cases single
        cases feed
        exact pair rest rfl rfl
    exact lead_ended unbroken (.single broken) next (congrArg (· + 1) here)
      (fun h => ih rfl (fun _ h => by cases h) h) h
  | case5 done start offset current c rest pair plain ih =>
    rw [listFrom.eq_3 _ _ _ _ _ _ pair, if_neg plain] at h
    have longer : Unbroken (c :: current).reverse := by
      rw [List.reverse_cons]
      exact List.forall_mem_append.mpr ⟨unbroken,
        List.forall_mem_singleton.mpr (Bool.eq_false_iff.mpr plain)⟩
    obtain ⟨s, lead, place⟩ := ih (congrArg (· + 1) here) longer h
    rw [List.reverse_cons, List.append_assoc] at lead
    exact ⟨s, lead, place⟩

end ListFrom

/-- What stands before a line of a text. -/
theorem lead_list {code : List Char} {k : Nat} {l : Line} (h : (list code)[k]? = some l) :
    l.offset ≤ code.length ∧ Lead code k (code.take l.offset) := by
  have listed : (listFrom [] 0 0 [] code)[([] : List Line).length + k]? = some l := by
    rwa [List.length_nil, Nat.zero_add]
  have nothing : Unbroken ([] : List Char).reverse := List.forall_mem_nil _
  obtain ⟨s, lead, place⟩ := lead_listFrom rfl nothing listed
  replace lead : Lead code k s := lead
  rw [Nat.zero_add] at place
  rw [place, ← List.prefix_iff_eq_take.mp lead.before]
  exact ⟨lead.before.length_le, lead⟩

/-- A line end at the end of a text has a line feed in it, unless it is an odd one. -/
theorem last_of_oddEnds {s : List Char} (none : oddEnds s = 0)
    (last : ∀ c ∈ s.getLast?, isBreak c = true) : ∀ c ∈ s.getLast?, c = '\n' := by
  induction s using oddEnds.induct with
  | case1 => exact fun _ h => by cases h
  | case2 rest ih =>
    rw [oddEnds] at none
    cases rest with
    | nil =>
      rintro c ⟨⟩
      rfl
    | cons d rest =>
      rw [List.getLast?_cons_cons, List.getLast?_cons_cons] at last ⊢
      exact ih none last
  | case3 c rest pair ih =>
    rw [oddEnds.eq_3 _ _ pair] at none
    cases rest with
    | nil =>
      rintro d ⟨⟩
      show c = '\n'
      have broken : isBreak c = true := last c rfl
      by_contra feed
      rw [broken, Bool.true_and, if_pos (bne_iff_ne.mpr feed)] at none
      omega
    | cons d rest =>
      rw [List.getLast?_cons_cons] at last ⊢
      exact ih (Nat.eq_zero_of_add_eq_zero_left none) last

end Line

/-- A position is the first one of its line if and only if a line feed stands before it, or
    nothing at all. -/
theorem Cursor.column_one {c : Cursor} :
    c.column = 1 ↔ ∀ d ∈ c.before.getLast?, d = '\n' := by
  rw [Cursor.column, Cursor.lineBefore, List.length_reverse, ← List.head?_reverse]
  cases c.before.reverse with
  | nil => exact iff_of_true rfl fun _ h => by cases h
  | cons d rest =>
    by_cases feed : d = '\n'
    · subst feed
      refine iff_of_true rfl ?_
      rintro d ⟨⟩
      rfl
    · have goes : (d != '\n') = true := bne_iff_ne.mpr feed
      rw [List.takeWhile_cons, if_pos goes, List.length_cons]
      exact iff_of_false (by omega) fun h => feed (h d rfl)

/-! ## 2. Logical lines -/

namespace GrammarFile

/-- A logical line has the number and the place of its first physical line. -/
theorem mem_logicalFrom {number : Nat} {ls : List Line} {l : LogicalLine}
    (h : l ∈ logicalFrom number ls) :
    ∃ i first, ls[i]? = some first ∧ l.number = number + i ∧ l.offset = first.offset := by
  induction number, ls using logicalFrom.induct with
  | case1 number =>
    rw [logicalFrom] at h
    cases h
  | case2 number first rest chars n joined ih =>
    rw [List.unattach_reverse, List.unattach_attach] at joined
    rw [logicalFrom_eq, joined] at h
    rcases List.mem_cons.mp h with rfl | h
    · exact ⟨0, first, rfl, rfl, rfl⟩
    · obtain ⟨i, m, place, counted, offset⟩ := ih h
      rw [List.getElem?_drop] at place
      exact ⟨n + i + 1, m, place, by omega, offset⟩

/-- The line of a text with the number of a logical line begins where this one begins. -/
theorem list_number {code : List Char} {l : LogicalLine} (h : l ∈ logicalLines code) :
    0 < l.number ∧ ((Line.list code)[l.number - 1]?).map Line.offset = some l.offset := by
  obtain ⟨i, first, place, counted, offset⟩ := mem_logicalFrom h
  have index : l.number - 1 = i := by omega
  rw [index, place, offset]
  exact ⟨by omega, rfl⟩

/-! ## 3. Rejected lines -/

/-- The lines of a grammar file that say something. -/
def statements (code : List Char) : List LogicalLine :=
  (logicalLines code).filter fun l => !isIdle l.chars

/-- The first statement that is rejected: the first one of all if it states no version that is
    understood, or one of the others if it makes no declaration. -/
inductive Rejects (code : List Char) : List LogicalLine → LogicalLine → SyntaxError → Prop
  | version {first : LogicalLine} {rest : List LogicalLine} {e : SyntaxError}
      (wrong : readVersion code first = .error e) : Rejects code (first :: rest) first e
  | declaration {first l : LogicalLine} {before after : List LogicalLine} {version : String}
      {declared : List Registry.Declaration} {e : SyntaxError}
      (right : readVersion code first = .ok version)
      (made : before.mapM (declarationOf code) = .ok declared)
      (wrong : declarationOf code l = .error e) :
      Rejects code (first :: (before ++ l :: after)) l e

/-- A partial function on all members of a list: it has a result for each of them, or it fails like
    the first one for which it fails. -/
theorem mapM_cases {α β ε : Type} (f : α → Except ε β) (l : List α) :
    (∃ ys, l.mapM f = .ok ys ∧ ∀ y ∈ ys, ∃ x ∈ l, f x = .ok y) ∨
      ∃ before x after ys e, l = before ++ x :: after ∧ before.mapM f = .ok ys ∧ f x = .error e ∧
        l.mapM f = .error e := by
  induction l with
  | nil => exact .inl ⟨[], rfl, List.forall_mem_nil _⟩
  | cons x l ih =>
    rw [List.mapM_cons]
    cases own : f x with
    | error e => exact .inr ⟨[], x, l, [], e, rfl, rfl, own, rfl⟩
    | ok y =>
      rcases ih with ⟨ys, done, each⟩ | ⟨before, x', after, ys, e, rfl, done, fails, run⟩
      · rw [done]
        refine .inl ⟨y :: ys, rfl, List.forall_mem_cons.mpr ⟨⟨x, List.mem_cons_self, own⟩, ?_⟩⟩
        intro y' hy
        obtain ⟨x', hx, made⟩ := each y' hy
        exact ⟨x', List.mem_cons_of_mem x hx, made⟩
      · rw [run]
        refine .inr ⟨x :: before, x', after, y :: ys, e, rfl, ?_, fails, rfl⟩
        rw [List.mapM_cons, own, done]
        rfl

/-- **What a file is rejected for**: it says nothing, or a statement is rejected. -/
theorem read_error {code : List Char} {path : Option String} {e : SyntaxError}
    (h : read code path = .error e) :
    (statements code = [] ∧ e = Complaint.inFile .noVersion code code.length) ∨
      ∃ l, Rejects code (statements code) l e := by
  rw [read] at h
  split at h
  · rename_i said
    cases h
    exact .inl ⟨said, rfl⟩
  · rename_i first rest said
    have said : statements code = first :: rest := said
    rw [said]
    cases version : readVersion code first with
    | error e' =>
      rw [version] at h
      cases h
      exact .inr ⟨first, .version version⟩
    | ok v =>
      rw [version] at h
      rcases mapM_cases (declarationOf code) rest with
        ⟨ds, made, -⟩ | ⟨before, l, after, ds, e', rfl, done, wrong, failed⟩
      · simp only [made] at h
        cases h
      · simp only [failed] at h
        cases h
        exact .inr ⟨l, .declaration version done wrong⟩

namespace Rejects

variable {code : List Char} {ls : List LogicalLine} {l : LogicalLine} {e : SyntaxError}

theorem mem (h : Rejects code ls l e) : l ∈ ls := by
  cases h with
  | version => exact List.mem_cons_self
  | declaration => exact List.mem_cons_of_mem _ (List.mem_append_right _ List.mem_cons_self)

/-- A statement is rejected with a complaint about its place. -/
theorem complaint (h : Rejects code ls l e) : ∃ c : Complaint, e = c.inFile code l.offset := by
  cases h with
  | version wrong =>
    rw [readVersion] at wrong
    split at wrong
    · cases wrong
      exact ⟨_, rfl⟩
    · dsimp only at wrong
      split at wrong
      · cases wrong
      · cases wrong
        exact ⟨_, rfl⟩
  | declaration right made wrong =>
    rw [declarationOf] at wrong
    split at wrong
    · cases wrong
      exact ⟨_, rfl⟩
    · dsimp only at wrong
      split at wrong
      · cases wrong
        exact ⟨_, rfl⟩
      · cases wrong

end Rejects

/-- What stands before the place of a complaint. -/
theorem before_inFile (c : Complaint) (code : List Char) (offset : Nat) :
    (c.inFile code offset).cursor.before = code.take offset := by
  show code.take (min offset code.length) = _
  rw [← List.take_eq_take_min]

/-- Where the fault of a rejected line is said to be. The line of the text with the number of the
    logical line begins at the place of the fault, and that number is the reported one and the odd
    line ends before the line. -/
structure Located (code : List Char) (l : LogicalLine) (e : SyntaxError) : Prop where
  source : e.source = code.toArray
  offset : e.offset = l.offset
  begins : ((Line.list code)[l.number - 1]?).map Line.offset = some l.offset
  location : e.location = s!"line {e.cursor.line}, column {e.cursor.column}"
  number : l.number = e.cursor.line + Line.oddEnds (code.take l.offset)
  right : e.cursor.line = l.number ∧ e.cursor.column = 1 ↔ Line.oddEnds (code.take l.offset) = 0

theorem located_inFile {code : List Char} {l : LogicalLine} (h : l ∈ logicalLines code)
    (c : Complaint) : Located code l (c.inFile code l.offset) := by
  obtain ⟨positive, begins⟩ := list_number h
  obtain ⟨first, place, offset⟩ := Option.map_eq_some_iff.mp begins
  obtain ⟨inside, lead⟩ := Line.lead_list place
  rw [offset] at inside lead
  have before := before_inFile c code l.offset
  have number : l.number =
      (c.inFile code l.offset).cursor.line + Line.oddEnds (code.take l.offset) := by
    have counted := lead.counted
    rw [Cursor.line, before]
    omega
  refine ⟨rfl, ?_, begins, rfl, number, ?_⟩
  · show min l.offset code.length = l.offset
    exact Nat.min_eq_left inside
  · rw [Cursor.column_one, before]
    constructor
    · rintro ⟨same, -⟩
      omega
    · intro none
      exact ⟨by omega, Line.last_of_oddEnds none lead.last⟩

/-- **The line that a fault of a grammar file names.** A file is rejected because it says nothing,
    or for its first rejected line. The number of that line is the line that the message names and
    the odd line ends before it. The message names the line and the column one if and only if there
    are none of these. -/
theorem fault_line {code : List Char} {path : Option String} {e : SyntaxError}
    (h : read code path = .error e) :
    (statements code = [] ∧ e = Complaint.inFile .noVersion code code.length) ∨
      ∃ l ∈ logicalLines code, Rejects code (statements code) l e ∧ Located code l e := by
  rcases read_error h with silent | ⟨l, rejected⟩
  · exact .inl silent
  · have listed : l ∈ logicalLines code := List.mem_of_mem_filter rejected.mem
    obtain ⟨c, rfl⟩ := rejected.complaint
    exact .inr ⟨l, listed, rejected, located_inFile listed c⟩

/-- The third line of this file is no declaration. -/
def badThird : List Char := "version 1.0\ntoken a = a\nthis is not a rule\n".toList

theorem fault_line_badThird :
    read badThird none = .error (Complaint.inFile .noDeclaration badThird 24) ∧
      ∃ l ∈ logicalLines badThird,
        Located badThird l (Complaint.inFile .noDeclaration badThird 24) := by
  have logical : logicalLines badThird = [⟨"version 1.0".toList, 1, 0⟩,
      ⟨"token a = a".toList, 2, 12⟩, ⟨"this is not a rule".toList, 3, 24⟩] := by cbv
  have rejected : read badThird none =
      .error (Complaint.inFile .noDeclaration badThird 24) := by
    rw [read, logical]
    rfl
  refine ⟨rejected, ?_⟩
  rcases fault_line rejected with ⟨silent, -⟩ | ⟨l, listed, -, located⟩
  · rw [statements, logical] at silent
    cases silent
  · exact ⟨l, listed, located⟩

/-- A version and a line that is no declaration, with a vertical tab between them. -/
def verticalTab : List Char := "version 1.0\x0bbad".toList

/-- **A vertical tab ends a line and is not counted**: the second line is rejected, and the message
    says that the fault is in the first one. -/
theorem read_verticalTab :
    logicalLines verticalTab = [⟨"version 1.0".toList, 1, 0⟩, ⟨"bad".toList, 2, 12⟩] ∧
      read verticalTab none = .error (Complaint.inFile .noDeclaration verticalTab 12) ∧
      (Complaint.inFile .noDeclaration verticalTab 12).offset = 12 ∧
      (Complaint.inFile .noDeclaration verticalTab 12).location = "line 1, column 13" := by
  have logical : logicalLines verticalTab =
      [⟨"version 1.0".toList, 1, 0⟩, ⟨"bad".toList, 2, 12⟩] := by cbv
  refine ⟨logical, ?_, rfl, rfl⟩
  rw [read, logical]
  rfl

end GrammarFile

end GrammarMatch
