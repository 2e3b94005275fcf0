/-
  File:      GrammarMatch/Proofs/WrittenGrammar.lean
  Subject:   A grammar file is read back from what is written for it.

  After its version a grammar file has one line for each declaration, and between them lines that
  say nothing. Whatever stands in the patterns, equals signs, number signs and the word `with`
  included, the declarations that are read are those that were written, each with the number of its
  line (`read_written`).

  The proof follows the reader: the lines of the file (`logicalLines_joined`), the parts of one
  declaration (`statementOf?_line`), and then one declaration after the other
  (`declarations_written`).
-/
import GrammarMatch.Proofs.WrittenFlags
import GrammarMatch.Proofs.WrittenLines
import GrammarMatch.Proofs.WrittenMarks
import Mathlib.Data.List.DropRight

namespace GrammarMatch.GrammarFile

open Syntax (isNameChar isNameStart takeWhile_run)
open Unicode (isSpace trim trimLeft trimRight)

/-! ## 1. White space at the ends of a text -/

theorem trimLeft_of_head {c : Char} (h : isSpace c = false) (s : List Char) :
    trimLeft (c :: s) = c :: s :=
  List.dropWhile_cons_of_neg (by simp [h])

/-- What is no white space stays where the text begins. -/
theorem trim_of_head {c : Char} (h : isSpace c = false) (s : List Char) :
    ∃ t, trim (c :: s) = c :: t := by
  rw [trim, trimLeft_of_head h, trimRight, List.reverse_cons, List.dropWhile_append]
  split
  · exact ⟨[], by rw [List.dropWhile_cons_of_neg (by simp [h])]; rfl⟩
  · exact ⟨(s.reverse.dropWhile isSpace).reverse, by simp⟩

/-- A text that trimming leaves as it is has no white space at its end. -/
theorem trimRight_of_trim {s : List Char} (h : trim s = s) : trimRight s = s := by
  have short : (trimRight (trimLeft s)).length ≤ (trimLeft s).length := by
    have := (List.dropWhile_suffix isSpace (l := (trimLeft s).reverse)).length_le
    simpa [trimRight] using this
  rw [trim] at h
  rw [h] at short
  have whole : trimLeft s = s := by
    have suffix := List.dropWhile_suffix isSpace (l := s)
    exact suffix.eq_of_length (Nat.le_antisymm suffix.length_le short)
  rwa [whole] at h

/-- Whether a line is continued shows at its last character that is no white space. -/
theorem continued_reverse (l : List Char) :
    continued l.reverse = ((trimRight l).getLast? == some '\\') := by
  rw [continued, trimLeft, trimRight, List.getLast?_reverse]

/-! ## 2. The lines of a file -/

/-- A line that says nothing and is not continued: it is empty or a comment, and its last
    character other than white space is no backslash. -/
structure Idle (l : List Char) : Prop where
  idle : isIdle l = true
  unbroken : Line.Unbroken l
  whole : (trimRight l).getLast? ≠ some '\\'

/-- A line after the version. -/
inductive Item where
  /-- A line that says nothing. -/
  | idle (chars : List Char)
  /-- A declaration. -/
  | declares (kind : RuleKind) (name : String) (flags : List String) (source : List Char)

/-- The flags of a declaration as they are written. -/
def withFlags (flags : List String) : List Char :=
  if flags.isEmpty then [] else " with ".toList ++ flagList flags

/-- The line that is written for an item. -/
def Item.line : Item → List Char
  | .idle chars => chars
  | .declares kind name flags source =>
    kind.name.toList ++ " ".toList ++ name.toList ++ withFlags flags ++ " = ".toList ++ source

/-- What may be written on a line: nothing that is said, or a declaration whose source has no line
    end, no white space at either end, and no backslash at its end. -/
inductive Item.Writable : Item → Prop
  | idle {chars : List Char} (h : Idle chars) : Writable (.idle chars)
  | declares {kind : RuleKind} {name : String} {flags : List String} {source : List Char}
      (named : NameOf isNameChar name) (known : ∀ f ∈ flags, FlagName f)
      (unbroken : Line.Unbroken source) (trimmed : trim source = source)
      (whole : source.getLast? ≠ some '\\') : Writable (.declares kind name flags source)

/-- The declarations of items of which the first is on a line of a number. -/
def declared (number : Nat) : List Item → List Registry.Declaration
  | [] => []
  | .idle _ :: rest => declared (number + 1) rest
  | .declares kind name flags source :: rest =>
    ⟨name, kind, source, flags, number⟩ :: declared (number + 1) rest

/-! ## 3. A declaration -/

theorem isBreak_of_printed {c : Char} (low : 0x20 < c.toNat) (high : c.toNat < 0x7F) :
    Line.isBreak c = false := by
  unfold Line.isBreak
  simp
  omega

theorem isBreak_of_nameChar {c : Char} (h : isNameChar c = true) : Line.isBreak c = false := by
  rw [Bool.eq_false_iff]
  intro broken
  have codes : c.toNat ∈ [0x0A, 0x0B, 0x0C, 0x0D, 0x1C, 0x1D, 0x1E, 0x85, 0x2028, 0x2029] := by
    unfold Line.isBreak at broken
    simp at broken ⊢
    omega
  have none : ([0x0A, 0x0B, 0x0C, 0x0D, 0x1C, 0x1D, 0x1E, 0x85, 0x2028, 0x2029].all
      fun n => !isNameChar (Char.ofNat n)) = true := by
    decide +kernel
  have outside := List.all_eq_true.mp none _ codes
  rw [Char.ofNat_toNat, h] at outside
  cases outside

theorem isSpace_of_nameStart {c : Char} (h : isNameStart c = true) : isSpace c = false := by
  rcases Bool.or_eq_true_iff.mp h with letter | underscore
  · exact isSpace_of_flagChar (by simp [isFlagChar, letter])
  · obtain rfl := eq_of_beq underscore
    decide

section Statement

variable {kind : RuleKind} {name : String} {flags : List String} {source : List Char}

theorem line_declares : (Item.declares kind name flags source).line = kind.name.toList ++
    ' ' :: (name.toList ++ (withFlags flags ++ ' ' :: '=' :: ' ' :: source)) := by
  simp only [Item.line, List.append_assoc]
  rfl

theorem kindOf?_name (rest : List Char) :
    kindOf? (kind.name.toList ++ ' ' :: rest) = some (kind, ' ' :: rest) := by
  cases kind <;> rfl

/-- A name is read up to a character that is none of a name. -/
theorem nameOf?_name (h : NameOf isNameChar name) {d : Char} (hd : isNameChar d = false)
    (rest : List Char) : nameOf? (name.toList ++ d :: rest) = some (name.toList, d :: rest) := by
  obtain ⟨c, cs, chars, start, others⟩ := h
  rw [chars, List.cons_append, nameOf?, if_pos start]
  simp only [takeWhile_run others hd, List.drop_left]

/-- The flags are read up to the blank before the equals sign. -/
theorem flagsOf?_withFlags (h : ∀ f ∈ flags, FlagName f) (rest : List Char) :
    flagsOf? (withFlags flags ++ ' ' :: '=' :: ' ' :: rest) =
      some (flagList flags, ' ' :: '=' :: ' ' :: rest) := by
  cases flags with
  | nil => rfl
  | cons f flags =>
    obtain ⟨c, cs, list, letter⟩ := flagList_head (h f List.mem_cons_self) flags
    have reach := flagsReach_flagList h 0 (' ' :: rest)
    have word : firstWord (withFlags (f :: flags) ++ ' ' :: '=' :: ' ' :: rest) =
        ("with".toList, ' ' :: (flagList (f :: flags) ++ ' ' :: '=' :: ' ' :: rest)) := rfl
    have body : trimLeft (' ' :: (flagList (f :: flags) ++ ' ' :: '=' :: ' ' :: rest)) =
        flagList (f :: flags) ++ ' ' :: '=' :: ' ' :: rest := by
      rw [list]
      exact trimLeft_of_head (isSpace_of_flagChar letter) _
    have blank : isSpace ((withFlags (f :: flags) ++ ' ' :: '=' :: ' ' :: rest).headD 'x') = true :=
      rfl
    have gap (s : List Char) : (s.length == (' ' :: s).length) = false := by simp
    have head (s : List Char) : isFlagChar ((flagList (f :: flags) ++ s).headD ' ') = true := by
      rw [list]
      exact letter
    rw [flagsOf?]
    simp only [word, body, blank, gap, head, reach, Nat.zero_add, List.take_left, List.drop_left,
      beq_self_eq_true, Bool.and_self, Bool.not_true, Bool.or_self, Bool.false_eq_true, if_true,
      if_false]

/-- **The parts of a declaration are read back**, whatever its source says. -/
theorem statementOf?_line (named : NameOf isNameChar name) (known : ∀ f ∈ flags, FlagName f)
    (trimmed : trim source = source) :
    statementOf? (Item.declares kind name flags source).line =
      some ⟨kind, name.toList, flagList flags, source⟩ := by
  have start (rest : List Char) :
      trimLeft (' ' :: (name.toList ++ rest)) = name.toList ++ rest := by
    obtain ⟨c, cs, chars, letter, _⟩ := named
    rw [chars]
    exact trimLeft_of_head (isSpace_of_nameStart letter) _
  -- What follows the name begins with a blank, with flags or without them.
  obtain ⟨rest, behind⟩ :
      ∃ rest, withFlags flags ++ ' ' :: '=' :: ' ' :: source = ' ' :: rest := by
    cases flags with
    | nil => exact ⟨_, rfl⟩
    | cons f flags => exact ⟨_, rfl⟩
  have read := nameOf?_name named (d := ' ') (by decide) rest
  rw [← behind] at read
  have equals : trimLeft (' ' :: '=' :: ' ' :: source) = '=' :: ' ' :: source := rfl
  have pattern : trim (' ' :: source) = source := trimmed
  simp only [statementOf?, line_declares, kindOf?_name, start, read, flagsOf?_withFlags known,
    Option.bind_eq_bind, Option.bind_some, equals, pattern]

/-- **A declaration is made of its line**, with the number of the line. -/
theorem declarationOf_line (named : NameOf isNameChar name) (known : ∀ f ∈ flags, FlagName f)
    (trimmed : trim source = source) (code : List Char) {l : LogicalLine}
    (written : l.chars = (Item.declares kind name flags source).line) :
    declarationOf code l = .ok ⟨name, kind, source, flags, l.number⟩ := by
  obtain ⟨set, valid⟩ := ofNames_flagNames known
  simp only [declarationOf, written, statementOf?_line named known trimmed,
    flagNames_flagList known, valid, String.ofList_toList]

/-! ## 4. The line of a declaration -/

/-- A declaration says something. -/
theorem isIdle_declares : isIdle (Item.declares kind name flags source).line = false := by
  obtain ⟨c, s, line, letter⟩ : ∃ c s, (Item.declares kind name flags source).line = c :: s ∧
      isFlagChar c = true := by
    rw [line_declares]
    cases kind <;> exact ⟨_, _, rfl, by decide⟩
  obtain ⟨t, trimmed⟩ := trim_of_head (isSpace_of_flagChar letter) s
  rw [isIdle, line, trimmed]
  show (c == '#') = false
  rw [beq_eq_false_iff_ne]
  rintro rfl
  cases letter

/-- A declaration is not continued. -/
theorem continued_declares (trimmed : trim source = source) (whole : source.getLast? ≠ some '\\') :
    continued (Item.declares kind name flags source).line.reverse = false := by
  have kept : source.reverse.dropWhile isSpace = source.reverse := by
    have := congrArg List.reverse (trimRight_of_trim trimmed)
    rwa [trimRight, List.reverse_reverse] at this
  have line : (Item.declares kind name flags source).line.reverse =
      source.reverse ++ ' ' :: '=' :: ' ' ::
        (kind.name.toList ++ ' ' :: (name.toList ++ withFlags flags)).reverse := by
    simp [line_declares]
  rw [continued, beq_eq_false_iff_ne, line, trimLeft]
  -- A source with characters ends in one that is no white space, and before an empty one the
  -- last such character is the equals sign.
  cases back : source.reverse with
  | nil => exact fun h => by cases h
  | cons c s =>
    have last : source.getLast? = some c := by rw [← List.head?_reverse, back]; rfl
    rw [back] at kept
    have visible : ¬ isSpace c = true := List.dropWhile_eq_self_iff.mp kept (Nat.succ_pos _)
    rw [List.cons_append, List.dropWhile_cons_of_neg visible, List.head?_cons, ← last]
    exact whole

theorem unbroken_flagList (known : ∀ f ∈ flags, FlagName f) :
    Line.Unbroken (flagList flags) := by
  induction flags with
  | nil => exact fun c hc => by cases hc
  | cons f flags ih =>
    obtain ⟨hf, others⟩ := List.forall_mem_cons.mp known
    have first : Line.Unbroken f.toList := fun c hc =>
      have ⟨low, high⟩ := isFlagChar_bounds (hf.chars c hc)
      isBreak_of_printed low high
    cases flags with
    | nil => exact first
    | cons g flags =>
      rw [flagList]
      simp only [Line.Unbroken, List.forall_mem_append, List.forall_mem_cons]
      exact ⟨first, by decide, by decide, ih others⟩

/-- A declaration is on one line. -/
theorem unbroken_declares (named : NameOf isNameChar name) (known : ∀ f ∈ flags, FlagName f)
    (unbroken : Line.Unbroken source) :
    Line.Unbroken (Item.declares kind name flags source).line := by
  have word : Line.Unbroken kind.name.toList := by cases kind <;> decide
  have blank : Line.Unbroken " ".toList := by decide
  have called : Line.Unbroken name.toList := fun c hc => isBreak_of_nameChar (named.chars c hc)
  have equals : Line.Unbroken " = ".toList := by decide
  have marked : Line.Unbroken (withFlags flags) := by
    unfold withFlags
    split
    · exact fun c hc => by cases hc
    · have joint : Line.Unbroken " with ".toList := by decide
      exact List.forall_mem_append.mpr ⟨joint, unbroken_flagList known⟩
  simp only [Line.Unbroken, Item.line, List.forall_mem_append]
  exact ⟨⟨⟨⟨⟨word, blank⟩, called⟩, marked⟩, equals⟩, unbroken⟩

end Statement

/-! ## 5. Files -/

/-- What a logical line says and its number. -/
def LogicalLine.said (l : LogicalLine) : List Char × Nat := (l.chars, l.number)

/-- Lines that are not continued are numbered one after the other. -/
theorem logicalFrom_whole {ls : List Line} (whole : ∀ l ∈ ls, continued l.chars.reverse = false)
    (number : Nat) :
    (logicalFrom number ls).map LogicalLine.said = (ls.map Line.chars).zipIdx number := by
  induction ls generalizing number with
  | nil =>
    rw [logicalFrom]
    rfl
  | cons l ls ih =>
    obtain ⟨hl, others⟩ := List.forall_mem_cons.mp whole
    rw [logicalFrom_cons hl, List.map_cons, List.map_cons, List.zipIdx_cons, ih others]
    rfl

/-- **The lines of a file that say something** are those that were written, each with its number. -/
theorem logicalLines_joined {ending : List Char} (he : Line.Ending ending) (closed : Bool)
    {lines : List (List Char)} (unbroken : ∀ l ∈ lines, Line.Unbroken l)
    (whole : ∀ l ∈ lines, continued l.reverse = false) :
    ((logicalLines (Line.joined ending closed lines)).filter fun l => !isIdle l.chars).map
      LogicalLine.said = (lines.zipIdx 1).filter fun l => !isIdle l.1 := by
  obtain ⟨ls, read, same⟩ := Line.list_joined he closed [] 0 unbroken
  rw [List.reverse_nil, List.nil_append] at read
  have among {l : Line} (hl : l ∈ ls) : l.chars ∈ lines := by
    have := List.mem_map_of_mem (f := Line.chars) hl
    rcases same with same | same
    · rwa [← same]
    · rw [← same]
      exact List.mem_append_left _ this
  have numbered := logicalFrom_whole (fun l hl => whole _ (among hl)) 1
  have saying (ls : List LogicalLine) : (ls.filter fun l => !isIdle l.chars).map LogicalLine.said =
      (ls.map LogicalLine.said).filter fun l => !isIdle l.1 := by
    rw [List.filter_map]
    rfl
  rw [logicalLines, Line.list, read, saying, numbered]
  rcases same with same | same
  · rw [same]
  · rw [← same, List.zipIdx_append, List.filter_append]
    exact (List.append_nil _).symm

/-- **Declarations are made one after the other**, from the lines of their items. -/
theorem declarations_written {items : List Item} (writable : ∀ i ∈ items, i.Writable)
    (code : List Char) {number : Nat} {ls : List LogicalLine}
    (written : ls.map LogicalLine.said =
      ((items.map Item.line).zipIdx number).filter fun l => !isIdle l.1) :
    ls.mapM (declarationOf code) = .ok (declared number items) := by
  induction items generalizing number ls with
  | nil =>
    obtain rfl := List.map_eq_nil_iff.mp written
    rfl
  | cons i items ih =>
    obtain ⟨hi, others⟩ := List.forall_mem_cons.mp writable
    rw [List.map_cons, List.zipIdx_cons] at written
    cases hi with
    | idle h =>
      rw [List.filter_cons_of_neg (by simp [Item.line, h.idle])] at written
      exact ih others written
    | declares named known _ trimmed _ =>
      rw [List.filter_cons_of_pos (by simp [isIdle_declares])] at written
      obtain ⟨l, rest, rfl, first, later⟩ := List.map_eq_cons_iff.mp written
      obtain ⟨chars, rfl⟩ := Prod.mk.inj first
      rw [List.mapM_cons, declarationOf_line named known trimmed code chars, ih others later]
      rfl

theorem Item.Writable.unbroken {i : Item} (h : i.Writable) : Line.Unbroken i.line := by
  cases h with
  | idle h => exact h.unbroken
  | declares named known unbroken _ _ => exact unbroken_declares named known unbroken

theorem Idle.continued {l : List Char} (h : Idle l) : continued l.reverse = false := by
  rw [continued_reverse, beq_eq_false_iff_ne]
  exact h.whole

theorem Item.Writable.continued {i : Item} (h : i.Writable) : continued i.line.reverse = false := by
  cases h with
  | idle h => exact h.continued
  | declares _ _ _ trimmed whole => exact continued_declares trimmed whole

theorem readVersion_version {l : LogicalLine} (h : l.chars = "version 1.0".toList)
    (code : List Char) : readVersion code l = .ok "1.0" := by
  have version : versionOf? "version 1.0".toList = some "1.0".toList := rfl
  simp only [readVersion, h, version]
  rfl

/-- **A grammar file is read back.** Before and after the line of the version there may be lines
    that say nothing, and the lines may end in any of the ways that lines end. The declarations
    are read in order, each with its name, its kind, its source, its flags and the number of its
    line. -/
theorem read_written {ending : List Char} (he : Line.Ending ending) (closed : Bool)
    {before : List (List Char)} (idle : ∀ l ∈ before, Idle l)
    {items : List Item} (writable : ∀ i ∈ items, i.Writable) (path : Option String) :
    read (Line.joined ending closed (before ++ "version 1.0".toList :: items.map Item.line)) path =
      .ok ⟨"1.0", declared (before.length + 2) items, path⟩ := by
  have unbroken : ∀ l ∈ before ++ "version 1.0".toList :: items.map Item.line,
      Line.Unbroken l := by
    simp only [List.forall_mem_append, List.forall_mem_cons, List.forall_mem_map]
    exact ⟨fun l hl => (idle l hl).unbroken, by decide, fun i hi => (writable i hi).unbroken⟩
  have whole : ∀ l ∈ before ++ "version 1.0".toList :: items.map Item.line,
      continued l.reverse = false := by
    simp only [List.forall_mem_append, List.forall_mem_cons, List.forall_mem_map]
    exact ⟨fun l hl => (idle l hl).continued, rfl, fun i hi => (writable i hi).continued⟩
  have lines := logicalLines_joined he closed unbroken whole
  have silent : (before.zipIdx 1).filter (fun l => !isIdle l.1) = [] := by
    rw [List.filter_eq_nil_iff]
    intro l hl
    simp [(idle l.1 (List.fst_mem_of_mem_zipIdx hl)).idle]
  rw [List.zipIdx_append, List.filter_append, silent, List.nil_append, List.zipIdx_cons,
    List.filter_cons_of_pos rfl] at lines
  obtain ⟨first, rest, said, head, later⟩ := List.map_eq_cons_iff.mp lines
  obtain ⟨chars, -⟩ := Prod.mk.inj head
  rw [Nat.add_comm 1, Nat.add_assoc] at later
  generalize Line.joined ending closed _ = code at said ⊢
  have made := declarations_written writable code later
  simp only [read, said, readVersion_version chars code, made]
  rfl

theorem read_written_rules :
    read ("# rules\n\nversion 1.0\ntoken with with Ignore-Case, GLOBAL = a=b # with\n\n" ++
      "rule a-1 = <with>").toList (some "a.pegex") = .ok ⟨"1.0",
        [⟨"with", .token, "a=b # with".toList, ["Ignore-Case", "GLOBAL"], 4⟩,
          ⟨"a-1", .rule, "<with>".toList, [], 6⟩], some "a.pegex"⟩ := by
  have newline : Line.Ending ['\n'] := .single rfl
  have blank : Idle [] := ⟨rfl, by decide, by decide⟩
  have comment : Idle "# rules".toList := ⟨rfl, by decide, by decide⟩
  have token :
      (Item.declares .token "with" ["Ignore-Case", "GLOBAL"] "a=b # with".toList).Writable :=
    .declares ⟨'w', "ith".toList, rfl, rfl, List.all_eq_true.mp rfl⟩
      (List.forall_mem_cons.mpr ⟨rfl, List.forall_mem_singleton.mpr rfl⟩) (by decide) rfl
      (by decide)
  have rule : (Item.declares .rule "a-1" [] "<with>".toList).Writable :=
    .declares ⟨'a', "-1".toList, rfl, rfl, List.all_eq_true.mp rfl⟩ (fun _ h => by cases h)
      (by decide) rfl (by decide)
  have before : ∀ l ∈ ["# rules".toList, []], Idle l :=
    List.forall_mem_cons.mpr ⟨comment, List.forall_mem_singleton.mpr blank⟩
  have items : ∀ i ∈ [.declares .token "with" ["Ignore-Case", "GLOBAL"] "a=b # with".toList,
      .idle [], .declares .rule "a-1" [] "<with>".toList], Item.Writable i :=
    List.forall_mem_cons.mpr ⟨token, List.forall_mem_cons.mpr ⟨.idle blank,
      List.forall_mem_singleton.mpr rule⟩⟩
  exact read_written newline false before items (some "a.pegex")

/-- White space after its backslash does not keep a comment from being continued: the declaration
    on the next line is lost. -/
theorem read_backslash_blank :
    isIdle ['#', '\\', ' '] = true ∧ Line.Unbroken ['#', '\\', ' '] ∧
      ['#', '\\', ' '].getLast? ≠ some '\\' ∧
      (Item.declares .token "a" [] ['b']).Writable ∧
      read (Line.joined ['\n'] true ("version 1.0".toList ::
        [.idle ['#', '\\', ' '], .declares .token "a" [] ['b']].map Item.line)) none =
          .ok ⟨"1.0", [], none⟩ ∧
      declared 2 [.idle ['#', '\\', ' '], .declares .token "a" [] ['b']] =
        [⟨"a", .token, ['b'], [], 3⟩] := by
  have lines : Line.list "version 1.0\n#\\ \ntoken a = b\n".toList =
      [⟨"version 1.0".toList, 0⟩, ⟨['#', '\\', ' '], 12⟩, ⟨"token a = b".toList, 16⟩] := rfl
  have first : continued "version 1.0".toList.reverse = false := rfl
  have last : logicalFrom 4 [] = [] := by rw [logicalFrom]
  have logical : logicalLines "version 1.0\n#\\ \ntoken a = b\n".toList =
      [⟨"version 1.0".toList, 1, 0⟩, ⟨"# token a = b".toList, 2, 12⟩] := by
    rw [logicalLines, lines, logicalFrom_cons first, logicalFrom]
    exact congrArg (⟨"version 1.0".toList, 1, 0⟩ :: ⟨"# token a = b".toList, 2, 12⟩ :: ·) last
  refine ⟨rfl, by decide, by decide, ?_, ?_, rfl⟩
  · exact .declares ⟨'a', [], rfl, rfl, List.all_eq_true.mp rfl⟩ (fun _ h => by cases h)
      (by decide) rfl (by decide)
  · show read "version 1.0\n#\\ \ntoken a = b\n".toList none = _
    rw [read, logical]
    rfl

end GrammarMatch.GrammarFile
