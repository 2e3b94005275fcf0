/-
  File:      GrammarMatch/Proofs/WrittenFlags.lean
  Subject:   The flags of a declaration are read back from what is written for them.

  The names of flags are written with a comma and a blank between them. A name is a name of a flag
  if its lower case is, and then all its characters are letters or hyphens (`FlagName.chars`): the
  only other character with a plain letter as its lower case is the sign for kelvin, and no flag
  has a `k` in its name. So the list ends where it was written to end (`flagsReach_flagList`), and
  its pieces are the names (`flagNames_flagList`).
-/
import GrammarMatch.Grammar.File
import GrammarMatch.Proofs.Spelling

namespace GrammarMatch

/-! ## 1. White space and lower case -/

namespace Unicode

/-- The printed characters of ASCII are no white space. -/
theorem isSpace_of_printed {c : Char} (low : 0x20 < c.toNat) (high : c.toNat < 0x7F) :
    isSpace c = false := by
  unfold isSpace inRanges spaceRanges
  simp only [List.any_eq_false, Bool.and_eq_true, decide_eq_true_eq, List.forall_mem_cons]
  simp
  omega

/-- Beyond ASCII only the sign for kelvin has an ASCII character as its lower case. -/
theorem lowerRuns_beyond : lowerRuns.all (fun r => decide (r.last < 0x80) ||
    decide (0x80 ≤ (r.first : Int) + r.shift) ||
    (r.first == r.last && (r.first : Int) + r.shift == 'k'.toNat)) = true := by
  decide

theorem imageIn?_beyond {n m : Nat} (beyond : 0x80 ≤ n) (h : imageIn? lowerRuns n = some m) :
    0x80 ≤ m ∨ m = 'k'.toNat := by
  obtain ⟨r, hr, image⟩ := List.exists_of_findSome?_eq_some h
  have apart := List.all_eq_true.mp lowerRuns_beyond r hr
  unfold CaseRun.image? at image
  split at image
  case isFalse => cases image
  case isTrue inside =>
    obtain rfl := Option.some.inj image
    simp only [Bool.and_eq_true, decide_eq_true_eq] at inside
    simp only [Bool.or_eq_true, Bool.and_eq_true, decide_eq_true_eq, beq_iff_eq] at apart
    rcases apart with (low | high) | ⟨single, kelvin⟩
    · omega
    · exact .inl (by omega)
    · exact .inr (by omega)

theorem toNat_ofNat_beyond {m : Nat} (beyond : 0x80 ≤ m) :
    0x80 ≤ (Char.ofNat m).toNat ∨ Char.ofNat m = '\x00' := by
  by_cases valid : m.isValidChar
  · rw [Char.ofNat, dif_pos valid]
    exact .inl beyond
  · rw [Char.ofNat, dif_neg valid]
    exact .inr rfl

end Unicode

/-! ## 2. Names of flags -/

namespace GrammarFile

open Syntax (takeWhile_run)
open Unicode (lower lowerFrom lowerBetween lowerVariant? imageIn? lowerRuns trim)

theorem isFlagChar_bounds {c : Char} (h : isFlagChar c = true) :
    0x20 < c.toNat ∧ c.toNat < 0x7F := by
  unfold isFlagChar Char.isAlpha Char.isUpper Char.isLower at h
  simp only [Bool.or_eq_true, Bool.and_eq_true, decide_eq_true_eq, beq_iff_eq, ge_iff_le,
    UInt32.le_iff_toNat_le] at h
  obtain (⟨low, high⟩ | ⟨low, high⟩) | rfl := h
  · exact ⟨Nat.lt_of_lt_of_le (by decide) low, Nat.lt_of_le_of_lt high (by decide)⟩
  · exact ⟨Nat.lt_of_lt_of_le (by decide) low, Nat.lt_of_le_of_lt high (by decide)⟩
  · decide

theorem isSpace_of_flagChar {c : Char} (h : isFlagChar c = true) : Unicode.isSpace c = false :=
  Unicode.isSpace_of_printed (isFlagChar_bounds h).1 (isFlagChar_bounds h).2

/-- A character beyond ASCII has a lower case that is in no name of a flag. -/
theorem not_flagChar_lower (before after : List Char) {c : Char} (beyond : 0x80 ≤ c.toNat) :
    ∃ d ∈ lowerBetween before c after, ¬ (isFlagChar d = true ∧ d ≠ 'k') := by
  have outside {d : Char} (hd : 0x80 ≤ d.toNat) : ¬ (isFlagChar d = true ∧ d ≠ 'k') := fun h => by
    have := (isFlagChar_bounds h.1).2
    omega
  unfold lowerBetween
  split
  · -- the capital sigma, in either of its small forms
    refine ⟨_, List.mem_singleton.mpr rfl, ?_⟩
    split <;> exact outside (by decide)
  · split
    · exact ⟨Char.ofNat 0x307, by simp, outside (by decide)⟩
    · refine ⟨_, List.mem_singleton.mpr rfl, ?_⟩
      rw [lowerVariant?, if_neg (by omega)]
      cases image : imageIn? lowerRuns c.toNat with
      | none => exact outside beyond
      | some m =>
        show ¬ (isFlagChar (Char.ofNat m) = true ∧ Char.ofNat m ≠ 'k')
        rcases Unicode.imageIn?_beyond beyond image with high | rfl
        · rcases Unicode.toNat_ofNat_beyond high with far | null
          · exact outside far
          · rw [null]
            decide
        · decide

theorem isFlagChar_of_lower {before after : List Char} {c : Char}
    (h : ∀ d ∈ lowerBetween before c after, isFlagChar d = true ∧ d ≠ 'k') :
    isFlagChar c = true := by
  by_cases small : c.toNat < 0x80
  · have same : lowerBetween before c after = [(lowerVariant? c).getD c] := by
      unfold lowerBetween
      rw [if_neg (by simp; omega), if_neg (by simp; omega)]
    rw [same, lowerVariant?, if_pos small] at h
    by_cases upper : c.isUpper = true
    · have letter : c.isAlpha = true := Bool.or_eq_true_iff.mpr (.inl upper)
      exact Bool.or_eq_true_iff.mpr (.inl letter)
    · rw [if_neg upper] at h
      exact (h c List.mem_cons_self).1
  · obtain ⟨d, hd, outside⟩ := not_flagChar_lower before after (Nat.le_of_not_lt small)
    exact absurd (h d hd) outside

theorem isFlagChar_of_lowerFrom {before s : List Char}
    (h : ∀ d ∈ lowerFrom before s, isFlagChar d = true ∧ d ≠ 'k') :
    ∀ c ∈ s, isFlagChar c = true := by
  induction s generalizing before with
  | nil => exact fun c hc => by cases hc
  | cons c s ih =>
    rw [lowerFrom, List.forall_mem_append] at h
    exact List.forall_mem_cons.mpr ⟨isFlagChar_of_lower h.1, ih h.2⟩

/-- In lower case the name is one of those that flags are called by. -/
def FlagName (name : String) : Prop := (Flags.ofName? (lower name)).isSome = true

theorem ofName?_chars {key : String} (h : (Flags.ofName? key).isSome = true) :
    key.toList.all (fun d => isFlagChar d && d != 'k') = true ∧ key.isEmpty = false := by
  unfold Flags.ofName? at h
  split at h <;> first | exact ⟨by decide, by decide⟩ | cases h

/-- **The name of a flag has only letters and hyphens**, in whatever case it is written. -/
theorem FlagName.chars {name : String} (h : FlagName name) :
    ∀ c ∈ name.toList, isFlagChar c = true := by
  have key : ∀ d ∈ lowerFrom [] name.toList, isFlagChar d = true ∧ d ≠ 'k' := fun d hd => by
    have inside : d ∈ (lower name).toList := by rwa [lower, String.toList_ofList]
    simpa using List.all_eq_true.mp (ofName?_chars h).1 d inside
  exact isFlagChar_of_lowerFrom key

theorem FlagName.ne_nil {name : String} (h : FlagName name) : name.toList ≠ [] := by
  intro empty
  have := (ofName?_chars h).2
  rw [lower, empty] at this
  cases this

/-- Around a text of letters and hyphens there is no white space. -/
theorem trim_flagChars {s : List Char} (h : ∀ c ∈ s, isFlagChar c = true) : trim s = s := by
  have left {t : List Char} (ht : ∀ c ∈ t, isFlagChar c = true) :
      t.dropWhile Unicode.isSpace = t := by
    cases t with
    | nil => rfl
    | cons c t =>
      exact List.dropWhile_cons_of_neg (by simp [isSpace_of_flagChar (ht c List.mem_cons_self)])
  rw [trim, Unicode.trimLeft, left h, Unicode.trimRight,
    left fun c hc => h c (List.mem_reverse.mp hc), List.reverse_reverse]

/-- Names of flags make a set of flags. -/
theorem ofNames_flagNames {flags : List String} (h : ∀ f ∈ flags, FlagName f) :
    ∃ set, Flags.ofNames flags = .ok set := by
  induction flags with
  | nil => exact ⟨_, rfl⟩
  | cons f flags ih =>
    obtain ⟨hf, others⟩ := List.forall_mem_cons.mp h
    obtain ⟨set, more⟩ := ih others
    obtain ⟨flag, known⟩ := Option.isSome_iff_exists.mp hf
    refine ⟨flag.union set, ?_⟩
    simp only [Flags.ofNames, trim_flagChars hf.chars, String.ofList_toList, (ofName?_chars hf).2,
      Bool.false_eq_true, if_false, known, more]
    rfl

/-! ## 3. Lists of flags -/

/-- Names of flags with a comma and a blank between them. -/
def flagList : List String → List Char
  | [] => []
  | [f] => f.toList
  | f :: g :: rest => f.toList ++ ',' :: ' ' :: flagList (g :: rest)

/-- A list of flags begins with a character of a name. -/
theorem flagList_head {f : String} (h : FlagName f) (flags : List String) :
    ∃ c cs, flagList (f :: flags) = c :: cs ∧ isFlagChar c = true := by
  obtain ⟨c, cs, chars⟩ := List.exists_cons_of_ne_nil h.ne_nil
  have letter := h.chars c (by rw [chars]; exact List.mem_cons_self)
  cases flags with
  | nil => exact ⟨c, cs, chars, letter⟩
  | cons g rest =>
    refine ⟨c, cs ++ ',' :: ' ' :: flagList (g :: rest), ?_, letter⟩
    rw [flagList, chars, List.cons_append]

section Reach

variable {s : List Char} (h : ∀ c ∈ s, isFlagChar c = true)

include h

/-- A name before a blank and an equals sign is the last one. -/
theorem flagsReach_last (n : Nat) (rest : List Char) :
    flagsReach n (s ++ ' ' :: '=' :: rest) = n + s.length := by
  have name := takeWhile_run h (d := ' ') (by decide) ('=' :: rest)
  have gap : (' ' :: '=' :: rest).takeWhile Unicode.isSpace = [' '] := rfl
  rw [flagsReach]
  simp only [name, List.drop_left, gap]
  split
  · rename_i more behind
    rw [name, ← List.drop_drop, List.drop_left, gap] at behind
    cases behind
  · rfl

/-- After a name, a comma and a blank the next name is read. -/
theorem flagsReach_comma {c : Char} (letter : isFlagChar c = true) (n : Nat) (rest : List Char) :
    flagsReach n (s ++ ',' :: ' ' :: c :: rest) = flagsReach (n + s.length + 2) (c :: rest) := by
  have name := takeWhile_run h (d := ',') (by decide) (' ' :: c :: rest)
  have gap : (',' :: ' ' :: c :: rest).takeWhile Unicode.isSpace = [] := rfl
  have gap' : (' ' :: c :: rest).takeWhile Unicode.isSpace = [' '] := by
    rw [List.takeWhile_cons_of_pos (by decide),
      List.takeWhile_cons_of_neg (by simp [isSpace_of_flagChar letter])]
  rw [flagsReach]
  simp only [name, List.drop_left, gap]
  split
  · rename_i more behind
    rw [name, ← List.drop_drop, List.drop_left, gap] at behind
    cases behind
    simp only [gap', List.length_singleton, List.drop_succ_cons, List.drop_zero, List.headD_cons,
      letter, if_true, List.length_nil, Nat.add_zero]
  · rename_i other
    rw [name, ← List.drop_drop, List.drop_left, gap] at other
    exact absurd rfl (other _)

end Reach

/-- **A list of flags is read to its end**, before a blank and an equals sign. -/
theorem flagsReach_flagList {f : String} {flags : List String} (h : ∀ g ∈ f :: flags, FlagName g)
    (n : Nat) (rest : List Char) :
    flagsReach n (flagList (f :: flags) ++ ' ' :: '=' :: rest) =
      n + (flagList (f :: flags)).length := by
  induction flags generalizing f n with
  | nil => exact flagsReach_last (h f List.mem_cons_self).chars n rest
  | cons g flags ih =>
    obtain ⟨hf, others⟩ := List.forall_mem_cons.mp h
    obtain ⟨c, cs, next, letter⟩ := flagList_head (others g List.mem_cons_self) flags
    have later := ih others (n + f.toList.length + 2)
    rw [flagList, List.append_assoc, List.cons_append, List.cons_append]
    rw [next, List.cons_append] at later ⊢
    rw [flagsReach_comma hf.chars letter, later]
    simp only [List.length_append, List.length_cons]
    omega

/-! ## 4. Pieces between commas -/

theorem splitCommas_ne_nil (s : List Char) : splitCommas s ≠ [] := by
  cases s with
  | nil => exact List.cons_ne_nil _ _
  | cons c s =>
    unfold splitCommas
    rw [List.foldr_cons]
    split
    · exact List.cons_ne_nil _ _
    · split <;> exact List.cons_ne_nil _ _

theorem splitCommas_comma (s : List Char) : splitCommas (',' :: s) = [] :: splitCommas s := rfl

theorem splitCommas_cons {c : Char} (hc : c ≠ ',') {s p : List Char} {more : List (List Char)}
    (h : splitCommas s = p :: more) : splitCommas (c :: s) = (c :: p) :: more := by
  unfold splitCommas at h ⊢
  rw [List.foldr_cons, h, if_neg (by simpa using hc)]

/-- Characters that are no commas belong to the first piece. -/
theorem splitCommas_append {s : List Char} (hs : ∀ c ∈ s, c ≠ ',') {t p : List Char}
    {more : List (List Char)} (h : splitCommas t = p :: more) :
    splitCommas (s ++ t) = (s ++ p) :: more := by
  induction s with
  | nil => exact h
  | cons c s ih =>
    obtain ⟨hc, others⟩ := List.forall_mem_cons.mp hs
    exact splitCommas_cons hc (ih others)

theorem FlagName.no_comma {f : String} (h : FlagName f) : ∀ c ∈ f.toList, c ≠ ',' := by
  rintro c hc rfl
  cases h.chars ',' hc

/-- The pieces of a list of flags are the names, but for white space around them. -/
theorem pieces_flagList {f : String} {flags : List String} (h : ∀ g ∈ f :: flags, FlagName g) :
    (splitCommas (flagList (f :: flags))).map trim = (f :: flags).map String.toList := by
  induction flags generalizing f with
  | nil =>
    have hf := h f List.mem_cons_self
    have single : splitCommas f.toList = [f.toList] := by
      have := splitCommas_append hf.no_comma (t := []) rfl
      rwa [List.append_nil] at this
    rw [flagList, single, List.map_singleton, trim_flagChars hf.chars]
    rfl
  | cons g flags ih =>
    obtain ⟨hf, others⟩ := List.forall_mem_cons.mp h
    obtain ⟨p, more, pieces⟩ :=
      List.exists_cons_of_ne_nil (splitCommas_ne_nil (flagList (g :: flags)))
    have later := ih others
    have blank := splitCommas_cons (c := ' ') (by decide) pieces
    have cut := splitCommas_append hf.no_comma
      (splitCommas_comma (' ' :: flagList (g :: flags)))
    rw [blank, List.append_nil] at cut
    rw [pieces] at later
    rw [flagList, cut, List.map_cons, trim_flagChars hf.chars]
    exact congrArg (f.toList :: ·) later

/-- **The names of flags are read back** from the list of them. -/
theorem flagNames_flagList {flags : List String} (h : ∀ f ∈ flags, FlagName f) :
    flagNames (flagList flags) = flags := by
  have kept : (flags.map String.toList).filter (!·.isEmpty) = flags.map String.toList := by
    rw [List.filter_eq_self]
    intro s hs
    obtain ⟨f, hf, rfl⟩ := List.mem_map.mp hs
    simp [(h f hf).ne_nil]
  have same : (flags.map String.toList).map String.ofList = flags := by simp
  cases flags with
  | nil => rfl
  | cons f flags => rw [flagNames, pieces_flagList h, kept, same]

end GrammarFile

end GrammarMatch
