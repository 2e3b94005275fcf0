/-
  File:      GrammarMatch/Proofs/Endings.lean
  Subject:   Where tokens end.

  A token may be the beginning of a longer one of its kind: a run of characters goes on with more of
  them, an opener with the mark of its kind, an escape with the braces of a property, a quantifier
  with the mark that makes it lazy. What such a longer token has in addition is never layout, and no
  comment begins in it (`goesOn_lexemes`). So a token is the longest word of its kind wherever
  layout follows it, whatever may come after that (`Longest.before`).
-/
import GrammarMatch.Proofs.Lexeme

namespace GrammarMatch.Syntax

open Computability

/-! ## 1. Words that go on -/

/-- Neither layout nor a comment begins with the character. -/
def isVisible (c : Char) : Bool := !isLayout c && c != '#'

/-- All characters of the words of a language pass a test. -/
def Over (p : Char → Bool) (L : Language Char) : Prop := ∀ w ∈ L, ∀ c ∈ w, p c = true

/-- No word of a language begins with another one. -/
def PrefixFree (L : Language Char) : Prop := ∀ u ∈ L, ∀ v, u ++ v ∈ L → v = []

/-- What a word of a language has in addition to another one is visible. -/
def GoesOn (L : Language Char) : Prop := ∀ u ∈ L, ∀ v, u ++ v ∈ L → ∀ c ∈ v, isVisible c = true

section Rules

variable {p q : Char → Bool} {L M : Language Char}

theorem over_charsOf (h : ∀ c, p c = true → q c = true) : Over q (charsOf p) := by
  rintro _ ⟨c, hc, rfl⟩
  exact List.forall_mem_singleton.mpr (h c hc)

theorem over_charOf {c : Char} (h : q c = true) : Over q (charOf c) :=
  over_charsOf fun _ same => beq_iff_eq.mp same ▸ h

theorem over_one : Over p 1 := by
  intro w hw
  rw [Language.mem_one] at hw
  rw [hw]
  exact List.forall_mem_nil _

theorem Over.add (hL : Over p L) (hM : Over p M) : Over p (L + M) := fun w hw =>
  ((Language.mem_add L M w).mp hw).elim (hL w) (hM w)

theorem Over.mul (hL : Over p L) (hM : Over p M) : Over p (L * M) := by
  intro w hw
  obtain ⟨a, ha, b, hb, rfl⟩ := Language.mem_mul.mp hw
  exact List.forall_mem_append.mpr ⟨hL a ha, hM b hb⟩

theorem Over.kstar (h : Over p L) : Over p L∗ := by
  intro w hw
  obtain ⟨words, rfl, hwords⟩ := Language.mem_kstar.mp hw
  intro c hc
  obtain ⟨word, hword, hc⟩ := List.mem_flatten.mp hc
  exact h word (hwords word hword) c hc

theorem Over.goesOn (h : Over isVisible L) : GoesOn L := fun _ _ _ more =>
  (List.forall_mem_append.mp (h _ more)).2

theorem PrefixFree.goesOn (h : PrefixFree L) : GoesOn L := by
  intro u hu v more
  rw [h u hu v more]
  exact List.forall_mem_nil _

theorem prefixFree_charsOf : PrefixFree (charsOf p) := by
  rintro _ ⟨c, _, rfl⟩ v ⟨d, _, hd⟩
  exact (List.cons.inj hd).2

theorem prefixFree_one : PrefixFree 1 := by
  intro u hu v more
  rw [Language.mem_one] at more
  exact (List.append_eq_nil_iff.mp more).2

/-- Whether words go on is decided after their first character. -/
theorem prefixFree_of_following (visible : [] ∉ L) (h : ∀ c, PrefixFree (following c L)) :
    PrefixFree L := by
  intro u hu v more
  cases u with
  | nil => exact absurd hu visible
  | cons c u => exact h c u hu v more

/-- Of two words of a product, one of which begins with the other, the first factors are equal. -/
theorem PrefixFree.factors (h : PrefixFree L) {a a' b b' v : List Char} (ha : a ∈ L) (ha' : a' ∈ L)
    (whole : a' ++ b' = a ++ b ++ v) : b' = b ++ v := by
  rw [List.append_assoc] at whole
  rcases List.append_eq_append_iff.mp whole with ⟨w, rfl, rest⟩ | ⟨w, rfl, rest⟩
  · obtain rfl := h a' ha' w ha
    exact rest
  · obtain rfl := h a ha w ha'
    exact rest.symm

theorem PrefixFree.mul (hL : PrefixFree L) (hM : PrefixFree M) : PrefixFree (L * M) := by
  intro u hu v more
  obtain ⟨a, ha, b, hb, rfl⟩ := Language.mem_mul.mp hu
  obtain ⟨a', ha', b', hb', whole⟩ := Language.mem_mul.mp more
  obtain rfl := hL.factors ha ha' whole
  exact hM b hb v hb'

/-- After a first factor whose words do not go on, a product goes on as its second factor does. -/
theorem PrefixFree.mul_goesOn (hL : PrefixFree L) (hM : GoesOn M) : GoesOn (L * M) := by
  intro u hu v more
  obtain ⟨a, ha, b, hb, rfl⟩ := Language.mem_mul.mp hu
  obtain ⟨a', ha', b', hb', whole⟩ := Language.mem_mul.mp more
  obtain rfl := hL.factors ha ha' whole
  exact hM b hb v hb'

end Rules

/-! ## 2. Stops -/

theorem prefixFree_piece {stop : Char} : PrefixFree (piece stop) := by
  refine prefixFree_of_following nil_notMem_piece fun c => ?_
  rw [following_piece]
  split
  · exact prefixFree_charsOf
  · split
    · exact fun u none => absurd none (Language.notMem_zero u)
    · exact prefixFree_one

/-- The first stop that no backslash takes is the end. -/
theorem prefixFree_upTo {stop : Char} (plain : stop ≠ '\\') : PrefixFree (upTo stop) := by
  intro u
  induction h : u.length using Nat.strong_induction_on generalizing u with
  | _ length ih =>
    subst h
    intro hu v more
    cases u with
    | nil => exact absurd hu nil_notMem_upTo
    | cons c u =>
      rw [← mem_following, following_upTo plain] at hu
      rw [List.cons_append, ← mem_following, following_upTo plain] at more
      split at hu
      next slash =>
        rw [if_pos slash] at more
        obtain ⟨a, ha, b, hb, rfl⟩ := Language.mem_mul.mp hu
        obtain ⟨a', ha', b', hb', whole⟩ := Language.mem_mul.mp more
        obtain rfl := PrefixFree.factors prefixFree_charsOf ha ha' whole
        refine ih b.length ?_ b rfl hb v hb'
        rw [List.length_cons, List.length_append]
        omega
      next slashless =>
        rw [if_neg slashless] at more
        split at hu
        next stops =>
          rw [if_pos stops] at more
          exact prefixFree_one u hu v more
        next goes =>
          rw [if_neg goes] at more
          exact ih u.length (Nat.lt_succ_self _) u rfl hu v more

/-- The first character that does not belong to a run is the end. -/
theorem prefixFree_run {p : Char → Bool} {e : Char} (apart : p e = false) :
    PrefixFree ((charsOf p)∗ * charOf e) := by
  intro u
  induction u with
  | nil => exact fun none => absurd none (by simp)
  | cons c u ih =>
    intro hu v more
    have after : following c ((charsOf p)∗ * charOf e) =
        if p c = true then (charsOf p)∗ * charOf e else if c = e then 1 else 0 := by
      rw [following_kstar_mul nil_notMem_charsOf, following_charsOf, following_charOf]
      by_cases run : p c = true
      · have other : c ≠ e := by
          rintro rfl
          rw [apart] at run
          cases run
        rw [if_pos run, if_pos run, if_neg other, one_mul, add_zero]
      · rw [if_neg run, if_neg run, zero_mul, zero_add]
    rw [← mem_following, after] at hu
    rw [List.cons_append, ← mem_following, after] at more
    split at hu
    next run =>
      rw [if_pos run] at more
      exact ih hu v more
    next ends =>
      rw [if_neg ends] at more
      split at hu
      next last =>
        rw [if_pos last] at more
        exact prefixFree_one u hu v more
      next => exact absurd hu (Language.notMem_zero u)

/-! ## 3. Kinds of tokens -/

/-- The characters with which layout begins. -/
def layoutHeads : List Char := [' ', '\t', '\x0c', '\r', '\n', '#']

/-- A test that no character of layout passes is passed by visible ones only. -/
theorem isVisible_of {p : Char → Bool} (h : (layoutHeads.all fun d => !p d) = true) {c : Char}
    (hc : p c = true) : isVisible c = true := by
  have other : c ∉ layoutHeads := fun hd => by
    have refused := List.all_eq_true.mp h c hd
    rw [hc] at refused
    cases refused
  simp only [layoutHeads, List.mem_cons, List.not_mem_nil, or_false, not_or] at other
  simp [isVisible, isLayout, other]

theorem over_isBare : Over isVisible (charsOf isBare) :=
  over_charsOf fun _ h => isVisible_of (by decide) h

theorem over_isWord : Over isVisible (charsOf Unicode.isWord) :=
  over_charsOf fun _ h => isVisible_of (by decide) h

theorem over_isNameStart : Over isVisible (charsOf isNameStart) :=
  over_charsOf fun _ h => isVisible_of (by decide) h

theorem over_isNameChar : Over isVisible (charsOf isNameChar) :=
  over_charsOf fun _ h => isVisible_of (by decide) h

theorem over_ruleName : Over isVisible ruleName := over_isNameStart.mul over_isNameChar.kstar

theorem over_groupMark : Over isVisible groupMark := by
  have name : Over isVisible groupName :=
    over_isNameStart.mul (over_isWord.kstar.mul (over_charOf rfl))
  refine .add (.add (.add (over_charOf rfl) (over_charOf rfl)) (over_charOf rfl)) ?_
  exact .mul (over_charOf rfl) (.add (.add (over_charOf rfl) (over_charOf rfl)) name)

theorem over_reference : Over isVisible TokenKind.reference.lexemes := by
  have name : Over isVisible (1 + ruleName * charOf '=') :=
    over_one.add (over_ruleName.mul (over_charOf rfl))
  have point : Over isVisible (1 + charOf '.') := over_one.add (over_charOf rfl)
  exact .mul (.mul (.mul (.mul (over_charOf rfl) name) point) over_ruleName) (over_charOf rfl)

theorem over_opener : Over isVisible TokenKind.opener.lexemes :=
  .mul (over_charOf rfl) (over_one.add (.mul (over_charOf rfl) over_groupMark))

/-- Between quotes of one kind, or of the other. -/
theorem prefixFree_quoted : PrefixFree TokenKind.quoted.lexemes := by
  refine prefixFree_of_following (nil_notMem_lexemes .quoted) fun c => ?_
  show PrefixFree (following c (charOf '\'' * upTo '\'' + charOf '"' * upTo '"'))
  rw [following_add, following_mul nil_notMem_charOf, following_mul nil_notMem_charOf,
    following_charOf, following_charOf]
  by_cases single : c = '\''
  · rw [if_pos single, if_neg (single ▸ by decide), one_mul, zero_mul, add_zero]
    exact prefixFree_upTo (by decide)
  · rw [if_neg single, zero_mul, zero_add]
    by_cases double : c = '"'
    · rw [if_pos double, one_mul]
      exact prefixFree_upTo (by decide)
    · rw [if_neg double, zero_mul]
      exact fun u none => absurd none (Language.notMem_zero u)

theorem prefixFree_class : PrefixFree TokenKind.charClass.lexemes := by
  have same : TokenKind.charClass.lexemes = charOf '[' * (piece ']' * upTo ']') := by
    rw [TokenKind.lexemes, mul_assoc, mul_assoc, caret_absorbed]
  rw [same]
  exact prefixFree_charsOf.mul (prefixFree_piece.mul (prefixFree_upTo (by decide)))

/-- After a backslash and a letter an escape may go on with the braces of a property. -/
theorem goesOn_escape : GoesOn TokenKind.escape.lexemes := by
  refine PrefixFree.mul_goesOn prefixFree_charsOf fun u hu v more => ?_
  have property : Over isVisible
      (charsOf isPropertyLetter * (charOf '\x7b' * (propertyName * charOf '\x7d'))) := by
    have letter : Over isVisible (charsOf isPropertyLetter) :=
      over_charsOf fun _ h => isVisible_of (by decide) h
    have name : Over isVisible propertyName := over_isNameStart.mul over_isNameStart.kstar
    exact letter.mul (.mul (over_charOf rfl) (name.mul (over_charOf rfl)))
  rcases (Language.mem_add _ _ _).mp more with one | braces
  · obtain ⟨d, _, hd⟩ := one
    cases u with
    | nil => exact absurd hu (by simp [-add_eq_sup])
    | cons c u =>
      obtain ⟨_, rfl⟩ := List.append_eq_nil_iff.mp (List.cons.inj hd).2
      exact List.forall_mem_nil _
  · exact (List.forall_mem_append.mp (property _ braces)).2

/-- A quantifier goes on with the mark that makes it lazy, and with nothing else. -/
theorem goesOn_quantifier : GoesOn TokenKind.quantifier.lexemes := by
  have mark : GoesOn (1 + charOf '?') := (over_one.add (over_charOf rfl)).goesOn
  refine PrefixFree.mul_goesOn (prefixFree_of_following ?_ fun c => ?_) mark
  · simp [bounds, -add_eq_sup]
  · rw [following_add, following_charsOf, bounds, mul_assoc, following_mul nil_notMem_charOf,
      following_charOf]
    by_cases brace : c = '\x7b'
    · rw [if_pos brace, if_neg (brace ▸ by decide), one_mul, zero_add]
      exact prefixFree_run (by decide)
    · rw [if_neg brace, zero_mul, add_zero]
      split
      · exact prefixFree_one
      · exact fun u none => absurd none (Language.notMem_zero u)

/-- **What a longer token has in addition is visible**, whatever its kind. -/
theorem goesOn_lexemes (kind : TokenKind) : GoesOn kind.lexemes := by
  cases kind with
  | quoted => exact prefixFree_quoted.goesOn
  | chars => exact (over_isBare.mul over_isBare.kstar).goesOn
  | charClass => exact prefixFree_class.goesOn
  | escape => exact goesOn_escape
  | reference => exact over_reference.goesOn
  | opener => exact over_opener.goesOn
  | quantifier => exact goesOn_quantifier
  | dot | caret | dollar | bar | closer => exact prefixFree_charsOf.goesOn

/-! ## 4. Longest words before layout -/

section Longest

variable {L : Language Char} {kind : TokenKind} {text rest more : List Char}

/-- What a word is the longest in front of may be cut off. -/
theorem Longest.shorten (h : Longest L text (rest ++ more)) : Longest L text rest :=
  ⟨h.1, fun other mem begins => h.2 other mem (begins.trans
    ⟨more, by rw [List.append_assoc]⟩)⟩

/-- **A token is the longest word of its kind wherever layout or nothing follows**, as soon as it is
    the longest in what stands before that. -/
theorem Longest.before (h : Longest kind.lexemes text rest)
    (layout : ∀ c ∈ more.head?, isVisible c = false) :
    Longest kind.lexemes text (rest ++ more) := by
  refine ⟨h.1, fun other mem begins => ?_⟩
  by_contra longer
  -- a longer word goes on after the text, beyond what stands before the layout
  obtain ⟨v, rfl⟩ := List.prefix_of_prefix_length_le (List.prefix_append _ _) begins
    (Nat.le_of_lt (Nat.lt_of_not_le longer))
  have visible := goesOn_lexemes kind text h.1 v mem
  rw [List.prefix_append_right_inj] at begins
  rcases List.prefix_or_prefix_of_prefix begins (List.prefix_append rest more) with within | further
  · exact longer (h.2 _ mem ((List.prefix_append_right_inj text).mpr within))
  · obtain ⟨beyond, rfl⟩ := further
    cases beyond with
    | nil => exact longer (h.2 _ mem (by rw [List.append_nil]))
    | cons c beyond =>
      obtain ⟨rest', rfl⟩ := (List.prefix_append_right_inj rest).mp begins
      have shown := visible c (List.mem_append_right rest List.mem_cons_self)
      rw [layout c rfl] at shown
      cases shown

end Longest

end GrammarMatch.Syntax
