/-
  File:      GrammarMatch/Proofs/FullMatch.lean
  Subject:   A full match decides the language of the pattern.

  The pattern of a full match is followed by the end of the text. If it is a regular expression,
  there is a capture exactly for the texts of its language (`fullMatch_decides`), unless a
  failure comes first: the nesting is limited, and the test of a class may fail.
-/
import GrammarMatch.Finder
import GrammarMatch.Proofs.Completeness
import GrammarMatch.Proofs.Standalone

namespace GrammarMatch

open Match

theorem Pattern.Regular.standalone {p : Pattern} (h : p.Regular) : p.Standalone true := by
  induction h with
  | literal => exact .literal
  | charClass => exact .charClass
  | sequence _ ih => exact .sequence ih
  | alternation _ ih => exact .alternation ih
  | repetition _ _ ih => exact .repetition ih
  | group _ ih => exact .group ih

/-! ## 1. The end of the text -/

namespace Pattern

/-- A pattern with the end of the text after it. -/
def toEnd (p : Pattern) : Pattern := .sequence [p, .anchor .endOfString]

theorem Standalone.toEnd {space : Bool} {p : Pattern} (h : p.Standalone space) :
    p.toEnd.Standalone space :=
  .sequence (List.forall_mem_cons.mpr ⟨h, List.forall_mem_singleton.mpr .anchor⟩)

variable {w : Basis} {p : Pattern} {depth : Nat} {active : Active}

theorem toEnd_sound (regular : p.Regular) {t : Solution} (h : Derives w p.toEnd ⟨0, []⟩ t) :
    w.env.text.toList ∈ p.language := by
  have whole := w.env.text.span_whole
  cases h with
  | cons hp hrest =>
    cases hrest with
    | @cons _ _ _ u _ atEnd hnil =>
      cases hnil
      cases atEnd with
      | anchor holds =>
        have stop : t.stop = w.env.text.stop := eq_of_beq (Except.ok.inj holds)
        have mem := hp.mem_language regular whole.nonneg whole.le
        rw [stop, Text.slice_whole] at mem
        exact mem

theorem toEnd_complete (regular : p.Regular) (h : w.env.text.toList ∈ p.language) :
    (w.solutions depth active p.toEnd ⟨0, []⟩).Covers fun _ => True := by
  rw [← Text.slice_whole] at h
  have body := solutions_complete regular (depth + 1) active ⟨0, []⟩ _ w.env.text.span_whole h
  refine solutions_covers (body.bind fun u _ hu => ?_)
  refine Answers.Covers.bind (P := fun _ => True) (solutions_covers ?_) fun v _ _ =>
    Answers.covers_just trivial
  have holds : anchorHolds w.env.text u.stop .endOfString = .ok true :=
    congrArg Except.ok (beq_iff_eq.mpr hu)
  simp only [Basis.part, holds]
  exact Answers.covers_just trivial

/-- Where nesting is allowed and every class can be tested, no failure comes before the end of the
    text. -/
theorem toEnd_ends (again : ∀ v, w.again ≠ .ok (some v)) (testable : Testable w.env.text p)
    (alone : p.Standalone w.lexicon.space) (allows : w.env.settings.Allows (p.height + 2)) :
    (w.solutions 1 active p.toEnd ⟨0, []⟩).Ends := by
  have parts : ∀ c ∈ p.toEnd.children, Testable w.env.text c := by
    refine List.forall_mem_cons.mpr ⟨testable, List.forall_mem_singleton.mpr (.intro ?_ ?_ ?_)⟩
    · exact fun _ _ _ same => by cases same
    · exact fun _ _ same => by cases same
    · exact List.forall_mem_nil _
  have whole : Testable w.env.text p.toEnd :=
    .intro (fun _ _ _ same => by cases same) (fun _ _ same => by cases same) parts
  have low : 1 + p.toEnd.height ≤ p.height + 2 := by
    show 1 + max (p.height + 1) (max (0 + 1) 0) ≤ p.height + 2
    omega
  have start := Text.span_self (Int.le_refl 0) w.env.text.span_whole.le
  exact (solutions_safe again whole alone.toEnd (allows.mono low) active ⟨0, []⟩ start).1

end Pattern

/-! ## 2. Full matches -/

namespace Finder

variable (f : Finder) (text : Text)

/-- What plain recursion without rules depends on in a full match. -/
def basis : Basis := Basis.of (f.matcher text).env (Lexicon.of none)

theorem fullMatch_eq (regular : f.pattern.Regular) :
    f.fullMatch text =
      ((f.basis text).solutions 1 [] f.pattern.toEnd ⟨0, []⟩).first.map (·.map fun t =>
        .build none 0 t.stop f.whole.pluralKeys none t.captured) := by
  have alone : f.pattern.toEnd.Standalone true := regular.standalone.toEnd
  show (((f.matcher text).ask (.pattern f.pattern.toEnd) 0).1).map _ = _
  rw [(ask_standalone _ alone (fun _ => rfl) 0).1, Basis.answer_pattern]
  show ((((f.basis text).solutions 1 [] f.pattern.toEnd ⟨0, []⟩).first.map _).map _ :
    Except Failure (Option Capture)) = _
  cases ((f.basis text).solutions 1 [] f.pattern.toEnd ⟨0, []⟩).first with
  | error e => rfl
  | ok o => cases o <;> rfl

/-- **A full match decides the language of the pattern.** Whatever it answers is right, and it
    does answer where there are levels enough and every class can be tested. -/
theorem fullMatch_decides (regular : f.pattern.Regular) :
    (∀ found, f.fullMatch text = .ok found →
      (found.isSome = true ↔ text.toList ∈ f.pattern.language)) ∧
    ∀ n, Fits text n f.pattern → f.settings.Allows (n + 1) →
      ∃ found, f.fullMatch text = .ok found := by
  have again : ∀ v, (f.basis text).again ≠ .ok (some v) := fun v h => by cases h
  rw [fullMatch_eq f text regular]
  constructor
  · intro found hfound
    cases hfirst : ((f.basis text).solutions 1 [] f.pattern.toEnd ⟨0, []⟩).first with
    | error e =>
      rw [hfirst] at hfound
      cases hfound
    | ok o =>
      rw [hfirst] at hfound
      cases hfound
      cases o with
      | none =>
        refine ⟨fun h => (by cases h), fun mem => ?_⟩
        exact absurd hfirst (Pattern.toEnd_complete (w := f.basis text) regular mem).found
      | some t =>
        have derives := eval_derives again _ _ _ _ _ _ (Answers.mem_of_first hfirst)
        exact ⟨fun _ => Pattern.toEnd_sound (w := f.basis text) regular derives, fun _ => rfl⟩
  · intro n fits allows
    have ends : ((f.basis text).solutions 1 [] f.pattern.toEnd ⟨0, []⟩).Ends :=
      Pattern.toEnd_ends again fits.testable (fits.standalone _)
        (allows.mono (Nat.succ_le_succ fits.height))
    obtain ⟨o, ho⟩ := ends.first
    rw [ho]
    exact ⟨_, rfl⟩

/-- A finder for a pattern that was not written as one. -/
def ofPattern (p : Pattern) (settings : Settings) : Finder := ⟨"", .none, none, settings, p⟩

/-- A letter that may be missing, three to five times. -/
def fewLetters : Finder :=
  ofPattern (.repetition ⟨3, some 5, true⟩ (.group none []
    (.repetition ⟨0, some 1, true⟩ (.literal ['x'] false)))) {}

/-- One letter is among three to five that may be missing, though the round after it has no
    width and is the last. -/
theorem fullMatch_decides_fewLetters :
    fewLetters.pattern.Regular ∧
      (Fits (Text.ofString "x") 4 fewLetters.pattern ∧ fewLetters.settings.Allows 5) ∧
      ['x'] ∈ fewLetters.pattern.language := by
  have few : (Quantity.mk 3 (some 5) true).Fair :=
    Quantity.fair_of_le (by decide) fun max h => by cases h; decide
  have once : (Quantity.mk 0 (some 1) true).Fair :=
    Quantity.fair_of_le (by decide) fun max h => by cases h; decide
  have regular : fewLetters.pattern.Regular :=
    .repetition few (.group (.repetition once .literal))
  have fits : Fits (Text.ofString "x") 4 fewLetters.pattern :=
    .repetition (.group (.repetition .literal))
  have allows : fewLetters.settings.Allows 5 := ⟨by decide, fun _ h => by cases h⟩
  obtain ⟨right, answers⟩ := fullMatch_decides fewLetters (Text.ofString "x") regular
  obtain ⟨found, hfound⟩ := answers 4 fits allows
  have some : found.isSome = true := by
    rw [fullMatch_eq _ _ regular] at hfound
    cases hfound
    rfl
  exact ⟨regular, ⟨fits, allows⟩, (right found hfound).mp some⟩

/-- A letter, with nesting limited to one level. -/
def shallow : Finder := ofPattern (.literal ['a'] false) { maxDepth := some 1 }

/-- A letter, or a character of a property that does not exist. -/
def untestable : Finder :=
  ofPattern (.alternation .ordered
    [.charClass [.property "Nope" false] false false, .literal ['a'] false]) {}

/-- A text of the language is refused where nesting is not allowed, or where a class cannot be
    tested. -/
theorem fullMatch_may_fail :
    (shallow.pattern.Regular ∧ ['a'] ∈ shallow.pattern.language ∧
      shallow.fullMatch (Text.ofString "a") = .error (.depthLimit 2 0)) ∧
    (untestable.pattern.Regular ∧ ['a'] ∈ untestable.pattern.language ∧
      untestable.fullMatch (Text.ofString "a") = .error (.unknownProperty "Nope")) := by
  have letter : ['a'] ∈ (Pattern.literal ['a'] false).language := rfl
  have regular : untestable.pattern.Regular := .alternation fun p hp => by
    rcases List.mem_cons.mp hp with rfl | hp
    · exact .charClass
    · rw [List.mem_singleton.mp hp]
      exact .literal
  refine ⟨⟨.literal, letter, ?_⟩, ⟨regular, ?_, ?_⟩⟩
  · rw [fullMatch_eq _ _ .literal]
    rfl
  · refine Pattern.mem_language_alternation.mpr ⟨_, ?_, letter⟩
    exact List.mem_cons_of_mem _ List.mem_cons_self
  · rw [fullMatch_eq _ _ regular]
    rfl

end Finder

end GrammarMatch
