/-
  File:      GrammarMatch/Proofs/Language.lean
  Subject:   The language of a pattern.

  Literals, classes, sequences, alternations, repetitions and groups make a regular expression,
  which denotes a language: what the leaves take, products, sums and powers. What lies between
  the ends of a derivation is in it (`Derives.mem_language`).

  A repetition ends with its first round of no width, even if there were not enough rounds. No
  text is won by it: where the body takes the empty text, as many rounds of no width as are
  missing may be added.
-/
import GrammarMatch.Proofs.Slice
import Mathlib.Computability.Language

namespace GrammarMatch

open Match

/-! ## 1. Numbers of rounds -/

namespace Quantity

/-- Some number of rounds is admissible: the bounds are in order. -/
def Fair (q : Quantity) : Prop := ∀ max, q.max = some max → q.min ≤ max ∧ 0 ≤ max

/-- So many rounds are within the bounds. -/
def Admits (q : Quantity) (k : Nat) : Prop := q.min ≤ k ∧ ∀ max, q.max = some max → k ≤ max

variable {q : Quantity}

theorem fair_of_le (nonneg : 0 ≤ q.min) (le : ∀ max, q.max = some max → q.min ≤ max) : q.Fair :=
  fun max h => ⟨le max h, Int.le_trans nonneg (le max h)⟩

theorem mayGoOn_iff {count : Nat} :
    q.mayGoOn count = true ↔ ∀ max, q.max = some max → count < max := by
  unfold mayGoOn
  cases q.max with
  | none => simp
  | some max => simp

theorem mayStop_iff {count : Nat} : q.mayStop count = true ↔ q.min ≤ count := decide_eq_true_iff

theorem max_after {max : Int} (h : (q.after 1).max = some max) : q.max = some (max + 1) := by
  obtain ⟨max', h', rfl⟩ := Option.map_eq_some_iff.mp h
  rw [h']
  congr 1
  omega

theorem Fair.after (fair : q.Fair) (room : q.mayGoOn 0 = true) : (q.after 1).Fair := by
  intro max h
  have hmax := max_after h
  have le := (fair _ hmax).1
  have lt := mayGoOn_iff.mp room _ hmax
  refine ⟨?_, by omega⟩
  show q.min - (1 : Nat) ≤ max
  omega

theorem Admits.of_after {k : Nat} (h : (q.after 1).Admits k) : q.Admits (k + 1) := by
  have least : q.min - (1 : Nat) ≤ k := h.1
  refine ⟨by omega, fun max hmax => ?_⟩
  have := h.2 (max - 1) (by rw [Quantity.after, hmax]; rfl)
  omega

/-- The least number of rounds is admissible. -/
theorem Fair.admits (fair : q.Fair) : q.Admits q.min.toNat := by
  refine ⟨by omega, fun max hmax => ?_⟩
  obtain ⟨le, nonneg⟩ := fair max hmax
  omega

end Quantity

/-! ## 2. Languages -/

namespace Pattern

/-- A pattern is a regular expression. -/
inductive Regular : Pattern → Prop
  | literal {chars : List Char} {ignoreCase : Bool} : Regular (.literal chars ignoreCase)
  | charClass {items : List ClassItem} {negated ignoreCase : Bool} :
      Regular (.charClass items negated ignoreCase)
  | sequence {parts : List Pattern} (h : ∀ p ∈ parts, Regular p) : Regular (.sequence parts)
  | alternation {branches : List Pattern} (h : ∀ p ∈ branches, Regular p) :
      Regular (.alternation .ordered branches)
  | repetition {q : Quantity} {body : Pattern} (fair : q.Fair) (h : Regular body) :
      Regular (.repetition q body)
  | group {key : Option CaptureKey} {plural : List CaptureKey} {body : Pattern}
      (h : Regular body) : Regular (.group key plural body)

mutual

/-- The language of a pattern. Only those of regular expressions are meant. -/
def language : Pattern → Language Char
  | .literal chars ignoreCase => {u | literalTakes chars ignoreCase u}
  | .charClass items negated ignoreCase =>
    {u | ∃ c, u = [c] ∧ classHas items negated ignoreCase c = .ok true}
  | .sequence parts => languageOfParts parts
  | .alternation _ branches => languageOfBranches branches
  | .repetition q body => {u | ∃ k, q.Admits k ∧ u ∈ language body ^ k}
  | .group _ _ body => language body
  | _ => 0

/-- The language of parts that follow each other. -/
def languageOfParts : List Pattern → Language Char
  | [] => 1
  | p :: rest => language p * languageOfParts rest

/-- The language of branches of which one is taken. -/
def languageOfBranches : List Pattern → Language Char
  | [] => 0
  | p :: rest => language p + languageOfBranches rest

end

variable {u : List Char}

theorem mem_language_charClass {items : List ClassItem} {negated ignoreCase : Bool} :
    u ∈ (charClass items negated ignoreCase).language ↔
      ∃ c, u = [c] ∧ classHas items negated ignoreCase c = .ok true := Iff.rfl

theorem mem_language_literal {chars : List Char} {ignoreCase : Bool} :
    u ∈ (literal chars ignoreCase).language ↔ literalTakes chars ignoreCase u := Iff.rfl

theorem language_sequence_nil : (sequence []).language = 1 := rfl

theorem language_sequence_cons (p : Pattern) (rest : List Pattern) :
    (sequence (p :: rest)).language = p.language * (sequence rest).language := rfl

theorem mem_language_alternation {mode : ChoiceMode} {branches : List Pattern} :
    u ∈ (alternation mode branches).language ↔ ∃ p ∈ branches, u ∈ p.language := by
  induction branches with
  | nil =>
    constructor
    · intro h
      exact absurd h (Language.notMem_zero u)
    · rintro ⟨_, mem, _⟩
      cases mem
  | cons p rest ih =>
    show u ∈ p.language + (alternation mode rest).language ↔ _
    rw [Language.mem_add, ih, List.exists_mem_cons_iff]

theorem mem_language_repetition {q : Quantity} {body : Pattern} :
    u ∈ (repetition q body).language ↔ ∃ k, q.Admits k ∧ u ∈ body.language ^ k := Iff.rfl

theorem language_group (key : Option CaptureKey) (plural : List CaptureKey) (body : Pattern) :
    (group key plural body).language = body.language := rfl

theorem Regular.repetition_inv {q : Quantity} {body : Pattern}
    (h : (Pattern.repetition q body).Regular) : q.Fair ∧ body.Regular := by
  cases h with
  | repetition fair h => exact ⟨fair, h⟩

theorem nil_mem_pow {L : Language Char} (h : [] ∈ L) (k : Nat) : [] ∈ L ^ k := by
  refine Language.mem_pow.mpr ⟨List.replicate k [], ?_, List.length_replicate, fun y hy => ?_⟩
  · exact (List.flatten_replicate_nil).symm
  · rw [List.eq_of_mem_replicate hy]
    exact h

/-- A number of rounds, those of no width apart. -/
theorem mem_pow_split {L : Language Char} {k : Nat} (h : u ∈ L ^ k) :
    ∃ rounds : List (List Char), ∃ empty : Nat, u = rounds.flatten ∧
      (∀ v ∈ rounds, v ≠ [] ∧ v ∈ L) ∧ (0 < empty → [] ∈ L) ∧ k = rounds.length + empty := by
  obtain ⟨S, rfl, rfl, hS⟩ := Language.mem_pow.mp h
  refine ⟨S.filter (· ≠ []), (S.filter (· = [])).length, ?_, ?_, ?_, ?_⟩
  · exact List.flatten_filter_ne_nil.symm
  · intro v hv
    obtain ⟨mem, ne⟩ := List.mem_filter.mp hv
    exact ⟨of_decide_eq_true ne, hS v mem⟩
  · intro some
    obtain ⟨v, hv⟩ := List.exists_mem_of_length_pos some
    obtain ⟨mem, eq⟩ := List.mem_filter.mp hv
    exact of_decide_eq_true eq ▸ hS v mem
  · have := List.length_eq_length_filter_add (l := S) (fun v => decide (v ≠ []))
    simpa using this

end Pattern

/-! ## 3. What lies between the ends of a derivation -/

namespace Match

open Pattern

/-- **What lies between the ends of a derivation is in the language of the pattern.** -/
theorem Derives.mem_language {w : Basis} {p : Pattern} {s t : Solution} (h : Derives w p s t)
    (regular : p.Regular) (start : 0 ≤ s.stop) (inside : s.stop ≤ w.env.text.stop) :
    w.env.text.slice s.stop t.stop ∈ p.language := by
  have span {p : Pattern} {s t : Solution} (h : Derives w p s t) (start : 0 ≤ s.stop)
      (inside : s.stop ≤ w.env.text.stop) : w.env.text.Span s.stop t.stop :=
    ⟨start, h.onward.1, h.le_stop start inside⟩
  induction h with
  | literal h =>
    exact mem_language_literal.mpr
      ((literalStop_slice (span (.literal h) start inside)).mp h)
  | @charClass _ _ _ s h =>
    obtain ⟨c, _, one⟩ := exists_char start (lt_of_classHolds h)
    refine mem_language_charClass.mpr ⟨c, one, ?_⟩
    rw [← classHolds_slice (span (.charClass h) start inside) one]
    exact h
  | nil =>
    rw [language_sequence_nil, Text.slice_self start inside]
    exact Language.nil_mem_one
  | @cons p rest s t u hp hrest ih₁ ih₂ =>
    cases regular with
    | sequence regular =>
      have first := span hp start inside
      have start' : 0 ≤ t.stop := Int.le_trans start first.le
      rw [language_sequence_cons, ← Text.slice_append first (span hrest start' first.le_stop)]
      exact Language.append_mem_mul (ih₁ (regular p List.mem_cons_self) start inside)
        (ih₂ (.sequence fun p hp => regular p (List.mem_cons_of_mem _ hp)) start' first.le_stop)
  | branch mem _ ih =>
    cases regular with
    | alternation regular =>
      exact mem_language_alternation.mpr ⟨_, mem, ih (regular _ mem) start inside⟩
  | @stop q body s enough =>
    obtain ⟨fair, _⟩ := regular.repetition_inv
    refine mem_language_repetition.mpr ⟨0, ⟨?_, fun max hmax => (fair max hmax).2⟩, ?_⟩
    · exact Quantity.mayStop_iff.mp enough
    · rw [Text.slice_self start inside, pow_zero]
      exact Language.nil_mem_one
  | @last q body s t room h width ih =>
    obtain ⟨fair, regular⟩ := regular.repetition_inv
    have empty := ih regular start inside
    rw [width, Text.slice_self start inside] at empty ⊢
    exact mem_language_repetition.mpr ⟨q.min.toNat, fair.admits, nil_mem_pow empty _⟩
  | @more q body s t u room h width rest ih₁ ih₂ =>
    obtain ⟨fair, regular⟩ := regular.repetition_inv
    have first := span h start inside
    have start' : 0 ≤ t.stop := Int.le_trans start first.le
    obtain ⟨k, admits, later⟩ := mem_language_repetition.mp
      (ih₂ (.repetition (fair.after room) regular) start' first.le_stop)
    refine mem_language_repetition.mpr ⟨k + 1, admits.of_after, ?_⟩
    rw [pow_succ', ← Text.slice_append first (span rest start' first.le_stop)]
    exact Language.append_mem_mul (ih₁ regular start inside) later
  | enclosed _ ih =>
    cases regular with
    | group regular =>
      rw [language_group]
      exact ih regular start inside
  | grouped _ ih =>
    cases regular with
    | group regular =>
      rw [language_group]
      exact ih regular start inside
  | look => cases regular
  | anchor _ => cases regular
  | ruleRef _ _ _ _ => cases regular
  | space _ _ _ _ _ => cases regular
  | gap _ _ => cases regular

end Match

end GrammarMatch
