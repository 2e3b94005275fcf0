/-
  File:      GrammarMatch/Proofs/Longest.lean
  Subject:   The longest word of a language with which characters begin.

  A language is followed through characters, one after the other: what follows a first character
  in its words is a language again (`following`), and an equation for each operation computes it.
  How far the longest word reaches (`Extent`) comes from how far it reaches in the language that
  follows the first character (`Extent.cons`), so that a reader that goes from left to right is
  compared with a regular expression step by step.
-/
import Mathlib.Computability.Language

namespace GrammarMatch.Syntax

open Computability

/-! ## 1. What follows a first character -/

/-- The words of one character that passes a test. -/
def charsOf (p : Char → Bool) : Language Char := {w | ∃ c, p c = true ∧ w = [c]}

/-- The word of one given character. -/
def charOf (c : Char) : Language Char := charsOf (· == c)

/-- The words of any one character. -/
def anyChar : Language Char := charsOf fun _ => true

/-- What follows a first character in the words of a language. -/
def following (c : Char) (L : Language Char) : Language Char := {w | c :: w ∈ L}

section Following

variable {c : Char} {L M : Language Char}

theorem mem_following {w : List Char} : w ∈ following c L ↔ c :: w ∈ L := Iff.rfl

@[simp] theorem nil_notMem_charsOf {p : Char → Bool} : [] ∉ charsOf p := by
  rintro ⟨c, _, h⟩
  cases h

@[simp] theorem nil_notMem_charOf : [] ∉ charOf c := nil_notMem_charsOf

@[simp] theorem nil_notMem_anyChar : [] ∉ anyChar := nil_notMem_charsOf

@[simp] theorem nil_mem_add : [] ∈ L + M ↔ [] ∈ L ∨ [] ∈ M := Language.mem_add L M []

@[simp] theorem nil_mem_mul : [] ∈ L * M ↔ [] ∈ L ∧ [] ∈ M := by
  rw [Language.mem_mul]
  constructor
  · rintro ⟨a, ha, b, hb, h⟩
    obtain ⟨rfl, rfl⟩ := List.append_eq_nil_iff.mp h
    exact ⟨ha, hb⟩
  · intro ⟨hL, hM⟩
    exact ⟨[], hL, [], hM, rfl⟩

theorem following_charsOf {p : Char → Bool} :
    following c (charsOf p) = if p c = true then 1 else 0 := by
  apply Language.ext
  intro w
  rw [mem_following]
  split
  next h =>
    rw [Language.mem_one]
    constructor
    · rintro ⟨d, _, hd⟩
      exact (List.cons.inj hd).2
    · rintro rfl
      exact ⟨c, h, rfl⟩
  next h =>
    constructor
    · rintro ⟨d, hp, hd⟩
      obtain rfl := (List.cons.inj hd).1
      exact absurd hp h
    · intro none
      exact absurd none (Language.notMem_zero w)

@[simp] theorem following_charOf {d : Char} :
    following c (charOf d) = if c = d then 1 else 0 := by
  unfold charOf
  rw [following_charsOf]
  simp only [beq_iff_eq]

@[simp] theorem following_anyChar : following c anyChar = 1 := by
  unfold anyChar
  rw [following_charsOf, if_pos rfl]

@[simp] theorem following_one : following c 1 = 0 := by
  apply Language.ext
  intro w
  rw [mem_following, Language.mem_one]
  exact ⟨nofun, fun none => absurd none (Language.notMem_zero w)⟩

@[simp] theorem following_add : following c (L + M) = following c L + following c M := rfl

/-- Where the first factor has a first character, that is the first of the product. -/
@[simp] theorem following_mul (visible : [] ∉ L) : following c (L * M) = following c L * M := by
  apply Language.ext
  intro w
  rw [mem_following, Language.mem_mul, Language.mem_mul]
  constructor
  · rintro ⟨a, ha, b, hb, h⟩
    cases a with
    | nil => exact absurd ha visible
    | cons d a =>
      obtain ⟨rfl, rest⟩ := List.cons.inj h
      exact ⟨a, ha, b, hb, rest⟩
  · rintro ⟨a, ha, b, hb, rfl⟩
    exact ⟨c :: a, ha, b, hb, rfl⟩

/-- A product whose first factor is a character begins with it. -/
theorem mem_charsOf_mul {p : Char → Bool} {w : List Char} :
    c :: w ∈ charsOf p * L ↔ p c = true ∧ w ∈ L := by
  rw [← mem_following, following_mul nil_notMem_charsOf, following_charsOf]
  split
  next h => simp [h]
  next h => simp [h, Language.notMem_zero]

theorem mem_charOf_mul {d : Char} {w : List Char} : c :: w ∈ charOf d * L ↔ c = d ∧ w ∈ L := by
  unfold charOf
  rw [mem_charsOf_mul, beq_iff_eq]

theorem mem_charOf {d : Char} {w : List Char} : c :: w ∈ charOf d ↔ c = d ∧ w = [] := by
  rw [← mem_following, following_charOf]
  split
  next h => simp [h, Language.mem_one]
  next h => simp [h, Language.notMem_zero]

/-- A star stops before what comes after it, or takes one more word. -/
theorem kstar_mul : L∗ * M = L * (L∗ * M) + M := by
  calc L∗ * M = (1 + L * L∗) * M := by rw [Language.one_add_self_mul_kstar_eq_kstar]
    _ = L * (L∗ * M) + M := by rw [add_mul, one_mul, mul_assoc, add_comm]

/-- What a star takes first is a word of what it repeats, unless it is done. -/
@[simp] theorem following_kstar_mul (visible : [] ∉ L) :
    following c (L∗ * M) = following c L * (L∗ * M) + following c M := by
  conv_lhs => rw [kstar_mul]
  rw [following_add, following_mul visible]

end Following

/-! ## 2. Longest words -/

/-- The word is the longest of the language with which it and the rest begin. -/
def Longest (L : Language Char) (word rest : List Char) : Prop :=
  word ∈ L ∧ ∀ other ∈ L, other <+: word ++ rest → other.length ≤ word.length

/-- The length of the longest word of a language with which the characters begin, if they begin
    with any. -/
def Extent (L : Language Char) (w : List Char) : Option Nat → Prop
  | none => ∀ n ≤ w.length, w.take n ∉ L
  | some n => n ≤ w.length ∧ w.take n ∈ L ∧ ∀ m ≤ w.length, w.take m ∈ L → m ≤ n

section Extent

variable {L M : Language Char} {c : Char} {w : List Char} {r s : Option Nat}

/-- Characters begin with one longest word only. -/
theorem Extent.unique (h : Extent L w r) (h' : Extent L w s) : r = s := by
  cases r with
  | none =>
    cases s with
    | none => rfl
    | some m => exact absurd h'.2.1 (h m h'.1)
  | some n =>
    cases s with
    | none => exact absurd h.2.1 (h' n h.1)
    | some m =>
      have le := h'.2.2 n h.1 h.2.1
      have ge := h.2.2 m h'.1 h'.2.1
      rw [Nat.le_antisymm le ge]

theorem extent_append {word rest : List Char} :
    Extent L (word ++ rest) (some word.length) ↔ Longest L word rest := by
  show _ ≤ _ ∧ (word ++ rest).take word.length ∈ L ∧ _ ↔ _
  unfold Longest
  rw [List.take_left, List.length_append]
  constructor
  · intro ⟨_, mem, longest⟩
    refine ⟨mem, fun other hother begins => ?_⟩
    have short : other.length ≤ word.length + rest.length := by
      have := begins.length_le
      rwa [List.length_append] at this
    exact longest other.length short (by rwa [← List.prefix_iff_eq_take.mp begins])
  · intro ⟨mem, longest⟩
    refine ⟨Nat.le_add_right _ _, mem, fun m hm taken => ?_⟩
    have le := longest _ taken (List.take_prefix m (word ++ rest))
    rwa [List.length_take, List.length_append, Nat.min_eq_left hm] at le

/-- The longest word splits the characters. -/
theorem extent_iff_longest {n : Nat} :
    Extent L w (some n) ↔ n ≤ w.length ∧ Longest L (w.take n) (w.drop n) := by
  rw [← extent_append, List.take_append_drop, List.length_take]
  constructor
  · intro h
    rw [Nat.min_eq_left h.1]
    exact ⟨h.1, h⟩
  · intro ⟨le, h⟩
    rwa [Nat.min_eq_left le] at h

/-- A longest word of characters with a first one begins with it. -/
theorem Longest.cons {word rest : List Char} (visible : [] ∉ L) (h : Longest L word rest)
    (whole : word ++ rest = c :: w) :
    ∃ n, Extent L (c :: w) (some (n + 1)) ∧ word = c :: w.take n ∧ rest = w.drop n := by
  cases word with
  | nil => exact absurd h.1 visible
  | cons d word =>
    rw [List.cons_append] at whole
    obtain ⟨rfl, tail⟩ := List.cons.inj whole
    have extent := extent_append.mpr h
    refine ⟨word.length, ?_, ?_, ?_⟩
    · rw [List.cons_append, tail] at extent
      exact extent
    · rw [← tail, List.take_left]
    · rw [← tail, List.drop_left]

theorem extent_zero : Extent 0 w none := fun n _ => Language.notMem_zero (w.take n)

theorem extent_one : Extent 1 w (some 0) := by
  refine ⟨Nat.zero_le _, rfl, fun m hm empty => ?_⟩
  have length : (w.take m).length = 0 := by
    rw [Language.mem_one] at empty
    rw [empty]
    rfl
  rw [List.length_take] at length
  omega

theorem extent_nil (visible : [] ∉ L) : Extent L [] none := by
  intro n _
  rwa [List.take_nil]

/-- A word with a first character goes on after it. -/
theorem Extent.cons_some {n : Nat} (h : Extent (following c L) w (some n)) :
    Extent L (c :: w) (some (n + 1)) := by
  obtain ⟨le, mem, longest⟩ := h
  refine ⟨Nat.succ_le_succ le, mem, fun m hm taken => ?_⟩
  cases m with
  | zero => exact Nat.zero_le _
  | succ m => exact Nat.succ_le_succ (longest m (Nat.le_of_succ_le_succ hm) taken)

theorem Extent.cons_none (visible : [] ∉ L) (h : Extent (following c L) w none) :
    Extent L (c :: w) none := by
  intro n hn
  cases n with
  | zero => exact visible
  | succ n => exact h n (Nat.le_of_succ_le_succ hn)

/-- Where every word has a first character, it goes on after it. -/
theorem Extent.cons (visible : [] ∉ L) (h : Extent (following c L) w r) :
    Extent L (c :: w) (r.map (· + 1)) := by
  cases r with
  | none => exact h.cons_none visible
  | some n => exact h.cons_some

/-- Of two languages only one has words with which the characters begin. -/
theorem Extent.add_none (hL : Extent L w r) (hM : Extent M w none) : Extent (L + M) w r := by
  have in_left {n : Nat} (hn : n ≤ w.length) (h : w.take n ∈ L + M) : w.take n ∈ L :=
    ((Language.mem_add L M _).mp h).resolve_right (hM n hn)
  cases r with
  | none => exact fun n hn h => hL n hn (in_left hn h)
  | some n =>
    obtain ⟨le, mem, longest⟩ := hL
    exact ⟨le, (Language.mem_add L M _).mpr (Or.inl mem),
      fun m hm h => longest m hm (in_left hm h)⟩

theorem Extent.none_add (hL : Extent L w none) (hM : Extent M w s) : Extent (L + M) w s := by
  rw [add_comm]
  exact hM.add_none hL

/-- What may be left out is the longest word, or nothing. -/
theorem Extent.optional (h : Extent L w r) : Extent (1 + L) w (some (r.getD 0)) := by
  cases r with
  | none => exact extent_one.add_none h
  | some n =>
    obtain ⟨le, mem, longest⟩ := h
    refine ⟨le, (Language.mem_add 1 L _).mpr (Or.inr mem), fun m hm taken => ?_⟩
    rcases (Language.mem_add 1 L _).mp taken with empty | other
    · have least := extent_one.2.2 m hm empty
      exact Nat.le_trans least (Nat.zero_le n)
    · exact longest m hm other

/-- A run of characters that pass a test takes all of them, if what comes after it begins with
    another character. -/
theorem Extent.run {p : Char → Bool} (apart : ∀ d, p d = true → following d L = 0)
    (h : Extent L (w.drop (w.takeWhile p).length) r) :
    Extent ((charsOf p)∗ * L) w (r.map (· + (w.takeWhile p).length)) := by
  induction w with
  | nil =>
    rw [kstar_mul]
    have none : Extent (charsOf p * ((charsOf p)∗ * L)) [] none := extent_nil (by simp)
    have last := none.none_add h
    simpa using last
  | cons d rest ih =>
    by_cases hd : p d = true
    · rw [List.takeWhile_cons_of_pos hd, List.length_cons, List.drop_succ_cons] at h
      have tail := ih h
      have first : following d ((charsOf p)∗ * L) = (charsOf p)∗ * L := by
        rw [following_kstar_mul nil_notMem_charsOf, following_charsOf, if_pos hd, one_mul,
          apart d hd, add_zero]
      rw [← first] at tail
      rw [List.takeWhile_cons_of_pos hd, List.length_cons]
      cases r with
      | none =>
        have visible : [] ∉ L := h 0 (Nat.zero_le _)
        exact tail.cons_none (by simp [visible])
      | some n => exact tail.cons_some
    · rw [List.takeWhile_cons_of_neg hd] at h ⊢
      rw [kstar_mul]
      have none : Extent (charsOf p * ((charsOf p)∗ * L)) (d :: rest) none := by
        have stuck : following d (charsOf p * ((charsOf p)∗ * L)) = 0 := by
          rw [following_mul nil_notMem_charsOf, following_charsOf, if_neg hd, zero_mul]
        exact Extent.cons (by simp) (stuck ▸ extent_zero)
      have last := none.none_add h
      simpa using last

/-- Where the first factor cannot begin, nothing is read. -/
theorem extent_stuck {d : Char} (visible : [] ∉ L) (stuck : following d L = 0) :
    Extent (L * M) (d :: w) none := by
  refine Extent.cons_none (fun empty => visible (nil_mem_mul.mp empty).1) ?_
  rw [following_mul visible, stuck, zero_mul]
  exact extent_zero

/-- A character that passes a test stands first, or nothing is read. -/
theorem extent_charsOf_mul {p : Char → Bool} (h : Extent L w r) :
    Extent (charsOf p * L) (c :: w) (if p c = true then r.map (· + 1) else none) := by
  by_cases hc : p c = true
  · rw [if_pos hc]
    refine Extent.cons (by simp) ?_
    rwa [following_mul nil_notMem_charsOf, following_charsOf, if_pos hc, one_mul]
  · rw [if_neg hc]
    refine extent_stuck nil_notMem_charsOf ?_
    rw [following_charsOf, if_neg hc]

/-- One given character stands first, or nothing is read. -/
theorem extent_charOf_mul (h : w.head? = some c → Extent L w.tail r) :
    Extent (charOf c * L) w (if w.head? = some c then r.map (· + 1) else none) := by
  cases w with
  | nil => exact extent_nil (by simp)
  | cons d rest =>
    by_cases hd : d = c
    · have whole := extent_charsOf_mul (c := d) (p := (· == c)) (h (congrArg some hd))
      rw [List.head?_cons, if_pos (congrArg some hd)]
      rwa [if_pos (by simpa using hd)] at whole
    · rw [List.head?_cons, if_neg (by simpa using hd)]
      refine extent_stuck nil_notMem_charOf ?_
      rw [following_charOf, if_neg hd]

theorem extent_charOf : Extent (charOf c) w (if w.head? = some c then some 1 else none) := by
  have single := extent_charOf_mul (c := c) (w := w) fun _ => extent_one
  rwa [mul_one] at single

/-- A run that nothing has to follow. -/
theorem extent_run {p : Char → Bool} :
    Extent (charsOf p)∗ w (some (w.takeWhile p).length) := by
  have run := Extent.run (p := p) (fun d _ => following_one)
    (extent_one (w := w.drop (w.takeWhile p).length))
  rwa [mul_one, Option.map_some, Nat.zero_add] at run

end Extent

end GrammarMatch.Syntax
