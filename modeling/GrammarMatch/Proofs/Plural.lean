/-
  File:      GrammarMatch/Proofs/Plural.lean
  Subject:   How often a key can be captured.

  The counts of a pattern are an upper bound of what a match of it captures under each key of its
  scope, as long as they say less than two (`Yields.under_le`): sums for parts, the maximum for
  branches, more than one for whatever may be repeated, and nothing for looks. So a key that is
  not plural is bound to one capture at most.
-/
import GrammarMatch.Proofs.Bindings
import GrammarMatch.Proofs.Yield

namespace GrammarMatch

namespace Pattern.Counts

theorem lookup_combined (f : Nat → Nat → Nat) (a b : Counts) (k : CaptureKey) :
    (a.map fun e => (e.1, f e.2 (b.get e.1))).lookup k =
      (a.lookup k).map fun n => f n (b.get k) := by
  induction a with
  | nil => rfl
  | cons e a ih =>
    rw [List.map_cons, List.lookup_cons, List.lookup_cons]
    by_cases h : k = e.1
    · rw [h, BEq.rfl]
      rfl
    · rw [beq_false_of_ne h]
      exact ih

theorem lookup_others (a b : Counts) (k : CaptureKey) (h : a.lookup k = none) :
    (b.filter fun e => (a.lookup e.1).isNone).lookup k = b.lookup k := by
  induction b with
  | nil => rfl
  | cons e b ih =>
    rw [List.lookup_cons]
    by_cases hk : k = e.1
    · subst hk
      rw [List.filter_cons_of_pos (by simp [h]), List.lookup_cons, BEq.rfl]
    · rw [beq_false_of_ne hk, List.filter_cons]
      split
      · rw [List.lookup_cons, beq_false_of_ne hk]
        exact ih
      · exact ih

/-- Two tables are combined key by key. -/
theorem get_mergeWith {f : Nat → Nat → Nat} (hf : ∀ n, f 0 n = n) (a b : Counts)
    (k : CaptureKey) : (mergeWith f a b).get k = f (a.get k) (b.get k) := by
  show ((List.lookup k (_ ++ _)).getD 0 : Nat) = f ((a.lookup k).getD 0) _
  rw [List.lookup_append, lookup_combined]
  cases h : a.lookup k with
  | none => exact (congrArg (Option.getD · 0) (lookup_others a b k h)).trans (hf _).symm
  | some n => rfl

theorem get_add (a b : Counts) (k : CaptureKey) : (a.add b).get k = a.get k + b.get k :=
  get_mergeWith Nat.zero_add a b k

theorem get_sup (a b : Counts) (k : CaptureKey) : (a.sup b).get k = max (a.get k) (b.get k) :=
  get_mergeWith (f := Nat.max) Nat.zero_max a b k

theorem get_single (key k : CaptureKey) : get [(key, 1)] k = if key = k then 1 else 0 := by
  unfold get
  rw [List.lookup_cons]
  by_cases h : key = k
  · rw [if_pos h, h, BEq.rfl]
    rfl
  · rw [if_neg h, beq_false_of_ne (Ne.symm h)]
    rfl

/-- What may be repeated may be captured more than once, if it is captured at all. -/
theorem get_repeated (a : Counts) (k : CaptureKey) (h : get (a.map fun e => (e.1, 2)) k ≤ 1) :
    a.get k = 0 := by
  have repeated : (a.map fun e => (e.1, 2)).lookup k = (a.lookup k).map fun _ => 2 :=
    lookup_combined (fun _ _ => 2) a [] k
  unfold get at h ⊢
  rw [repeated] at h
  cases hk : a.lookup k with
  | none => rfl
  | some n =>
    rw [hk] at h
    exact absurd h (Nat.not_le.mpr Nat.one_lt_two)

end Pattern.Counts

namespace Pattern

/-- How often a key of a scope can be captured by a row of patterns, at most. -/
abbrev rowCount (row : List Pattern) (k : CaptureKey) : Nat := (captureCountsOfParts row).get k

theorem rowCount_cons (p : Pattern) (row : List Pattern) (k : CaptureKey) :
    rowCount (p :: row) k = p.captureCounts.get k + rowCount row k :=
  Counts.get_add _ _ k

theorem rowCount_append (row row' : List Pattern) (k : CaptureKey) :
    rowCount (row ++ row') k = rowCount row k + rowCount row' k := by
  induction row with
  | nil => exact (Nat.zero_add _).symm
  | cons p row ih => rw [List.cons_append, rowCount_cons, rowCount_cons, ih, Nat.add_assoc]

theorem rowCount_replicate (n : Nat) (p : Pattern) (k : CaptureKey) :
    rowCount (List.replicate n p) k = n * p.captureCounts.get k := by
  induction n with
  | zero => exact (Nat.zero_mul _).symm
  | succ n ih =>
    rw [List.replicate_succ, rowCount_cons, ih, Nat.succ_mul, Nat.add_comm]

theorem captureCounts_le_branches {p : Pattern} {branches : List Pattern} (h : p ∈ branches)
    (k : CaptureKey) : p.captureCounts.get k ≤ (captureCountsOfBranches branches).get k := by
  induction branches with
  | nil => cases h
  | cons q branches ih =>
    rw [captureCountsOfBranches, Counts.get_sup]
    rcases List.mem_cons.mp h with rfl | h
    · exact Nat.le_max_left _ _
    · exact Nat.le_trans (ih h) (Nat.le_max_right _ _)

/-- What may be repeated is counted twice, if it is counted at all. -/
theorem captureCounts_many {q : Quantity} (body : Pattern) (h : ∀ high, q.max = some high → 1 < high) :
    (Pattern.repetition q body).captureCounts = body.captureCounts.map fun e => (e.1, 2) := by
  cases max : q.max with
  | none => simp only [captureCounts, max]
  | some high => simp only [captureCounts, max, if_pos (h high max)]

/-- What may not be repeated is counted as it is. -/
theorem captureCounts_once {q : Quantity} (body : Pattern) {high : Int} (max : q.max = some high)
    (few : ¬1 < high) : (Pattern.repetition q body).captureCounts = body.captureCounts := by
  simp only [captureCounts, max, if_neg few]

/-- Where only one round is allowed there is no second one. -/
theorem rounds_le_one {q : Quantity} {n : Nat} (allowed : ∀ i < n, q.mayGoOn i = true) {high : Int}
    (max : q.max = some high) (few : ¬1 < high) : n ≤ 1 := by
  refine Nat.not_lt.mp fun more => few ?_
  have second := allowed 1 more
  unfold Quantity.mayGoOn at second
  rw [max] at second
  exact of_decide_eq_true second

/-- So many rounds of a body capture no more than a repetition that allows them, if that captures
    less than two. -/
theorem captureCounts_rounds {q : Quantity} {body : Pattern} {n : Nat} {k : CaptureKey}
    (allowed : ∀ i < n, q.mayGoOn i = true)
    (h : (Pattern.repetition q body).captureCounts.get k ≤ 1) :
    n * body.captureCounts.get k ≤ (Pattern.repetition q body).captureCounts.get k := by
  by_cases many : ∀ high, q.max = some high → 1 < high
  · rw [captureCounts_many body many] at h ⊢
    rw [Counts.get_repeated _ k h]
    exact Nat.zero_le _
  · obtain ⟨high, hmany⟩ := Classical.not_forall.mp many
    obtain ⟨max, few⟩ := Classical.not_imp.mp hmany
    rw [captureCounts_once body max few]
    calc
      _ ≤ 1 * body.captureCounts.get k := Nat.mul_le_mul_right _ (rounds_le_one allowed max few)
      _ = _ := Nat.one_mul _

/-- A key that is not plural is counted once at most. -/
theorem captureCounts_le_one {p : Pattern} {k : CaptureKey} (h : k ∉ p.pluralKeys) :
    p.captureCounts.get k ≤ 1 := by
  unfold Counts.get
  cases hk : p.captureCounts.lookup k with
  | none => exact Nat.zero_le 1
  | some n =>
    refine Nat.not_lt.mp fun more => ?_
    have mem : (k, n) ∈ p.captureCounts := by
      obtain ⟨before, after, split, _⟩ := List.lookup_eq_some_iff.mp hk
      rw [split]
      exact List.mem_append_right _ List.mem_cons_self
    refine h (List.mem_mergeSort.mpr (List.mem_map.mpr ⟨(k, n), ?_, rfl⟩))
    exact List.mem_filter.mpr ⟨mem, decide_eq_true more⟩

end Pattern

namespace Match

open Pattern

/-- One more capture is one more under its key, and none more under another one. -/
theorem under_cons_le {key k : CaptureKey} {c : Capture} {l : List (CaptureKey × Capture)} {n : Nat}
    (few : Counts.get [(key, 1)] k + n ≤ 1) (h : n ≤ 1 → (Capture.under k l).length ≤ n) :
    (Capture.under k ((key, c) :: l)).length ≤ Counts.get [(key, 1)] k + n := by
  rw [Counts.get_single] at few ⊢
  rw [Capture.under_cons]
  have later := h (by omega)
  by_cases same : key = k
  · rw [if_pos same, if_pos same, List.length_cons]
    omega
  · rw [if_neg same, if_neg same]
    omega

/-- **What a row captures under a key is no more than was counted**, if that is less than two. -/
theorem Yields.under_le {x : Lexicon} {row : List Pattern} {l : List (CaptureKey × Capture)}
    (h : Yields x row l) {k : CaptureKey} (few : rowCount row k ≤ 1) :
    (Capture.under k l).length ≤ rowCount row k := by
  induction h with
  | nil => exact Nat.zero_le _
  | @silent p row l silent _ ih =>
    rw [rowCount_cons] at few ⊢
    exact Nat.le_trans (ih (by omega)) (Nat.le_add_left _ _)
  | @sequence parts row l _ ih =>
    have same : rowCount (.sequence parts :: row) k = rowCount (parts ++ row) k := by
      rw [rowCount_cons, rowCount_append]
      rfl
    rw [same] at few ⊢
    exact ih few
  | @alternation mode branches row p l mem _ ih =>
    have le := captureCounts_le_branches mem k
    rw [rowCount_cons] at few ⊢ ih
    have branches_eq : (Pattern.alternation mode branches).captureCounts =
      captureCountsOfBranches branches := rfl
    rw [branches_eq] at few ⊢
    have := ih (by omega)
    omega
  | @repetition q body row n l allowed _ ih =>
    rw [rowCount_cons] at few ⊢
    rw [rowCount_append, rowCount_replicate] at ih
    have le := captureCounts_rounds allowed (Nat.le_trans (Nat.le_add_right _ _) few)
    have := ih (by omega)
    omega
  | enclosed _ ih => exact ih few
  | @group key plural body row start stop inner l _ _ _ ih =>
    have one : (Pattern.group (some key) plural body).captureCounts = [(key, 1)] := rfl
    rw [rowCount_cons, one] at few ⊢
    exact under_cons_le few ih
  | @rule r key rule c row l captured _ _ _ _ _ _ ih =>
    have one : (Pattern.ruleRef r).captureCounts = [(key, 1)] := by
      simp only [captureCounts, captured]
    rw [rowCount_cons, one] at few ⊢
    exact under_cons_le few ih

end Match

end GrammarMatch
