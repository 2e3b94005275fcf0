/-
  File:      GrammarMatch/Proofs/Counts.lean
  Subject:   What the counts of captures say.

  The table of the counts of a pattern has each key once, and none of its counts is zero
  (`Pattern.proper_captureCounts`). So a key is plural just where its count is more than one
  (`Pattern.mem_pluralKeys`). How the counts of parts, of branches and of rounds add up is said
  apart from what they count.
-/
import GrammarMatch.Proofs.Places
import GrammarMatch.Proofs.Plural
import Mathlib.Order.MinMax

namespace GrammarMatch.Pattern

/-! ## 1. Tables of counts -/

namespace Counts

variable {a b : Counts} {k : CaptureKey}

/-- Each key has one count, and it is not zero. -/
structure Proper (c : Counts) : Prop where
  once : (c.map Prod.fst).Nodup
  pos : ∀ e ∈ c, 0 < e.2

theorem proper_nil : Proper [] := ⟨List.nodup_nil, nofun⟩

theorem proper_single (key : CaptureKey) : Proper [(key, 1)] :=
  ⟨List.pairwise_singleton _ key, List.forall_mem_singleton.mpr Nat.one_pos⟩

theorem get_single_pos {key : CaptureKey} : 0 < get [(key, 1)] k ↔ key = k := by
  rw [get_single]
  split
  · exact iff_of_true Nat.one_pos ‹key = k›
  · exact iff_of_false (Nat.lt_irrefl 0) ‹¬key = k›

theorem get_single_le (key k : CaptureKey) : ¬1 < get [(key, 1)] k := by
  rw [get_single]
  split <;> omega

theorem proper_mergeWith {f : Nat → Nat → Nat} (hf : ∀ m n, 0 < m → 0 < f m n) (ha : Proper a)
    (hb : Proper b) : Proper (mergeWith f a b) where
  once := by
    have keys : (a.map fun e => (e.1, f e.2 (b.get e.1))).map Prod.fst = a.map Prod.fst :=
      List.map_map
    unfold mergeWith
    rw [List.map_append, keys]
    refine List.nodup_append.mpr ⟨ha.once, hb.once.sublist (List.filter_sublist.map _), ?_⟩
    rintro _ here k there rfl
    obtain ⟨e, he, rfl⟩ := List.mem_map.mp there
    obtain ⟨e', he', same⟩ := List.mem_map.mp here
    have absent := Option.isNone_iff_eq_none.mp (List.mem_filter.mp he).2
    exact absurd same.symm (bne_iff_ne.mp (List.lookup_eq_none_iff.mp absent e' he'))
  pos := by
    refine List.forall_mem_append.mpr ⟨List.forall_mem_map.mpr fun e he => ?_, fun e he => ?_⟩
    · exact hf _ _ (ha.pos e he)
    · exact hb.pos e (List.mem_filter.mp he).1

theorem proper_add (ha : Proper a) (hb : Proper b) : Proper (a.add b) :=
  proper_mergeWith (fun _ n hm => Nat.add_pos_left hm n) ha hb

theorem proper_sup (ha : Proper a) (hb : Proper b) : Proper (a.sup b) :=
  proper_mergeWith (fun m n hm => Nat.lt_of_lt_of_le hm (Nat.le_max_left m n)) ha hb

theorem proper_twice (ha : Proper a) : Proper (a.map fun e => (e.1, 2)) where
  once := by
    have keys : (a.map fun e => (e.1, 2)).map Prod.fst = a.map Prod.fst := List.map_map
    rw [keys]
    exact ha.once
  pos := List.forall_mem_map.mpr fun _ _ => Nat.two_pos

/-- What a table says of a key is its count. -/
theorem Proper.get_of_mem (h : Proper a) {n : Nat} (here : (k, n) ∈ a) : a.get k = n := by
  unfold get
  obtain ⟨before, after, rfl⟩ := List.append_of_mem here
  have different : ∀ e ∈ before, (k != e.1) = true := fun e he => bne_iff_ne.mpr fun same => by
    have once := h.once
    rw [List.map_append, List.map_cons] at once
    have apart := (List.nodup_append.mp once).2.2 e.1 (List.mem_map_of_mem he)
    exact apart k List.mem_cons_self same.symm
  rw [List.lookup_eq_some_iff.mpr ⟨before, after, rfl, different⟩]
  rfl

/-- A count of more than none stands in the table. -/
theorem mem_of_get {n : Nat} (h : n < a.get k) : (k, a.get k) ∈ a := by
  unfold get at h ⊢
  cases hk : a.lookup k with
  | none =>
    rw [hk] at h
    cases h
  | some m =>
    obtain ⟨before, after, rfl, _⟩ := List.lookup_eq_some_iff.mp hk
    exact List.mem_append_right _ List.mem_cons_self

/-- What may be repeated counts as two, if it counts at all. -/
theorem Proper.get_twice (h : Proper a) :
    get (a.map fun e => (e.1, 2)) k = if 0 < a.get k then 2 else 0 := by
  have twice : (a.map fun e => (e.1, 2)).lookup k = (a.lookup k).map fun _ => 2 :=
    lookup_combined (fun _ _ => 2) a [] k
  split
  · rename_i some
    exact (proper_twice h).get_of_mem (List.mem_map.mpr ⟨_, mem_of_get some, rfl⟩)
  · rename_i none
    unfold get
    rw [twice]
    cases hk : a.lookup k with
    | none => rfl
    | some n =>
      obtain ⟨before, after, rfl, _⟩ := List.lookup_eq_some_iff.mp hk
      have here : (k, n) ∈ before ++ (k, n) :: after :=
        List.mem_append_right _ List.mem_cons_self
      have some : 0 < n := h.pos _ here
      rw [← h.get_of_mem here] at some
      exact absurd some none

end Counts

/-! ## 2. Counts of patterns -/

mutual

/-- The counts of a pattern are proper. -/
theorem proper_captureCounts (p : Pattern) : p.captureCounts.Proper := by
  match p with
  | .group (some key) _ _ => exact Counts.proper_single key
  | .group none _ body => exact proper_captureCounts body
  | .ruleRef r =>
    unfold captureCounts
    split
    · exact Counts.proper_single _
    · exact Counts.proper_nil
  | .sequence parts => exact proper_captureCountsOfParts parts
  | .alternation _ branches => exact proper_captureCountsOfBranches branches
  | .repetition q body =>
    have inside := proper_captureCounts body
    unfold captureCounts
    split
    · exact Counts.proper_twice inside
    · split
      · exact Counts.proper_twice inside
      · exact inside
  | .literal .. | .charClass .. | .look .. | .anchor _ | .whitespace => exact Counts.proper_nil

theorem proper_captureCountsOfParts (parts : List Pattern) :
    (captureCountsOfParts parts).Proper := by
  match parts with
  | [] => exact Counts.proper_nil
  | p :: rest =>
    exact Counts.proper_add (proper_captureCounts p) (proper_captureCountsOfParts rest)

theorem proper_captureCountsOfBranches (branches : List Pattern) :
    (captureCountsOfBranches branches).Proper := by
  match branches with
  | [] => exact Counts.proper_nil
  | p :: rest =>
    exact Counts.proper_sup (proper_captureCounts p) (proper_captureCountsOfBranches rest)

end

/-- **The plural keys are those that are counted more than once.** -/
theorem mem_pluralKeys {p : Pattern} {key : CaptureKey} :
    key ∈ p.pluralKeys ↔ 1 < p.captureCounts.get key := by
  refine ⟨fun h => ?_, fun h => Classical.not_not.mp fun few => ?_⟩
  · obtain ⟨⟨key', n⟩, he, rfl⟩ := List.mem_map.mp (List.mem_mergeSort.mp h)
    obtain ⟨here, many⟩ := List.mem_filter.mp he
    rw [(proper_captureCounts p).get_of_mem here]
    exact of_decide_eq_true many
  · exact absurd h (Nat.not_lt.mpr (captureCounts_le_one few))

theorem lt_countOfBranches {n : Nat} {branches : List Pattern} {key : CaptureKey} :
    n < (captureCountsOfBranches branches).get key ↔
      ∃ p ∈ branches, n < p.captureCounts.get key := by
  induction branches with
  | nil => exact ⟨fun h => absurd h (Nat.not_lt_zero n), nofun⟩
  | cons p branches ih =>
    rw [captureCountsOfBranches, Counts.get_sup, lt_max_iff, ih, List.exists_mem_cons_iff]

theorem rowCount_pos {parts : List Pattern} {key : CaptureKey} :
    0 < rowCount parts key ↔ ∃ p ∈ parts, 0 < p.captureCounts.get key := by
  induction parts with
  | nil => exact ⟨fun h => absurd h (Nat.lt_irrefl 0), nofun⟩
  | cons p parts ih =>
    rw [rowCount_cons, List.exists_mem_cons_iff, ← ih]
    exact Nat.add_pos_iff_pos_or_pos

/-- A repetition counts a key just where its body does. -/
theorem captureCounts_repetition_pos {q : Quantity} {body : Pattern} {key : CaptureKey} :
    0 < (Pattern.repetition q body).captureCounts.get key ↔ 0 < body.captureCounts.get key := by
  by_cases many : q.Several
  · rw [captureCounts_many body many, (proper_captureCounts body).get_twice]
    split
    · rename_i some
      exact iff_of_true Nat.two_pos some
    · rename_i none
      exact iff_of_false (Nat.lt_irrefl 0) none
  · obtain ⟨high, h⟩ := Classical.not_forall.mp many
    obtain ⟨max, few⟩ := Classical.not_imp.mp h
    rw [captureCounts_once body max few]

end GrammarMatch.Pattern
