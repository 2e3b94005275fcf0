/-
  File:      GrammarMatch/Proofs/Numbering.lean
  Subject:   What the places of groups say of a pattern: their numbers, and which names are captured.

  A group without a name gets its number from its place. Where a pattern has these numbers, and
  the right keys are noted as plural, numbering it again changes nothing (`Pattern.renumbered_eq`).
  Names are no matter of places, but no two parts of a row may capture the same one, and branches
  that do capture it once (`Pattern.nodup_capturedByAll`, `Pattern.nodup_distinctNames`).
-/
import GrammarMatch.Proofs.Marked
import GrammarMatch.Proofs.Render
import Mathlib.Data.List.Forall2

namespace GrammarMatch

/-! ## 1. Numbers that follow from places -/

namespace Pattern

mutual

/-- Numbers that follow from places are right where they were the same before. -/
theorem same_renumbered (p : Pattern) {next : Nat} (h : p.Numbered next) :
    (p.renumbered next).same p = true := by
  match p with
  | .literal .. | .charClass .. => simp [renumbered, same]
  | .anchor _ | .ruleRef _ => exact beq_self_eq_true _
  | .whitespace => rfl
  | .sequence parts => exact same_renumberedRow parts h
  | .alternation mode branches =>
    exact Bool.and_eq_true_iff.mpr ⟨beq_self_eq_true mode, same_renumberedBranches branches h⟩
  | .repetition q body =>
    exact Bool.and_eq_true_iff.mpr ⟨beq_self_eq_true q, same_renumbered body h⟩
  | .group none _ body =>
    exact Bool.and_eq_true_iff.mpr ⟨rfl, same_renumbered body h⟩
  | .group (some (.name s)) _ body =>
    exact Bool.and_eq_true_iff.mpr ⟨beq_self_eq_true _, same_renumbered body h⟩
  | .group (some (.index k)) _ body =>
    obtain ⟨rfl, inside⟩ := h
    exact Bool.and_eq_true_iff.mpr ⟨beq_self_eq_true _, same_renumbered body inside⟩
  | .look kind body =>
    exact Bool.and_eq_true_iff.mpr ⟨beq_self_eq_true kind, same_renumbered body h⟩

theorem same_renumberedRow (parts : List Pattern) {next : Nat} (h : NumberedRow next parts) :
    sameAll (renumberedRow next parts) parts = true := by
  match parts with
  | [] => rfl
  | p :: rest =>
    exact Bool.and_eq_true_iff.mpr ⟨same_renumbered p h.1, same_renumberedRow rest h.2⟩

theorem same_renumberedBranches (branches : List Pattern) {next : Nat}
    (h : NumberedBranches next branches) :
    sameAll (renumberedBranches next branches) branches = true := by
  match branches with
  | [] => rfl
  | p :: rest =>
    exact Bool.and_eq_true_iff.mpr ⟨same_renumbered p h.1, same_renumberedBranches rest h.2⟩

end

mutual

/-- Where the right keys were noted as well, nothing has changed. -/
theorem renumbered_eq (p : Pattern) {next : Nat} (h : p.Numbered next) (marked : p.Marked) :
    p.renumbered next = p := by
  match p with
  | .literal .. | .charClass .. | .anchor _ | .ruleRef _ | .whitespace => rfl
  | .sequence parts =>
    rw [renumbered, renumberedRow_eq parts h (marked_sequence.mp marked)]
  | .alternation mode branches =>
    rw [renumbered, renumberedBranches_eq branches h (marked_alternation.mp marked)]
  | .repetition q body => rw [renumbered, renumbered_eq body h (marked_repetition.mp marked)]
  | .group none _ body => rw [renumbered, renumbered_eq body h (marked_enclosed.mp marked)]
  | .group (some (.name s)) _ body =>
    obtain ⟨rfl, inside⟩ := marked_group.mp marked
    rw [renumbered, renumbered_eq body h inside]
  | .group (some (.index k)) _ body =>
    obtain ⟨rfl, inside⟩ := marked_group.mp marked
    obtain ⟨rfl, numbered⟩ := h
    rw [renumbered, renumbered_eq body numbered inside]
  | .look kind body => rw [renumbered, renumbered_eq body h (marked_look.mp marked)]

theorem renumberedRow_eq (parts : List Pattern) {next : Nat} (h : NumberedRow next parts)
    (marked : ∀ p ∈ parts, p.Marked) : renumberedRow next parts = parts := by
  match parts with
  | [] => rfl
  | p :: rest =>
    obtain ⟨first, others⟩ := List.forall_mem_cons.mp marked
    rw [renumberedRow, renumbered_eq p h.1 first, renumberedRow_eq rest h.2 others]

theorem renumberedBranches_eq (branches : List Pattern) {next : Nat}
    (h : NumberedBranches next branches) (marked : ∀ p ∈ branches, p.Marked) :
    renumberedBranches next branches = branches := by
  match branches with
  | [] => rfl
  | p :: rest =>
    obtain ⟨first, others⟩ := List.forall_mem_cons.mp marked
    rw [renumberedBranches, renumbered_eq p h.1 first, renumberedBranches_eq rest h.2 others]

end

theorem length_renumberedRow (next : Nat) (parts : List Pattern) :
    (renumberedRow next parts).length = parts.length := by
  induction parts generalizing next with
  | nil => rfl
  | cons p rest ih => exact congrArg (· + 1) (ih _)

end Pattern

/-! ## 2. Names that are captured once -/

/-- The names that a part captures. -/
def Part.captured (part : Part) : List String := part.names.map Prod.fst

/-- A part captures the names of a pattern, each once. -/
structure Captures (p : Pattern) (part : Part) : Prop where
  once : part.captured.Nodup
  names : ∀ s, s ∈ part.captured ↔ s ∈ p.names

namespace Pattern

theorem mem_namesOfAll {ps : List Pattern} {s : String} :
    s ∈ namesOfAll ps ↔ ∃ p ∈ ps, s ∈ p.names := by
  induction ps with
  | nil => exact ⟨nofun, nofun⟩
  | cons p ps ih => rw [namesOfAll, List.mem_append, ih, List.exists_mem_cons_iff]

section Several

variable {ps : List Pattern} {parts : List Part}

/-- The names that several parts capture. -/
def capturedByAll (parts : List Part) : List String := (parts.flatMap Part.names).map Prod.fst

theorem capturedByAll_cons (part : Part) (parts : List Part) :
    capturedByAll (part :: parts) = part.captured ++ capturedByAll parts := List.map_append

theorem mem_capturedByAll (h : List.Forall₂ Captures ps parts) (s : String) :
    s ∈ capturedByAll parts ↔ s ∈ namesOfAll ps := by
  induction h with
  | nil => rfl
  | cons first _ ih =>
    rw [capturedByAll_cons, namesOfAll, List.mem_append, List.mem_append, first.names, ih]

/-- Patterns with different names capture each name once. -/
theorem nodup_capturedByAll (h : List.Forall₂ Captures ps parts)
    (apart : ps.Pairwise fun p q => ∀ s ∈ p.names, s ∉ q.names) :
    (capturedByAll parts).Nodup := by
  induction h with
  | nil => exact List.nodup_nil
  | cons first later ih =>
    obtain ⟨others, apart⟩ := List.pairwise_cons.mp apart
    rw [capturedByAll_cons]
    refine List.nodup_append.mpr ⟨first.once, ih apart, ?_⟩
    rintro s here _ there rfl
    obtain ⟨q, hq, in_q⟩ := mem_namesOfAll.mp ((mem_capturedByAll later s).mp there)
    exact others q hq s ((first.names s).mp here) in_q

theorem row_several {d : Dialect} (spaceless : d.sigspace = false) (several : ps.length ≠ 1) :
    row d ps = .sequence ps := by
  unfold row
  split
  · rfl
  · exact absurd rfl several
  · rw [spaceless, if_neg Bool.false_ne_true]

theorem joinBranches_several {d : Dialect} {next : Nat} (several : parts.length ≠ 1) :
    joinBranches d next parts = ⟨.alternation d.mode (parts.map Part.pattern),
      (parts.map Part.next).foldl Nat.max next, distinctNames (parts.flatMap Part.names)⟩ := by
  unfold joinBranches
  split
  · exact absurd rfl several
  · rfl

end Several

theorem repeatedName_none {seen : List String} {names : List Named}
    (once : (names.map Prod.fst).Nodup) (fresh : ∀ s ∈ names.map Prod.fst, s ∉ seen) :
    repeatedName? seen names = none := by
  induction names generalizing seen with
  | nil => rfl
  | cons n names ih =>
    obtain ⟨different, once⟩ := List.nodup_cons.mp once
    obtain ⟨here, later⟩ := List.forall_mem_cons.mp fresh
    have unseen : seen.contains n.1 = false := by simpa using here
    rw [repeatedName?, unseen, if_neg Bool.false_ne_true]
    refine ih once fun s hs again => ?_
    rcases List.mem_cons.mp again with rfl | before
    · exact different hs
    · exact later s hs before

/-- Where no name comes twice, each one comes once. -/
theorem nodup_of_repeatedName {seen : List String} {names : List Named}
    (h : repeatedName? seen names = none) :
    (names.map Prod.fst).Nodup ∧ ∀ s ∈ names.map Prod.fst, s ∉ seen := by
  induction names generalizing seen with
  | nil => exact ⟨List.nodup_nil, nofun⟩
  | cons n names ih =>
    unfold repeatedName? at h
    split at h
    · cases h
    · rename_i unseen
      obtain ⟨once, fresh⟩ := ih h
      refine ⟨List.nodup_cons.mpr ⟨fun again => fresh n.1 again List.mem_cons_self, once⟩,
        List.forall_mem_cons.mpr ⟨fun before => unseen (List.contains_iff_mem.mpr before),
          fun s hs before => fresh s hs (List.mem_cons_of_mem _ before)⟩⟩

theorem mem_distinctNames {names : List Named} {s : String} :
    s ∈ (distinctNames names).map Prod.fst ↔ s ∈ names.map Prod.fst := by
  induction names with
  | nil => rfl
  | cons n names ih =>
    rw [distinctNames, List.map_cons, List.map_cons, List.mem_cons, List.mem_cons, ← ih]
    refine or_congr_right' fun other => ?_
    simp only [List.mem_map, List.mem_filter, bne_iff_ne]
    refine exists_congr fun m => and_congr_left ?_
    rintro rfl
    exact and_iff_left other

theorem distinctNames_subset (names : List Named) : distinctNames names ⊆ names := by
  induction names with
  | nil => exact List.Subset.refl _
  | cons n names ih =>
    rw [distinctNames]
    exact List.cons_subset_cons n fun m hm => ih (List.mem_filter.mp hm).1

theorem nodup_distinctNames (names : List Named) : ((distinctNames names).map Prod.fst).Nodup := by
  induction names with
  | nil => exact List.nodup_nil
  | cons n names ih =>
    rw [distinctNames, List.map_cons]
    refine List.nodup_cons.mpr ⟨?_, ih.sublist (List.filter_sublist.map _)⟩
    intro h
    obtain ⟨m, hm, same⟩ := List.mem_map.mp h
    exact absurd same (by simpa using (List.mem_filter.mp hm).2)

theorem le_freeAfterBranches (next : Nat) (ps : List Pattern) : next ≤ freeAfterBranches next ps := by
  induction ps with
  | nil => exact Nat.le_refl next
  | cons p ps ih => exact Nat.le_trans ih (Nat.le_max_right _ _)

/-- The number that is free after branches is the largest of theirs. -/
theorem foldl_freeAfter (ps : List Pattern) {next least : Nat} (h : next ≤ least) :
    (ps.map (freeAfter next)).foldl Nat.max least = max least (freeAfterBranches next ps) := by
  induction ps generalizing least with
  | nil => exact (Nat.max_eq_left h).symm
  | cons p ps ih =>
    rw [List.map_cons, List.foldl_cons, ih (Nat.le_trans h (Nat.le_max_left _ _)),
      freeAfterBranches]
    exact Nat.max_assoc _ _ _

end Pattern

end GrammarMatch
