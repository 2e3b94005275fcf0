/-
  File:      GrammarMatch/Proofs/Keys.lean
  Subject:   The keys of the groups of a compiled pattern.

  In each scope the groups without a name are numbered from zero on, whatever else is captured
  between them. Along one choice of branches the numbers rise, so that no two groups of a scope
  have the same key unless they lie in different branches of one alternation; a name is refused if
  it is captured twice otherwise. A key is plural just where one of its groups may be repeated
  (`Pattern.keyed_compile`).
-/
import GrammarMatch.Proofs.Counts
import GrammarMatch.Proofs.Inside
import GrammarMatch.Proofs.Numbering
import Mathlib

namespace GrammarMatch

open Syntax

namespace Pattern

/-! ## 1. Names that are apart -/

/-- No two parts of a row capture the same name. -/
def NamesApart (parts : List Pattern) : Prop :=
  parts.Pairwise fun p q => ∀ s ∈ p.names, s ∉ q.names

/-- No row of a pattern captures a name twice, and each group is captured. -/
inductive Apart : Pattern → Prop
  | literal {chars : List Char} {ignoreCase : Bool} : Apart (.literal chars ignoreCase)
  | charClass {items : List ClassItem} {negated ignoreCase : Bool} :
      Apart (.charClass items negated ignoreCase)
  | sequence {parts : List Pattern} (h : ∀ p ∈ parts, Apart p) (names : NamesApart parts) :
      Apart (.sequence parts)
  | alternation {mode : ChoiceMode} {branches : List Pattern} (h : ∀ p ∈ branches, Apart p) :
      Apart (.alternation mode branches)
  | repetition {q : Quantity} {body : Pattern} (h : Apart body) : Apart (.repetition q body)
  | group {key : CaptureKey} {plural : List CaptureKey} {body : Pattern} (h : Apart body) :
      Apart (.group (some key) plural body)
  | look {kind : LookKind} {body : Pattern} (h : Apart body) : Apart (.look kind body)
  | anchor {kind : AnchorKind} : Apart (.anchor kind)
  | ruleRef {r : Reference} : Apart (.ruleRef r)
  | whitespace : Apart .whitespace

theorem Apart.child {p c : Pattern} (h : p.Apart) (hc : c ∈ p.children) : c.Apart := by
  cases h with
  | sequence parts => exact parts c hc
  | alternation branches => exact branches c hc
  | repetition body | group body | look body =>
    rw [List.mem_singleton.mp hc]
    exact body
  | literal | charClass | anchor | ruleRef | whitespace => cases hc

/-- What stands right below in the same scope stands right below. -/
theorem inner_subset_children (p : Pattern) : p.inner ⊆ p.children := by
  match p with
  | .sequence _ | .alternation .. | .repetition .. | .group none _ _ => exact List.Subset.refl _
  | .group (some _) _ _ | .look .. | .literal .. | .charClass .. | .anchor _ | .ruleRef _ |
    .whitespace => exact List.nil_subset _

/-! ## 2. Assembly -/

/-- What the compiler keeps up of a part: its groups have the numbers that their places give them,
    and it captures the names of its pattern, none of them twice in a row. -/
structure Kept (next : Nat) (part : Part) : Prop where
  numbered : part.pattern.Numbered next
  free : part.next = part.pattern.freeAfter next
  captures : Captures part.pattern part
  apart : part.pattern.Apart

theorem captures_none {p : Pattern} (h : p.names = []) (next : Nat) : Captures p ⟨p, next, []⟩ :=
  ⟨List.nodup_nil, fun s => by rw [h]; rfl⟩

/-- What captures nothing is kept as it is. -/
theorem kept_single {p : Pattern} (h : p.Single) (next : Nat) : Kept next ⟨p, next, []⟩ := by
  cases h with
  | literal => exact ⟨trivial, rfl, captures_none rfl next, .literal⟩
  | charClass => exact ⟨trivial, rfl, captures_none rfl next, .charClass⟩
  | anchor => exact ⟨trivial, rfl, captures_none rfl next, .anchor⟩
  | noBoundary => exact ⟨trivial, rfl, captures_none rfl next, .look .anchor⟩
  | ruleRef => exact ⟨trivial, rfl, captures_none rfl next, .ruleRef⟩
  | empty => exact ⟨trivial, rfl, captures_none rfl next, .sequence nofun .nil⟩

/-- A run of which only the last character is repeated captures nothing. -/
theorem kept_run (front : List Char) (last : Char) (q : Quantity) (ignoreCase : Bool) (next : Nat) :
    Kept next ⟨.sequence [.literal front ignoreCase,
      .repetition q (.literal [last] ignoreCase)], next, []⟩ where
  numbered := ⟨trivial, trivial, trivial⟩
  free := rfl
  captures := captures_none rfl next
  apart := .sequence
    (List.forall_mem_cons.mpr ⟨.literal, List.forall_mem_singleton.mpr (.repetition .literal)⟩)
    (List.pairwise_pair.mpr nofun)

theorem kept_enclose {kind : GroupKind} {next : Nat} {inner : Part}
    (h : Kept (firstInside kind next) inner) (place : Nat) :
    Kept next (enclose kind place next inner) := by
  cases kind with
  | plain => exact h
  | numbered => exact ⟨⟨rfl, h.numbered⟩, rfl, ⟨List.nodup_nil, fun _ => Iff.rfl⟩, .group h.apart⟩
  | look test => exact ⟨h.numbered, rfl, ⟨List.nodup_nil, fun _ => Iff.rfl⟩, .look h.apart⟩
  | named name =>
    exact ⟨h.numbered, rfl, ⟨List.pairwise_singleton _ name, fun _ => Iff.rfl⟩, .group h.apart⟩

section Rows

variable {d : Dialect} {next after : Nat} {parts : List Part}

theorem numbered_follow (h : Follow Kept next parts after) :
    NumberedRow next (parts.map Part.pattern) ∧
      after = freeAfterRow next (parts.map Part.pattern) := by
  induction h with
  | nil => exact ⟨trivial, rfl⟩
  | cons first _ ih =>
    rw [first.free] at ih
    exact ⟨⟨first.numbered, ih.1⟩, ih.2⟩

theorem captures_follow (h : Follow Kept next parts after) :
    List.Forall₂ Captures (parts.map Part.pattern) parts := by
  induction h with
  | nil => exact .nil
  | cons first _ ih => exact .cons first.captures ih

/-- Parts that capture no name twice are apart. -/
theorem namesApart_of_once {ps : List Pattern} (h : List.Forall₂ Captures ps parts)
    (once : (capturedByAll parts).Nodup) : NamesApart ps := by
  induction h with
  | nil => exact .nil
  | @cons p part ps parts first later ih =>
    rw [capturedByAll_cons] at once
    obtain ⟨_, once, different⟩ := List.nodup_append.mp once
    refine .cons (fun q hq s here there => ?_) (ih once)
    exact different s ((first.names s).mpr here) s
      ((mem_capturedByAll later s).mpr (mem_namesOfAll.mpr ⟨q, hq, there⟩)) rfl

/-- White space between the parts of a row changes nothing in it that is captured. -/
theorem interspersed_row (ps : List Pattern) (next : Nat) :
    (NumberedRow next (interspersed ps) ↔ NumberedRow next ps) ∧
      freeAfterRow next (interspersed ps) = freeAfterRow next ps := by
  induction ps generalizing next with
  | nil => exact ⟨Iff.rfl, rfl⟩
  | cons p ps ih =>
    cases ps with
    | nil => exact ⟨Iff.rfl, rfl⟩
    | cons q ps =>
      obtain ⟨numbered, free⟩ := ih (p.freeAfter next)
      exact ⟨and_congr_right fun _ => (and_iff_right trivial).trans numbered, free⟩

theorem interspersed_names (ps : List Pattern) : namesOfAll (interspersed ps) = namesOfAll ps := by
  induction ps with
  | nil => rfl
  | cons p ps ih =>
    cases ps with
    | nil => rfl
    | cons q ps => exact congrArg (p.names ++ ·) ih

theorem mem_interspersed {p : Pattern} {ps : List Pattern} (h : p ∈ interspersed ps) :
    p = .whitespace ∨ p ∈ ps := by
  induction ps with
  | nil => cases h
  | cons q ps ih =>
    cases ps with
    | nil => exact .inr h
    | cons r ps =>
      rcases List.mem_cons.mp h with rfl | h
      · exact .inr List.mem_cons_self
      · rcases List.mem_cons.mp h with rfl | h
        · exact .inl rfl
        · exact (ih h).imp_right (List.mem_cons_of_mem q)

theorem interspersed_apart {ps : List Pattern} (h : NamesApart ps) :
    NamesApart (interspersed ps) := by
  induction ps with
  | nil => exact .nil
  | cons p ps ih =>
    cases ps with
    | nil => exact h
    | cons q ps =>
      obtain ⟨others, later⟩ := List.pairwise_cons.mp h
      refine .cons (fun r hr => ?_) (.cons (fun _ _ _ hs => by cases hs) (ih later))
      rcases List.mem_cons.mp hr with rfl | hr
      · exact fun _ _ => nofun
      · rcases mem_interspersed hr with rfl | hr
        · exact fun _ _ => nofun
        · exact others r hr

theorem row_many (d : Dialect) (p q : Pattern) (ps : List Pattern) : row d (p :: q :: ps) =
    .sequence (if d.sigspace then interspersed (p :: q :: ps) else p :: q :: ps) := rfl

/-- A row is numbered, free and named as its parts are. -/
theorem row_spaced (d : Dialect) (ps : List Pattern) (next : Nat) :
    ((row d ps).Numbered next ↔ NumberedRow next ps) ∧
      (row d ps).freeAfter next = freeAfterRow next ps ∧
      ∀ s, s ∈ (row d ps).names ↔ s ∈ namesOfAll ps := by
  match ps with
  | [] => exact ⟨Iff.rfl, rfl, fun _ => Iff.rfl⟩
  | [p] =>
    refine ⟨(and_iff_left trivial).symm, rfl, fun s => ?_⟩
    rw [namesOfAll, namesOfAll, List.append_nil]
    rfl
  | p :: q :: ps =>
    have spaced := interspersed_row (p :: q :: ps) next
    have names := interspersed_names (p :: q :: ps)
    rw [row_many]
    split
    · exact ⟨spaced.1, spaced.2, fun s => by rw [← names]; rfl⟩
    · exact ⟨Iff.rfl, rfl, fun _ => Iff.rfl⟩

theorem apart_row {ps : List Pattern} (h : ∀ p ∈ ps, p.Apart) (names : NamesApart ps) :
    (row d ps).Apart := by
  match ps with
  | [] => exact .sequence h names
  | [p] => exact h p List.mem_cons_self
  | p :: q :: ps =>
    rw [row_many]
    split
    · refine .sequence (fun r hr => ?_) (interspersed_apart names)
      rcases mem_interspersed hr with rfl | hr
      · exact .whitespace
      · exact h r hr
    · exact .sequence h names

theorem kept_row (h : Follow Kept next parts after) {part : Part}
    (joined : joinRow d after parts = .ok part) : Kept next part := by
  unfold joinRow at joined
  simp only at joined
  split at joined
  · cases joined
  · rename_i none
    cases joined
    have captures := captures_follow h
    have once : (capturedByAll parts).Nodup := (nodup_of_repeatedName none).1
    obtain ⟨numbered, free⟩ := numbered_follow h
    obtain ⟨numbered_row, free_row, names_row⟩ := row_spaced d (parts.map Part.pattern) next
    have apart : ∀ p ∈ parts.map Part.pattern, p.Apart :=
      List.forall_mem_map.mpr (h.forall_mem fun _ _ part => part.apart)
    exact ⟨numbered_row.mpr numbered, free.trans free_row.symm,
      ⟨once, fun s => (mem_capturedByAll captures s).trans (names_row s).symm⟩,
      apart_row apart (namesApart_of_once captures once)⟩

theorem numberedBranches_iff {ps : List Pattern} :
    NumberedBranches next ps ↔ ∀ p ∈ ps, p.Numbered next := by
  induction ps with
  | nil => exact iff_of_true trivial (List.forall_mem_nil _)
  | cons p ps ih => exact (and_congr_right fun _ => ih).trans List.forall_mem_cons.symm

theorem numbered_mem_row {ps : List Pattern} {p : Pattern} (h : NumberedRow next ps) (hp : p ∈ ps) :
    ∃ next, p.Numbered next := by
  induction ps generalizing next with
  | nil => cases hp
  | cons q ps ih =>
    rcases List.mem_cons.mp hp with rfl | hp
    · exact ⟨next, h.1⟩
    · exact ih h.2 hp

theorem kept_branches (some : parts ≠ []) (h : ∀ a ∈ parts, Kept next a) :
    Kept next (joinBranches d next parts) := by
  match parts, some with
  | [part], _ => exact h part List.mem_cons_self
  | a :: b :: parts, _ =>
    have several : (a :: b :: parts).length ≠ 1 := Nat.succ_succ_ne_one _
    rw [joinBranches_several several]
    have captures : List.Forall₂ Captures ((a :: b :: parts).map Part.pattern) (a :: b :: parts) :=
      List.forall₂_map_left_iff.mpr (List.forall₂_same.mpr fun a ha => (h a ha).captures)
    have nexts : (a :: b :: parts).map Part.next =
        ((a :: b :: parts).map Part.pattern).map (freeAfter next) := by
      rw [List.map_map]
      exact List.map_congr_left fun a ha => (h a ha).free
    refine ⟨numberedBranches_iff.mpr (List.forall_mem_map.mpr fun a ha => (h a ha).numbered), ?_,
      ⟨nodup_distinctNames _, fun s => mem_distinctNames.trans (mem_capturedByAll captures s)⟩,
      .alternation (List.forall_mem_map.mpr fun a ha => (h a ha).apart)⟩
    rw [nexts, foldl_freeAfter _ (Nat.le_refl next)]
    exact Nat.max_eq_right (le_freeAfterBranches next _)

end Rows

/-- The compiler keeps up the numbers and the names of all that it puts together. -/
theorem assembly_kept (d : Dialect) : Assembly d Kept where
  token h next := kept_single (single_token h) next
  repetition h _ _ _ := ⟨h.numbered, h.free, ⟨h.captures.once, h.captures.names⟩,
    .repetition h.apart⟩
  run front last _ q _ next := kept_run front last q d.ignoreCase next
  enclose h place := kept_enclose h place
  row h _ joined := kept_row h joined
  branches some h := kept_branches some h

/-! ## 3. Numbers -/

/-- The names that a pattern captures are those of the groups of its scope. -/
theorem Apart.mem_names {p : Pattern} (h : p.Apart) {s : String} :
    s ∈ p.names ↔ p.Binds (.name s) := by
  induction h with
  | literal | charClass | look | anchor | ruleRef | whitespace =>
    exact iff_of_false nofun fun h => by cases (binds_leaf rfl).mp h
  | sequence _ _ ih | alternation _ ih =>
    rw [binds_inner rfl]
    exact mem_namesOfAll.trans (exists_congr fun p => and_congr_right (ih p))
  | repetition _ ih => exact ih.trans binds_repetition.symm
  | @group key plural body _ _ =>
    rw [binds_leaf rfl]
    cases key with
    | index k => exact iff_of_false nofun fun h => by cases h
    | name t =>
      refine List.mem_singleton.trans ⟨fun same => ?_, fun same => ?_⟩
      · rw [same]
        rfl
      · cases same
        rfl

/-- The numbers of the groups of a scope are those from one number up to another one. -/
structure Indexed (Bound : CaptureKey → Prop) (next after : Nat) : Prop where
  le : next ≤ after
  mem : ∀ k : Int, Bound (.index k) ↔ (next : Int) ≤ k ∧ k < after

/-- Where no number is bound, the next free one stays as it is. -/
theorem indexed_none {Bound : CaptureKey → Prop} (none : ∀ k, ¬Bound (.index k)) (next : Nat) :
    Indexed Bound next next :=
  ⟨Nat.le_refl next, fun k => iff_of_false (none k) (by omega)⟩

section Several

variable {ps : List Pattern}

theorem indexed_row (h : ∀ p ∈ ps, ∀ next, p.Numbered next →
      Indexed p.Binds next (p.freeAfter next)) {next : Nat} (numbered : NumberedRow next ps) :
    Indexed (fun key => ∃ p ∈ ps, p.Binds key) next (freeAfterRow next ps) := by
  induction ps generalizing next with
  | nil => exact indexed_none (fun _ => nofun) next
  | cons p ps ih =>
    obtain ⟨first, later⟩ := List.forall_mem_cons.mp h
    have here := first next numbered.1
    have others := ih later numbered.2
    refine ⟨Nat.le_trans here.le others.le, fun k => ?_⟩
    have le := here.le
    have le' := others.le
    rw [List.exists_mem_cons_iff, here.mem, others.mem, freeAfterRow]
    omega

theorem indexed_branches (h : ∀ p ∈ ps, ∀ next, p.Numbered next →
      Indexed p.Binds next (p.freeAfter next)) {next : Nat} (numbered : NumberedBranches next ps) :
    Indexed (fun key => ∃ p ∈ ps, p.Binds key) next (freeAfterBranches next ps) := by
  induction ps with
  | nil => exact indexed_none (fun _ => nofun) next
  | cons p ps ih =>
    obtain ⟨first, later⟩ := List.forall_mem_cons.mp h
    have here := first next numbered.1
    have others := ih later numbered.2
    refine ⟨Nat.le_trans here.le (Nat.le_max_left _ _), fun k => ?_⟩
    have le := here.le
    have le' := others.le
    rw [List.exists_mem_cons_iff, here.mem, others.mem, freeAfterBranches]
    omega

end Several

/-- **The groups without a name have the numbers from the one that is free before a pattern up to
    the one that is free after it**, all of them and no other one. -/
theorem Apart.indexed {p : Pattern} (h : p.Apart) :
    ∀ next, p.Numbered next → Indexed p.Binds next (p.freeAfter next) := by
  induction h with
  | literal | charClass | look | anchor | ruleRef | whitespace =>
    exact fun next _ => indexed_none (fun k h => by cases (binds_leaf rfl).mp h) next
  | sequence _ _ ih =>
    intro next numbered
    obtain ⟨le, mem⟩ := indexed_row ih numbered
    exact ⟨le, fun k => (binds_inner rfl).trans (mem k)⟩
  | alternation _ ih =>
    intro next numbered
    obtain ⟨le, mem⟩ := indexed_branches ih numbered
    exact ⟨le, fun k => (binds_inner rfl).trans (mem k)⟩
  | repetition _ ih =>
    intro next numbered
    obtain ⟨le, mem⟩ := ih next numbered
    exact ⟨le, fun k => binds_repetition.trans (mem k)⟩
  | @group key plural body _ _ =>
    intro next numbered
    cases key with
    | name t => exact indexed_none (fun k h => by cases (binds_leaf rfl).mp h) next
    | index n =>
      obtain ⟨rfl, _⟩ := numbered
      refine ⟨Nat.le_succ next, fun k => (binds_leaf rfl).trans ?_⟩
      have same : (Pattern.group (some (.index next)) plural body).groupKey? =
          some (.index k) ↔ (next : Int) = k := by
        rw [groupKey?, Option.some.injEq, CaptureKey.index.injEq]
      rw [same, freeAfter]
      omega

/-! ## 4. Keys along a row -/

/-- No two patterns bind the same key. -/
def KeysApart (ps : List Pattern) : Prop := ps.Pairwise fun p q => ∀ key, p.Binds key → ¬q.Binds key

/-- The parts of a row bind different keys: names are refused otherwise, and numbers go on. -/
theorem keysApart_row {ps : List Pattern} (each : ∀ p ∈ ps, p.Apart) (names : NamesApart ps)
    {next : Nat} (numbered : NumberedRow next ps) : KeysApart ps := by
  induction ps generalizing next with
  | nil => exact .nil
  | cons p ps ih =>
    obtain ⟨first, later⟩ := List.forall_mem_cons.mp each
    obtain ⟨others, apart⟩ := List.pairwise_cons.mp names
    refine .cons (fun q hq key here there => ?_) (ih later apart numbered.2)
    cases key with
    | name s =>
      exact others q hq s (first.mem_names.mpr here) ((later q hq).mem_names.mpr there)
    | index k =>
      have before := ((first.indexed next numbered.1).mem k).mp here
      have row := indexed_row (fun r hr => (later r hr).indexed) numbered.2
      have after := (row.mem k).mp ⟨q, hq, there⟩
      omega

/-- A key that is bound by one part of a row is not bound by another one. -/
theorem keysApart_at {ps : List Pattern} (h : KeysApart ps) {i j : Nat} {p q : Pattern}
    (hp : ps[i]? = some p) (hq : ps[j]? = some q) (different : i ≠ j) {key : CaptureKey} :
    ¬(p.Binds key ∧ q.Binds key) := by
  obtain ⟨hi, rfl⟩ := List.getElem?_eq_some_iff.mp hp
  obtain ⟨hj, rfl⟩ := List.getElem?_eq_some_iff.mp hq
  rintro ⟨here, there⟩
  rcases Nat.lt_or_gt_of_ne different with before | after
  · exact List.pairwise_iff_getElem.mp h i j hi hj before key here there
  · exact List.pairwise_iff_getElem.mp h j i hj hi after key there here

theorem Numbered.inner {p c : Pattern} {next : Nat} (h : p.Numbered next) (hc : c ∈ p.inner) :
    ∃ next, c.Numbered next := by
  match p with
  | .sequence parts => exact numbered_mem_row h hc
  | .alternation _ branches => exact ⟨next, numberedBranches_iff.mp h c hc⟩
  | .repetition .. | .group none _ _ =>
    rw [List.mem_singleton.mp hc]
    exact ⟨next, h⟩
  | .group (some _) _ _ | .look .. | .literal .. | .charClass .. | .anchor _ | .ruleRef _ |
    .whitespace => cases hc

/-! ## 5. Choices -/

theorem binds_choicesOfParts {ps : List Pattern}
    (h : ∀ p ∈ ps, ∀ keys ∈ p.choices, ∀ key ∈ keys, p.Binds key) :
    ∀ keys ∈ choicesOfParts ps, ∀ key ∈ keys, ∃ p ∈ ps, p.Binds key := by
  induction ps with
  | nil =>
    intro keys hkeys key hkey
    cases List.mem_singleton.mp hkeys
    cases hkey
  | cons p ps ih =>
    obtain ⟨here, others⟩ := List.forall_mem_cons.mp h
    intro keys hkeys key hkey
    obtain ⟨first, hfirst, later, hlater, rfl⟩ := mem_choicesOfParts.mp hkeys
    rw [List.exists_mem_cons_iff]
    exact (List.mem_append.mp hkey).imp (here first hfirst key) (ih others later hlater key)

/-- The keys along a choice are bound in the scope. -/
theorem Apart.binds_choice {p : Pattern} (h : p.Apart) :
    ∀ keys ∈ p.choices, ∀ key ∈ keys, p.Binds key := by
  induction h with
  | literal | charClass | look | anchor | ruleRef | whitespace =>
    intro keys hkeys key hkey
    cases List.mem_singleton.mp hkeys
    cases hkey
  | sequence _ _ ih =>
    exact fun keys hkeys key hkey =>
      (binds_inner rfl).mpr (binds_choicesOfParts ih keys hkeys key hkey)
  | alternation _ ih =>
    intro keys hkeys key hkey
    obtain ⟨p, hp, hkeys⟩ := mem_choicesOfBranches.mp hkeys
    exact (binds_inner rfl).mpr ⟨p, hp, ih p hp keys hkeys key hkey⟩
  | repetition _ ih =>
    exact fun keys hkeys key hkey => binds_repetition.mpr (ih keys hkeys key hkey)
  | group =>
    intro keys hkeys key hkey
    cases List.mem_singleton.mp hkeys
    rw [List.mem_singleton.mp hkey]
    exact (binds_leaf rfl).mpr rfl

/-- The numbers among keys rise from left to right. -/
def Rising (keys : List CaptureKey) : Prop := (keys.filterMap CaptureKey.index?).Pairwise (· < ·)

theorem rising_single (key : CaptureKey) : Rising [key] := by
  cases key with
  | index k => exact List.pairwise_singleton _ k
  | name s => exact .nil

theorem mem_indices {keys : List CaptureKey} {k : Int} (h : k ∈ keys.filterMap CaptureKey.index?) :
    .index k ∈ keys := by
  obtain ⟨key, hkey, same⟩ := List.mem_filterMap.mp h
  cases key with
  | index n =>
    cases same
    exact hkey
  | name s => cases same

theorem Rising.append {keys keys' : List CaptureKey} (h : Rising keys) (h' : Rising keys')
    (between : ∀ m n, .index m ∈ keys → .index n ∈ keys' → m < n) : Rising (keys ++ keys') := by
  unfold Rising
  rw [List.filterMap_append]
  exact List.pairwise_append.mpr ⟨h, h', fun m hm n hn =>
    between m n (mem_indices hm) (mem_indices hn)⟩

theorem rising_choicesOfParts {ps : List Pattern} (each : ∀ p ∈ ps, p.Apart)
    (h : ∀ p ∈ ps, ∀ next, p.Numbered next → ∀ keys ∈ p.choices, Rising keys) {next : Nat}
    (numbered : NumberedRow next ps) : ∀ keys ∈ choicesOfParts ps, Rising keys := by
  induction ps generalizing next with
  | nil =>
    intro keys hkeys
    cases List.mem_singleton.mp hkeys
    exact .nil
  | cons p ps ih =>
    obtain ⟨apart, aparts⟩ := List.forall_mem_cons.mp each
    obtain ⟨here, others⟩ := List.forall_mem_cons.mp h
    intro keys hkeys
    obtain ⟨first, hfirst, later, hlater, rfl⟩ := mem_choicesOfParts.mp hkeys
    refine (here next numbered.1 first hfirst).append
      (ih aparts others numbered.2 later hlater) fun m n hm hn => ?_
    -- the numbers of the first part are below the one that it leaves free, and the others are not
    have below := ((apart.indexed next numbered.1).mem m).mp (apart.binds_choice first hfirst _ hm)
    have rest := indexed_row (fun r hr => (aparts r hr).indexed) numbered.2
    have above := (rest.mem n).mp
      (binds_choicesOfParts (fun r hr => (aparts r hr).binds_choice) later hlater _ hn)
    omega

/-- **Along a choice of one branch per alternation the numbers rise.** -/
theorem Apart.rising {p : Pattern} (h : p.Apart) :
    ∀ next, p.Numbered next → ∀ keys ∈ p.choices, Rising keys := by
  induction h with
  | literal | charClass | look | anchor | ruleRef | whitespace =>
    intro next _ keys hkeys
    cases List.mem_singleton.mp hkeys
    exact .nil
  | sequence each _ ih => exact fun next numbered => rising_choicesOfParts each ih numbered
  | alternation each ih =>
    intro next numbered keys hkeys
    obtain ⟨p, hp, hkeys⟩ := mem_choicesOfBranches.mp hkeys
    exact ih p hp next (numberedBranches_iff.mp numbered p hp) keys hkeys
  | repetition _ ih => exact ih
  | group =>
    intro next _ keys hkeys
    cases List.mem_singleton.mp hkeys
    exact rising_single _

/-- **Two groups of a scope have the same key only if they are one, or if they lie in different
    branches of one alternation.** -/
theorem Apart.same_or_diverge {p x y : Pattern} {key : CaptureKey} {a b : List Nat} {next : Nat}
    (h : p.Apart) (numbered : p.Numbered next) (ha : p.at? a = some x) (hb : p.at? b = some y)
    (hx : x.groupKey? = some key) (hy : y.groupKey? = some key) : a = b ∨ p.Diverge a b := by
  have ends {p : Pattern} (hp : p.groupKey? = some key) : p.inner = [] := by
    match p, hp with
    | .group _ _ _, rfl => rfl
  induction a generalizing p next b with
  | nil =>
    cases ha
    cases b with
    | nil => exact .inl rfl
    | cons j b =>
      obtain ⟨c, hc, _⟩ := at?_cons.mp hb
      rw [ends hx] at hc
      cases hc
  | cons i a ih =>
    obtain ⟨c, hc, ha⟩ := at?_cons.mp ha
    cases b with
    | nil =>
      cases hb
      rw [ends hy] at hc
      cases hc
    | cons j b =>
      obtain ⟨c', hc', hb⟩ := at?_cons.mp hb
      by_cases same : i = j
      · subst same
        cases hc.symm.trans hc'
        have mem := List.mem_of_getElem? hc
        obtain ⟨next, numbered⟩ := numbered.inner mem
        rcases ih (h.child (inner_subset_children p mem)) numbered ha hb with rfl | diverge
        · exact .inl rfl
        · exact .inr (diverge.below hc)
      · have bound : c.Binds key ∧ c'.Binds key := ⟨⟨a, x, ha, hx⟩, ⟨b, y, hb, hy⟩⟩
        cases h with
        | alternation =>
          exact .inr ⟨[], _, _, i, j, a, b, rfl, same, rfl, rfl⟩
        | sequence each names =>
          exact absurd bound (keysApart_at (keysApart_row each names numbered) hc hc' same)
        | repetition =>
          obtain ⟨hi, _⟩ := List.getElem?_eq_some_iff.mp hc
          obtain ⟨hj, _⟩ := List.getElem?_eq_some_iff.mp hc'
          exact absurd ((Nat.lt_one_iff.mp hi).trans (Nat.lt_one_iff.mp hj).symm) same
        | literal | charClass | group | look | anchor | ruleRef | whitespace => cases hc

/-! ## 6. Plural keys -/

/-- **A key has a count just where a group or a reference of the scope is captured under it.** -/
theorem Apart.count_pos {p : Pattern} (h : p.Apart) {key : CaptureKey} :
    0 < p.captureCounts.get key ↔ p.Binds key ∨ p.Refers key := by
  induction h with
  | literal | charClass | look | anchor | whitespace =>
    rw [binds_leaf rfl, refers_leaf rfl]
    exact iff_of_false (Nat.lt_irrefl 0) fun h => by rcases h with h | h <;> cases h
  | sequence _ _ ih =>
    rw [binds_inner rfl, refers_inner rfl, ← exists_or]
    refine rowCount_pos.trans (exists_congr fun p => ?_)
    rw [← and_or_left]
    exact and_congr_right (ih p)
  | alternation _ ih =>
    rw [binds_inner rfl, refers_inner rfl, ← exists_or]
    refine lt_countOfBranches.trans (exists_congr fun p => ?_)
    rw [← and_or_left]
    exact and_congr_right (ih p)
  | repetition _ ih =>
    rw [captureCounts_repetition_pos, binds_repetition, refers_repetition, ih]
  | group =>
    rw [binds_leaf rfl, refers_leaf rfl, captureCounts, Counts.get_single_pos]
    simp only [groupKey?, ruleKey?, Option.some.injEq, reduceCtorEq, or_false]
  | @ruleRef r =>
    rw [binds_leaf rfl, refers_leaf rfl, captureCounts]
    simp only [groupKey?, ruleKey?, reduceCtorEq, false_or]
    cases r.key? with
    | none => exact iff_of_false (Nat.lt_irrefl 0) fun h => by cases h
    | some key' =>
      exact Counts.get_single_pos.trans (Option.some_inj).symm

/-- Where at most one part of a row is counted, the row is counted as it is. -/
theorem rowCount_many {ps : List Pattern} {key : CaptureKey}
    (apart : ps.Pairwise fun p q => 0 < p.captureCounts.get key → q.captureCounts.get key = 0) :
    1 < rowCount ps key ↔ ∃ p ∈ ps, 1 < p.captureCounts.get key := by
  induction ps with
  | nil => exact iff_of_false (Nat.not_lt_zero 1) nofun
  | cons p ps ih =>
    obtain ⟨others, apart⟩ := List.pairwise_cons.mp apart
    rw [rowCount_cons, List.exists_mem_cons_iff, ← ih apart]
    rcases Nat.eq_zero_or_pos (p.captureCounts.get key) with none | some
    · omega
    · have none : rowCount ps key = 0 := Nat.eq_zero_of_not_pos fun pos => by
        obtain ⟨q, hq, counted⟩ := rowCount_pos.mp pos
        exact absurd (others q hq some) (Nat.ne_of_gt counted)
      omega

/-- **A key that no reference is captured under is counted more than once just where one of its
    groups may be repeated.** -/
theorem Apart.count_many {p : Pattern} (h : p.Apart) {key : CaptureKey} :
    ∀ next, p.Numbered next → ¬p.Refers key → (1 < p.captureCounts.get key ↔ p.Repeated key) := by
  induction h with
  | literal | charClass | look | anchor | whitespace =>
    exact fun _ _ _ => iff_of_false (Nat.not_lt_zero 1) (repeated_leaf rfl id)
  | @sequence parts each names ih =>
    intro next numbered none
    have free : ∀ p ∈ parts, ¬p.Refers key := fun p hp refers =>
      none ((refers_inner rfl).mpr ⟨p, hp, refers⟩)
    have apart : parts.Pairwise fun p q =>
        0 < p.captureCounts.get key → q.captureCounts.get key = 0 := by
      refine (keysApart_row each names numbered).imp_of_mem fun {p q} hp hq different pos => ?_
      have here := ((each p hp).count_pos.mp pos).resolve_right (free p hp)
      refine Nat.eq_zero_of_not_pos fun again => ?_
      exact different key here (((each q hq).count_pos.mp again).resolve_right (free q hq))
    rw [repeated_inner id]
    refine (rowCount_many apart).trans (exists_congr fun p => and_congr_right fun hp => ?_)
    obtain ⟨next, numbered⟩ := numbered_mem_row numbered hp
    exact ih p hp next numbered (free p hp)
  | @alternation mode branches each ih =>
    intro next numbered none
    rw [repeated_inner id]
    refine lt_countOfBranches.trans (exists_congr fun p => and_congr_right fun hp => ?_)
    exact ih p hp next (numberedBranches_iff.mp numbered p hp)
      fun refers => none ((refers_inner rfl).mpr ⟨p, hp, refers⟩)
  | @repetition q body each ih =>
    intro next numbered none
    rw [refers_repetition] at none
    have inside := ih next numbered none
    have bound : 0 < body.captureCounts.get key ↔ body.Binds key :=
      each.count_pos.trans (or_iff_left none)
    rw [repeated_repetition]
    by_cases many : q.Several
    · rw [captureCounts_many body many, (proper_captureCounts body).get_twice]
      split
      · rename_i some
        exact iff_of_true Nat.one_lt_two (.inl ⟨many, bound.mp some⟩)
      · rename_i none
        have unbound := mt bound.mpr none
        exact iff_of_false (Nat.not_lt_zero 1) fun h =>
          h.elim (fun h => unbound h.2) fun h => unbound h.binds
    · obtain ⟨high, h⟩ := Classical.not_forall.mp many
      obtain ⟨max, few⟩ := Classical.not_imp.mp h
      rw [captureCounts_once body max few, inside]
      exact (or_iff_right fun h => many h.1).symm
  | @group key' =>
    exact fun _ _ _ => iff_of_false (Counts.get_single_le key' key) (repeated_leaf rfl id)
  | @ruleRef r =>
    refine fun _ _ _ => iff_of_false ?_ (repeated_leaf rfl id)
    rw [captureCounts]
    split
    · exact Counts.get_single_le _ key
    · exact Nat.not_lt_zero 1

/-! ## 7. Compiled patterns -/

/-- What holds of the keys of a scope. -/
structure Keyed (s : Pattern) : Prop where
  /-- The groups without a name have the numbers from zero on, up to some number. -/
  indices : ∃ n : Nat, ∀ k : Int, s.Binds (.index k) ↔ 0 ≤ k ∧ k < n
  /-- A group has the number that is free where it stands: one more than the groups before it, and
      none more for a name. -/
  numbered : s.Numbered 0
  /-- The numbers rise along a choice of one branch per alternation. -/
  rising : ∀ keys ∈ s.choices, Rising keys
  /-- Groups with the same key are in different branches of one alternation. -/
  shared {a b : List Nat} {x y : Pattern} {key : CaptureKey} (ha : s.at? a = some x)
    (hb : s.at? b = some y) (hx : x.groupKey? = some key) (hy : y.groupKey? = some key) :
    a = b ∨ s.Diverge a b
  /-- Each group is captured, and the plural keys of what it encloses are noted with it. -/
  noted {place : List Nat} {key : Option CaptureKey} {plural : List CaptureKey} {body : Pattern}
    (here : s.at? place = some (.group key plural body)) :
    key.isSome = true ∧ plural = body.pluralKeys
  /-- A key that is bound by groups only is plural if and only if one of them may be repeated. -/
  plural {key : CaptureKey} (groups : ¬s.Refers key) : key ∈ s.pluralKeys ↔ s.Repeated key

/-- What is kept of a pattern in all of its scopes. -/
structure Orderly (p : Pattern) : Prop where
  compiled : p.Compiled
  apart : p.Apart
  numbered : ∃ next, p.Numbered next

theorem Orderly.at? {p x : Pattern} {place : List Nat} (h : p.Orderly)
    (here : p.at? place = some x) : x.Orderly := by
  refine at?_inherits (fun p h c hc => ?_) h here
  obtain ⟨next, numbered⟩ := h.numbered
  have child := inner_subset_children p hc
  exact ⟨h.compiled.child child, h.apart.child child, numbered.inner hc⟩

/-- A scope of an orderly pattern is orderly, and its numbers begin at zero. -/
theorem Orderly.scope {p s : Pattern} (h : p.Orderly) (numbered : p.Numbered 0)
    (scope : p.Scope s) : s.Orderly ∧ s.Numbered 0 := by
  induction scope with
  | root => exact ⟨h, numbered⟩
  | @group s place key plural body _ here ih =>
    obtain ⟨compiled, apart, next, numbered⟩ := ih.1.at? here
    have zero : body.Numbered 0 := by
      cases key with
      | index k => exact numbered.2
      | name t => exact numbered
    exact ⟨⟨compiled.child List.mem_cons_self, apart.child List.mem_cons_self, 0, zero⟩, zero⟩
  | look _ here ih =>
    obtain ⟨compiled, apart, next, numbered⟩ := ih.1.at? here
    exact ⟨⟨compiled.child List.mem_cons_self, apart.child List.mem_cons_self, 0, numbered⟩,
      numbered⟩

theorem Orderly.keyed {s : Pattern} (h : s.Orderly) (numbered : s.Numbered 0) : s.Keyed where
  indices := by
    have indexed := h.apart.indexed 0 numbered
    exact ⟨_, fun k => indexed.mem k⟩
  numbered := numbered
  rising := h.apart.rising 0 numbered
  shared ha hb hx hy := h.apart.same_or_diverge numbered ha hb hx hy
  noted here := by
    cases (h.at? here).compiled with
    | group => exact ⟨rfl, rfl⟩
  plural groups := mem_pluralKeys.trans (h.apart.count_many 0 numbered groups)

/-- **In every scope of a compiled pattern the keys are in order.** -/
theorem keyed_compile {source : List Char} {flags : Flags} {kind : RuleKind} {p : Pattern}
    (compiled : compile source flags kind = .ok p) {s : Pattern} (scope : p.Scope s) : s.Keyed := by
  obtain ⟨part, kept, rfl⟩ := (assembly_kept (Dialect.of flags kind)).compile compiled
  have orderly : part.pattern.Orderly :=
    ⟨compiled_compile source flags kind _ compiled, kept.apart, 0, kept.numbered⟩
  obtain ⟨orderly, numbered⟩ := orderly.scope kept.numbered scope
  exact orderly.keyed numbered

/-- A group, two branches that may be repeated, and a look. -/
def mixedKeys : Pattern :=
  .sequence [.group (some (.index 0)) [] (.literal ['a'] false),
    .repetition ⟨0, none, true⟩ (.alternation .ordered [
      .sequence [.group (some (.name "n")) [] (.literal ['b'] false),
        .group (some (.index 1)) [] (.literal ['c'] false)],
      .group (some (.index 1)) [] (.literal ['d'] false)]),
    .look .ahead (.group (some (.index 0)) [] (.literal ['e'] false))]

/-- The numbers 0 and 1 outside and 0 in the look, where the name uses up none; 1 and the name are
    plural. -/
theorem keyed_compile_mixedKeys :
    compile "(a)(?:(?<n>b)(c)|(d))*(?=(e))".toList .none .regex = .ok mixedKeys ∧
      mixedKeys.Scope mixedKeys ∧
      mixedKeys.Scope (.group (some (.index 0)) [] (.literal ['e'] false)) ∧ mixedKeys.Keyed ∧
      mixedKeys.pluralKeys = [.index 1, .name "n"] ∧
      mixedKeys.choices = [[.index 0, .name "n", .index 1], [.index 0, .index 1]] := by
  have compiled : compile "(a)(?:(?<n>b)(c)|(d))*(?=(e))".toList .none .regex = .ok mixedKeys := by
    cbv
  have ahead : mixedKeys.at? [2] =
      some (.look .ahead (.group (some (.index 0)) [] (.literal ['e'] false))) := rfl
  exact ⟨compiled, .root, .look .root ahead, keyed_compile compiled .root, by cbv, rfl⟩

end Pattern

end GrammarMatch
