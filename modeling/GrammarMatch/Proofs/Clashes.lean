/-
  File:      GrammarMatch/Proofs/Clashes.lean
  Subject:   Which names are refused because they are captured twice.

  Two groups of a capture scope have a name in common and can match together if they do not lie in
  different branches of one alternation (`Alternatives.Clash`). The compiler looks at each row by
  itself, and knows of each part of it only the names. That is enough: of two groups that clash, the
  ways part between two elements of one row, and a name that a row knows twice comes from two groups
  that clash. So a name is refused exactly if there is a clash, at the later one of two groups of
  its row (`clash_exact`).
-/
import GrammarMatch.Proofs.Gaps
import GrammarMatch.Proofs.Numbering
import GrammarMatch.Proofs.Refusal
import Mathlib

namespace GrammarMatch

namespace Syntax

/-! ## 1. Clashes -/

/-- A group with a name stands at a place of a scope. -/
def Alternatives.NameAt (s : Alternatives) (place : List Step) (name : String) (opener : Token) : Prop :=
  ∃ body closer, s.Stands place (.group opener body closer) ∧ groupKindOf opener = .named name

/-- Two groups of one scope of a tree have a name in common, and do not lie in different branches of
    one alternation. -/
def Alternatives.Clash (tree : Alternatives) (name : String) (t u : Token) : Prop :=
  ∃ s, tree.Scope s ∧ ∃ a b, s.NameAt a name t ∧ s.NameAt b name u ∧ a ≠ b ∧ ¬Forked a b

/-- A group with a name stands in an atom: it is the atom, or it is inside if that is a plain
    group. -/
def Atom.NameIn : Atom → List Step → String → Token → Prop
  | .leaf _, _, _, _ => False
  | .group opener body _, place, name, u =>
    groupKindOf opener = .named name ∧ place = [] ∧ u = opener ∨
      groupKindOf opener = .plain ∧ body.NameAt place name u

/-- A group with a name stands in the row that is a branch of some alternatives. -/
def Items.NameIn (row : Items) (i : Nat) (place : List Step) (name : String) (u : Token) : Prop :=
  ∃ j rest atom, place = ⟨i, j⟩ :: rest ∧ row.atoms[j]? = some atom ∧ atom.NameIn rest name u

section Names

variable {tree : Alternatives} {place : List Step} {name : String} {u : Token}

/-- The first step on the way to a name leads to the atom in which it is. -/
theorem Alternatives.nameAt_iff : tree.NameAt place name u ↔
    ∃ s rest atom, place = s :: rest ∧ tree.atom? s = some atom ∧ atom.NameIn rest name u := by
  constructor
  · rintro ⟨body, closer, stands, named⟩
    cases stands with
    | here at_ => exact ⟨_, [], _, rfl, at_, Or.inl ⟨named, rfl, rfl⟩⟩
    | inside at_ plain deeper =>
      exact ⟨_, _, _, rfl, at_, Or.inr ⟨plain, body, closer, deeper, named⟩⟩
  · rintro ⟨s, rest, atom, rfl, at_, inside⟩
    cases atom with
    | leaf t => exact inside.elim
    | group opener body closer =>
      rcases inside with ⟨named, rfl, rfl⟩ | ⟨plain, body', closer', deeper, named⟩
      · exact ⟨body, closer, .here at_, named⟩
      · exact ⟨body', closer', .inside at_ plain deeper, named⟩

/-- A name of alternatives is a name of one of their rows. -/
theorem Alternatives.nameAt_row : tree.NameAt place name u ↔
    ∃ i, ∃ row : Items, tree.rows[i]? = some row ∧ row.NameIn i place name u := by
  rw [Alternatives.nameAt_iff]
  constructor
  · rintro ⟨⟨i, j⟩, rest, atom, rfl, at_, inside⟩
    obtain ⟨row, branch, element⟩ := Alternatives.atom?_iff.mp at_
    exact ⟨i, row, branch, j, rest, atom, rfl, element, inside⟩
  · rintro ⟨i, row, branch, j, rest, atom, rfl, element, inside⟩
    exact ⟨⟨i, j⟩, rest, atom, rfl, Alternatives.atom?_iff.mpr ⟨row, branch, element⟩, inside⟩

/-- The opener of a group with a name is one of the tokens around it. -/
theorem Alternatives.NameAt.opener (formed : tree.Formed) (h : tree.NameAt place name u) :
    u.kind = .opener ∧ u ∈ tree.tokens := by
  obtain ⟨body, closer, stands, _⟩ := h
  obtain ⟨group, tokens⟩ := stands.formed formed
  exact ⟨group.1, tokens.subset List.mem_cons_self⟩

theorem Atom.NameIn.opener {atom : Atom} (formed : atom.Formed) (h : atom.NameIn place name u) :
    u ∈ atom.tokens := by
  cases atom with
  | leaf t => exact h.elim
  | group opener body closer =>
    rcases h with ⟨_, _, rfl⟩ | ⟨_, inside⟩
    · exact List.mem_cons_self
    · exact Atom.body_tokens.subset (inside.opener formed.2.1).2

/-- What clashes in a group clashes in what is around it. -/
theorem Alternatives.Clash.outward {body : Alternatives} {step : Step} {opener closer t : Token}
    (at_ : tree.atom? step = some (.group opener body closer)) (h : body.Clash name t u) :
    tree.Clash name t u := by
  obtain ⟨s, scope, a, b, ha, hb, different, together⟩ := h
  by_cases plain : groupKindOf opener = .plain
  · rcases scope.plain at_ plain with rfl | scope
    · have deeper {place : List Step} {t : Token} (h : s.NameAt place name t) :
          tree.NameAt (step :: place) name t :=
        Alternatives.nameAt_iff.mpr ⟨step, place, _, rfl, at_, Or.inr ⟨plain, h⟩⟩
      exact ⟨tree, .root, step :: a, step :: b, deeper ha, deeper hb,
        fun same => different (List.cons.inj same).2, fun apart => together (forked_cons.mp apart)⟩
    · exact ⟨s, scope, a, b, ha, hb, different, together⟩
  · exact ⟨s, scope.enclosed at_ plain, a, b, ha, hb, different, together⟩

end Names

end Syntax

namespace Pattern

open Syntax

/-! ## 2. What is known of names -/

/-- A part knows the names that occur in what it was made of, each once, and for each of them the
    place of one opener. Where a name occurs twice, the ways part at a branch. -/
structure Told (occurs : List Step → String → Token → Prop) (part : Part) : Prop where
  once : part.captured.Nodup
  known : ∀ place name u, occurs place name u → name ∈ part.captured
  shown : ∀ n ∈ part.names, ∃ place u, occurs place n.1 u ∧ u.offset = n.2
  apart : ∀ a b name t u, occurs a name t → occurs b name u → a = b ∨ Forked a b

theorem told_none {part : Part} (none : part.names = [])
    {occurs : List Step → String → Token → Prop} (h : ∀ place name u, ¬occurs place name u) :
    Told occurs part where
  once := by
    rw [Part.captured, none]
    exact List.nodup_nil
  known place name u occ := absurd occ (h place name u)
  shown n hn := by
    rw [none] at hn
    cases hn
  apart a _ name t _ ha _ := absurd ha (h a name t)

/-- What is known of some things is known of the same things under other names of places. -/
theorem Told.congr {occurs occurs' : List Step → String → Token → Prop} {part part' : Part}
    (h : Told occurs part) (same : ∀ place name u, occurs' place name u ↔ occurs place name u)
    (names : part'.names = part.names) : Told occurs' part' where
  once := by
    rw [Part.captured, names]
    exact h.once
  known place name u occ := by
    rw [Part.captured, names]
    exact h.known place name u ((same place name u).mp occ)
  shown n hn := by
    obtain ⟨place, u, occ, at_⟩ := h.shown n (names ▸ hn)
    exact ⟨place, u, (same place n.1 u).mpr occ, at_⟩
  apart a b name t u ha hb := h.apart a b name t u ((same a name t).mp ha) ((same b name u).mp hb)

section InStep

variable {α β : Type} {R : α → β → Prop} {xs : List α} {ys : List β} {i : Nat} {x : α} {y : β}

/-- Where one of two lists in step has something, the other has what goes with it. -/
theorem forall₂_right (h : List.Forall₂ R xs ys) (hx : xs[i]? = some x) :
    ∃ y, ys[i]? = some y ∧ R x y := by
  induction h generalizing i with
  | nil => cases hx
  | cons first _ ih =>
    cases i with
    | zero =>
      cases hx
      exact ⟨_, rfl, first⟩
    | succ i => exact ih hx

theorem forall₂_left (h : List.Forall₂ R xs ys) (hy : ys[i]? = some y) :
    ∃ x, xs[i]? = some x ∧ R x y :=
  forall₂_right (R := flip R) h.flip hy

end InStep

section Told

variable {d : Dialect} {next after : Nat}

/-- A quantifier captures nothing. -/
theorem quantified_names {atom : Atom} {part part' : Part} {quantifier : Option Token}
    (h : quantified d atom part quantifier = .ok part') : part'.names = part.names := by
  obtain ⟨p, _, rfl⟩ := ok_of_map h
  rfl

/-- Branches capture what one of them captures, each name once. -/
theorem joinBranches_names (d : Dialect) (next : Nat) (branches : List Part) :
    (∀ n ∈ (joinBranches d next branches).names, n ∈ branches.flatMap Part.names) ∧
    (∀ s, s ∈ (joinBranches d next branches).captured ↔ s ∈ capturedByAll branches) ∧
    ((∀ b ∈ branches, b.captured.Nodup) → (joinBranches d next branches).captured.Nodup) := by
  have several (branches : List Part) (names : List Named)
      (h : names = distinctNames (branches.flatMap Part.names)) :
      (∀ n ∈ names, n ∈ branches.flatMap Part.names) ∧
      (∀ s, s ∈ names.map Prod.fst ↔ s ∈ capturedByAll branches) ∧ (names.map Prod.fst).Nodup := by
    subst h
    exact ⟨fun n hn => distinctNames_subset _ hn, fun s => mem_distinctNames, nodup_distinctNames _⟩
  match branches with
  | [part] =>
    have names : [part].flatMap Part.names = part.names := List.append_nil _
    refine ⟨fun n hn => names ▸ hn, fun s => ?_, fun once => once part List.mem_cons_self⟩
    rw [capturedByAll, names]
    rfl
  | [] =>
    obtain ⟨subset, same, once⟩ := several [] _ rfl
    exact ⟨subset, same, fun _ => once⟩
  | a :: b :: rest =>
    obtain ⟨subset, same, once⟩ := several (a :: b :: rest) _ rfl
    exact ⟨subset, same, fun _ => once⟩

theorem mem_captured {part : Part} {n : Named} (h : n ∈ part.names) : n.1 ∈ part.captured :=
  List.mem_map_of_mem h

/-- A row that is not refused captures what its parts capture, each name once. -/
theorem joinRow_names {parts : List Part} {branch : Part} (joined : joinRow d after parts = .ok branch) :
    branch.names = parts.flatMap Part.names ∧ branch.captured.Nodup := by
  unfold joinRow at joined
  simp only at joined
  split at joined
  next => cases joined
  next none =>
    cases joined
    exact ⟨rfl, (nodup_of_repeatedName none).1⟩

/-- Where each name is captured once, it is captured in one part. -/
theorem part_of_captured {parts : List Part} (once : (capturedByAll parts).Nodup) {j k : Nat}
    {p q : Part} (hp : parts[j]? = some p) (hq : parts[k]? = some q) {name : String}
    (hj : name ∈ p.captured) (hk : name ∈ q.captured) : j = k := by
  rw [capturedByAll, List.map_flatMap] at once
  have apart := List.pairwise_iff_getElem.mp (List.nodup_flatMap.mp once).2
  obtain ⟨hj', rfl⟩ := List.getElem?_eq_some_iff.mp hp
  obtain ⟨hk', rfl⟩ := List.getElem?_eq_some_iff.mp hq
  rcases Nat.lt_trichotomy j k with before | same | behind
  · exact absurd hk (apart j k hj' hk' before hj)
  · exact same
  · exact absurd hj (apart k j hk' hj' behind hk)

/-- What is known of the atoms of a row is known of the row, if no name is refused. -/
theorem told_row {row : Items} {parts : List Part} {branch : Part}
    (h : List.Forall₂ (fun atom part => Told atom.NameIn part) row.atoms parts)
    (joined : joinRow d after parts = .ok branch) (i : Nat) : Told (row.NameIn i) branch := by
  obtain ⟨names, once⟩ := joinRow_names joined
  have all : branch.captured = capturedByAll parts := congrArg (List.map Prod.fst) names
  refine ⟨once, ?_, ?_, ?_⟩
  · rintro _ name u ⟨j, rest, atom, rfl, element, inside⟩
    obtain ⟨part, made, told⟩ := forall₂_right h element
    obtain ⟨n, hn, rfl⟩ := List.mem_map.mp (told.known rest name u inside)
    refine mem_captured ?_
    rw [names]
    exact List.mem_flatMap.mpr ⟨part, List.mem_of_getElem? made, hn⟩
  · intro n hn
    rw [names] at hn
    obtain ⟨part, hpart, hn⟩ := List.mem_flatMap.mp hn
    obtain ⟨j, made⟩ := List.mem_iff_getElem?.mp hpart
    obtain ⟨atom, element, told⟩ := forall₂_left h made
    obtain ⟨rest, u, inside, at_⟩ := told.shown n hn
    exact ⟨⟨i, j⟩ :: rest, u, ⟨j, rest, atom, rfl, element, inside⟩, at_⟩
  · rintro _ _ name t u ⟨j, a, x, rfl, hx, ha⟩ ⟨k, b, y, rfl, hy, hb⟩
    obtain ⟨p, hp, toldx⟩ := forall₂_right h hx
    obtain ⟨q, hq, toldy⟩ := forall₂_right h hy
    -- a name that is captured once is captured in one element
    obtain rfl := part_of_captured (all ▸ once) hp hq (toldx.known a name t ha) (toldy.known b name u hb)
    cases hx.symm.trans hy
    exact (toldx.apart a b name t u ha hb).imp (congrArg _) forked_cons.mpr

/-- What is known of the rows of alternatives is known of the alternatives. -/
theorem told_branches (d : Dialect) (next : Nat) {tree : Alternatives} {branches : List Part}
    (h : List.Forall₂ (fun row branch => ∀ i, Told (row.NameIn i) branch) tree.rows branches) :
    Told tree.NameAt (joinBranches d next branches) := by
  obtain ⟨subset, same, once⟩ := joinBranches_names d next branches
  have row {b : Part} (hb : b ∈ branches) : ∃ i, ∃ row : Items, tree.rows[i]? = some row ∧
      Told (row.NameIn i) b := by
    obtain ⟨i, made⟩ := List.mem_iff_getElem?.mp hb
    obtain ⟨row, branch, told⟩ := forall₂_left h made
    exact ⟨i, row, branch, told i⟩
  have branch {i : Nat} {row : Items} (hrow : tree.rows[i]? = some row) :
      ∃ b ∈ branches, Told (row.NameIn i) b := by
    obtain ⟨b, made, told⟩ := forall₂_right h hrow
    exact ⟨b, List.mem_of_getElem? made, told i⟩
  refine ⟨once fun b hb => ?_, ?_, ?_, ?_⟩
  · obtain ⟨_, _, _, told⟩ := row hb
    exact told.once
  · intro place name u occ
    obtain ⟨i, r, hr, inside⟩ := Alternatives.nameAt_row.mp occ
    obtain ⟨b, hb, told⟩ := branch hr
    obtain ⟨n, hn, rfl⟩ := List.mem_map.mp (told.known place name u inside)
    exact (same n.1).mpr (List.mem_map_of_mem (List.mem_flatMap.mpr ⟨b, hb, hn⟩))
  · intro n hn
    obtain ⟨b, hb, hn⟩ := List.mem_flatMap.mp (subset n hn)
    obtain ⟨i, r, hr, told⟩ := row hb
    obtain ⟨place, u, inside, at_⟩ := told.shown n hn
    exact ⟨place, u, Alternatives.nameAt_row.mpr ⟨i, r, hr, inside⟩, at_⟩
  · intro a b name t u ha hb
    obtain ⟨i, r, hr, ina⟩ := Alternatives.nameAt_row.mp ha
    obtain ⟨k, r', hr', inb⟩ := Alternatives.nameAt_row.mp hb
    by_cases one : i = k
    · subst one
      cases hr.symm.trans hr'
      obtain ⟨_, _, told⟩ := branch hr
      exact told.apart a b name t u ina inb
    · obtain ⟨j, a', x, rfl, _⟩ := ina
      obtain ⟨l, b', y, rfl, _⟩ := inb
      exact .inr ⟨[], ⟨i, j⟩, ⟨k, l⟩, a', b', rfl, rfl, one⟩

/-- What is known of the body of a group is known of the group. -/
theorem told_group {opener closer : Token} {body : Alternatives} {inner : Part}
    (h : Told body.NameAt inner) :
    Told (Atom.group opener body closer).NameIn (enclose (groupKindOf opener) opener.offset next inner) := by
  cases kind : groupKindOf opener with
  | plain =>
    refine h.congr (fun place name u => ?_) rfl
    simp only [Atom.NameIn, kind]
    simp
  | named name =>
    have own (place : List Step) (name' : String) (u : Token) :
        (Atom.group opener body closer).NameIn place name' u ↔
          name = name' ∧ place = [] ∧ u = opener := by
      simp only [Atom.NameIn, kind]
      simp
    refine ⟨List.nodup_singleton _, fun place name' u occ => ?_, fun n hn => ?_, ?_⟩
    · obtain ⟨rfl, _⟩ := (own place name' u).mp occ
      exact List.mem_singleton_self _
    · rw [List.mem_singleton.mp hn]
      exact ⟨[], opener, (own [] name opener).mpr ⟨rfl, rfl, rfl⟩, rfl⟩
    · intro a b name' t u ha hb
      obtain ⟨_, rfl, _⟩ := (own a name' t).mp ha
      obtain ⟨_, rfl, _⟩ := (own b name' u).mp hb
      exact .inl rfl
  | numbered | look =>
    refine told_none rfl fun place name u occ => ?_
    simp only [Atom.NameIn, kind] at occ
    simp at occ

/-- **Along the walk the names of everything are known.** -/
theorem walk_told (d : Dialect) : Walk d (fun _ atom _ part => Told atom.NameIn part)
    (fun _ row parts _ => List.Forall₂ (fun atom part => Told atom.NameIn part) row.atoms parts)
    (fun _ tree branches =>
      List.Forall₂ (fun row branch => ∀ i, Told (row.NameIn i) branch) tree.rows branches) where
  leaf _ _ _ _ h := told_none (quantified_names h) fun _ _ _ => id
  group inside _ _ h := (told_group (told_branches d _ inside)).congr (fun _ _ _ => Iff.rfl) (quantified_names h)
  nil _ := .nil
  cons first later := .cons first later
  one h _ joined := .cons (told_row h joined) .nil
  more h _ joined _ _ others _ := .cons (told_row h joined) others

end Told

/-- **Where nothing is refused, nothing clashes.** -/
theorem no_clash {d : Dialect} {next : Nat} {tree : Alternatives} {branches : List Part}
    (h : branchesOf d next tree = .ok branches) (name : String) (t u : Token) :
    ¬tree.Clash name t u := by
  rintro ⟨s, scope, a, b, ha, hb, different, together⟩
  obtain ⟨first, _, made⟩ := compiled_scope scope h
  have told := told_branches d first ((walk_told d).alternatives s made)
  exact (told.apart a b name t u ha hb).elim different together

/-! ## 3. Where a name is refused -/

theorem repeatedName?_some {seen : List String} {names : List Named} {n : Named}
    (h : repeatedName? seen names = some n) :
    n ∈ names ∧ n.1 ∈ seen ∨ ∃ m, [m, n].Sublist names ∧ m.1 = n.1 := by
  induction names generalizing seen with
  | nil => cases h
  | cons m names ih =>
    rw [repeatedName?] at h
    split at h
    next before =>
      cases h
      exact .inl ⟨List.mem_cons_self, List.contains_iff_mem.mp before⟩
    next =>
      rcases ih h with ⟨mem, before⟩ | ⟨m', twice, same⟩
      · rcases List.mem_cons.mp before with same | before
        · exact .inr ⟨m, (List.singleton_sublist.mpr mem).cons_cons m, same.symm⟩
        · exact .inl ⟨List.mem_cons_of_mem m mem, before⟩
      · exact .inr ⟨m', twice.cons m, same⟩

/-- Two members of a list of lists are in one of them, or in an earlier and a later one. -/
theorem pair_of_flatMap {α β : Type} {f : α → List β} {xs : List α} {m n : β}
    (h : [m, n].Sublist (xs.flatMap f)) : (∃ x ∈ xs, [m, n].Sublist (f x)) ∨
      ∃ (j k : Nat) (x y : α), j < k ∧ xs[j]? = some x ∧ xs[k]? = some y ∧ m ∈ f x ∧ n ∈ f y := by
  induction xs with
  | nil => cases h
  | cons x xs ih =>
    rw [List.flatMap_cons] at h
    obtain ⟨l, r, whole, hl, hr⟩ := List.sublist_append_iff.mp h
    rcases l with _ | ⟨_, _ | ⟨_, l⟩⟩
    · obtain rfl : [m, n] = r := whole
      rcases ih hr with ⟨y, hy, both⟩ | ⟨j, k, y, z, before, hj, hk, hm, hn⟩
      · exact .inl ⟨y, List.mem_cons_of_mem x hy, both⟩
      · exact .inr ⟨j + 1, k + 1, y, z, Nat.succ_lt_succ before, hj, hk, hm, hn⟩
    · cases whole
      obtain ⟨y, hy, hn⟩ := List.mem_flatMap.mp (List.singleton_sublist.mp hr)
      obtain ⟨k, hk⟩ := List.mem_iff_getElem?.mp hy
      exact .inr ⟨0, k + 1, x, y, Nat.succ_pos k, rfl, hk, List.singleton_sublist.mp hl, hn⟩
    · obtain ⟨rfl, behind⟩ := List.cons.inj whole
      obtain ⟨rfl, none⟩ := List.cons.inj behind
      obtain ⟨rfl, _⟩ := List.append_eq_nil_iff.mp none.symm
      exact .inl ⟨x, List.mem_cons_self, hl⟩

/-- A name that a row knows twice is in two of its elements. -/
theorem elements_of_repeated {row : Items} {parts : List Part} {n : Named}
    (h : List.Forall₂ (fun atom part => Told atom.NameIn part) row.atoms parts)
    (found : repeatedName? [] (parts.flatMap Part.names) = some n) :
    ∃ (j k : Nat) (x y : Atom) (a b : List Step) (t u : Token), j < k ∧
      row.atoms[j]? = some x ∧ row.atoms[k]? = some y ∧
      x.NameIn a n.1 t ∧ y.NameIn b n.1 u ∧ u.offset = n.2 := by
  rcases repeatedName?_some found with ⟨_, seen⟩ | ⟨m, both, same⟩
  · cases seen
  rcases pair_of_flatMap both with ⟨part, mem, both⟩ | ⟨j, k, p, q, before, hp, hq, hm, hn⟩
  · -- no part knows a name twice
    obtain ⟨j, made⟩ := List.mem_iff_getElem?.mp mem
    obtain ⟨_, _, told⟩ := forall₂_left h made
    have once := (both.map Prod.fst).nodup told.once
    exact absurd (List.mem_singleton.mpr same) (List.nodup_cons.mp once).1
  · obtain ⟨x, hx, here⟩ := forall₂_left h hp
    obtain ⟨y, hy, there⟩ := forall₂_left h hq
    obtain ⟨a, t, ta, _⟩ := here.shown m hm
    obtain ⟨b, u, ub, at_⟩ := there.shown n hn
    exact ⟨j, k, x, y, a, b, t, u, before, hx, hy, same ▸ ta, ub, at_⟩

/-- **What a row is refused for is a clash of an earlier and a later group.** -/
theorem Recaptures.clash {d : Dialect} {tree : Alternatives} {f : Fault} (h : Recaptures d tree f)
    (formed : tree.Formed) (ordered : tree.tokens.Pairwise fun t u => t.offset < u.offset) :
    ∃ name t u, tree.Clash name t u ∧ t.offset < u.offset ∧ f = ⟨.repeatedName name, u.offset, []⟩ := by
  induction h with
  | @row tree row branch next parts after made f twice =>
    obtain ⟨n, found, rfl⟩ := joinRow_error twice
    obtain ⟨new, rfl, told⟩ := (walk_told d).items row made
    obtain ⟨j, k, x, y, a, b, t, u, before, hx, hy, ta, ub, at_⟩ := elements_of_repeated told found
    obtain ⟨i, hi⟩ := List.mem_iff_getElem?.mp branch
    have inside {j : Nat} {x : Atom} (hx : row.atoms[j]? = some x) : x.Formed :=
      Items.atom_formed (Alternatives.row_formed formed branch) (List.mem_of_getElem? hx)
    have behind := Items.tokens_before (ordered.sublist (Alternatives.row_tokens branch)) hx hy before
      t (ta.opener (inside hx)) u (ub.opener (inside hy))
    have clash : tree.Clash n.1 t u :=
      ⟨tree, .root, ⟨i, j⟩ :: a, ⟨i, k⟩ :: b,
        Alternatives.nameAt_row.mpr ⟨i, row, hi, j, a, x, rfl, hx, ta⟩,
        Alternatives.nameAt_row.mpr ⟨i, row, hi, k, b, y, rfl, hy, ub⟩,
        fun same => before.ne (congrArg Step.element (List.cons.inj same).1),
        not_forked_cons rfl fun same => before.ne (congrArg Step.element same)⟩
    exact ⟨n.1, t, u, clash, behind, by rw [at_]⟩
  | @inside tree body row opener closer f branch element deeper ih =>
    obtain ⟨step, at_⟩ := Alternatives.exists_atom? branch element
    have below := Atom.body_tokens.trans (Alternatives.atom?_tokens at_)
    obtain ⟨name, t, u, clash, before, rfl⟩ :=
      ih (Alternatives.atom?_formed formed at_).2.1 (ordered.sublist below)
    exact ⟨name, t, u, clash.outward at_, before, rfl⟩

/-! ## 4. Texts -/

/-- The tokens of a text stand one behind the other. -/
theorem ordered_tokens {source : List Char} {ts : List Token} (h : Splits 0 source ts) :
    ts.Pairwise fun t u => t.offset < u.offset := by
  refine h.pairwise.imp_of_mem fun {t u} mem _ behind => ?_
  obtain ⟨_, _, _, _, word⟩ := h.mem mem
  have some : t.text ≠ [] := fun empty => nil_notMem_lexemes t.kind (empty ▸ word)
  have := List.length_pos_of_ne_nil some
  omega

/-- The groups of a clash are opened in the text. -/
theorem Clash.parenthesis {source : List Char} {tree : Alternatives} (h : Derivation source tree)
    {name : String} {t u : Token} (clash : tree.Clash name t u) : source[u.offset]? = some '(' := by
  obtain ⟨s, scope, _, b, _, hb, _⟩ := clash
  obtain ⟨formed, tokens⟩ := scope.formed h.formed
  obtain ⟨opens, mem⟩ := hb.opener formed
  obtain ⟨w, z, rfl, place, word⟩ := h.splits.mem (tokens.subset mem)
  rw [opens] at word
  cases text : u.text with
  | nil => exact absurd (text ▸ word) (nil_notMem_lexemes .opener)
  | cons c rest =>
    have begins : TokenKind.opener.Begins c := begins_of_kindOf? (kindOf?_of_mem (text ▸ word))
    obtain rfl : c = '(' := begins
    rw [place, Nat.zero_add, List.getElem?_append_right le_rfl, Nat.sub_self]
    rfl

/-- **A name is refused exactly if two groups clash**, where the tokens mean something each by
    itself. Then nothing else is refused, and what is reported is the place where the later one of
    two groups that clash is opened. -/
theorem clash_exact {source : List Char} {flags : Flags} {kind : RuleKind} {tree : Alternatives}
    (parsed : Alternatives.parse source = .ok tree) (clean : ∀ t ∈ tree.tokens, t.fault? = none) :
    ((∃ name place, compile source flags kind =
        .error ((⟨.repeatedName name, place, []⟩ : Fault).inSource source.toArray)) ↔
      ∃ name t u, tree.Clash name t u) ∧
    ∀ e, compile source flags kind = .error e → ∃ name t u, tree.Clash name t u ∧
      t.offset < u.offset ∧ e = (⟨.repeatedName name, u.offset, []⟩ : Fault).inSource source.toArray ∧
      e.offset = u.offset ∧ source[u.offset]? = some '(' := by
  have derivation := parse_iff.mp parsed
  have reports (e : SyntaxError) (refused : compile source flags kind = .error e) :
      ∃ name t u, tree.Clash name t u ∧ t.offset < u.offset ∧
        e = (⟨.repeatedName name, u.offset, []⟩ : Fault).inSource source.toArray := by
    obtain ⟨f, failed, rfl⟩ := (refused_iff parsed).mp refused
    rcases (branchesOf_reports _ 0 derivation.formed).first f failed with first | twice
    · rw [List.findSome?_eq_none_iff.mpr clean] at first
      cases first
    · obtain ⟨name, t, u, clash, before, rfl⟩ := twice.clash derivation.formed (ordered_tokens derivation.splits)
      exact ⟨name, t, u, clash, before, rfl⟩
  refine ⟨⟨fun ⟨name, place, refused⟩ => ?_, fun ⟨name, t, u, clash⟩ => ?_⟩, fun e refused => ?_⟩
  · obtain ⟨name, t, u, clash, _⟩ := reports _ refused
    exact ⟨name, t, u, clash⟩
  · cases outcome : branchesOf (Dialect.of flags kind) 0 tree with
    | ok branches => exact absurd clash (no_clash outcome name t u)
    | error f =>
      have refused := (refused_iff parsed).mpr ⟨f, outcome, rfl⟩
      obtain ⟨name, t, u, _, _, same⟩ := reports _ refused
      exact ⟨name, u.offset, same ▸ refused⟩
  · obtain ⟨name, t, u, clash, before, rfl⟩ := reports e refused
    have opened := Clash.parenthesis derivation clash
    exact ⟨name, t, u, clash, before, rfl, offset_inSource (List.getElem?_eq_some_iff.mp opened).1.le,
      opened⟩

/-- A name that is captured in both branches inside a plain group, and again behind it. -/
def branchesThenName : Alternatives :=
  .one (.cons (.group ⟨.opener, "(?:".toList, 0⟩
    (.more (.cons (.group ⟨.opener, "(?<x>".toList, 3⟩ (.one (.cons (.leaf ⟨.chars, ['a'], 8⟩) none .nil))
        ⟨.closer, [')'], 9⟩) none .nil) ⟨.bar, ['|'], 10⟩
      (.one (.cons (.group ⟨.opener, "(?<x>".toList, 11⟩ (.one (.cons (.leaf ⟨.chars, ['b'], 16⟩) none .nil))
        ⟨.closer, [')'], 17⟩) none .nil))) ⟨.closer, [')'], 18⟩) none
    (.cons (.group ⟨.opener, "(?<x>".toList, 19⟩ (.one (.cons (.leaf ⟨.chars, ['c'], 24⟩) none .nil))
      ⟨.closer, [')'], 25⟩) none .nil))

/-- The two branches do not clash, but each of them does with what comes behind. -/
theorem clash_exact_branchesThenName :
    Alternatives.parse "(?:(?<x>a)|(?<x>b))(?<x>c)".toList = .ok branchesThenName ∧
      (∀ t ∈ branchesThenName.tokens, t.fault? = none) ∧
      compile "(?:(?<x>a)|(?<x>b))(?<x>c)".toList .none .regex = .error
        ((⟨.repeatedName "x", 19, []⟩ : Fault).inSource "(?:(?<x>a)|(?<x>b))(?<x>c)".toList.toArray) ∧
      ∃ name t u, branchesThenName.Clash name t u := by
  have parsed : Alternatives.parse "(?:(?<x>a)|(?<x>b))(?<x>c)".toList = .ok branchesThenName := by cbv
  have clean : ∀ t ∈ branchesThenName.tokens, t.fault? = none :=
    List.forall_iff_forall_mem.mp (by
      simp [branchesThenName, Alternatives.tokens, Items.tokens, Atom.tokens, Token.fault?])
  have failed : compileIn (Dialect.of .none .regex) "(?:(?<x>a)|(?<x>b))(?<x>c)".toList =
      .error (.meaning ⟨.repeatedName "x", 19, []⟩) := by cbv
  have refused : compile "(?:(?<x>a)|(?<x>b))(?<x>c)".toList .none .regex = .error
      ((⟨.repeatedName "x", 19, []⟩ : Fault).inSource "(?:(?<x>a)|(?<x>b))(?<x>c)".toList.toArray) := by
    rw [compile, failed]
    rfl
  exact ⟨parsed, clean, refused, (clash_exact parsed clean).1.mp ⟨"x", 19, refused⟩⟩

end Pattern

end GrammarMatch
