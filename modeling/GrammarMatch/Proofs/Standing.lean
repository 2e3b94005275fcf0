/-
  File:      GrammarMatch/Proofs/Standing.lean
  Subject:   Where atoms stand in the tree of a text.

  A place in a tree is said by the branch and the element that are entered at each level of plain
  groups (`Alternatives.Stands`). Other groups enclose capture scopes of their own
  (`Alternatives.Scope`). Two places lie in different branches of one alternation if their ways part
  at a branch (`Forked`). What stands somewhere in a scope of a tree is made of tokens of the tree,
  in their order.
-/
import GrammarMatch.Proofs.Spelling
import GrammarMatch.Syntax.Part

namespace GrammarMatch.Syntax

/-! ## 1. Rows and atoms -/

/-- The rows of alternatives. -/
def Alternatives.rows : Alternatives → List Items
  | .one row => [row]
  | .more row _ rest => row :: rest.rows

/-- The atoms of a row. -/
def Items.atoms : Items → List Atom
  | .nil => []
  | .cons atom _ rest => atom :: rest.atoms

theorem Alternatives.row_formed {tree : Alternatives} {row : Items} (h : tree.Formed)
    (branch : row ∈ tree.rows) : row.Formed := by
  match tree, h with
  | .one _, h =>
    rw [List.mem_singleton.mp branch]
    exact h
  | .more _ _ _, ⟨first, _, later⟩ =>
    rcases List.mem_cons.mp branch with rfl | branch
    · exact first
    · exact Alternatives.row_formed later branch

theorem Items.atom_formed {row : Items} {atom : Atom} (h : row.Formed)
    (element : atom ∈ row.atoms) : atom.Formed := by
  match row, h with
  | .nil, _ => cases element
  | .cons _ _ _, ⟨first, _, later⟩ =>
    rcases List.mem_cons.mp element with rfl | element
    · exact first
    · exact Items.atom_formed later element

theorem Alternatives.row_tokens {tree : Alternatives} {row : Items} (branch : row ∈ tree.rows) :
    row.tokens.Sublist tree.tokens := by
  match tree with
  | .one _ =>
    rw [List.mem_singleton.mp branch]
    exact .refl _
  | .more first bar rest =>
    rw [Alternatives.tokens]
    rcases List.mem_cons.mp branch with rfl | branch
    · exact List.sublist_append_left _ _
    · exact ((Alternatives.row_tokens branch).cons bar).trans (List.sublist_append_right _ _)

theorem Items.atom_tokens {row : Items} {atom : Atom} (element : atom ∈ row.atoms) :
    atom.tokens.Sublist row.tokens := by
  match row with
  | .nil => cases element
  | .cons first quantifier rest =>
    rw [Items.tokens]
    rcases List.mem_cons.mp element with rfl | element
    · exact List.sublist_append_left _ _
    · exact (Items.atom_tokens element).trans
        ((List.sublist_append_right _ _).trans (List.sublist_append_right _ _))

/-- The tokens of an earlier atom of a row come before those of a later one. -/
theorem Items.tokens_before {R : Token → Token → Prop} {row : Items} (h : row.tokens.Pairwise R)
    {j k : Nat} {x y : Atom} (hx : row.atoms[j]? = some x) (hy : row.atoms[k]? = some y) (before : j < k) :
    ∀ t ∈ x.tokens, ∀ u ∈ y.tokens, R t u := by
  match row with
  | .nil => cases hx
  | .cons first quantifier rest =>
    rw [Items.tokens] at h
    obtain ⟨_, later, apart⟩ := List.pairwise_append.mp h
    cases k with
    | zero => cases before
    | succ k =>
      cases j with
      | zero =>
        cases hx
        have behind : rest.atoms[k]? = some y := hy
        have below := Items.atom_tokens (List.mem_of_getElem? behind)
        exact fun t ht u hu => apart t ht u (List.mem_append_right _ (below.subset hu))
      | succ j =>
        exact Items.tokens_before (List.pairwise_append.mp later).2.1 hx hy
          (Nat.lt_of_succ_lt_succ before)

/-! ## 2. Places -/

/-- A step into alternatives: the branch, and the element of its row. -/
structure Step where
  branch : Nat
  element : Nat
  deriving DecidableEq

/-- The atom that a step leads to. -/
def Alternatives.atom? (tree : Alternatives) (s : Step) : Option Atom :=
  tree.rows[s.branch]?.bind fun row => row.atoms[s.element]?

/-- An atom stands at a place of alternatives: plain groups are entered, and no other ones. -/
inductive Alternatives.Stands : Alternatives → List Step → Atom → Prop
  | here {tree : Alternatives} {s : Step} {atom : Atom} (at_ : tree.atom? s = some atom) :
      Stands tree [s] atom
  | inside {tree body : Alternatives} {s : Step} {place : List Step} {opener closer : Token}
      {atom : Atom} (at_ : tree.atom? s = some (.group opener body closer))
      (plain : groupKindOf opener = .plain) (deeper : Stands body place atom) :
      Stands tree (s :: place) atom

/-- The capture scopes of a tree: its own one, and what the groups of a scope enclose that are not
    plain. -/
inductive Alternatives.Scope (tree : Alternatives) : Alternatives → Prop
  | root : Scope tree tree
  | group {s body : Alternatives} {place : List Step} {opener closer : Token} (outer : Scope tree s)
      (stands : s.Stands place (.group opener body closer)) (own : groupKindOf opener ≠ .plain) :
      Scope tree body

/-- Two places lie in different branches of one alternation. -/
def Forked (a b : List Step) : Prop :=
  ∃ before s t a' b', a = before ++ s :: a' ∧ b = before ++ t :: b' ∧ s.branch ≠ t.branch

theorem forked_cons {s : Step} {a b : List Step} : Forked (s :: a) (s :: b) ↔ Forked a b := by
  constructor
  · rintro ⟨before, t, u, a', b', ha, hb, apart⟩
    cases before with
    | nil =>
      cases ha
      cases hb
      exact absurd rfl apart
    | cons r before =>
      obtain ⟨_, rfl⟩ := List.cons.inj ha
      obtain ⟨_, rfl⟩ := List.cons.inj hb
      exact ⟨before, t, u, a', b', rfl, rfl, apart⟩
  · rintro ⟨before, t, u, a', b', rfl, rfl, apart⟩
    exact ⟨s :: before, t, u, a', b', rfl, rfl, apart⟩

/-- Ways that part at two elements of one row do not part at a branch. -/
theorem not_forked_cons {s t : Step} {a b : List Step} (row : s.branch = t.branch) (apart : s ≠ t) :
    ¬Forked (s :: a) (t :: b) := by
  rintro ⟨before, r, r', a', b', ha, hb, branches⟩
  cases before with
  | nil =>
    cases ha
    cases hb
    exact branches row
  | cons q before =>
    cases ha
    cases hb
    exact apart rfl

theorem Alternatives.atom?_iff {tree : Alternatives} {s : Step} {atom : Atom} :
    tree.atom? s = some atom ↔
      ∃ row, tree.rows[s.branch]? = some row ∧ row.atoms[s.element]? = some atom :=
  Option.bind_eq_some_iff

/-- Some step leads to each atom of each row. -/
theorem Alternatives.exists_atom? {tree : Alternatives} {row : Items} {atom : Atom}
    (branch : row ∈ tree.rows) (element : atom ∈ row.atoms) : ∃ s, tree.atom? s = some atom := by
  obtain ⟨i, hi⟩ := List.mem_iff_getElem?.mp branch
  obtain ⟨j, hj⟩ := List.mem_iff_getElem?.mp element
  exact ⟨⟨i, j⟩, Alternatives.atom?_iff.mpr ⟨row, hi, hj⟩⟩

section Places

variable {tree body s : Alternatives} {step : Step} {place : List Step} {opener closer : Token}
  {atom : Atom}

theorem Alternatives.atom?_formed (h : tree.Formed) (at_ : tree.atom? step = some atom) :
    atom.Formed := by
  obtain ⟨row, branch, element⟩ := Alternatives.atom?_iff.mp at_
  exact Items.atom_formed (Alternatives.row_formed h (List.mem_of_getElem? branch))
    (List.mem_of_getElem? element)

theorem Alternatives.atom?_tokens (at_ : tree.atom? step = some atom) :
    atom.tokens.Sublist tree.tokens := by
  obtain ⟨row, branch, element⟩ := Alternatives.atom?_iff.mp at_
  exact (Items.atom_tokens (List.mem_of_getElem? element)).trans
    (Alternatives.row_tokens (List.mem_of_getElem? branch))

theorem Atom.body_tokens : body.tokens.Sublist (Atom.group opener body closer).tokens := by
  rw [Atom.tokens]
  exact (List.sublist_append_left _ _).cons opener

/-- What stands in well-formed alternatives is well-formed, and made of their tokens. -/
theorem Alternatives.Stands.formed (h : tree.Stands place atom) (formed : tree.Formed) :
    atom.Formed ∧ atom.tokens.Sublist tree.tokens := by
  induction h with
  | here at_ => exact ⟨Alternatives.atom?_formed formed at_, Alternatives.atom?_tokens at_⟩
  | inside at_ _ _ ih =>
    obtain ⟨below, tokens⟩ := ih (Alternatives.atom?_formed formed at_).2.1
    exact ⟨below, tokens.trans (Atom.body_tokens.trans (Alternatives.atom?_tokens at_))⟩

theorem Alternatives.Scope.formed (h : tree.Scope s) (formed : tree.Formed) :
    s.Formed ∧ s.tokens.Sublist tree.tokens := by
  induction h with
  | root => exact ⟨formed, .refl _⟩
  | group _ stands _ ih =>
    obtain ⟨group, tokens⟩ := stands.formed ih.1
    exact ⟨group.2.1, Atom.body_tokens.trans (tokens.trans ih.2)⟩

/-- The scopes inside a plain group are scopes of what is around it. -/
theorem Alternatives.Scope.plain (at_ : tree.atom? step = some (.group opener body closer))
    (plain : groupKindOf opener = .plain) (h : body.Scope s) : s = body ∨ tree.Scope s := by
  induction h with
  | root => exact .inl rfl
  | group _ stands own ih =>
    refine .inr ?_
    rcases ih with rfl | outer
    · exact .group .root (.inside at_ plain stands) own
    · exact .group outer stands own

/-- The scopes inside a group that is not plain are scopes of what is around it. -/
theorem Alternatives.Scope.enclosed (at_ : tree.atom? step = some (.group opener body closer))
    (own : groupKindOf opener ≠ .plain) (h : body.Scope s) : tree.Scope s := by
  induction h with
  | root => exact .group .root (.here at_) own
  | group _ stands own ih => exact .group ih stands own

end Places

end GrammarMatch.Syntax
