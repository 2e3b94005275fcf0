/-
  File:      GrammarMatch/Proofs/Places.lean
  Subject:   The places of a capture scope.

  The scope of a pattern reaches down to the groups that are captured and to the looks: what these
  enclose is a scope of its own (`Pattern.Scope`). A place in a scope is said by the numbers of the
  children on the way down to it (`Pattern.at?`). From what stands at the places follows which keys
  the scope binds, and which of them by a group that may be repeated.
-/
import GrammarMatch.Pattern
import Mathlib.Data.List.Basic

namespace GrammarMatch

namespace Pattern

/-! ## 1. Places and scopes -/

/-- What stands right below a pattern in the same scope. -/
def inner : Pattern → List Pattern
  | .sequence parts => parts
  | .alternation _ branches => branches
  | .repetition _ body => [body]
  | .group none _ body => [body]
  | _ => []

/-- What stands at a place of the scope of a pattern, if there is such a place. -/
def at? : List Nat → Pattern → Option Pattern
  | [], p => some p
  | i :: place, p => p.inner[i]?.bind (at? place)

/-- The scopes of a pattern: its own one, and what the groups and the looks of a scope enclose. -/
inductive Scope (p : Pattern) : Pattern → Prop
  | root : Scope p p
  | group {s : Pattern} {place : List Nat} {key : CaptureKey} {plural : List CaptureKey}
      {body : Pattern} (outer : Scope p s)
      (here : s.at? place = some (.group (some key) plural body)) : Scope p body
  | look {s : Pattern} {place : List Nat} {kind : LookKind} {body : Pattern} (outer : Scope p s)
      (here : s.at? place = some (.look kind body)) : Scope p body

theorem at?_cons {p x : Pattern} {i : Nat} {place : List Nat} :
    p.at? (i :: place) = some x ↔ ∃ c, p.inner[i]? = some c ∧ c.at? place = some x :=
  Option.bind_eq_some_iff

/-- What is passed on to whatever stands right below holds everywhere in the scope. -/
theorem at?_inherits {Q : Pattern → Prop} (below : ∀ p, Q p → ∀ c ∈ p.inner, Q c) {place : List Nat}
    {p x : Pattern} (h : Q p) (here : p.at? place = some x) : Q x := by
  induction place generalizing p with
  | nil =>
    cases here
    exact h
  | cons i place ih =>
    obtain ⟨c, hc, here⟩ := at?_cons.mp here
    exact ih (below p h c (List.mem_of_getElem? hc)) here

/-- A place is the root, or it lies below one of the children. -/
theorem exists_at? {Q : Pattern → Prop} {p : Pattern} :
    (∃ place x, p.at? place = some x ∧ Q x) ↔
      Q p ∨ ∃ c ∈ p.inner, ∃ place x, c.at? place = some x ∧ Q x := by
  constructor
  · rintro ⟨place, x, here, hx⟩
    cases place with
    | nil =>
      cases here
      exact .inl hx
    | cons i place =>
      obtain ⟨c, hc, here⟩ := at?_cons.mp here
      exact .inr ⟨c, List.mem_of_getElem? hc, place, x, here, hx⟩
  · rintro (h | ⟨c, hc, place, x, here, hx⟩)
    · exact ⟨[], p, rfl, h⟩
    · obtain ⟨i, hi⟩ := List.mem_iff_getElem?.mp hc
      exact ⟨i :: place, x, at?_cons.mpr ⟨c, hi, here⟩, hx⟩

/-! ## 2. Keys -/

/-- The key under which a pattern is captured, if it is a group. -/
def groupKey? : Pattern → Option CaptureKey
  | .group key _ _ => key
  | _ => none

/-- The key under which a pattern is captured, if it is a reference. -/
def ruleKey? : Pattern → Option CaptureKey
  | .ruleRef r => r.key?
  | _ => none

/-- Some group of the scope is captured under a key. -/
def Binds (p : Pattern) (key : CaptureKey) : Prop :=
  ∃ place x, p.at? place = some x ∧ x.groupKey? = some key

/-- Some reference of the scope is captured under a key. -/
def Refers (p : Pattern) (key : CaptureKey) : Prop :=
  ∃ place x, p.at? place = some x ∧ x.ruleKey? = some key

end Pattern

/-- More than one round is allowed. -/
def Quantity.Several (q : Quantity) : Prop := ∀ high, q.max = some high → 1 < high

namespace Pattern

/-- A repetition of more than one round in which some group is captured under a key. -/
def RepeatsKey (key : CaptureKey) : Pattern → Prop
  | .repetition q body => q.Several ∧ body.Binds key
  | _ => False

/-- Some group with a key lies under a repetition of the scope that allows more than one round. -/
def Repeated (p : Pattern) (key : CaptureKey) : Prop :=
  ∃ place x, p.at? place = some x ∧ x.RepeatsKey key

theorem binds_iff {p : Pattern} {key : CaptureKey} :
    p.Binds key ↔ p.groupKey? = some key ∨ ∃ c ∈ p.inner, c.Binds key := exists_at?

theorem refers_iff {p : Pattern} {key : CaptureKey} :
    p.Refers key ↔ p.ruleKey? = some key ∨ ∃ c ∈ p.inner, c.Refers key := exists_at?

theorem repeated_iff {p : Pattern} {key : CaptureKey} :
    p.Repeated key ↔ p.RepeatsKey key ∨ ∃ c ∈ p.inner, c.Repeated key := exists_at?

section Inner

variable {p : Pattern} {key : CaptureKey}

theorem binds_inner (other : p.groupKey? = none) : p.Binds key ↔ ∃ c ∈ p.inner, c.Binds key :=
  binds_iff.trans (or_iff_right (by rw [other]; nofun))

theorem refers_inner (other : p.ruleKey? = none) : p.Refers key ↔ ∃ c ∈ p.inner, c.Refers key :=
  refers_iff.trans (or_iff_right (by rw [other]; nofun))

theorem repeated_inner (other : ¬p.RepeatsKey key) :
    p.Repeated key ↔ ∃ c ∈ p.inner, c.Repeated key :=
  repeated_iff.trans (or_iff_right other)

theorem binds_leaf (leaf : p.inner = []) : p.Binds key ↔ p.groupKey? = some key :=
  binds_iff.trans (or_iff_left (by rw [leaf]; nofun))

theorem refers_leaf (leaf : p.inner = []) : p.Refers key ↔ p.ruleKey? = some key :=
  refers_iff.trans (or_iff_left (by rw [leaf]; nofun))

theorem repeated_leaf (leaf : p.inner = []) (other : ¬p.RepeatsKey key) : ¬p.Repeated key := by
  rw [repeated_inner other, leaf]
  exact nofun

variable {q : Quantity} {body : Pattern}

theorem binds_repetition : (repetition q body).Binds key ↔ body.Binds key := by
  rw [binds_inner rfl]
  simp only [inner, List.mem_singleton, exists_eq_left]

theorem refers_repetition : (repetition q body).Refers key ↔ body.Refers key := by
  rw [refers_inner rfl]
  simp only [inner, List.mem_singleton, exists_eq_left]

theorem repeated_repetition : (repetition q body).Repeated key ↔
    q.Several ∧ body.Binds key ∨ body.Repeated key := by
  rw [repeated_iff]
  simp only [inner, List.mem_singleton, exists_eq_left, RepeatsKey]

end Inner

/-- What may be repeated is captured. -/
theorem Repeated.binds {p : Pattern} {key : CaptureKey} (h : p.Repeated key) : p.Binds key := by
  obtain ⟨place, x, here, several⟩ := h
  induction place generalizing p with
  | nil =>
    cases here
    match x, several with
    | .repetition _ body, ⟨_, inside⟩ =>
      exact binds_iff.mpr (.inr ⟨body, List.mem_cons_self, inside⟩)
  | cons i place ih =>
    obtain ⟨c, hc, here⟩ := at?_cons.mp here
    exact binds_iff.mpr (.inr ⟨c, List.mem_of_getElem? hc, ih here⟩)

/-! ## 3. Choices -/

mutual

/-- The keys of the groups of a scope from left to right, for each choice of one branch per
    alternation. -/
def choices : Pattern → List (List CaptureKey)
  | .group (some key) _ _ => [[key]]
  | .group none _ body => choices body
  | .sequence parts => choicesOfParts parts
  | .alternation _ branches => choicesOfBranches branches
  | .repetition _ body => choices body
  | _ => [[]]

/-- The keys along parts, for each choice in each of them. -/
def choicesOfParts : List Pattern → List (List CaptureKey)
  | [] => [[]]
  | p :: rest => (choices p).flatMap fun keys => (choicesOfParts rest).map (keys ++ ·)

/-- The keys along one of several branches. -/
def choicesOfBranches : List Pattern → List (List CaptureKey)
  | [] => []
  | p :: rest => choices p ++ choicesOfBranches rest

end

/-- Two places lie in different branches of one alternation. -/
def Diverge (p : Pattern) (a b : List Nat) : Prop :=
  ∃ before mode branches i j a' b', p.at? before = some (.alternation mode branches) ∧ i ≠ j ∧
    a = before ++ i :: a' ∧ b = before ++ j :: b'

theorem Diverge.below {p c : Pattern} {i : Nat} (hc : p.inner[i]? = some c) {a b : List Nat}
    (h : c.Diverge a b) : p.Diverge (i :: a) (i :: b) := by
  obtain ⟨before, mode, branches, j, k, a', b', here, different, rfl, rfl⟩ := h
  exact ⟨i :: before, mode, branches, j, k, a', b', at?_cons.mpr ⟨c, hc, here⟩, different, rfl, rfl⟩

theorem mem_choicesOfParts {p : Pattern} {rest : List Pattern} {keys : List CaptureKey} :
    keys ∈ choicesOfParts (p :: rest) ↔
      ∃ first ∈ choices p, ∃ later ∈ choicesOfParts rest, first ++ later = keys := by
  simp only [choicesOfParts, List.mem_flatMap, List.mem_map]

theorem mem_choicesOfBranches {branches : List Pattern} {keys : List CaptureKey} :
    keys ∈ choicesOfBranches branches ↔ ∃ p ∈ branches, keys ∈ choices p := by
  induction branches with
  | nil => exact ⟨nofun, nofun⟩
  | cons p branches ih =>
    rw [choicesOfBranches, List.mem_append, ih, List.exists_mem_cons_iff]

end Pattern

/-- The number of a group without a name. -/
def CaptureKey.index? : CaptureKey → Option Int
  | .index n => some n
  | .name _ => none

end GrammarMatch
