/-
  File:      GrammarMatch/Proofs/Descent.lean
  Subject:   How deep the search nests where every rule is atomic.

  A part nests no deeper than its tree is high until a rule is called. An atomic rule is not
  entered again where it is being matched, so that every call that enters one uses up a place: a
  rule at a position. The places that are left, each with room for one rule, and the height of the
  tree bound the depth (`roomy`), whatever the search comes to: looks behind start again nearer to
  the start of the text, and rounds of no width stay where they are, but neither leaves the text
  nor gives a place back.
-/
import GrammarMatch.Proofs.Inside

namespace GrammarMatch

/-! ## 1. Patterns -/

namespace Pattern

mutual

/-- How deep the parts of a pattern nest in it. -/
def height : Pattern → Nat
  | .sequence parts => heightOfAll parts
  | .alternation _ branches => heightOfAll branches
  | .repetition _ body => height body + 1
  | .group _ _ body => height body + 1
  | .look _ body => height body + 1
  | _ => 0

/-- How deep the parts nest in something in which each of these stands. -/
def heightOfAll : List Pattern → Nat
  | [] => 0
  | p :: rest => max (height p + 1) (heightOfAll rest)

end

theorem height_lt_of_mem {parts : List Pattern} {p : Pattern} (h : p ∈ parts) :
    p.height + 1 ≤ heightOfAll parts := by
  induction parts with
  | nil => cases h
  | cons q parts ih =>
    unfold heightOfAll
    rcases List.mem_cons.mp h with rfl | h
    · exact Nat.le_max_left _ _
    · exact Nat.le_trans (ih h) (Nat.le_max_right _ _)

theorem heightOfAll_le {parts : List Pattern} {n : Nat} (h : ∀ p ∈ parts, p.height + 1 ≤ n) :
    heightOfAll parts ≤ n := by
  induction parts with
  | nil => exact Nat.zero_le n
  | cons p parts ih =>
    obtain ⟨first, rest⟩ := List.forall_mem_cons.mp h
    exact Nat.max_le.mpr ⟨first, ih rest⟩

theorem height_of_child {p c : Pattern} (h : c ∈ p.children) : c.height + 1 ≤ p.height := by
  cases p with
  | sequence parts | alternation mode parts =>
    simp only [height]
    exact height_lt_of_mem h
  | repetition q body | group key plural body | look kind body =>
    rw [List.mem_singleton.mp h]
    exact Nat.le_refl _
  | literal | charClass | anchor | ruleRef | whitespace => cases h

end Pattern

namespace Match

/-! ## 2. Places -/

/-- Rules that are all atomic: their names, and how high their patterns are at most. -/
structure Lexicon.Atomic (x : Lexicon) where
  names : List String
  height : Nat
  named : x.Named
  listed : ∀ name rule, x.rules name = .ok rule → name ∈ names
  atomic : ∀ name rule, x.rules name = .ok rule → rule.kind.atomic = true
  nonNegative : ∀ name rule, x.rules name = .ok rule → rule.pattern.NonNegative
  low : ∀ name rule, x.rules name = .ok rule → rule.pattern.height ≤ height

namespace Lexicon.Atomic

variable {x : Lexicon} (a : x.Atomic) (t : Text)

/-- The places at which a rule can be called: each rule at each position of the text. -/
def places : Active :=
  a.names.flatMap fun name => (List.range (t.size + 1)).map fun (i : Nat) => (name, (i : Int))

theorem mem_places {name : String} {pos : Int} (listed : name ∈ a.names) (here : t.Span 0 pos) :
    (name, pos) ∈ a.places t := by
  refine List.mem_flatMap.mpr ⟨name, listed, List.mem_map.mpr ⟨pos.toNat, ?_, ?_⟩⟩
  · have inside : pos ≤ (t.size : Int) := here.le_stop
    exact List.mem_range.mpr (by omega)
  · rw [Int.toNat_of_nonneg here.le]

theorem length_places : (a.places t).length = a.names.length * (t.size + 1) := by
  unfold places
  simp only [List.length_flatMap, List.length_map, List.length_range, List.map_const',
    List.sum_replicate_nat]

/-- How deep the calls can nest that may still enter a rule, while some are active. -/
def reserve (active : Active) : Nat :=
  ((a.places t).filter fun place => !active.contains place).length * (a.height + 1)

theorem reserve_le (active : Active) :
    a.reserve t active ≤ a.names.length * (t.size + 1) * (a.height + 1) := by
  refine Nat.mul_le_mul_right _ ?_
  rw [← a.length_places t]
  exact List.length_filter_le _ _

/-- Entering a rule uses up a place, and with it the room for one rule. -/
theorem reserve_enter {place : String × Int} {active : Active} (mem : place ∈ a.places t)
    (fresh : ¬active.contains place = true) :
    a.reserve t (place :: active) + (a.height + 1) ≤ a.reserve t active := by
  have fewer : ((a.places t).filter fun p => !(place :: active).contains p).length <
      ((a.places t).filter fun p => !active.contains p).length := by
    have again : ((a.places t).filter fun p => !(place :: active).contains p) =
        ((a.places t).filter fun p => !active.contains p).filter (· != place) := by
      rw [List.filter_filter]
      refine List.filter_congr fun p _ => ?_
      rw [List.contains_cons, Bool.not_or]
      rfl
    rw [again]
    refine List.length_filter_lt_length_iff_exists.mpr ⟨place, List.mem_filter.mpr ⟨mem, ?_⟩, ?_⟩
    · simpa using fresh
    · simp
  have grown := Nat.mul_le_mul_right (a.height + 1) (Nat.succ_le_of_lt fewer)
  rw [Nat.succ_mul] at grown
  exact grown

end Lexicon.Atomic

/-! ## 3. Room -/

/-- A callback, or the supply of a rule that is compiled when it is first used, fails as if there
    were no room. -/
def Feigns (text : Text) (actions : Actions) (x : Lexicon) : Prop :=
  (∃ rule c, actions.invoke text rule c = .error .stackExhausted) ∨
    ∃ name, x.rules name = .error .stackExhausted

/-- There is room for a part, for all that it is made of, and for all the rules that may still be
    entered. -/
def roomy (env : Env) {x : Lexicon} (a : x.Atomic) : Guard env x where
  admits f := f = .stackExhausted → Feigns env.text env.actions x
  part active depth p :=
    p.NonNegative ∧ depth + p.height + a.reserve env.text active ≤ env.settings.room
  call active depth _ := depth + a.reserve env.text active ≤ env.settings.room
  nonNegative h := h.1
  child h c hc := by
    have low := Pattern.height_of_child hc
    exact ⟨h.1.child hc, by omega⟩
  ruleRef h := h.2
  space h _ := h.2
  entry _ failed exhausted := by
    subst exhausted
    unfold Basis.entry at failed
    split at failed
    · split at failed <;> cases failed
    · cases failed
  test _ _ failed exhausted := absurd exhausted (fails_test failed).1
  level h full _ := absurd (Nat.le_trans (by omega) h.2) full
  callLevel h full _ := absurd (Nat.le_trans (Nat.le_add_right _ _) h) full
  lookup _ failed exhausted := .inr ⟨_, exhausted ▸ failed⟩
  atomic := by
    intro active depth name rule pos h known _ here fresh
    have place : (rule.name, pos) ∈ a.places env.text := by
      rw [a.named name rule known]
      exact a.mem_places env.text (a.listed name rule known) here
    have left := a.reserve_enter env.text place fresh
    have low := a.low name rule known
    exact ⟨a.nonNegative name rule known, by omega⟩
  nonAtomic _ known kind := absurd (a.atomic _ _ known) kind
  callback failed exhausted := .inl ⟨_, _, exhausted ▸ failed⟩

end Match

end GrammarMatch
