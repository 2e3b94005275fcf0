/-
  File:      GrammarMatch/Proofs/Width.lean
  Subject:   The width of a pattern bounds its matches.

  The width is read off the tree. A match is never narrower than its low bound, if no body of a
  repetition could take less than nothing (`Derives.low_le`), and never wider than its high bound,
  if no repetition allows less than no rounds (`Derives.le_high`). What was kept, tried or
  preferred does not matter, as the bounds hold along every derivation.
-/
import GrammarMatch.Proofs.Inside
import GrammarMatch.Proofs.Language

namespace GrammarMatch

open Match

/-! ## 1. What the repetitions of a pattern are like -/

/-- No bound is negative. -/
def Quantity.Natural (q : Quantity) : Prop := 0 ≤ q.min ∧ ∀ max, q.max = some max → 0 ≤ max

namespace Pattern

/-- All repetitions in a pattern are as required, with their bodies. -/
inductive Repeats (R : Quantity → Pattern → Prop) : Pattern → Prop
  | intro {p : Pattern} (own : ∀ q body, p = .repetition q body → R q body)
      (inner : ∀ c ∈ p.children, Repeats R c) : Repeats R p

namespace Repeats

variable {R R' : Quantity → Pattern → Prop} {p : Pattern}

theorem child (h : p.Repeats R) {c : Pattern} (hc : c ∈ p.children) : c.Repeats R := by
  cases h with
  | intro _ inner => exact inner c hc

theorem own {q : Quantity} {body : Pattern} (h : (Pattern.repetition q body).Repeats R) :
    R q body := by
  cases h with
  | intro own _ => exact own q body rfl

theorem body {q : Quantity} {body : Pattern} (h : (Pattern.repetition q body).Repeats R) :
    body.Repeats R := h.child List.mem_cons_self

theorem mono (h : p.Repeats R) (imp : ∀ q body, body.Repeats R → R q body → R' q body) :
    p.Repeats R' := by
  induction h with
  | @intro p own inner ih =>
    refine .intro (fun q body eq => ?_) ih
    subst eq
    exact imp q body (inner body List.mem_cons_self) (own q body rfl)

/-- A sequence repeats what its parts repeat. -/
theorem parts {first : Pattern} {rest : List Pattern}
    (h : (Pattern.sequence (first :: rest)).Repeats R) :
    first.Repeats R ∧ (Pattern.sequence rest).Repeats R := by
  refine ⟨h.child List.mem_cons_self, .intro (fun _ _ eq => by cases eq) fun c hc => ?_⟩
  exact h.child (List.mem_cons_of_mem first hc)

/-- Another quantity, as required, may take the place of the outermost. -/
theorem requantify {q q' : Quantity} {body : Pattern} (h : (Pattern.repetition q body).Repeats R)
    (hq : R q' body) : (Pattern.repetition q' body).Repeats R := by
  refine .intro (fun q'' body' eq => ?_) fun c hc => h.child hc
  cases eq
  exact hq

theorem nonNegative (h : p.Repeats fun q _ => 0 ≤ q.min) : p.NonNegative := by
  induction h with
  | @intro p own _ ih =>
    cases p with
    | literal => exact .literal
    | charClass => exact .charClass
    | sequence parts => exact .sequence ih
    | alternation mode branches => exact .alternation ih
    | repetition q body => exact .repetition (own q body rfl) (ih body List.mem_cons_self)
    | group key plural body => exact .group (ih body List.mem_cons_self)
    | look kind body => exact .look (ih body List.mem_cons_self)
    | anchor => exact .anchor
    | ruleRef => exact .ruleRef
    | whitespace => exact .whitespace

/-- Where no bound is negative, neither is the low one of the width. -/
theorem low (h : p.Repeats fun q _ => q.Natural) : 0 ≤ p.width.low :=
  (h.mono fun _ _ _ own => own.1).nonNegative.low

end Repeats

/-! ## 2. Bounds of what patterns are made of -/

theorem widthOfBranches_le (w : Width) (branches : List Pattern) :
    (widthOfBranches w branches).low ≤ w.low ∧
      ∀ p ∈ branches, (widthOfBranches w branches).low ≤ p.width.low := by
  induction branches generalizing w with
  | nil => exact ⟨Int.le_refl _, List.forall_mem_nil _⟩
  | cons p branches ih =>
    obtain ⟨first, others⟩ := ih (w.sup p.width)
    refine ⟨Int.le_trans first (Int.min_le_left _ _), List.forall_mem_cons.mpr ⟨?_, others⟩⟩
    exact Int.le_trans first (Int.min_le_right _ _)

/-- No branch is narrower than the alternation. -/
theorem low_alternation {mode : ChoiceMode} {branches : List Pattern} {p : Pattern}
    (mem : p ∈ branches) : (alternation mode branches).width.low ≤ p.width.low := by
  cases branches with
  | nil => cases mem
  | cons first rest =>
    show (widthOfBranches first.width rest).low ≤ _
    rcases List.mem_cons.mp mem with rfl | mem
    · exact (widthOfBranches_le _ rest).1
    · exact (widthOfBranches_le _ rest).2 p mem

/-- What is no wider than either of two is no wider than both. -/
theorem high_sup {a b : Width} {high : Int} (h : (a.sup b).high = some high) :
    (∃ x, a.high = some x ∧ x ≤ high) ∧ ∃ y, b.high = some y ∧ y ≤ high := by
  unfold Width.sup at h
  cases ha : a.high with
  | none => simp [ha] at h
  | some x =>
    cases hb : b.high with
    | none => simp [ha, hb] at h
    | some y =>
      simp only [ha, hb, Option.some.injEq] at h
      subst h
      exact ⟨⟨x, rfl, Int.le_max_left x y⟩, y, rfl, Int.le_max_right x y⟩

theorem le_widthOfBranches {w : Width} {branches : List Pattern} {high : Int}
    (h : (widthOfBranches w branches).high = some high) :
    (∃ x, w.high = some x ∧ x ≤ high) ∧
      ∀ p ∈ branches, ∃ x, p.width.high = some x ∧ x ≤ high := by
  induction branches generalizing w with
  | nil => exact ⟨⟨high, h, Int.le_refl _⟩, List.forall_mem_nil _⟩
  | cons p branches ih =>
    obtain ⟨⟨x, hx, le⟩, others⟩ := ih h
    obtain ⟨⟨y, hy, hyx⟩, z, hz, hzx⟩ := high_sup hx
    refine ⟨⟨y, hy, Int.le_trans hyx le⟩, List.forall_mem_cons.mpr ⟨?_, others⟩⟩
    exact ⟨z, hz, Int.le_trans hzx le⟩

/-- No branch is wider than the alternation. -/
theorem high_alternation {mode : ChoiceMode} {branches : List Pattern} {p : Pattern}
    (mem : p ∈ branches) {high : Int} (h : (alternation mode branches).width.high = some high) :
    ∃ x, p.width.high = some x ∧ x ≤ high := by
  cases branches with
  | nil => cases mem
  | cons first rest =>
    obtain ⟨own, others⟩ := le_widthOfBranches (w := first.width) h
    rcases List.mem_cons.mp mem with rfl | mem
    · exact own
    · exact others p mem

theorem high_add {a b : Width} {high : Int} (h : (a.add b).high = some high) :
    ∃ x y, a.high = some x ∧ b.high = some y ∧ high = x + y := by
  unfold Width.add at h
  cases ha : a.high with
  | none => simp [ha] at h
  | some x =>
    cases hb : b.high with
    | none => simp [ha, hb] at h
    | some y =>
      simp only [ha, hb, Option.some.injEq] at h
      exact ⟨x, y, rfl, rfl, h.symm⟩

/-- A repetition is bounded if its body is, and so is the number of its rounds unless the body
    takes no room. -/
theorem high_times {a : Width} {q : Quantity} {high : Int} (h : (a.times q).high = some high) :
    (∃ x n, a.high = some x ∧ q.max = some n ∧ high = x * n) ∨
      a.high = some 0 ∧ q.max = none ∧ high = 0 := by
  unfold Width.times at h
  cases ha : a.high with
  | none => cases hq : q.max <;> simp [ha, hq] at h
  | some x =>
    cases hq : q.max with
    | some n =>
      simp only [ha, hq, Option.some.injEq] at h
      exact .inl ⟨x, n, rfl, rfl, h.symm⟩
    | none =>
      simp only [ha, hq] at h
      by_cases hx : x = 0
      · subst hx
        exact .inr ⟨rfl, rfl, (Option.some.inj h).symm⟩
      · simp [hx] at h

theorem high_parts {parts : List Pattern}
    (h : ∀ p ∈ parts, ∀ {x : Int}, p.width.high = some x → 0 ≤ x) {high : Int}
    (hp : (widthOfParts parts).high = some high) : 0 ≤ high := by
  induction parts generalizing high with
  | nil =>
    cases hp
    exact Int.le_refl 0
  | cons p parts ih =>
    obtain ⟨x, y, hx, hy, rfl⟩ := high_add hp
    obtain ⟨first, rest⟩ := List.forall_mem_cons.mp h
    exact Int.add_nonneg (first hx) (ih rest hy)

/-- No repetition in a pattern allows less than no rounds. -/
abbrev Bounded (p : Pattern) : Prop := p.Repeats fun q _ => ∀ max, q.max = some max → 0 ≤ max

/-- A high bound is not negative. -/
theorem Bounded.high {p : Pattern} (h : p.Bounded) {high : Int} (hp : p.width.high = some high) :
    0 ≤ high := by
  induction h generalizing high with
  | @intro p own _ ih =>
    cases p with
    | literal chars _ =>
      cases hp
      exact Int.natCast_nonneg _
    | charClass =>
      cases hp
      exact Int.one_nonneg
    | sequence parts => exact high_parts ih hp
    | alternation mode branches =>
      cases branches with
      | nil =>
        cases hp
        exact Int.le_refl 0
      | cons p branches =>
        obtain ⟨x, hx, le⟩ := high_alternation List.mem_cons_self hp
        exact Int.le_trans (ih p List.mem_cons_self hx) le
    | repetition q body =>
      rcases high_times hp with ⟨x, n, hx, hn, rfl⟩ | ⟨_, _, rfl⟩
      · exact Int.mul_nonneg (ih body List.mem_cons_self hx) (own q body rfl n hn)
      · exact Int.le_refl 0
    | group key plural body => exact ih body List.mem_cons_self hp
    | look | anchor =>
      cases hp
      exact Int.le_refl 0
    | ruleRef | whitespace => cases hp

end Pattern

/-! ## 3. Matches -/

namespace Match

variable {w : Basis} {p : Pattern} {s t : Solution}

/-- **No match is narrower than the low bound**, if no body of a repetition could take less than
    nothing. -/
theorem Derives.low_le (h : Derives w p s t) (hp : p.Repeats fun _ body => 0 ≤ body.width.low) :
    p.width.low ≤ t.stop - s.stop := by
  induction h with
  | @literal chars ignoreCase s stop h =>
    obtain ⟨_, rfl⟩ := literalStop_eq_some.mp h
    show (chars.length : Int) ≤ s.stop + chars.length - s.stop
    omega
  | @charClass items negated ignoreCase s h =>
    show (1 : Int) ≤ s.stop + 1 - s.stop
    omega
  | @nil s =>
    show (0 : Int) ≤ s.stop - s.stop
    omega
  | @cons p rest s t u _ _ ih₁ ih₂ =>
    have first := ih₁ hp.parts.1
    have others := ih₂ hp.parts.2
    change (Pattern.widthOfParts rest).low ≤ u.stop - t.stop at others
    show p.width.low + (Pattern.widthOfParts rest).low ≤ u.stop - s.stop
    omega
  | branch mem _ ih => exact Int.le_trans (Pattern.low_alternation mem) (ih (hp.child mem))
  | @stop q body s enough =>
    have least : q.min ≤ 0 := Quantity.mayStop_iff.mp enough
    show body.width.low * q.min ≤ s.stop - s.stop
    rw [Int.sub_self]
    exact Int.mul_nonpos_of_nonneg_of_nonpos hp.own least
  | @last q body s t _ _ width ih =>
    have none : body.width.low = 0 := by
      have := ih hp.body
      have := hp.own
      omega
    show body.width.low * q.min ≤ t.stop - s.stop
    rw [none, Int.zero_mul]
    omega
  | @more q body s t u _ _ _ _ ih₁ ih₂ =>
    have first := ih₁ hp.body
    have others := ih₂ (hp.requantify hp.own)
    change body.width.low * (q.min - (1 : Nat)) ≤ u.stop - t.stop at others
    show body.width.low * q.min ≤ u.stop - s.stop
    rw [Int.mul_sub] at others
    omega
  | enclosed _ ih => exact ih (hp.child List.mem_cons_self)
  | grouped _ ih => exact ih (hp.child List.mem_cons_self)
  | @look kind body s | @anchor kind s h =>
    show (0 : Int) ≤ s.stop - s.stop
    omega
  | ruleRef _ h _ _ => exact Int.sub_nonneg_of_le h.onward.1
  | space _ _ h _ _ => exact Int.sub_nonneg_of_le h.onward.1
  | gap _ h => exact Int.sub_nonneg_of_le (gapStop_spec h).1

/-- **No match is wider than the high bound**, if no repetition allows less than no rounds. -/
theorem Derives.le_high (h : Derives w p s t) (hp : p.Bounded) {high : Int}
    (bound : p.width.high = some high) : t.stop - s.stop ≤ high := by
  induction h generalizing high with
  | @literal chars ignoreCase s stop h =>
    obtain ⟨_, rfl⟩ := literalStop_eq_some.mp h
    cases bound
    show s.stop + (chars.length : Int) - s.stop ≤ chars.length
    omega
  | @charClass items negated ignoreCase s h =>
    cases bound
    show s.stop + 1 - s.stop ≤ 1
    omega
  | @nil s =>
    cases bound
    show s.stop - s.stop ≤ 0
    omega
  | @cons p rest s t u _ _ ih₁ ih₂ =>
    obtain ⟨x, y, hx, hy, rfl⟩ := Pattern.high_add bound
    have first := ih₁ hp.parts.1 hx
    have others := ih₂ hp.parts.2 hy
    omega
  | branch mem _ ih =>
    obtain ⟨x, hx, le⟩ := Pattern.high_alternation mem bound
    exact Int.le_trans (ih (hp.child mem) hx) le
  | @stop q body s enough =>
    rw [Int.sub_self]
    exact hp.high bound
  | @last q body s t _ _ width ih =>
    have := hp.high bound
    omega
  | @more q body s t u room _ _ _ ih₁ ih₂ =>
    have bounded : (Pattern.repetition (q.after 1) body).Bounded := hp.requantify fun max hmax => by
      have := Quantity.mayGoOn_iff.mp room _ (Quantity.max_after hmax)
      omega
    rcases Pattern.high_times bound with ⟨x, n, hx, hn, rfl⟩ | ⟨hx, hn, rfl⟩
    · have left :
          (Pattern.repetition (q.after 1) body).width.high = some (x * (n - (1 : Nat))) := by
        show (body.width.times (q.after 1)).high = _
        simp only [Pattern.Width.times, Quantity.after, hn, hx, Option.map_some]
      have first := ih₁ hp.body hx
      have others := ih₂ bounded left
      rw [Int.mul_sub] at others
      omega
    · have left : (Pattern.repetition (q.after 1) body).width.high = some 0 := by
        show (body.width.times (q.after 1)).high = _
        simp [Pattern.Width.times, Quantity.after, hn, hx]
      have first := ih₁ hp.body hx
      have others := ih₂ bounded left
      omega
  | enclosed _ ih => exact ih (hp.child List.mem_cons_self) bound
  | grouped _ ih => exact ih (hp.child List.mem_cons_self) bound
  | @look kind body s | @anchor kind s h =>
    cases bound
    show s.stop - s.stop ≤ 0
    omega
  | ruleRef => cases bound
  | space => cases bound
  | gap => cases bound

end Match

end GrammarMatch
