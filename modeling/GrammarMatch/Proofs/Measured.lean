/-
  File:      GrammarMatch/Proofs/Measured.lean
  Subject:   The width of a compiled pattern bounds its solutions.

  A quantifier with an upper bound has it no lower than the lower one, as the compiler refuses
  bounds in the other order (`Pattern.ordered_compile`). So where no bound is negative, every
  solution of a compiled pattern is as wide as the width of the pattern says
  (`solutions_measured`). A bound may be written with a sign, though, and a repetition less than
  no times has a width below nothing, which no match can have (`width_negative`).
-/
import GrammarMatch.Proofs.Derivable
import GrammarMatch.Proofs.Width
import Mathlib

namespace GrammarMatch

open Match Syntax

/-! ## 1. Bounds in order -/

/-- An upper bound is no lower than the lower one. -/
def Quantity.Ordered (q : Quantity) : Prop := ∀ max, q.max = some max → q.min ≤ max

theorem Syntax.ordered_readBounds {t : Token} {greedy : Bool} {inner : List Char} {q : Quantity}
    (h : readBounds t greedy inner = .ok q) : q.Ordered := by
  unfold readBounds at h
  simp only at h
  split at h
  · split at h
    · cases h
    · cases h
      rintro _ ⟨⟩
      exact Int.le_refl _
  · split at h
    · cases h
    · cases h
      exact fun _ h => by cases h
    · split at h
      · cases h
      · rename_i order
        cases h
        rintro _ ⟨⟩
        exact Int.not_lt.mp order
  · cases h

theorem Syntax.ordered_quantityOf {t : Token} {q : Quantity} (h : quantityOf t = .ok q) :
    q.Ordered := by
  unfold quantityOf at h
  simp only at h
  split at h
  · cases h
    exact fun _ h => by cases h
  · cases h
    exact fun _ h => by cases h
  · cases h
    rintro _ ⟨⟩
    exact Int.zero_le_ofNat 1
  · exact ordered_readBounds h

namespace Pattern

variable {R : Quantity → Pattern → Prop} {d : Dialect}

/-- A single token repeats nothing. -/
theorem Single.repeats {p : Pattern} (h : p.Single) : p.Repeats R := by
  have leaf {p : Pattern} (own : ∀ q body, p ≠ .repetition q body) (none : p.children = []) :
      p.Repeats R :=
    .intro (fun q body eq => absurd eq (own q body)) fun c hc => by rw [none] at hc; cases hc
  cases h with
  | noBoundary =>
    refine .intro (fun _ _ eq => by cases eq) fun c hc => ?_
    rw [List.mem_singleton.mp hc]
    exact leaf (fun _ _ eq => by cases eq) rfl
  | literal | charClass | anchor | ruleRef | empty => exact leaf (fun _ _ eq => by cases eq) rfl

/-- **The bounds of a compiled pattern are in order.** -/
theorem ordered_compile {source : List Char} {flags : Flags} {kind : RuleKind} {p : Pattern}
    (h : compile source flags kind = .ok p) : p.Repeats fun q _ => q.Ordered := by
  have plain {p : Pattern} (own : ∀ q body, p ≠ .repetition q body)
      (each : ∀ c ∈ p.children, c.Repeats fun q _ => q.Ordered) : p.Repeats fun q _ => q.Ordered :=
    .intro (fun q body eq => absurd eq (own q body)) each
  have closed : Closed (Dialect.of flags kind) fun p => p.Repeats fun q _ => q.Ordered := {
    token := fun h => (single_token h).repeats
    literal := fun _ => Single.literal.repeats
    whitespace := plain (fun _ _ eq => by cases eq) (List.forall_mem_nil _)
    sequence := fun h => plain (fun _ _ eq => by cases eq) h
    alternation := fun h => plain (fun _ _ eq => by cases eq) h
    repetition := fun bounds body h => .intro (fun q' body' eq => by
      cases eq
      exact ordered_quantityOf bounds) (List.forall_mem_singleton.mpr h)
    group := fun _ _ h => plain (fun _ _ eq => by cases eq) (List.forall_mem_singleton.mpr h)
    look := fun _ _ h => plain (fun _ _ eq => by cases eq) (List.forall_mem_singleton.mpr h) }
  exact closed.compile h

/-- Where the bounds are in order and no lower one is negative, no bound is. -/
theorem NonNegative.natural {p : Pattern} (nonneg : p.NonNegative)
    (ordered : p.Repeats fun q _ => q.Ordered) : p.Repeats fun q _ => q.Natural := by
  induction ordered with
  | @intro p own _ ih =>
    refine .intro (fun q body eq => ?_) fun c hc => ih c hc (nonneg.child hc)
    subst eq
    cases nonneg with
    | repetition least _ => exact ⟨least, fun max h => Int.le_trans least (own q body rfl max h)⟩

end Pattern

/-! ## 2. Solutions -/

/-- **Every solution of a compiled pattern is as wide as the width of the pattern says**, if no
    quantifier in it has a negative bound: the first solution and each one after it, wherever it
    begins, whether results are kept or not and whatever the matcher was asked for before. -/
theorem solutions_measured {source : List Char} {flags : Flags} {kind : RuleKind} {p : Pattern}
    (compiled : Pattern.compile source flags kind = .ok p) (nonneg : p.NonNegative)
    {registry : Option Registry} (built : ∀ r ∈ registry, r.Built) {text : Text} {actions : Actions}
    {settings : Settings} {m : Matcher}
    (reached : (Matcher.start text registry actions settings).Reached m) {active : Active}
    {depth : Nat} {pos : Int} {captured : Captured} {y : Answers Solution}
    (seen : Enumerates m.env active [⟨[.part p depth], pos, captured⟩] m.state y) :
    ∀ t ∈ y, p.width.low ≤ t.stop - pos ∧
      ∀ high, p.width.high = some high → t.stop - pos ≤ high := by
  intro t ht
  have derives := reached.derives built seen t ht
  have natural := nonneg.natural (Pattern.ordered_compile compiled)
  constructor
  · exact derives.low_le (natural.mono fun _ _ inner _ => inner.low)
  · exact fun _ bound => derives.le_high (natural.mono fun _ _ _ own => own.2) bound

/-- Once or twice `a`, and then `b` or nothing. -/
def fewLetters : Pattern :=
  .sequence [.repetition ⟨1, some 2, true⟩ (.literal ['a'] false),
    .repetition ⟨0, some 1, true⟩ (.literal ['b'] false)]

/-- Three solutions, of three, two and one characters. -/
theorem solutions_measured_fewLetters :
    let m := Matcher.start #['a', 'a', 'b'] none {} ⟨none, false, 4000⟩
    let y : Answers Solution := .found ⟨3, []⟩ (.found ⟨2, []⟩ (.found ⟨1, []⟩ .done))
    Pattern.compile "a\x7b1,2\x7db?".toList .none .regex = .ok fewLetters ∧
      fewLetters.NonNegative ∧ (∀ r ∈ (none : Option Registry), r.Built) ∧ m.Reached m ∧
      Enumerates m.env [] [⟨[.part fewLetters 1], 0, []⟩] m.state y ∧
      fewLetters.width = ⟨1, some 3⟩ ∧
      ∀ t ∈ y, fewLetters.width.low ≤ t.stop - 0 ∧
        ∀ high, fewLetters.width.high = some high → t.stop - 0 ≤ high := by
  intro m y
  have compiled : Pattern.compile "a\x7b1,2\x7db?".toList .none .regex = .ok fewLetters := by cbv
  have nonneg : fewLetters.NonNegative := .sequence (List.forall_mem_cons.mpr
    ⟨.repetition Int.one_nonneg .literal,
      List.forall_mem_singleton.mpr (.repetition (Int.le_refl 0) .literal)⟩)
  have built : ∀ r ∈ (none : Option Registry), r.Built := fun _ h => by cases h
  have seen : Enumerates m.env [] [⟨[.part fewLetters 1], 0, []⟩] m.state y :=
    (enumerates_goal rfl).mpr rfl
  exact ⟨compiled, nonneg, built, .start, seen, rfl,
    solutions_measured compiled nonneg built .start seen⟩

/-- A repetition less than no times. -/
def lessThanNone : Pattern := .repetition ⟨-1, some (-1), true⟩ (.literal ['a'] false)

/-- **A bound may be written with a sign.** The width is below nothing then, while the empty text
    is a match. -/
theorem width_negative :
    Pattern.compile "a\x7b-1\x7d".toList .none .regex = .ok lessThanNone ∧
      lessThanNone.width = ⟨-1, some (-1)⟩ ∧
      Enumerates ⟨#[], {}, ⟨none, false, 4000⟩⟩ [] [⟨[.part lessThanNone 1], 0, []⟩]
        { registry := none } (.just ⟨0, []⟩) := by
  refine ⟨?_, rfl, (enumerates_goal rfl).mpr rfl⟩
  cbv

end GrammarMatch
