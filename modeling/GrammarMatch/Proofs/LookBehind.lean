/-
  File:      GrammarMatch/Proofs/LookBehind.lean
  Subject:   What a look behind finds.

  A look behind tries the starts from which a match of the width of its body can end at the
  position, and from each of them every solution. No other start could help, as the width bounds
  every match (`triedFrom_of_derives`). So it holds exactly if some solution from somewhere in the
  text before the position ends there (`lookBehind_exact`).
-/
import GrammarMatch.Proofs.Enumeration
import GrammarMatch.Proofs.Width

namespace GrammarMatch

open Match

namespace Match

/-! ## 1. The starts -/

/-- A start that is tried by a look behind. -/
def TriedFrom (body : Pattern) (pos start : Int) : Prop :=
  ∃ i : Nat, i < (retreatFrom body pos).1 ∧ start = (retreatFrom body pos).2 - i

variable {w : Basis} {body : Pattern} {pos : Int}

/-- A start before the position is tried if it is as far away as the width of the body allows. -/
theorem triedFrom_of_width {start : Int} (nonneg : 0 ≤ start)
    (low : body.width.low ≤ pos - start)
    (high : ∀ high, body.width.high = some high → pos - start ≤ high) :
    TriedFrom body pos start := by
  unfold TriedFrom retreatFrom
  refine ⟨(pos - body.width.low - start).toNat, ?_, by simp only; omega⟩
  cases bound : body.width.high with
  | none =>
    simp only
    omega
  | some x =>
    have := high x bound
    simp only
    omega

/-- Every start that is tried lies in the text before the position. -/
theorem TriedFrom.before {start : Int} (low : 0 ≤ body.width.low)
    (h : TriedFrom body pos start) : 0 ≤ start ∧ start ≤ pos := by
  obtain ⟨i, hi, rfl⟩ := h
  unfold retreatFrom at *
  cases bound : body.width.high with
  | none =>
    simp only [bound] at *
    omega
  | some x =>
    simp only [bound] at *
    omega

/-- No start is left out from which the body leads to the position. -/
theorem triedFrom_of_derives (natural : body.Repeats fun q _ => q.Natural) {s t : Solution}
    (h : Derives w body s t) (nonneg : 0 ≤ s.stop) : TriedFrom body t.stop s.stop := by
  refine triedFrom_of_width nonneg (h.low_le (natural.mono fun _ _ inner _ => inner.low)) ?_
  exact fun _ bound => h.le_high (natural.mono fun _ _ _ h => h.2) bound

/-! ## 2. All starts, and all solutions from each -/

variable {solve : Solution → Answers Solution} {left : Nat} {s t : Solution}

theorem mem_of_mem_retreat (h : t ∈ Basis.retreat solve left s) :
    ∃ i < left, t ∈ solve ⟨s.stop - i, s.captured⟩ := by
  induction left generalizing s with
  | zero => exact absurd h (Answers.not_mem_done t)
  | succ left ih =>
    rcases Answers.mem_of_mem_append h with h | h
    · exact ⟨0, Nat.succ_pos left, by rwa [Int.natCast_zero, Int.sub_zero]⟩
    · obtain ⟨i, hi, h⟩ := ih h
      refine ⟨i + 1, Nat.succ_lt_succ hi, ?_⟩
      rwa [show s.stop - ((i + 1 : Nat) : Int) = s.stop - 1 - i by omega]

/-- Where nothing from any of the starts passes a test, each solution from each of them fails
    it. -/
theorem retreat_refused {p : Solution → Bool}
    (h : ((Basis.retreat solve left s).filter p).first = .ok none) {i : Nat} (hi : i < left) :
    ∀ t ∈ solve ⟨s.stop - i, s.captured⟩, p t = false := by
  induction left generalizing s i with
  | zero => exact absurd hi (Nat.not_lt_zero i)
  | succ left ih =>
    change ((solve s ++ Basis.retreat solve left ⟨s.stop - 1, s.captured⟩).filter p).first = _ at h
    rw [Answers.filter_append] at h
    obtain ⟨here, before⟩ := Answers.first_append_none h
    cases i with
    | zero =>
      rw [Int.natCast_zero, Int.sub_zero]
      exact Answers.refused_of_first here
    | succ i =>
      rw [show s.stop - ((i + 1 : Nat) : Int) = s.stop - 1 - i by omega]
      exact ih before (Nat.lt_of_succ_lt_succ hi)

/-- A look behind that does not fail finds something if and only if one of the solutions from one
    of the starts ends at the position. -/
theorem looked_behind {inner : Inner} {active : Active} {kind : LookKind}
    (behind : kind.backward = true) {found : Option Solution}
    (h : Basis.looked inner active kind body pos = .ok found) :
    found.isSome = true ↔
      ∃ start, TriedFrom body pos start ∧ ∃ t ∈ inner active body ⟨start, []⟩, t.stop = pos := by
  unfold Basis.looked at h
  rw [if_pos behind] at h
  cases found with
  | none =>
    refine ⟨fun some => (by cases some), ?_⟩
    rintro ⟨start, ⟨i, hi, rfl⟩, t, ht, ends⟩
    have refused : (t.stop == pos) = false := retreat_refused h hi t ht
    rw [ends, beq_self_eq_true] at refused
    cases refused
  | some t =>
    refine ⟨fun _ => ?_, fun _ => rfl⟩
    obtain ⟨mem, ends⟩ := Answers.mem_of_mem_filter (Answers.mem_of_first h)
    obtain ⟨i, hi, ht⟩ := mem_of_mem_retreat mem
    exact ⟨_, ⟨i, hi, rfl⟩, t, ht, eq_of_beq ends⟩

/-! ## 3. Looks behind -/

/-- Some solution that is seen of a pattern from a start, with nothing captured before, ends at a
    position. -/
def Sees (env : Env) (active : Active) (s : State) (p : Pattern) (depth : Nat) (start stop : Int) :
    Prop :=
  ∃ y, Enumerates env active [⟨[.part p depth], start, []⟩] s y ∧ ∃ t ∈ y, t.stop = stop

/-- A test that takes no room: it is passed without a trace if a condition holds, and failed if
    not. -/
def Tests (y : Answers Solution) (here : Solution) (holds : Prop) : Prop :=
  (holds → y = .just here) ∧ (¬holds → y = .done)

variable {env : Env} {active : Active}

theorem tests_only {holds : Bool} {here : Solution} {P : Prop} (h : holds = true ↔ P) :
    Tests (Answers.only holds here) here P := by
  refine ⟨fun hp => ?_, fun hp => ?_⟩
  · rw [h.mpr hp]
    rfl
  · rw [Bool.eq_false_iff.mpr fun holds => hp (h.mp holds)]
    rfl

section Unkept

variable (off : env.settings.memoize = false) {s : State}

include off

theorem sees_iff {p : Pattern} {depth : Nat} {start stop : Int} :
    Sees env active s p depth start stop ↔
      ∃ t ∈ (Basis.of env s.lexicon).solutions depth active p ⟨start, []⟩, t.stop = stop := by
  constructor
  · rintro ⟨y, seen, here⟩
    obtain rfl := (enumerates_goal off).mp seen
    exact here
  · exact fun here => ⟨_, (enumerates_goal off).mpr rfl, here⟩

/-- A look that is seen to come to an end has found something or nothing. -/
theorem look_ends {kind : LookKind} {child : Pattern} {depth : Nat} {captured : Captured}
    {y : Answers Solution} (ends : y.Ends)
    (seen : Enumerates env active [⟨[.part (.look kind child) depth], pos, captured⟩] s y) :
    ∃ found, Basis.looked ((Basis.of env s.lexicon).solutions (depth + 1)) active kind child pos =
        .ok found ∧
      y = .only (found.isSome != kind.negative) ⟨pos, captured⟩ := by
  have whole := enumerates_part off seen ends
  unfold Basis.part at whole
  cases h : Basis.looked ((Basis.of env s.lexicon).solutions (depth + 1)) active kind child pos with
  | error f =>
    simp only [h, Answers.attempt_error] at whole
    rw [whole] at ends
    exact absurd ends id
  | ok found =>
    simp only [h, Answers.attempt_ok] at whole
    exact ⟨found, rfl, whole⟩

/-- The starts that are tried are all that matter. -/
theorem found_iff {kind : LookKind} (behind : kind.backward = true) {child : Pattern}
    (natural : child.Repeats fun q _ => q.Natural) {depth : Nat} {found : Option Solution}
    (h : Basis.looked ((Basis.of env s.lexicon).solutions (depth + 1)) active kind child pos =
      .ok found) :
    found.isSome = true ↔
      ∃ start, 0 ≤ start ∧ start ≤ pos ∧ Sees env active s child (depth + 1) start pos := by
  rw [looked_behind behind h]
  constructor
  · rintro ⟨start, tried, here⟩
    obtain ⟨nonneg, le⟩ := tried.before natural.low
    exact ⟨start, nonneg, le, (sees_iff off).mpr here⟩
  · rintro ⟨start, nonneg, _, here⟩
    obtain ⟨t, ht, rfl⟩ := (sees_iff off).mp here
    have derives := eval_derives (fun _ h => by cases h) _ _ _ _ _ _ ht
    exact ⟨start, triedFrom_of_derives natural derives nonneg, t, ht, rfl⟩

end Unkept

/-- **A look behind is exact.** If no bound in its body is negative and nothing fails, a look
    behind holds if and only if from some start in the text before the position some solution of
    the body, whether or not it is the first one, ends at the position; a negative one holds if and
    only if there is none. The starts that are skipped for the width of the body hide nothing. -/
theorem lookBehind_exact (off : env.settings.memoize = false) {s : State} {child : Pattern}
    (natural : child.Repeats fun q _ => q.Natural) {depth : Nat} {captured : Captured}
    {y : Answers Solution} (ends : y.Ends) :
    (Enumerates env active [⟨[.part (.look .behind child) depth], pos, captured⟩] s y →
      Tests y ⟨pos, captured⟩
        (∃ start, 0 ≤ start ∧ start ≤ pos ∧ Sees env active s child (depth + 1) start pos)) ∧
    (Enumerates env active [⟨[.part (.look .notBehind child) depth], pos, captured⟩] s y →
      Tests y ⟨pos, captured⟩
        (¬∃ start, 0 ≤ start ∧ start ≤ pos ∧ Sees env active s child (depth + 1) start pos)) ∧
    ∀ start, 0 ≤ start → Sees env active s child (depth + 1) start pos →
      TriedFrom child pos start := by
  refine ⟨fun seen => ?_, fun seen => ?_, fun start nonneg here => ?_⟩
  · obtain ⟨found, looked, rfl⟩ := look_ends off ends seen
    refine tests_only ?_
    rw [← found_iff off rfl natural looked]
    simp [LookKind.negative]
  · obtain ⟨found, looked, rfl⟩ := look_ends off ends seen
    refine tests_only ?_
    rw [← found_iff off rfl natural looked]
    simp [LookKind.negative]
  · obtain ⟨t, ht, rfl⟩ := (sees_iff off).mp here
    exact triedFrom_of_derives natural (eval_derives (fun _ h => by cases h) _ _ _ _ _ _ ht) nonneg

/-- `a`, or else `ab`. -/
def shorterFirst : Pattern :=
  .alternation .ordered [.literal ['a'] false, .literal ['a', 'b'] false]

/-- Behind `ab` stands `a` or `ab`, though it is `a` that is preferred at the start. -/
theorem lookBehind_exact_shorterFirst :
    let env : Env := ⟨#['a', 'b'], {}, ⟨none, false, 4000⟩⟩
    let s : State := { registry := none }
    env.settings.memoize = false ∧ (shorterFirst.Repeats fun q _ => q.Natural) ∧
      (Answers.just ⟨2, []⟩ : Answers Solution).Ends ∧
      Enumerates env [] [⟨[.part (.look .behind shorterFirst) 1], 2, []⟩] s (.just ⟨2, []⟩) ∧
      Enumerates env [] [⟨[.part shorterFirst 2], 0, []⟩] s (.found ⟨1, []⟩ (.just ⟨2, []⟩)) ∧
      Tests (.just ⟨2, []⟩) ⟨2, []⟩
        (∃ start, 0 ≤ start ∧ start ≤ 2 ∧ Sees env [] s shorterFirst 2 start 2) := by
  intro env s
  have natural : shorterFirst.Repeats fun q _ => q.Natural := by
    refine .intro (fun _ _ eq => by cases eq) (List.forall_mem_cons.mpr ⟨?_, ?_⟩)
    · exact .intro (fun _ _ eq => by cases eq) (List.forall_mem_nil _)
    · refine List.forall_mem_singleton.mpr (.intro (fun _ _ eq => by cases eq) ?_)
      exact List.forall_mem_nil _
  have seen : Enumerates env [] [⟨[.part (.look .behind shorterFirst) 1], 2, []⟩] s
      (.just ⟨2, []⟩) := (enumerates_goal rfl).mpr rfl
  exact ⟨rfl, natural, Answers.ends_just _, seen, (enumerates_goal rfl).mpr rfl,
    (lookBehind_exact rfl natural (Answers.ends_just _)).1 seen⟩

end Match

end GrammarMatch
