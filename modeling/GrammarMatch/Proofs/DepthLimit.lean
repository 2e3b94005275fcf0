/-
  File:      GrammarMatch/Proofs/DepthLimit.lean
  Subject:   The limit on nesting.

  A search with a limit goes in step with the same search without one, until a part is entered
  deeper than the limit: there it is given up, and the part is the first that the other search
  enters one level below the limit. So the limit is noticed only where it is exceeded, and then at
  once (`ask_limited`).
-/
import GrammarMatch.Proofs.Entries

namespace GrammarMatch

open Match

namespace Match

/-! ## 1. Searches -/

/-- The environment without a limit on nesting. -/
def Env.unlimited (env : Env) : Env :=
  { env with settings := { env.settings with maxDepth := none } }

/-- The environment with a limit on nesting. -/
def Env.limited (env : Env) (limit : Nat) : Env :=
  { env with settings := { env.settings with maxDepth := some limit } }

/-- The search with a limit is given up where a part is first entered below the limit. -/
def exceeds (env : Env) (start : Moment) (limit : Nat) (f : Failure) : Prop :=
  ∃ pos, f = .depthLimit (limit + 1) pos ∧ FirstEntered env start (limit + 1) pos

/-- What belongs together as long as the limit is kept. -/
abbrev withinLimit (env : Env) (start : Moment) (limit : Nat) : Correspondence :=
  .alike (· ≤ limit) (exceeds env start limit) (· ≤ limit + 1) (· ≤ limit)

/-- **A search with a limit goes in step with the one without**, until it is given up. -/
theorem limited_lockstep (env : Env) {limit : Nat} (positive : 1 ≤ limit) (start : Moment) :
    Lockstep env.unlimited (env.limited limit) start (withinLimit env.unlimited start limit) := by
  refine Lockstep.alike rfl (Nat.le_refl _)
    (fun depth beyond room => absurd room (Nat.not_le.mpr beyond)) ⟨by omega, positive⟩
    (fun depth le => Nat.succ_le_succ le) ?_
  intro active target p depth goals pos captured rest s reached hdepth hs
  have free : Run.enter env.unlimited depth pos s = .ok () (s.entered depth pos) :=
    Run.enter_eq env.unlimited depth pos s
  have bounded := Run.enter_eq (env.limited limit) depth pos s
  change Run.enter (env.limited limit) depth pos s = if limit < depth
    then .error (.depthLimit depth pos) (s.entered depth pos)
    else .ok () (s.entered depth pos) at bounded
  show (withinLimit env.unlimited start limit).Pace _ (Run.enter env.unlimited depth pos s)
    (Run.enter (env.limited limit) depth pos s)
  rw [free, bounded]
  by_cases beyond : limit < depth
  · obtain rfl : depth = limit + 1 := by omega
    rw [if_pos beyond]
    exact .stopped ⟨pos, rfl, _, _, _, _, _, _, _, reached, Nat.lt_succ_of_le hs⟩
  · rw [if_neg beyond]
    have shallow : (s.entered depth pos).peakDepth ≤ limit := by
      rw [State.peakDepth_entered]
      exact Nat.max_le.mpr ⟨hs, Nat.le_of_not_lt beyond⟩
    exact .ok (Nat.le_of_not_lt beyond) ⟨rfl, shallow⟩

/-- How deep a matcher has been when it has answered. -/
theorem peak_ask (m : Matcher) (q : Query) (pos : Int) :
    (m.ask q pos).2.state.peakDepth =
      Moment.peak m.env ⟨[], q.target m.env.text, [⟨[q.goal], pos, []⟩], m.state⟩ := by
  have flat {α β : Type} {x : Run α} {k : α → Run β} (hk : ∀ a, (k a).Flat) (s : State) :
      (x >>= k).peak s = x.peak s := by
    cases h : x s with
    | ok a t => rw [Run.peak_bind_ok h, hk, Run.peak_ok h]
    | error f t => exact Run.peak_bind_error h
  have asked : (m.ask q pos).2.state.peakDepth = (q.run m.env pos).peak m.state := by
    unfold Matcher.ask Matcher.advance Run.peak
    cases q.run m.env pos m.state with
    | ok a s => rfl
    | error f s => rfl
  rw [asked]
  cases q with
  | pattern p =>
    refine flat (fun found => ?_) m.state
    cases found <;> exact Run.flat_pure _
  | rule name anchored =>
    exact flat (fun found => Run.flat_bind (Run.flat_logRun _ _ _) fun _ => Run.flat_pure _) m.state

end Match

/-! ## 2. Matchers -/

/-- What a fresh matcher answers with a limit on nesting, or without one. -/
def Query.limited (q : Query) (text : Text) (registry : Option Registry) (actions : Actions)
    (settings : Settings) (limit : Option Nat) (pos : Int) :
    Except Failure (Option Found) × Matcher :=
  (Matcher.start text registry actions { settings with maxDepth := limit }).ask q pos

/-- **A limit on nesting is sharp and otherwise invisible.** A matcher that has been no deeper
    than the limit answers the same with it, and keeps the same. Else it is given up with the
    limit, one level below it, at the position where it was first so deep. -/
theorem ask_limited (text : Text) (registry : Option Registry) (actions : Actions)
    (settings : Settings) (q : Query) (pos : Int) {limit : Nat} (positive : 1 ≤ limit) :
    let free := q.limited text registry actions settings none pos
    let limited := q.limited text registry actions settings (some limit) pos
    (free.2.state.peakDepth ≤ limit → limited.1 = free.1 ∧ limited.2.state = free.2.state) ∧
    (limit < free.2.state.peakDepth → ∃ place, limited.1 = .error (.depthLimit (limit + 1) place) ∧
      ∀ p, FirstEntered ⟨text, actions, { settings with maxDepth := none }⟩
        (q.moment text registry pos) (limit + 1) p ↔ p = place) := by
  intro free limited
  let env : Env := ⟨text, actions, settings⟩
  let start := q.moment text registry pos
  have same : (withinLimit env.unlimited start limit).same start.state start.state :=
    ⟨rfl, Nat.zero_le _⟩
  have deep : free.2.state.peakDepth = start.peak env.unlimited :=
    peak_ask ⟨env.unlimited, start.state⟩ q pos
  rcases @Lockstep.ask ⟨env.unlimited, start.state⟩ ⟨env.limited limit, start.state⟩ _ q pos
    (limited_lockstep env positive start) rfl same with
    ⟨f, ⟨place, rfl, entered⟩, failed⟩ | ⟨outcome, state, shallow⟩
  · have below : limit + 1 ≤ free.2.state.peakDepth := deep ▸ entered.le_peak
    refine ⟨fun shallow => absurd below (by omega), fun _ => ⟨place, failed, fun p => ?_⟩⟩
    constructor
    · exact fun h => h.unique entered
    · rintro rfl
      exact entered
  · refine ⟨fun _ => ⟨(Correspondence.alike_outcome outcome).symm, state.symm⟩, fun beyond => ?_⟩
    exact absurd shallow (Nat.not_le.mpr beyond)

/-- A letter in a group. -/
def groupedLetter : Query := .pattern (.group none [] (.literal ['a'] false))

/-- A letter in a group nests two levels deep, so that it is not matched with a limit of one. -/
theorem ask_limited_groupedLetter :
    1 ≤ 1 ∧ (groupedLetter.limited #['a'] none {} {} none 0).2.state.peakDepth = 2 ∧
      ∃ place, (groupedLetter.limited #['a'] none {} {} (some 1) 0).1 =
        .error (.depthLimit 2 place) := by
  let env : Env := ⟨#['a'], {}, {}⟩
  have found : seek env [] none [⟨[.part (.group none [] (.literal ['a'] false)) 1], 0, []⟩]
      { registry := none } = .ok (some (⟨1, []⟩, [])) { registry := none, peakDepth := 2 } :=
    calc
      _ = seek env [] none [⟨[.part (.literal ['a'] false) 2], 0, []⟩]
          { registry := none, peakDepth := 1 } := seek_step (fun _ => rfl) rfl
      _ = seek env [] none [⟨[], 1, []⟩] { registry := none, peakDepth := 2 } :=
        seek_step (fun _ => rfl) rfl
      _ = _ := by rw [seek.eq_2]; rfl
  have deep : (groupedLetter.limited #['a'] none {} {} none 0).2.state.peakDepth = 2 :=
    (peak_ask (Matcher.start #['a'] none {} {}) groupedLetter 0).trans (Run.peak_ok found)
  obtain ⟨place, failed, _⟩ := (ask_limited #['a'] none {} {} groupedLetter 0 (Nat.le_refl 1)).2
    (deep.symm ▸ Nat.lt_succ_self 1)
  exact ⟨Nat.le_refl 1, deep, place, failed⟩

end GrammarMatch
