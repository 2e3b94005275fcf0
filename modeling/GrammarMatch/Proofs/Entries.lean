/-
  File:      GrammarMatch/Proofs/Entries.lean
  Subject:   The first entry at a depth.

  A search that goes in step with itself does not forget how deep it has been
  (`expand_solver_rises`, `seek_rises`). So a search is in the end at least as deep as at any moment
  that it passes through (`Reaches.peak_le`), and at least as deep as any part that it enters
  (`FirstEntered.le_peak`). Of two things that a moment leads to, one is over before the other
  begins; hence a depth is first entered once (`FirstEntered.unique`).
-/
import GrammarMatch.Proofs.Lockstep

namespace GrammarMatch.Match

/-! ## 1. Searches -/

section Searches

variable {env : Env} {active : Active} {pos : Int} {captured : Captured}

open Correspondence Run

/-- The same search, that has been so deep. -/
abbrev asDeep (n : Nat) : Correspondence :=
  .alike (n ≤ ·) (fun _ => False) (fun _ => True) fun _ => True

/-- **A search goes in step with itself**, and does not forget how deep it has been. -/
theorem asDeep_lockstep (env : Env) (start : Moment) (n : Nat) :
    Lockstep env env start (asDeep n) := by
  refine @Lockstep.alike env env.settings start _ _ _ _ rfl (Nat.le_refl _)
    (fun depth beyond room => absurd room (Nat.not_le.mpr beyond)) ⟨trivial, trivial⟩
    (fun _ _ => trivial) ?_
  intro active target p depth goals pos captured rest s _ _ deep
  have later : n ≤ (Run.enter env depth pos).peak s :=
    Nat.le_trans deep (le_peak_enter env depth pos s).1
  show (asDeep n).Pace _ (Run.enter env depth pos s) (Run.enter env depth pos s)
  cases h : Run.enter env depth pos s with
  | ok _ t => exact .ok trivial ⟨rfl, peak_ok h ▸ later⟩
  | error f t => exact .failed ⟨rfl, peak_error h ▸ later⟩

/-- What goes in step with itself so has been so deep. -/
theorem le_peak_of_pace {α : Type} {R : α → α → Prop} {n : Nat} {x : Run α} {s : State}
    (h : (asDeep n).Pace R (x s) (x s)) : n ≤ x.peak s := by
  unfold peak
  generalize x s = r at h ⊢
  cases h with
  | stopped h => exact absurd h id
  | ok _ same => exact same.2
  | failed same => exact same.2

theorem asDeep_goal (n : Nat) (g : Goal) : (asDeep n).goal g g := by
  cases g with
  | part p depth => exact .part trivial
  | call name key depth => exact .call trivial
  | round q body count opened depth => exact .round trivial
  | close key plural opened outer => exact .close (alike_captured.mpr rfl)
  | finish rule key opened outer => exact .finish (alike_captured.mpr rfl)
  | retreat body left depth => exact .retreat trivial

theorem asDeep_thread (n : Nat) (th : Thread) : (asDeep n).thread th th :=
  ⟨List.forall₂_same.mpr fun g _ => asDeep_goal n g, rfl, alike_captured.mpr rfl⟩

/-- **A search does not forget how deep it has been.** -/
theorem seek_rises (env : Env) (active : Active) (target : Option Int) (agenda : Agenda) :
    (seek env active target agenda).Rises := by
  intro s
  exact le_peak_of_pace ((asDeep_lockstep env ⟨active, target, agenda, s⟩ s.peakDepth).seek .refl
    (List.forall₂_same.mpr fun th _ => asDeep_thread _ th) ⟨rfl, Nat.le_refl _⟩)

theorem firstOf_rises (env : Env) (active : Active) (target : Option Int) (th : Thread) :
    (firstOf env active target th).Rises :=
  rises_bind (seek_rises env active target [th]) fun _ => (flat_pure _).rises

theorem expand_solver_rises (env : Env) (active : Active) (pos : Int) (captured : Captured)
    (g : Goal) : (expand env active pos captured g (solver env)).Rises := by
  intro s
  have lockstep := asDeep_lockstep env ⟨active, none, [⟨[g], pos, captured⟩], s⟩ s.peakDepth
  exact le_peak_of_pace (lockstep.expand (lockstep.inner _) .refl (asDeep_goal _ g)
    (alike_captured.mpr rfl) ⟨rfl, Nat.le_refl _⟩)

/-- What a part is worked off by is at least as deep as the part. -/
theorem le_peak_part {p : Pattern} {depth : Nat} {s : State} :
    depth ≤ (expand env active pos captured (.part p depth) (solver env)).peak s := by
  have deep : depth ≤ (Run.enter env depth pos).peak s := (le_peak_enter env depth pos s).2
  unfold expand
  cases entered : Run.enter env depth pos s with
  | error f t => exact Nat.le_trans deep (Nat.le_of_eq (peak_bind_error entered).symm)
  | ok _ t =>
    have lockstep := asDeep_lockstep env ⟨active, none, [⟨[.part p depth], pos, captured⟩], s⟩ depth
    have same : (asDeep depth).same t t := ⟨rfl, peak_ok entered ▸ deep⟩
    rw [peak_bind_ok entered]
    exact le_peak_of_pace (pace_level id (fun beyond room =>
      absurd room (Nat.not_le.mpr beyond)) same fun room room' => lockstep.expandPart room room'
        (lockstep.inner _) .refl entered trivial (alike_captured.mpr rfl) same)

/-- What is done with a verdict before it is returned. -/
theorem settled_rises (name : String) (v : Verdict) :
    (do Run.settle env name pos v; return v : Run Verdict).Rises :=
  rises_bind (flat_settle env name pos v).rises fun _ => (flat_pure _).rises

/-- What is done after the body of an atomic rule was tried. -/
theorem concluded_rises (rule : Rule) (found : Option Solution) :
    (do
      let result ← match found with
        | none => pure none
        | some s => do
          let c ← Run.finish env rule pos s.stop s.captured
          pure (some (s.stop, c))
      Run.settle env rule.name pos result
      return result : Run Verdict).Rises := by
  cases found with
  | none => exact settled_rises rule.name none
  | some u => exact rises_bind (flat_finish _ _ _ _ _).rises fun c => settled_rises rule.name _

/-- What is done with the verdict on a rule. -/
theorem called_rises {m : Nat × Nat} (key : Option CaptureKey) (v : Verdict) :
    ((match v with
      | none => return []
      | some (stop, c) => return [.done stop (capturedUnder key c captured)]) :
        Run (List (Branch env.bounds m))).Rises := by
  cases v <;> exact (flat_pure _).rises

end Searches

/-! ## 2. Moments -/

section Moments

variable {env : Env}

open Run

/-- How deep the search that goes on from a moment has been in the end. -/
def Moment.peak (env : Env) (m : Moment) : Nat :=
  (seek env m.active m.target m.agenda).peak m.state

/-- A search of its own is as deep as what it is asked for. -/
theorem peak_inner {active : Active} {target : Option Int} {th : Thread} {s : State} :
    Moment.peak env ⟨active, target, [th], s⟩ = (firstOf env active target th).peak s := by
  unfold Moment.peak firstOf
  cases h : seek env active target [th] s with
  | ok found s' => rw [peak_bind_ok h, peak_ok h, flat_pure]
  | error f s' => rw [peak_bind_error h]

/-- Of several searches one after the other, each is part of the whole. -/
theorem peak_mapM_le {α γ : Type} {x : γ → Run α} (hx : ∀ c, (x c).Rises) {before after : List γ}
    {c : γ} {done : List α} {s s' : State} (h : before.mapM x s = .ok done s') :
    (x c).peak s' ≤ ((before ++ c :: after).mapM x).peak s := by
  rw [List.mapM_append, peak_bind_ok h, List.mapM_cons]
  refine Nat.le_trans (peak_bind_le (fun _ => ?_) s') (peak_bind_le (fun _ => ?_) s')
  · exact rises_bind (rises_mapM fun c _ => hx c) fun _ => (flat_pure _).rises
  · exact (flat_pure _).rises

section Goals

variable {active : Active} {pos : Int} {captured : Captured} {depth n : Nat} {s s₁ : State}
  (room : depth ≤ env.bounds.room)

theorem peak_part_le {p : Pattern} (entered : Run.enter env depth pos s = .ok () s₁)
    (h : n ≤ (expandPart env active depth room pos captured (solver env) p).peak s₁) :
    n ≤ (expand env active pos captured (.part p depth) (solver env)).peak s := by
  have worked : expand env active pos captured (.part p depth) (solver env) s =
      expandPart env active depth room pos captured (solver env) p s₁ :=
    (bind_ok entered).trans (congrFun (dif_pos room) s₁)
  exact Nat.le_trans h (Nat.le_of_eq (peak_congr worked).symm)

theorem peak_call_le {name : String} {key : Option CaptureKey} {rule : Rule}
    (known : Run.lookup name s = .ok rule s₁) (atomic : rule.kind.atomic = true)
    (h : n ≤ (verdict env active depth room pos (solver env) rule).peak
      { s₁ with ruleCalls := s₁.ruleCalls + 1 }) :
    n ≤ (expand env active pos captured (.call name key depth) (solver env)).peak s := by
  rw [expand_call room]
  refine Nat.le_trans ?_
    (Nat.le_of_eq (peak_congr ((bind_ok known).trans (bind_ok countCall_ok))).symm)
  simp only [if_pos atomic]
  exact Nat.le_trans h (peak_bind_le (fun v => called_rises key v) _)

end Goals

/-- A search that is started inside a goal is part of what the goal is worked off by. -/
theorem Starts.peak_le {active : Active} {pos : Int} {captured : Captured} {s : State} {g : Goal}
    {m : Moment} (h : Starts env active pos captured s g m) :
    m.peak env ≤ (expand env active pos captured g (solver env)).peak s := by
  cases h with
  | @branch before after p depth s₁ s₂ found room entered tried =>
    rw [peak_inner]
    refine peak_part_le room entered ?_
    have all : (firstOf env active none ⟨[.part p (depth + 1)], pos, captured⟩).peak s₂ ≤
        ((before ++ p :: after).mapM fun p =>
          firstOf env active none ⟨[.part p (depth + 1)], pos, captured⟩).peak s₁ :=
      peak_mapM_le (fun _ => firstOf_rises _ _ _ _) tried
    exact Nat.le_trans all (peak_bind_le (fun _ => (flat_pure _).rises) s₁)
  | @ahead kind body depth s₁ room entered hk =>
    rw [peak_inner]
    refine peak_part_le room entered ?_
    simp only [expandPart]
    rw [if_neg hk]
    exact peak_bind_le (fun _ => (flat_pure _).rises) s₁
  | @behind kind body depth s₁ room entered hk =>
    rw [peak_inner]
    refine peak_part_le room entered ?_
    simp only [expandPart]
    rw [if_pos hk]
    exact peak_bind_le (fun _ => (flat_pure _).rises) s₁
  | @body name key depth s' rule h =>
    obtain ⟨room, ⟨s₁, known, missed⟩, atomic, fresh⟩ := h
    rw [peak_inner]
    refine peak_call_le room known atomic ?_
    unfold verdict
    rw [peak_bind_ok missed]
    simp only [if_neg fresh]
    exact peak_bind_le (concluded_rises rule) s'

/-- When a search is started inside a goal, what was done before is not forgotten. -/
theorem Starts.le_state {active : Active} {pos : Int} {captured : Captured} {s : State} {g : Goal}
    {m : Moment} (h : Starts env active pos captured s g m) :
    s.peakDepth ≤ m.state.peakDepth ∧ ∀ p depth, g = .part p depth → depth ≤ m.state.peakDepth := by
  have enters {depth : Nat} {s₁ : State} (entered : Run.enter env depth pos s = .ok () s₁) :
      s.peakDepth ≤ s₁.peakDepth ∧ depth ≤ s₁.peakDepth :=
    peak_ok entered ▸ le_peak_enter env depth pos s
  cases h with
  | @branch before after p depth s₁ s₂ found room entered tried =>
    have later : s₁.peakDepth ≤ s₂.peakDepth :=
      peak_ok tried ▸ rises_mapM (fun _ _ => firstOf_rises _ _ _ _) s₁
    obtain ⟨le, deep⟩ := enters entered
    refine ⟨Nat.le_trans le later, fun p depth hg => ?_⟩
    cases hg
    exact Nat.le_trans deep later
  | ahead room entered hk | behind room entered hk =>
    obtain ⟨le, deep⟩ := enters entered
    refine ⟨le, fun p depth hg => ?_⟩
    cases hg
    exact deep
  | @body name key depth s' rule h =>
    obtain ⟨_, ⟨s₁, known, missed⟩, _, _⟩ := h
    refine ⟨?_, fun p depth hg => by cases hg⟩
    have looked : s₁.peakDepth = s.peakDepth := peak_ok known ▸ flat_lookup name s
    have asked : s'.peakDepth = s₁.peakDepth := peak_ok missed ▸ flat_remembered env rule.name pos _
    exact Nat.le_of_eq (asked.trans looked).symm

/-- Working off a goal is part of the search. -/
theorem peak_goal_le {active : Active} {target : Option Int} {g : Goal} {goals : List Goal}
    {pos : Int} {captured : Captured} {rest : Agenda} {s : State} :
    (expand env active pos captured g (solver env)).peak s ≤
      Moment.peak env ⟨active, target, ⟨g :: goals, pos, captured⟩ :: rest, s⟩ := by
  simp only [Moment.peak]
  rw [seek_goal]
  exact peak_bind_le (fun _ => seek_rises _ _ _ _) s

namespace Leads

variable {m m' : Moment} (h : Leads env m m')

include h

/-- **What a moment leads to is no deeper in the end than the moment itself.** -/
theorem peak_le : m'.peak env ≤ m.peak env := by
  cases h with
  | passed h =>
    simp only [Moment.peak]
    exact Nat.le_of_eq (by rw [seek.eq_2, if_neg h])
  | worked h =>
    simp only [Moment.peak]
    exact Nat.le_of_eq (by rw [seek_goal, peak_bind_ok h])
  | inner h => exact Nat.le_trans h.peak_le peak_goal_le

/-- What was done before is not forgotten. -/
theorem le_state : m.state.peakDepth ≤ m'.state.peakDepth := by
  cases h with
  | passed h => exact Nat.le_refl _
  | @worked active target g goals pos captured rest s s' ways h =>
    exact peak_ok h ▸ expand_solver_rises env active pos captured g s
  | inner h => exact h.le_state.1

/-- After the entry of a part the search has been as deep as the part. -/
theorem depth_le {active : Active} {target : Option Int} {p : Pattern} {depth : Nat}
    {goals : List Goal} {pos : Int} {captured : Captured} {rest : Agenda} {s : State}
    (hm : m = ⟨active, target, ⟨.part p depth :: goals, pos, captured⟩ :: rest, s⟩) :
    depth ≤ m'.state.peakDepth := by
  subst hm
  cases h with
  | worked h => exact peak_ok h ▸ le_peak_part
  | inner h => exact h.le_state.2 p depth rfl

end Leads

theorem Reaches.peak_le {m m' : Moment} (h : Reaches env m m') : m'.peak env ≤ m.peak env := by
  induction h with
  | refl => exact Nat.le_refl _
  | tail _ lead ih => exact Nat.le_trans lead.peak_le ih

theorem Reaches.le_state {m m' : Moment} (h : Reaches env m m') :
    m.state.peakDepth ≤ m'.state.peakDepth := by
  induction h with
  | refl => exact Nat.le_refl _
  | tail _ lead ih => exact Nat.le_trans ih lead.le_state

/-- **A search has been as deep as any part that it entered.** -/
theorem FirstEntered.le_peak {start : Moment} {depth : Nat} {pos : Int}
    (h : FirstEntered env start depth pos) : depth ≤ start.peak env := by
  obtain ⟨active, target, p, goals, captured, rest, s, reached, _⟩ := h
  exact Nat.le_trans (Nat.le_trans le_peak_part peak_goal_le) reached.peak_le

/-! ## 3. The first entry -/

/-- Of several searches one after the other, one is over before another begins. -/
theorem mapM_ordered {α γ : Type} {x : γ → Run α} (hx : ∀ c, (x c).Rises)
    {before after before' after' : List γ} {c c' : γ} {done done' : List α} {s t t' : State}
    (same : before ++ c :: after = before' ++ c' :: after') (tried : before.mapM x s = .ok done t)
    (tried' : before'.mapM x s = .ok done' t') :
    (c = c' ∧ t = t') ∨ (x c).peak t ≤ t'.peakDepth ∨ (x c').peak t' ≤ t.peakDepth := by
  rcases List.append_eq_append_iff.mp same with ⟨mid, rfl, rest⟩ | ⟨mid, rfl, rest⟩
  · cases mid with
    | nil =>
      obtain ⟨rfl, rfl⟩ := List.cons.inj rest
      rw [List.append_nil, tried] at tried'
      cases tried'
      exact .inl ⟨rfl, rfl⟩
    | cons q mid =>
      obtain ⟨rfl, rfl⟩ := List.cons.inj rest
      have past : (x c).peak t ≤ t'.peakDepth := peak_ok tried' ▸ peak_mapM_le hx tried
      exact .inr (.inl past)
  · cases mid with
    | nil =>
      obtain ⟨rfl, rfl⟩ := List.cons.inj rest
      rw [List.append_nil, tried'] at tried
      cases tried
      exact .inl ⟨rfl, rfl⟩
    | cons q mid =>
      obtain ⟨rfl, rfl⟩ := List.cons.inj rest
      have past : (x c').peak t' ≤ t.peakDepth := peak_ok tried ▸ peak_mapM_le hx tried'
      exact .inr (.inr past)

theorem Starts.ordered {active : Active} {pos : Int} {captured : Captured} {s : State}
    {g g' : Goal} {a b : Moment} (ha : Starts env active pos captured s g a)
    (hb : Starts env active pos captured s g' b) (same : g = g') :
    a = b ∨ a.peak env ≤ b.state.peakDepth ∨ b.peak env ≤ a.state.peakDepth := by
  cases ha with
  | branch room entered tried =>
    cases hb with
    | branch room' entered' tried' =>
      injection same with pattern depth
      injection pattern with _ split
      subst depth
      cases entered.symm.trans entered'
      rw [peak_inner, peak_inner]
      rcases mapM_ordered (fun _ => firstOf_rises _ _ _ _) split tried tried' with ⟨rfl, rfl⟩ | beyond
      · exact .inl rfl
      · exact .inr beyond
    | ahead | behind | body => cases same
  | ahead room entered hk =>
    cases hb with
    | ahead room' entered' hk' =>
      cases same
      cases entered.symm.trans entered'
      exact .inl rfl
    | behind room' entered' hk' =>
      cases same
      exact absurd hk' hk
    | branch | body => cases same
  | behind room entered hk =>
    cases hb with
    | behind room' entered' hk' =>
      cases same
      cases entered.symm.trans entered'
      exact .inl rfl
    | ahead room' entered' hk' =>
      cases same
      exact absurd hk hk'
    | branch | body => cases same
  | body h =>
    cases hb with
    | body h' =>
      cases same
      obtain ⟨_, ⟨s₁, known, missed⟩, _, _⟩ := h
      obtain ⟨_, ⟨s₁', known', missed'⟩, _, _⟩ := h'
      cases known.symm.trans known'
      cases missed.symm.trans missed'
      exact .inl rfl
    | branch | ahead | behind => cases same

/-- Of two things that a moment leads to, one is over before the other begins. -/
theorem Leads.ordered {m a b : Moment} (ha : Leads env m a) (hb : Leads env m b) :
    a = b ∨ a.peak env ≤ b.state.peakDepth ∨ b.peak env ≤ a.state.peakDepth := by
  cases ha with
  | passed _ =>
    cases hb with
    | passed _ => exact .inl rfl
  | worked h =>
    cases hb with
    | worked h' =>
      cases h.symm.trans h'
      exact .inl rfl
    | inner h' => exact .inr (.inr (peak_ok h ▸ h'.peak_le))
  | inner h =>
    cases hb with
    | worked h' => exact .inr (.inl (peak_ok h' ▸ h.peak_le))
    | inner h' => exact h.ordered h' rfl

/-- **A depth is first entered once.** -/
theorem FirstEntered.unique {start : Moment} {depth : Nat} {pos pos' : Int}
    (h : FirstEntered env start depth pos) (h' : FirstEntered env start depth pos') :
    pos = pos' := by
  obtain ⟨active, target, p, goals, captured, rest, s, reached, before⟩ := h
  -- by induction on what leads to the first of the two entries
  induction reached using Relation.ReflTransGen.head_induction_on with
  | refl =>
    obtain ⟨_, _, _, _, _, _, _, reached', before'⟩ := h'
    rcases reached'.cases_head with same | ⟨b, lead, reached'⟩
    · cases same
      rfl
    · exact absurd (Nat.le_trans (lead.depth_le rfl) (Reaches.le_state reached'))
        (Nat.not_le.mpr before')
  | @head m a lead reached ih =>
    obtain ⟨active', target', p', goals', captured', rest', s', reached', before'⟩ := h'
    rcases reached'.cases_head with same | ⟨b, lead', reached'⟩
    · exact absurd (Nat.le_trans (lead.depth_le same) (Reaches.le_state reached))
        (Nat.not_le.mpr before)
    · have entered : depth ≤ a.peak env :=
        FirstEntered.le_peak ⟨_, _, _, _, _, _, _, reached, before⟩
      have entered' : depth ≤ b.peak env :=
        FirstEntered.le_peak ⟨_, _, _, _, _, _, _, reached', before'⟩
      rcases lead.ordered lead' with rfl | beyond | beyond
      · exact ih ⟨_, _, _, _, _, _, _, reached', before'⟩
      · have late := Nat.le_trans (Nat.le_trans entered beyond) (Reaches.le_state reached')
        exact absurd late (Nat.not_le.mpr before')
      · have late := Nat.le_trans (Nat.le_trans entered' beyond) (Reaches.le_state reached)
        exact absurd late (Nat.not_le.mpr before)

end Moments

end GrammarMatch.Match
