/-
  File:      GrammarMatch/Proofs/Peaks.lean
  Subject:   How deep a search has been.

  The greatest depth at which a part was entered is kept. A computation that does not forget it
  `Rises`, and one that enters nothing is `Flat`. Of the steps that touch more than the text none
  is anything else than flat, but for the entry of a part (`Run.peak_enter`).
-/
import GrammarMatch.Proofs.Stepping

namespace GrammarMatch.Match

/-! ## 1. Computations -/

namespace State

/-- The state when a part was entered. -/
def entered (s : State) (depth : Nat) (pos : Int) : State :=
  if s.peakDepth < depth then { s with peakDepth := depth, peakPos := pos } else s

theorem peakDepth_entered (s : State) (depth : Nat) (pos : Int) :
    (s.entered depth pos).peakDepth = max s.peakDepth depth := by
  unfold entered
  split
  next deeper => exact (Nat.max_eq_right (Nat.le_of_lt deeper)).symm
  next known => exact (Nat.max_eq_left (Nat.le_of_not_lt known)).symm

end State

namespace Run

variable {α β γ : Type} {s : State}

/-- How deep the search has been after a computation. -/
def peak (x : Run α) (s : State) : Nat :=
  match x s with
  | .ok _ s' => s'.peakDepth
  | .error _ s' => s'.peakDepth

/-- A computation does not enter anything. -/
def Flat (x : Run α) : Prop := ∀ s, x.peak s = s.peakDepth

/-- A computation does not forget how deep the search has been. -/
def Rises (x : Run α) : Prop := ∀ s, s.peakDepth ≤ x.peak s

theorem peak_ok {x : Run α} {a : α} {s' : State} (h : x s = .ok a s') :
    x.peak s = s'.peakDepth := by
  unfold peak
  rw [h]

theorem peak_error {x : Run α} {f : Failure} {s' : State} (h : x s = .error f s') :
    x.peak s = s'.peakDepth := by
  unfold peak
  rw [h]

theorem peak_congr {x y : Run α} {s' : State} (h : x s = y s') : x.peak s = y.peak s' := by
  unfold peak
  rw [h]

theorem peak_bind_ok {x : Run α} {k : α → Run β} {a : α} {s' : State} (h : x s = .ok a s') :
    (x >>= k).peak s = (k a).peak s' := by
  unfold peak
  rw [bind_ok h]

theorem peak_bind_error {x : Run α} {k : α → Run β} {f : Failure} {s' : State}
    (h : x s = .error f s') : (x >>= k).peak s = x.peak s := by
  unfold peak
  simp only [bind, EStateM.bind]
  rw [h]

theorem Flat.rises {x : Run α} (h : x.Flat) : x.Rises := fun s => Nat.le_of_eq (h s).symm

theorem flat_pure (a : α) : (pure a : Run α).Flat := fun _ => rfl

theorem flat_throw (f : Failure) : (throw f : Run α).Flat := fun _ => rfl

theorem flat_bind {x : Run α} {k : α → Run β} (hx : x.Flat) (hk : ∀ a, (k a).Flat) :
    (x >>= k).Flat := by
  intro s
  cases h : x s with
  | ok a s' => rw [peak_bind_ok h, hk a s', ← peak_ok h, hx s]
  | error f s' => rw [peak_bind_error h, hx s]

/-- What is done afterwards does not forget how deep the search was before. -/
theorem peak_bind_le {x : Run α} {k : α → Run β} (hk : ∀ a, (k a).Rises) (s : State) :
    x.peak s ≤ (x >>= k).peak s := by
  cases h : x s with
  | ok a s' =>
    rw [peak_bind_ok h, peak_ok h]
    exact hk a s'
  | error f s' => exact Nat.le_of_eq (peak_bind_error h).symm

theorem rises_bind {x : Run α} {k : α → Run β} (hx : x.Rises) (hk : ∀ a, (k a).Rises) :
    (x >>= k).Rises := fun s => Nat.le_trans (hx s) (peak_bind_le hk s)

theorem rises_mapM {x : γ → Run α} {l : List γ} (h : ∀ c ∈ l, (x c).Rises) :
    (l.mapM x).Rises := by
  induction l with
  | nil =>
    rw [List.mapM_nil]
    exact (flat_pure _).rises
  | cons c l ih =>
    rw [List.mapM_cons]
    refine rises_bind (h c List.mem_cons_self) fun a => ?_
    exact rises_bind (ih fun d hd => h d (List.mem_cons_of_mem c hd)) fun _ => (flat_pure _).rises

/-! ## 2. Steps -/

theorem flat_ofExcept (v : Except Failure α) : (ofExcept v).Flat := by
  cases v with
  | ok a => exact flat_pure a
  | error f => exact flat_throw f

theorem flat_log (e : Event) : (log e).Flat := fun _ => rfl

theorem flat_countCall : countCall.Flat := fun _ => rfl

theorem flat_definesSpace : definesSpace.Flat := fun _ => rfl

theorem flat_logRun (name : String) (pos : Int) (matched : Bool) : (logRun name pos matched).Flat :=
  fun _ => rfl

theorem flat_lookup (name : String) : (lookup name).Flat := by
  intro s
  unfold peak lookup
  cases s.registry with
  | none => rfl
  | some r =>
    cases h : Registry.rule name r with
    | ok rule r' => simp only [h]
    | error f r' => simp only [h]

theorem flat_remembered (env : Env) (name : String) (pos : Int) :
    (remembered env name pos).Flat := by
  unfold remembered
  by_cases hm : env.settings.memoize = true
  · simp only [if_pos hm]
    refine flat_bind (fun _ => rfl) fun s => ?_
    cases s.memo[(name, pos)]? with
    | none => exact flat_pure _
    | some v => exact flat_bind (fun _ => rfl) fun _ => flat_pure _
  · simp only [if_neg hm]
    exact flat_pure _

theorem flat_settle (env : Env) (name : String) (pos : Int) (v : Verdict) :
    (settle env name pos v).Flat := by
  unfold settle
  refine flat_bind (flat_log _) fun _ => ?_
  by_cases hm : env.settings.memoize = true
  · rw [if_pos hm]
    exact fun _ => rfl
  · rw [if_neg hm]
    exact flat_pure _

theorem flat_finish (env : Env) (rule : Rule) (start stop : Int) (captured : Captured) :
    (finish env rule start stop captured).Flat := by
  unfold finish
  by_cases h : env.actions.hasAction rule.name = true
  · simp only [if_pos h]
    exact flat_bind (flat_log _) fun _ => flat_ofExcept _
  · simp only [if_neg h]
    exact flat_ofExcept _

/-- Entering a part is remembered, and fails where nesting so deep is not allowed. -/
theorem enter_eq (env : Env) (depth : Nat) (pos : Int) (s : State) :
    enter env depth pos s = match env.settings.maxDepth with
      | some limit => if limit < depth then .error (.depthLimit depth pos) (s.entered depth pos)
        else .ok () (s.entered depth pos)
      | none => .ok () (s.entered depth pos) := by
  have recorded : (modify (State.entered · depth pos) : Run Unit) s =
      .ok () (s.entered depth pos) := rfl
  unfold enter
  refine (bind_ok recorded).trans ?_
  cases env.settings.maxDepth with
  | none => rfl
  | some limit =>
    simp only
    split <;> rfl

theorem peak_enter (env : Env) (depth : Nat) (pos : Int) (s : State) :
    (enter env depth pos).peak s = (s.entered depth pos).peakDepth := by
  unfold peak
  rw [enter_eq]
  cases env.settings.maxDepth with
  | none => rfl
  | some limit =>
    by_cases beyond : limit < depth
    · simp only [if_pos beyond]
    · simp only [if_neg beyond]

theorem le_peak_enter (env : Env) (depth : Nat) (pos : Int) (s : State) :
    s.peakDepth ≤ (enter env depth pos).peak s ∧ depth ≤ (enter env depth pos).peak s := by
  rw [peak_enter, State.peakDepth_entered]
  exact ⟨Nat.le_max_left _ _, Nat.le_max_right _ _⟩

end Run

end GrammarMatch.Match
