/-
  File:      GrammarMatch/Proofs/Stepping.lean
  Subject:   The search one goal at a time.

  `seek` as a computation on states: what it goes on with after a goal that is worked off on the
  spot (`seek_step`) and after the call of an atomic rule, of which the result may be kept
  (`seek_kept`, `seek_refused`), which may be tried to a match or in vain (`seek_fresh`,
  `seek_vain`), or which may be entered already (`seek_entered`).
-/
import GrammarMatch.Match.Search

namespace GrammarMatch.Match

/-! ## 1. Single steps -/

namespace Run

variable {α β : Type} {env : Env} {name : String} {pos : Int} {s s' : State}

theorem bind_ok {x : Run α} {k : α → Run β} {a : α} (h : x s = .ok a s') :
    (x >>= k) s = k a s' := by
  simp only [bind, EStateM.bind]
  rw [h]

theorem countCall_ok : countCall s = .ok () { s with ruleCalls := s.ruleCalls + 1 } := rfl

variable (memoize : env.settings.memoize = true)

include memoize

theorem remembered_held {kept : Verdict} (held : s.memo[(name, pos)]? = some kept) :
    remembered env name pos s = .ok (some kept) { s with memoHits := s.memoHits + 1 } := by
  unfold remembered
  rw [if_pos memoize]
  refine (bind_ok rfl).trans ?_
  simp only [held]
  rfl

theorem remembered_none (held : s.memo[(name, pos)]? = none) :
    remembered env name pos s = .ok none s := by
  unfold remembered
  rw [if_pos memoize]
  refine (bind_ok rfl).trans ?_
  simp only [held]
  rfl

theorem settle_ok (v : Verdict) :
    settle env name pos v s = .ok ()
      { s with memo := s.memo.insert (name, pos) v, trace := .settled name pos :: s.trace } := by
  unfold settle
  refine (bind_ok rfl).trans ?_
  rw [if_pos memoize]
  rfl

end Run

/-! ## 2. Goals -/

section Steps

variable {env : Env} {active : Active} {target : Option Int} {goals : List Goal} {pos : Int}
  {captured : Captured} {rest : Agenda} {s s₁ s₂ s₃ : State}

/-- A goal that is worked off without a search of its own. -/
theorem seek_step {g : Goal} {ways : List (Branch env.bounds (g.size env.bounds))}
    (h : ∀ solve, expand env active pos captured g solve s = .ok ways s₁) {agenda : Agenda}
    (next : ways.map (Branch.thread goals) ++ rest = agenda) :
    seek env active target (⟨g :: goals, pos, captured⟩ :: rest) s =
      seek env active target agenda s₁ := by
  rw [seek.eq_3, ← next]
  simp only [bind, EStateM.bind]
  rw [h]

variable {name : String} {key : Option CaptureKey} {depth : Nat} {rule : Rule}

theorem expand_call (room : depth ≤ env.bounds.room)
    (solve : Solver env.bounds ((Goal.call name key depth).size env.bounds)) :
    expand env active pos captured (.call name key depth) solve =
      expandCall env active depth room pos captured solve name key := dif_pos room

theorem expand_call_full (full : ¬depth ≤ env.bounds.room)
    (solve : Solver env.bounds ((Goal.call name key depth).size env.bounds)) :
    expand env active pos captured (.call name key depth) solve = throw .stackExhausted :=
  dif_neg full

section Verdicts

variable {room : depth ≤ env.bounds.room}
  {solve : Solver env.bounds (Goal.callSize env.bounds depth)}
  (memoize : env.settings.memoize = true)

include memoize

theorem verdict_held {kept : Verdict} (held : s.memo[(rule.name, pos)]? = some kept) :
    verdict env active depth room pos solve rule s =
      .ok kept { s with memoHits := s.memoHits + 1 } := by
  unfold verdict
  exact (Run.bind_ok (Run.remembered_held memoize held)).trans rfl

theorem verdict_fresh (held : s.memo[(rule.name, pos)]? = none)
    (fresh : active.contains (rule.name, pos) = false) {t : Solution} {c : Capture}
    (body : ∀ h, solve ((rule.name, pos) :: active) none
      ⟨[.part rule.pattern (depth + 1)], pos, []⟩ h s = .ok (some t) s₁)
    (finished : Run.finish env rule pos t.stop t.captured s₁ = .ok c s₂) :
    verdict env active depth room pos solve rule s = .ok (some (t.stop, c))
      { s₂ with memo := s₂.memo.insert (rule.name, pos) (some (t.stop, c)),
                trace := .settled rule.name pos :: s₂.trace } := by
  unfold verdict
  refine (Run.bind_ok (Run.remembered_none memoize held)).trans ?_
  simp only [fresh, if_neg Bool.false_ne_true]
  refine (Run.bind_ok (body _)).trans ((Run.bind_ok finished).trans ((Run.bind_ok rfl).trans ?_))
  exact (Run.bind_ok (Run.settle_ok memoize _)).trans rfl

/-- A rule that is already being matched at the position does not match there. -/
theorem verdict_entered (held : s.memo[(rule.name, pos)]? = none)
    (entered : active.contains (rule.name, pos) = true) :
    verdict env active depth room pos solve rule s =
      .ok none { s with trace := .reentered rule.name pos :: s.trace } := by
  unfold verdict
  refine (Run.bind_ok (Run.remembered_none memoize held)).trans ?_
  simp only [entered, if_pos]
  exact (Run.bind_ok rfl).trans rfl

/-- A rule whose body does not match is kept as one that does not match. -/
theorem verdict_vain (held : s.memo[(rule.name, pos)]? = none)
    (fresh : active.contains (rule.name, pos) = false)
    (body : ∀ h, solve ((rule.name, pos) :: active) none
      ⟨[.part rule.pattern (depth + 1)], pos, []⟩ h s = .ok none s₁) :
    verdict env active depth room pos solve rule s = .ok none
      { s₁ with memo := s₁.memo.insert (rule.name, pos) none,
                trace := .settled rule.name pos :: s₁.trace } := by
  unfold verdict
  refine (Run.bind_ok (Run.remembered_none memoize held)).trans ?_
  simp only [fresh, if_neg Bool.false_ne_true]
  refine (Run.bind_ok (body _)).trans ((Run.bind_ok rfl).trans ?_)
  exact (Run.bind_ok (Run.settle_ok memoize _)).trans rfl

end Verdicts

/-- The call of an atomic rule that does not match: the search goes on with the next thread. -/
theorem seek_unmatched (room : depth ≤ env.settings.room)
    (known : Run.lookup name s = .ok rule s₁) (atomic : rule.kind.atomic = true)
    (unmatched : verdict env active depth room pos
      (fun active' target' t _ => do
        let found ← seek env active' target' [t]
        return found.map Prod.fst) rule
      { s₁ with ruleCalls := s₁.ruleCalls + 1 } = .ok none s₂) :
    seek env active target (⟨.call name key depth :: goals, pos, captured⟩ :: rest) s =
      seek env active target rest s₂ := by
  rw [seek.eq_3, expand_call room]
  refine (Run.bind_ok (a := []) ?_).trans rfl
  refine (Run.bind_ok known).trans ((Run.bind_ok Run.countCall_ok).trans ?_)
  rw [if_pos atomic]
  exact (Run.bind_ok unmatched).trans rfl

/-- The call of an atomic rule, of which it is kept that it does not match. -/
theorem seek_refused (room : depth ≤ env.settings.room) (known : Run.lookup name s = .ok rule s₁)
    (atomic : rule.kind.atomic = true) (memoize : env.settings.memoize = true)
    (held : s₁.memo[(rule.name, pos)]? = some none) :
    seek env active target (⟨.call name key depth :: goals, pos, captured⟩ :: rest) s =
      seek env active target rest
        { s₁ with ruleCalls := s₁.ruleCalls + 1, memoHits := s₁.memoHits + 1 } :=
  seek_unmatched room known atomic (verdict_held memoize held)

/-- The call of an atomic rule where it is being matched. -/
theorem seek_entered (room : depth ≤ env.settings.room) (known : Run.lookup name s = .ok rule s₁)
    (atomic : rule.kind.atomic = true) (memoize : env.settings.memoize = true)
    (held : s₁.memo[(rule.name, pos)]? = none) (entered : active.contains (rule.name, pos) = true) :
    seek env active target (⟨.call name key depth :: goals, pos, captured⟩ :: rest) s =
      seek env active target rest { s₁ with
        ruleCalls := s₁.ruleCalls + 1, trace := .reentered rule.name pos :: s₁.trace } :=
  seek_unmatched room known atomic (verdict_entered memoize held entered)

/-- The call of an atomic rule that is tried in vain. -/
theorem seek_vain (room : depth ≤ env.settings.room) (known : Run.lookup name s = .ok rule s₁)
    (atomic : rule.kind.atomic = true) (memoize : env.settings.memoize = true)
    (held : s₁.memo[(rule.name, pos)]? = none) (fresh : active.contains (rule.name, pos) = false)
    (body : seek env ((rule.name, pos) :: active) none [⟨[.part rule.pattern (depth + 1)], pos, []⟩]
      { s₁ with ruleCalls := s₁.ruleCalls + 1 } = .ok none s₂) :
    seek env active target (⟨.call name key depth :: goals, pos, captured⟩ :: rest) s =
      seek env active target rest
        { s₂ with memo := s₂.memo.insert (rule.name, pos) none,
                  trace := .settled rule.name pos :: s₂.trace } :=
  seek_unmatched room known atomic
    (verdict_vain memoize held fresh fun _ => (Run.bind_ok body).trans rfl)

/-- The call of an atomic rule, of which the result is kept. -/
theorem seek_kept (room : depth ≤ env.settings.room) (known : Run.lookup name s = .ok rule s₁)
    (atomic : rule.kind.atomic = true) (memoize : env.settings.memoize = true) {stop : Int}
    {c : Capture} (held : s₁.memo[(rule.name, pos)]? = some (some (stop, c))) :
    seek env active target (⟨.call name key depth :: goals, pos, captured⟩ :: rest) s =
      seek env active target (⟨goals, stop, capturedUnder key c captured⟩ :: rest)
        { s₁ with ruleCalls := s₁.ruleCalls + 1, memoHits := s₁.memoHits + 1 } := by
  have h (solve) : expand env active pos captured (.call name key depth) solve s =
      .ok [.done stop (capturedUnder key c captured)]
        { s₁ with ruleCalls := s₁.ruleCalls + 1, memoHits := s₁.memoHits + 1 } := by
    rw [expand_call room]
    refine (Run.bind_ok known).trans ((Run.bind_ok Run.countCall_ok).trans ?_)
    rw [if_pos atomic]
    refine Eq.trans (Run.bind_ok (a := some (stop, c)) (verdict_held memoize ?_)) rfl
    exact held
  exact seek_step h rfl

/-- The call of an atomic rule that is tried. -/
theorem seek_fresh (room : depth ≤ env.settings.room) (known : Run.lookup name s = .ok rule s₁)
    (atomic : rule.kind.atomic = true) (memoize : env.settings.memoize = true)
    (held : s₁.memo[(rule.name, pos)]? = none) (fresh : active.contains (rule.name, pos) = false)
    {t : Solution} {left : Agenda} {c : Capture}
    (body : seek env ((rule.name, pos) :: active) none [⟨[.part rule.pattern (depth + 1)], pos, []⟩]
      { s₁ with ruleCalls := s₁.ruleCalls + 1 } = .ok (some (t, left)) s₂)
    (finished : Run.finish env rule pos t.stop t.captured s₂ = .ok c s₃) :
    seek env active target (⟨.call name key depth :: goals, pos, captured⟩ :: rest) s =
      seek env active target (⟨goals, t.stop, capturedUnder key c captured⟩ :: rest)
        { s₃ with memo := s₃.memo.insert (rule.name, pos) (some (t.stop, c)),
                  trace := .settled rule.name pos :: s₃.trace } := by
  rw [seek.eq_3, expand_call room]
  refine (Run.bind_ok (a := [.done t.stop (capturedUnder key c captured)]) ?_).trans rfl
  refine (Run.bind_ok known).trans ((Run.bind_ok Run.countCall_ok).trans ?_)
  rw [if_pos atomic]
  refine Eq.trans (Run.bind_ok (verdict_fresh memoize ?_ fresh (fun _ => ?_) finished)) rfl
  · exact held
  · exact (Run.bind_ok body).trans rfl

end Steps

end GrammarMatch.Match
