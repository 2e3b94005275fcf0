/-
  File:      GrammarMatch/Proofs/Agreement.lean
  Subject:   What a search depends on of the state it starts in.

  A search reads the answers of the registry and the results that are kept, and nothing else of
  what a matcher keeps: from states that agree in both it comes to the same, and counts as many
  calls of rules (`agreeing_lockstep`). Without a limit on nesting it may also start one level or
  more deeper, unless it runs out of room there.
-/
import GrammarMatch.Proofs.Lockstep

namespace GrammarMatch

namespace Match

/-! ## 1. States that agree -/

/-- The registry answers alike, the same results are kept where results are kept, and rules were
    called some times more often. -/
structure State.Agrees (memoize : Bool) (more : Nat) (s s' : State) : Prop where
  lexicon : s'.lexicon = s.lexicon
  memo : memoize = true → s'.memo = s.memo
  ruleCalls : s'.ruleCalls = s.ruleCalls + more

/-- The same captures in states that agree, with one search deeper than the other. -/
def agreeing (memoize : Bool) (more deeper : Nat) (stops : Failure → Prop) : Correspondence where
  same := State.Agrees memoize more
  captures := Eq
  stops := stops
  part _ := True
  level _ := True
  deeper := deeper

section Steps

variable {memoize : Bool} {more deeper : Nat} {stops : Failure → Prop} {s s' : State}

/-- Entering a part is noted and changes nothing else. -/
theorem State.agrees_entered (s : State) (depth : Nat) (pos : Int) :
    s.Agrees memoize 0 (s.entered depth pos) := by
  unfold State.entered
  split
  · exact ⟨rfl, fun _ => rfl, rfl⟩
  · exact ⟨rfl, fun _ => rfl, rfl⟩

theorem State.Agrees.entered (same : s.Agrees memoize more s') (depth depth' : Nat) (pos : Int) :
    (s.entered depth pos).Agrees memoize more (s'.entered depth' pos) := by
  have noted : s.Agrees memoize 0 (s.entered depth pos) := s.agrees_entered depth pos
  have noted' : s'.Agrees memoize 0 (s'.entered depth' pos) := s'.agrees_entered depth' pos
  refine ⟨?_, fun on => ?_, ?_⟩
  · rw [noted.lexicon, noted'.lexicon, same.lexicon]
  · rw [noted.memo on, noted'.memo on, same.memo on]
  · rw [noted.ruleCalls, noted'.ruleCalls, same.ruleCalls]
    rfl

theorem State.Agrees.trans {more' : Nat} {s'' : State} (same : s.Agrees memoize more s')
    (same' : s'.Agrees memoize more' s'') : s.Agrees memoize (more + more') s'' := by
  refine ⟨same'.lexicon.trans same.lexicon, fun on => (same'.memo on).trans (same.memo on), ?_⟩
  rw [same'.ruleCalls, same.ruleCalls, Nat.add_assoc]

/-- Looking up a rule is not counted as a call. -/
theorem Run.lookup_uncounted (name : String) :
    (Run.lookup name).Ensures s fun _ s' => s'.ruleCalls = s.ruleCalls := by
  unfold Run.Ensures Run.lookup
  cases s.registry with
  | none => rfl
  | some r => cases h : Registry.rule name r <;> simp only [h]

theorem agrees_lookup (name : String) (same : s.Agrees memoize more s') :
    (agreeing memoize more deeper stops).Pace Eq (Run.lookup name s) (Run.lookup name s') := by
  have spec := Run.lookup_spec (s := s) name
  have spec' := Run.lookup_spec (s := s') name
  have calls := Run.lookup_uncounted (s := s) name
  have calls' := Run.lookup_uncounted (s := s') name
  rw [same.lexicon] at spec'
  unfold Run.Ensures at spec spec' calls calls'
  have later {t t' : State} (h : s.Steady t) (h' : s'.Steady t')
      (counted : t.ruleCalls = s.ruleCalls) (counted' : t'.ruleCalls = s'.ruleCalls) :
      t.Agrees memoize more t' := by
    refine ⟨?_, fun on => ?_, ?_⟩
    · rw [h.lexicon, h'.lexicon, same.lexicon]
    · rw [h.memo, h'.memo, same.memo on]
    · rw [counted, counted', same.ruleCalls]
  generalize Run.lookup name s = r at spec calls ⊢
  generalize Run.lookup name s' = r' at spec' calls' ⊢
  rcases r with ⟨rule, t⟩ | ⟨f, t⟩
  · rcases r' with ⟨rule', t'⟩ | ⟨f', t'⟩
    · cases spec.2.trans spec'.2.symm
      exact .ok rfl (later spec.1 spec'.1 calls calls')
    · cases spec.2.trans spec'.2.symm
  · rcases r' with ⟨rule', t'⟩ | ⟨f', t'⟩
    · cases spec.2.trans spec'.2.symm
    · cases spec.2.trans spec'.2.symm
      exact .failed (later spec.1 spec'.1 calls calls')

theorem agrees_space (same : s.Agrees memoize more s') :
    (agreeing memoize more deeper stops).Pace Eq (Run.definesSpace s) (Run.definesSpace s') := by
  have space (s : State) : Run.definesSpace s = .ok s.lexicon.space s := by
    have spec := Run.definesSpace_spec (s := s)
    have unchanged : Run.definesSpace s =
        .ok ((s.registry.map (·.defines "ws")).getD false) s := rfl
    unfold Run.Ensures at spec
    rw [unchanged] at spec
    exact unchanged.trans (congrArg (EStateM.Result.ok · s) (Except.ok.inj spec.2))
  rw [space, space, same.lexicon]
  exact .ok rfl same

variable {env : Env}

theorem agrees_enter {depth : Nat} {pos : Int} (flat : env.settings.maxDepth = none ∨ deeper = 0)
    (same : s.Agrees memoize more s') :
    (agreeing memoize more deeper stops).Pace (fun _ _ => True) (Run.enter env depth pos s)
      (Run.enter env (depth + deeper) pos s') := by
  have later := same.entered depth (depth + deeper) pos
  rw [Run.enter_eq, Run.enter_eq]
  rcases flat with unlimited | rfl
  · rw [unlimited]
    exact .ok trivial later
  · cases env.settings.maxDepth with
    | none => exact .ok trivial later
    | some limit =>
      by_cases beyond : limit < depth
      · simp only [Nat.add_zero, if_pos beyond]
        exact .failed later
      · simp only [Nat.add_zero, if_neg beyond]
        exact .ok trivial later

theorem agrees_remembered (name : String) (pos : Int)
    (same : s.Agrees env.settings.memoize more s') :
    (agreeing env.settings.memoize more deeper stops).Pace
      (Option.Rel (agreeing env.settings.memoize more deeper stops).verdict)
      (Run.remembered env name pos s) (Run.remembered env name pos s') := by
  by_cases memoize : env.settings.memoize = true
  · cases held : s.memo[(name, pos)]? with
    | none =>
      have held' : s'.memo[(name, pos)]? = none := by rw [same.memo memoize, held]
      rw [Run.remembered_none memoize held, Run.remembered_none memoize held']
      exact .ok .none same
    | some kept =>
      have held' : s'.memo[(name, pos)]? = some kept := by rw [same.memo memoize, held]
      rw [Run.remembered_held memoize held, Run.remembered_held memoize held']
      exact .ok (.some ((Correspondence.verdict_iff rfl).mpr rfl)) { same with }
  · unfold Run.remembered
    rw [if_neg memoize]
    exact .ok .none same

theorem agrees_settle (name : String) (pos : Int) (v : Verdict)
    (same : s.Agrees env.settings.memoize more s') :
    (agreeing env.settings.memoize more deeper stops).Pace Eq (Run.settle env name pos v s)
      (Run.settle env name pos v s') := by
  by_cases memoize : env.settings.memoize = true
  · rw [Run.settle_ok memoize, Run.settle_ok memoize]
    refine .ok rfl ⟨same.lexicon, fun on => ?_, same.ruleCalls⟩
    exact congrArg (·.insert (name, pos) v) (same.memo on)
  · have noted (s : State) : Run.settle env name pos v s =
        .ok () { s with trace := .settled name pos :: s.trace } := by
      unfold Run.settle
      refine (Run.bind_ok rfl).trans ?_
      rw [if_neg memoize]
      rfl
    rw [noted, noted]
    exact .ok rfl { same with }

theorem agrees_finish {rule : Rule} {start stop : Int} {captured : Captured}
    (same : s.Agrees memoize more s') :
    (agreeing memoize more deeper stops).Pace Eq (Run.finish env rule start stop captured s)
      (Run.finish env rule start stop captured s') := by
  unfold Run.finish
  by_cases has : env.actions.hasAction rule.name = true
  · simp only [if_pos has]
    refine Correspondence.pace_bind (R := Eq) (.ok rfl ?_) fun _ _ _ _ _ later _ =>
      Correspondence.pace_ofExcept _ later
    exact { same with }
  · simp only [if_neg has]
    exact Correspondence.pace_ofExcept _ same

end Steps

/-- **Searches that start in states that agree go in step**, also where one starts deeper, if
    nesting is not limited. -/
theorem agreeing_lockstep (env : Env) (start : Moment) (more deeper : Nat)
    (stops : Failure → Prop) (flat : env.settings.maxDepth = none ∨ deeper = 0)
    (full : deeper ≠ 0 → stops .stackExhausted) :
    Lockstep env env start (agreeing env.settings.memoize more deeper stops) where
  text := rfl
  room := Nat.le_add_right _ _
  full beyond room := full fun level => by
    have deep : env.settings.room < _ + deeper := beyond
    rw [level] at deep
    exact absurd room (Nat.not_le.mpr deep)
  first := ⟨trivial, trivial⟩
  next _ := trivial
  build h := by rw [(Correspondence.captured_iff rfl).mp h]; rfl
  enter _ _ same := agrees_enter flat same
  lookup name _ _ same := agrees_lookup name same
  space same := agrees_space same
  count same := .ok rfl ⟨same.lexicon, same.memo, by
    show _ + 1 = _ + 1 + more
    rw [same.ruleCalls, Nat.add_right_comm]⟩
  remembered name pos _ _ same := agrees_remembered name pos same
  reenter name pos _ _ same := .ok rfl { same with }
  settle name pos _ _ _ _ hv same := by
    rw [(Correspondence.verdict_iff rfl).mp hv]
    exact agrees_settle name pos _ same
  finish _ caps same := by
    rw [(Correspondence.captured_iff rfl).mp caps]
    exact agrees_finish same
  note name pos matched _ _ same := .ok rfl { same with }

end Match

end GrammarMatch
