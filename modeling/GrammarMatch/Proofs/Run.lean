/-
  File:      GrammarMatch/Proofs/Run.lean
  Subject:   What the steps of a match do to what the matcher keeps.

  `Ensures x s Q` says that whatever `x` comes to from the state `s`, a result or a failure, `Q`
  holds of it and of the state then. Most steps are steady: they leave the kept results and the
  answers of the registry alone, and the trace only grows. Keeping the result of an atomic rule
  is the one step that is not.
-/
import GrammarMatch.Proofs.Plain

namespace GrammarMatch.Match

namespace Run

variable {α β : Type} {s : State}

/-- Whatever a computation comes to from a state is as required. -/
def Ensures (x : Run α) (s : State) (Q : Except Failure α → State → Prop) : Prop :=
  match x s with
  | .ok a s' => Q (.ok a) s'
  | .error f s' => Q (.error f) s'

theorem Ensures.mono {x : Run α} {Q Q' : Except Failure α → State → Prop} (h : Ensures x s Q)
    (hQ : ∀ o s', Q o s' → Q' o s') : Ensures x s Q' := by
  unfold Ensures at *
  cases hx : x s with
  | ok a s' =>
    rw [hx] at h
    exact hQ _ _ h
  | error f s' =>
    rw [hx] at h
    exact hQ _ _ h

theorem Ensures.ok {x : Run α} {Q : Except Failure α → State → Prop} (h : Ensures x s Q) {a : α}
    {s' : State} (hx : x s = .ok a s') : Q (.ok a) s' := by
  unfold Ensures at h
  rwa [hx] at h

theorem Ensures.error {x : Run α} {Q : Except Failure α → State → Prop} (h : Ensures x s Q)
    {f : Failure} {s' : State} (hx : x s = .error f s') : Q (.error f) s' := by
  unfold Ensures at h
  rwa [hx] at h

theorem ensures_modify {g : State → State} {Q : Except Failure Unit → State → Prop} :
    Ensures (modify g) s Q ↔ Q (.ok ()) (g s) := Iff.rfl

theorem ensures_get {Q : Except Failure State → State → Prop} :
    Ensures get s Q ↔ Q (.ok s) s := Iff.rfl

/-- Where there is room for another level, or there is none. -/
theorem room_cases {Q : Run α → Prop} {depth limit : Nat} {x : depth ≤ limit → Run α}
    (hx : ∀ room, Q (x room)) (full : ¬depth ≤ limit → Q (throw .stackExhausted)) :
    Q (if room : depth ≤ limit then x room else throw .stackExhausted) := by
  by_cases room : depth ≤ limit
  · rw [dif_pos room]
    exact hx room
  · rw [dif_neg room]
    exact full room

/-- A computation that goes on with a result ensures what the rest does from there. -/
theorem ensures_bind {x : Run α} {k : α → Run β} {Q : Except Failure β → State → Prop} :
    Ensures (x >>= k) s Q ↔ Ensures x s fun
      | .ok a, s' => Ensures (k a) s' Q
      | .error f, s' => Q (.error f) s' := by
  unfold Ensures
  simp only [bind, EStateM.bind]
  cases x s with
  | ok a s' => exact Iff.rfl
  | error f s' => exact Iff.rfl

end Run

/-! ## 1. Steady steps -/

/-- An atomic rule was called where it was being matched. -/
def State.Reentered (s : State) : Prop := ∃ name start, Event.reentered name start ∈ s.trace

/-- Nothing that was kept is changed but the counters, and the trace may have grown, but not by
    the call of a rule where it was being matched. -/
structure State.Steady (s s' : State) : Prop where
  lexicon : s'.lexicon = s.lexicon
  memo : s'.memo = s.memo
  trace : s.trace <:+ s'.trace
  once : s'.Reentered → s.Reentered

/-- The registry answers as before, and the trace may have grown. -/
structure State.Grows (s s' : State) : Prop where
  lexicon : s'.lexicon = s.lexicon
  trace : s.trace <:+ s'.trace

theorem State.Steady.refl (s : State) : s.Steady s := ⟨rfl, rfl, List.suffix_refl _, id⟩

theorem State.Steady.trans {s s' s'' : State} (h : s.Steady s') (h' : s'.Steady s'') :
    s.Steady s'' :=
  ⟨h'.lexicon.trans h.lexicon, h'.memo.trans h.memo, h.trace.trans h'.trace,
    fun entered => h.once (h'.once entered)⟩

theorem State.Steady.grows {s s' : State} (h : s.Steady s') : s.Grows s' := ⟨h.lexicon, h.trace⟩

theorem State.Grows.refl (s : State) : s.Grows s := ⟨rfl, List.suffix_refl _⟩

theorem State.Grows.trans {s s' s'' : State} (h : s.Grows s') (h' : s'.Grows s'') :
    s.Grows s'' :=
  ⟨h'.lexicon.trans h.lexicon, h.trace.trans h'.trace⟩

namespace Run

variable {s : State}

theorem ofExcept_spec {α : Type} (v : Except Failure α) :
    Ensures (ofExcept v) s fun o s' => s.Steady s' ∧ o = v := by
  cases v with
  | ok a => exact ⟨.refl s, rfl⟩
  | error f => exact ⟨.refl s, rfl⟩

/-- Another event in the trace is no call of a rule where it was being matched. -/
theorem reentered_cons {e : Event} (he : ∀ name start, e ≠ .reentered name start) {s' : State}
    (h : s'.trace = e :: s.trace) (entered : s'.Reentered) : s.Reentered := by
  obtain ⟨name, start, mem⟩ := entered
  rw [h] at mem
  rcases List.mem_cons.mp mem with rfl | mem
  · exact absurd rfl (he name start)
  · exact ⟨name, start, mem⟩

theorem called_spec (name : String) (start stop : Int) :
    Ensures (log (.called name start stop)) s fun o s' => s.Steady s' ∧ o = .ok () :=
  ⟨⟨rfl, rfl, List.suffix_cons _ _, reentered_cons (fun _ _ h => by cases h) rfl⟩, rfl⟩

theorem reentered_spec (name : String) (start : Int) :
    Ensures (log (.reentered name start)) s fun o s' => s.Grows s' ∧ s'.memo = s.memo ∧
      s'.Reentered ∧ o = .ok () :=
  ⟨⟨rfl, List.suffix_cons _ _⟩, rfl, ⟨name, start, List.mem_cons_self⟩, rfl⟩

theorem countCall_spec : Ensures countCall s fun o s' => s.Steady s' ∧ o = .ok () :=
  ⟨⟨rfl, rfl, List.suffix_refl _, id⟩, rfl⟩

theorem definesSpace_spec :
    Ensures definesSpace s fun o s' => s.Steady s' ∧ o = .ok s.lexicon.space := by
  refine ⟨.refl s, ?_⟩
  unfold State.lexicon
  cases s.registry with
  | none => rfl
  | some r => rfl

/-- Looking up a rule answers as the registry does. -/
theorem lookup_spec (name : String) :
    Ensures (lookup name) s fun o s' => s.Steady s' ∧ o = s.lexicon.rules name := by
  unfold Ensures lookup State.lexicon
  cases hr : s.registry with
  | none => exact ⟨.refl s, rfl⟩
  | some r =>
    have hspec := Registry.rule_spec name r
    have steady {r' : Registry} (ha : r.Alike r') : s.Steady { s with registry := some r' } := by
      refine ⟨?_, rfl, List.suffix_refl _, id⟩
      show Lexicon.of (some r') = Lexicon.of s.registry
      rw [hr]
      exact Lexicon.of_alike ha
    cases hq : Registry.rule name r with
    | ok rule r' =>
      rw [hq] at hspec
      simp only [hq]
      exact ⟨steady hspec.2, hspec.1.symm⟩
    | error f r' =>
      rw [hq] at hspec
      simp only [hq]
      exact ⟨steady hspec.2, hspec.1.symm⟩

/-- Entering a part records the peak, and fails where nesting so deep is not allowed. -/
theorem enter_spec (w : Basis) (depth : Nat) (pos : Int) :
    Ensures (enter w.env depth pos) s fun o s' => s.Steady s' ∧ o = w.entry depth pos := by
  have steady : s.Steady (if s.peakDepth < depth then { s with peakDepth := depth, peakPos := pos }
      else s) := by
    split
    · exact ⟨rfl, rfl, List.suffix_refl _, id⟩
    · exact .refl s
  unfold enter
  rw [ensures_bind, ensures_modify]
  unfold Basis.entry
  cases w.env.settings.maxDepth with
  | none => exact ⟨steady, rfl⟩
  | some limit =>
    by_cases h : limit < depth
    · simp only [if_pos h]
      exact ⟨steady, rfl⟩
    · simp only [if_neg h]
      exact ⟨steady, rfl⟩

/-- Finishing a rule runs its callback, and notes that it did. -/
theorem finish_spec (w : Basis) (rule : Rule) (start : Int) (t : Solution) :
    Ensures (finish w.env rule start t.stop t.captured) s fun o s' =>
      s.Steady s' ∧ o = w.finished rule start t := by
  unfold finish
  by_cases h : w.env.actions.hasAction rule.name
  · simp only [if_pos h]
    rw [ensures_bind]
    refine (called_spec _ _ _).mono fun o s₁ h₁ => ?_
    obtain ⟨h₁, rfl⟩ := h₁
    exact (ofExcept_spec _).mono fun o' s₂ h₂ => ⟨h₁.trans h₂.1, h₂.2⟩
  · simp only [if_neg h]
    exact ofExcept_spec _

/-- A kept result is found only where results are kept. -/
theorem remembered_spec (env : Env) (name : String) (pos : Int) :
    Ensures (remembered env name pos) s fun o s' => s.Steady s' ∧
      (o = .ok none ∨ ∃ kept, env.settings.memoize = true ∧ s.memo[(name, pos)]? = some kept ∧
        o = .ok (some kept)) := by
  unfold remembered
  by_cases hm : env.settings.memoize
  · simp only [if_pos hm]
    rw [ensures_bind, ensures_get]
    cases hk : s.memo[(name, pos)]? with
    | none =>
      simp only [hk]
      exact ⟨.refl s, .inl rfl⟩
    | some kept =>
      simp only [hk]
      exact ⟨⟨rfl, rfl, List.suffix_refl _, id⟩, .inr ⟨kept, hm, rfl, rfl⟩⟩
  · simp only [if_neg hm]
    exact ⟨.refl s, .inl rfl⟩

/-! ## 2. Keeping a result -/

/-- The result of an atomic rule is kept by its name and position, where results are kept. -/
theorem settle_spec (env : Env) (name : String) (pos : Int) (v : Verdict) :
    Ensures (settle env name pos v) s fun o s' => s.Grows s' ∧ o = .ok () ∧
      (s'.Reentered → s.Reentered) ∧
      s'.memo = if env.settings.memoize then s.memo.insert (name, pos) v else s.memo := by
  unfold settle
  by_cases hm : env.settings.memoize
  · simp only [if_pos hm]
    exact ⟨⟨rfl, List.suffix_cons _ _⟩, rfl, reentered_cons (fun _ _ h => by cases h) rfl, rfl⟩
  · simp only [if_neg hm]
    exact ⟨⟨rfl, List.suffix_cons _ _⟩, rfl, reentered_cons (fun _ _ h => by cases h) rfl, rfl⟩

/-- What holds of every result that was kept, and of the one to be kept, holds of every result
    that is kept then. -/
theorem settle_held (env : Env) (name : String) (pos : Int) {v : Verdict}
    {R : String × Int → Verdict → Prop} (before : ∀ key v, s.memo[key]? = some v → R key v)
    (now : R (name, pos) v) :
    Ensures (settle env name pos v) s fun o s' => s.Grows s' ∧ o = .ok () ∧
      ∀ key v, s'.memo[key]? = some v → R key v := by
  refine (settle_spec env name pos v).mono fun o s' h => ?_
  obtain ⟨grows, rfl, _, memo⟩ := h
  refine ⟨grows, rfl, fun key v' held => ?_⟩
  rw [memo] at held
  by_cases hm : env.settings.memoize = true
  · rw [if_pos hm, Std.HashMap.getElem?_insert] at held
    split at held
    · rename_i hkey
      cases eq_of_beq hkey
      exact Option.some.inj held ▸ now
    · exact before key v' held
  · rw [if_neg hm] at held
    exact before key v' held

end Run

end GrammarMatch.Match
