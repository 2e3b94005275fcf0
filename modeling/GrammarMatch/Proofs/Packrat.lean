/-
  File:      GrammarMatch/Proofs/Packrat.lean
  Subject:   An atomic rule is tried to the end at most once at each position.

  Where results are kept, the trace and the kept results are two records of the same thing: a body
  is noted as tried to the end exactly as often as its result is kept, which is once or not at all,
  and a callback runs no more often than that (`State.Booked`). What a search needs for it is that
  nothing is kept of a call as long as the call is active: it is refused where it is called again,
  so that only its own end can keep a result (`verdict_upholds`). It holds as long as nothing
  fails: a body that fails, or a callback, leaves nothing to be kept and may be tried again.
-/
import GrammarMatch.Proofs.Lawful
import GrammarMatch.Proofs.Peaks
import GrammarMatch.Proofs.Sharing

namespace GrammarMatch

open Match

namespace Match

/-! ## 1. Computations that come to a result -/

namespace Run

variable {α β : Type} {I : State → Prop} {P : α → Prop} {Q : β → Prop} {s : State}

/-- Where a computation comes to a result, it leaves a state of which holds what held before, and
    the result is as required. -/
def Upholds (I : State → Prop) (x : Run α) (P : α → Prop) : Prop :=
  ∀ s, I s → x.Ensures s fun o s' => ∀ a, o = .ok a → I s' ∧ P a

theorem Ensures.congr {x y : Run α} {s' : State} {R : Except Failure α → State → Prop}
    (same : x s = y s') (h : y.Ensures s' R) : x.Ensures s R := by
  unfold Ensures at *
  rw [same]
  exact h

theorem upholds_pure {a : α} (h : P a) : (pure a : Run α).Upholds I P := by
  intro s hs b hb
  cases hb
  exact ⟨hs, h⟩

theorem upholds_throw (f : Failure) : (throw f : Run α).Upholds I P := by
  intro s _ b hb
  cases hb

theorem upholds_bind {x : Run α} {k : α → Run β} (hx : x.Upholds I P)
    (hk : ∀ a, P a → (k a).Upholds I Q) : (x >>= k).Upholds I Q := by
  intro s hs
  rw [ensures_bind]
  refine (hx s hs).mono fun o s' h => ?_
  cases o with
  | error f => exact fun b hb => by cases hb
  | ok a =>
    obtain ⟨hs', ha⟩ := h a rfl
    exact hk a ha s' hs'

/-- Where a computation comes to a result, what held before holds then. -/
def Judgement.upholding (I : State → Prop) : Judgement where
  deems := Upholds I
  result := upholds_pure
  next := upholds_bind

end Run

/-! ## 2. Steps that keep nothing -/

/-- Nothing is kept or noted on the way. -/
structure State.Still (s s' : State) : Prop where
  lexicon : s'.lexicon = s.lexicon
  memo : s'.memo = s.memo
  trace : s'.trace = s.trace

theorem State.Still.refl (s : State) : s.Still s := ⟨rfl, rfl, rfl⟩

namespace Run

variable {α : Type} {s : State}

theorem still_ofExcept (v : Except Failure α) :
    (ofExcept v).Ensures s fun o s' => s.Still s' ∧ o = v := by
  cases v <;> exact ⟨.refl s, rfl⟩

theorem still_countCall : countCall.Ensures s fun _ s' => s.Still s' := ⟨rfl, rfl, rfl⟩

theorem still_definesSpace :
    definesSpace.Ensures s fun o s' => s.Still s' ∧ o = .ok s.lexicon.space :=
  ⟨.refl s, definesSpace_spec.2⟩

theorem still_enter (env : Env) (depth : Nat) (pos : Int) :
    (enter env depth pos).Ensures s fun _ s' => s.Still s' := by
  have still : s.Still (s.entered depth pos) := by
    unfold State.entered
    split
    · exact ⟨rfl, rfl, rfl⟩
    · exact .refl s
  unfold Ensures
  rw [enter_eq]
  cases env.settings.maxDepth with
  | none => exact still
  | some limit =>
    by_cases beyond : limit < depth
    · simp only [if_pos beyond]
      exact still
    · simp only [if_neg beyond]
      exact still

/-- Looking up a rule answers as the registry does, and notes nothing. -/
theorem still_lookup (name : String) :
    (lookup name).Ensures s fun o s' => s.Still s' ∧ o = s.lexicon.rules name := by
  have noted : (lookup name).Ensures s fun _ s' => s'.trace = s.trace := by
    unfold Ensures lookup
    cases s.registry with
    | none => rfl
    | some r => cases h : Registry.rule name r <;> simp only [h]
  have spec := lookup_spec (s := s) name
  unfold Ensures at *
  cases h : lookup name s with
  | ok rule s' =>
    rw [h] at noted spec
    exact ⟨⟨spec.1.lexicon, spec.1.memo, noted⟩, spec.2⟩
  | error f s' =>
    rw [h] at noted spec
    exact ⟨⟨spec.1.lexicon, spec.1.memo, noted⟩, spec.2⟩

/-- Finishing a rule keeps nothing, and notes the callback if there is one. -/
theorem finish_noted (env : Env) (rule : Rule) (start stop : Int) (captured : Captured) :
    (finish env rule start stop captured).Ensures s fun _ s' =>
      s.Still s' ∨ s' = { s with trace := .called rule.name start stop :: s.trace } := by
  unfold finish
  by_cases h : env.actions.hasAction rule.name = true
  · simp only [if_pos h]
    rw [ensures_bind]
    cases env.actions.invoke env.text rule.name _ <;> exact .inr rfl
  · simp only [if_neg h]
    exact (still_ofExcept _).mono fun _ _ h => .inl h.1

end Run

/-! ## 3. What is noted and what is kept -/

/-- The callback of a rule was run at a position. -/
def Event.isCall (name : String) (start : Int) : Event → Bool
  | .called rule start' _ => rule == name && start' == start
  | _ => false

namespace State

/-- How often the body of an atomic rule was tried to the end at a position. -/
def settlements (s : State) (name : String) (start : Int) : Nat :=
  s.trace.count (.settled name start)

/-- How often the callback of a rule was run at a position. -/
def callbacks (s : State) (name : String) (start : Int) : Nat :=
  s.trace.countP (Event.isCall name start)

end State

/-- The name stands for an atomic rule. -/
def Lexicon.IsAtomic (x : Lexicon) (name : String) : Prop :=
  ∃ rule, x.rules name = .ok rule ∧ rule.kind.atomic = true

/-- A body is noted as tried to the end once if its result is kept, and else not at all, and the
    callback of an atomic rule was run no more often. -/
structure State.Booked (x : Lexicon) (s : State) : Prop where
  lexicon : s.lexicon = x
  settled : ∀ name pos, s.settlements name pos = if (s.memo[(name, pos)]?).isSome then 1 else 0
  called : ∀ name pos, x.IsAtomic name → s.callbacks name pos ≤ s.settlements name pos

/-- Nothing is kept of some calls. -/
def State.Pending (x : Lexicon) (calls : List (String × Int)) (s : State) : Prop :=
  s.Booked x ∧ ∀ key ∈ calls, s.memo[key]? = none

namespace State

variable {x : Lexicon} {s s' : State} {name : String} {pos : Int}

theorem Booked.still (h : s.Booked x) (still : s.Still s') : s'.Booked x := by
  refine ⟨still.lexicon.trans h.lexicon, fun name pos => ?_, fun name pos atomic => ?_⟩
  · unfold settlements
    rw [still.trace, still.memo]
    exact h.settled name pos
  · unfold callbacks settlements
    rw [still.trace]
    exact h.called name pos atomic

/-- Another event may be noted, if it is no callback of an atomic rule. -/
theorem Booked.noted (h : s.Booked x) {e : Event} (unsettled : ∀ name pos, e ≠ .settled name pos)
    (uncalled : ∀ name pos, x.IsAtomic name → e.isCall name pos = false) (lexicon : s'.lexicon = x)
    (memo : s'.memo = s.memo) (trace : s'.trace = e :: s.trace) : s'.Booked x := by
  have settlements_eq (name : String) (pos : Int) :
      s'.settlements name pos = s.settlements name pos := by
    unfold settlements
    rw [trace]
    exact List.count_cons_of_ne (unsettled name pos)
  refine ⟨lexicon, fun name pos => ?_, fun name pos atomic => ?_⟩
  · rw [settlements_eq, memo]
    exact h.settled name pos
  · rw [settlements_eq]
    unfold callbacks
    rw [trace, List.countP_cons_of_neg (by simp [uncalled name pos atomic])]
    exact h.called name pos atomic

theorem Pending.still {calls : List (String × Int)} (h : s.Pending x calls) (still : s.Still s') :
    s'.Pending x calls :=
  ⟨h.1.still still, fun key hkey => by rw [still.memo]; exact h.2 key hkey⟩

/-- The state when the callback of a rule was run. -/
def answered (s : State) (name : String) (pos stop : Int) : State :=
  { s with trace := .called name pos stop :: s.trace }

/-- The state when the result of a call was kept. -/
def settle (s : State) (name : String) (pos : Int) (v : Verdict) : State :=
  { s with memo := s.memo.insert (name, pos) v, trace := .settled name pos :: s.trace }

variable (s) {name' : String} {pos' : Int}

theorem callbacks_answered (name : String) (pos stop : Int) :
    (s.answered name pos stop).callbacks name' pos' =
      s.callbacks name' pos' + if name = name' ∧ pos = pos' then 1 else 0 := by
  unfold callbacks answered
  simp only [List.countP_cons, Event.isCall, Bool.and_eq_true, beq_iff_eq]

theorem settlements_settle (name : String) (pos : Int) (v : Verdict) :
    (s.settle name pos v).settlements name' pos' =
      s.settlements name' pos' + if name = name' ∧ pos = pos' then 1 else 0 := by
  unfold settlements settle
  simp only [List.count_cons, beq_iff_eq, Event.settled.injEq]

theorem memo_settle (name : String) (pos : Int) (v : Verdict) :
    (s.settle name pos v).memo[(name', pos')]? =
      if name = name' ∧ pos = pos' then some v else s.memo[(name', pos')]? := by
  simp only [settle, Std.HashMap.getElem?_insert, beq_iff_eq, Prod.mk.injEq]

variable {s}

/-- The first result of a call may be kept, and its callback may have run just before. -/
theorem Booked.settle (h : s.Booked x) (free : s.memo[(name, pos)]? = none) (v : Verdict)
    (noted : s.Still s' ∨ ∃ stop, s' = s.answered name pos stop) :
    (s'.settle name pos v).Booked x := by
  obtain ⟨lexicon, memo, settled, called⟩ : s'.lexicon = x ∧ s'.memo = s.memo ∧
      (∀ name' pos', s'.settlements name' pos' = s.settlements name' pos') ∧
      ∀ name' pos', s'.callbacks name' pos' ≤
        s.callbacks name' pos' + if name = name' ∧ pos = pos' then 1 else 0 := by
    rcases noted with still | ⟨stop, rfl⟩
    · refine ⟨still.lexicon.trans h.lexicon, still.memo, fun _ _ => ?_, fun _ _ => ?_⟩
      · exact congrArg (List.count _) still.trace
      · exact Nat.le_trans (Nat.le_of_eq (congrArg (List.countP _) still.trace))
          (Nat.le_add_right _ _)
    · refine ⟨h.lexicon, rfl, fun _ _ => ?_, fun _ _ => Nat.le_of_eq (callbacks_answered s ..)⟩
      exact List.count_cons_of_ne fun same => by cases same
  refine ⟨lexicon, fun name' pos' => ?_, fun name' pos' atomic => ?_⟩
  · rw [settlements_settle, memo_settle, settled, h.settled name' pos', memo]
    by_cases same : name = name' ∧ pos = pos'
    · obtain ⟨rfl, rfl⟩ := same
      simp [free]
    · rw [if_neg same, if_neg same]
      rfl
  · rw [settlements_settle, settled]
    exact Nat.le_trans (called name' pos') (Nat.add_le_add_right (h.called name' pos' atomic) _)

theorem Pending.settle {calls : List (String × Int)} (h : s.Pending x ((name, pos) :: calls))
    (v : Verdict) (noted : s.Still s' ∨ ∃ stop, s' = s.answered name pos stop)
    (fresh : (name, pos) ∉ calls) : (s'.settle name pos v).Pending x calls := by
  obtain ⟨booked, pending⟩ := h
  obtain ⟨free, others⟩ := List.forall_mem_cons.mp pending
  refine ⟨booked.settle free v noted, fun key hkey => ?_⟩
  have memo : s'.memo = s.memo := by
    rcases noted with still | ⟨stop, rfl⟩
    · exact still.memo
    · rfl
  obtain ⟨name', pos'⟩ := key
  have other : ¬(name = name' ∧ pos = pos') := fun same => fresh (by rwa [same.1, same.2])
  rw [memo_settle, if_neg other, memo]
  exact others _ hkey

end State

/-! ## 4. Working off goals -/

/-- A rule that is left open until it is finished is not atomic, nor is any of its name. -/
def Goal.Open (x : Lexicon) : Goal → Prop
  | .finish rule _ _ _ => ¬x.IsAtomic rule.name
  | _ => True

/-- What is noted is upheld, while nothing is kept of the calls that are active. -/
def booking (x : Lexicon) : Discipline :=
  .plain (fun active => .upholding (State.Pending x active)) fun _ g => g.Open x

section Expansion

variable {x : Lexicon} {env : Env} {active : Active} {pos : Int} {depth : Nat}

/-- A step that keeps and notes nothing. -/
theorem upholds_still {α : Type} {r : Run α} {P : α → Prop}
    (hr : ∀ s, s.lexicon = x → r.Ensures s fun o s' => s.Still s' ∧ ∀ a, o = .ok a → P a) :
    r.Upholds (State.Pending x active) P := by
  intro s hs
  refine (hr s hs.1.lexicon).mono fun o s' h a ha => ?_
  exact ⟨hs.still h.1, h.2 a ha⟩

/-- **The body of an atomic rule is tried to the end where nothing is kept of it**, and then its
    result is kept. -/
theorem verdict_upholds (memoize : env.settings.memoize = true) (room : depth ≤ env.bounds.room)
    {solve : Solver env.bounds (Goal.callSize env.bounds depth)} (hsolve : (booking x).Solves solve)
    {rule : Rule} :
    (verdict env active depth room pos solve rule).Upholds (State.Pending x active)
      fun _ => True := by
  intro s hs
  cases held : s.memo[(rule.name, pos)]? with
  | some kept =>
    refine Run.Ensures.congr (verdict_held memoize held) fun _ _ => ⟨?_, trivial⟩
    exact hs.still ⟨rfl, rfl, rfl⟩
  | none =>
    by_cases entered : active.contains (rule.name, pos) = true
    · refine Run.Ensures.congr (verdict_entered memoize held entered) fun _ _ => ⟨?_, trivial⟩
      exact ⟨hs.1.noted (fun _ _ same => by cases same) (fun _ _ _ => rfl) hs.1.lexicon rfl rfl,
        hs.2⟩
    · have fresh : (rule.name, pos) ∉ active := fun mem => entered (List.contains_iff_mem.mpr mem)
      have settled {s₁ s₂ : State} (h : s₁.Pending x ((rule.name, pos) :: active)) (v : Verdict)
          (noted : s₁.Still s₂ ∨ ∃ stop, s₂ = s₁.answered rule.name pos stop) :
          (do Run.settle env rule.name pos v; return v : Run Verdict).Ensures s₂ fun o s' =>
            ∀ a, o = .ok a → s'.Pending x active ∧ True :=
        Run.Ensures.congr (Run.bind_ok (Run.settle_ok memoize v)) fun _ _ =>
          ⟨h.settle v noted fresh, trivial⟩
      unfold verdict
      refine Run.Ensures.congr (Run.bind_ok (Run.remembered_none memoize held)) ?_
      simp only [if_neg entered]
      rw [Run.ensures_bind]
      -- while the body is tried, the call is active and nothing is kept of it
      have body := hsolve ((rule.name, pos) :: active) none
        ⟨[.part rule.pattern (depth + 1)], pos, []⟩
        (by simpa [Goal.callSize] using Goal.part_under room rule.pattern 0)
        (fun _ _ => True) ⟨trivial, fun _ _ => trivial⟩
      refine (body s ⟨hs.1, List.forall_mem_cons.mpr ⟨held, hs.2⟩⟩).mono fun o s₁ h => ?_
      cases o with
      | error f => exact fun _ failed => by cases failed
      | ok found =>
        have pending := (h found rfl).1
        cases found with
        | none => exact settled pending none (.inl (.refl s₁))
        | some u =>
          show (Run.finish env rule pos u.stop u.captured >>= _).Ensures s₁ _
          rw [Run.ensures_bind]
          refine (Run.finish_noted env rule pos u.stop u.captured).mono fun o s₂ noted => ?_
          cases o with
          | error f => exact fun _ failed => by cases failed
          | ok c => exact settled pending _ (noted.imp id fun h => ⟨u.stop, h⟩)

/-- Finishing a rule that was left open notes no callback of an atomic rule. -/
theorem finish_upholds {rule : Rule} (opened : ¬x.IsAtomic rule.name) {start stop : Int}
    {captured : Captured} {P : Capture → Prop} (hP : ∀ c, P c) :
    (Run.finish env rule start stop captured).Upholds (State.Pending x active) P := by
  intro s hs
  refine (Run.finish_noted env rule start stop captured).mono fun o s' h c _ => ⟨?_, hP c⟩
  rcases h with still | rfl
  · exact hs.still still
  · refine ⟨hs.1.noted (fun _ _ same => by cases same) (fun name start' atomic => ?_)
      hs.1.lexicon rfl rfl, hs.2⟩
    have other : rule.name ≠ name := fun same => opened (same ▸ atomic)
    simp [Event.isCall, other]

/-- **Every step upholds what is noted**, and a rule is left open only if it is not atomic. -/
theorem booking_lawful (named : x.Named) (memoize : env.settings.memoize = true) :
    (booking x).Lawful env (· = x) where
  literal h _ := h.2 _ _
  charClass h _ := h.2 _ _
  sequence h := (Discipline.plain_goals h.2).mpr fun g hg => by
    obtain ⟨p, _, rfl⟩ := List.mem_map.mp hg
    trivial
  branch h _ _ := ⟨trivial, h.2⟩
  repetition h := ⟨fun _ => h.2 _ _, fun _ => ⟨trivial, fun _ _ => ⟨trivial, h.2⟩⟩⟩
  enclosed h := ⟨trivial, h.2⟩
  group h := ⟨trivial, fun _ _ => ⟨trivial, h.2⟩⟩
  ahead _ _ := ⟨trivial, fun _ _ => trivial⟩
  behind _ _ := ⟨trivial, fun _ _ => trivial⟩
  looked h := h.2 _ _
  anchor h _ := h.2 _ _
  ruleRef h := ⟨trivial, h.2⟩
  space h _ _ _ := ⟨trivial, h.2⟩
  gap h _ _ _ _ _ := h.2 _ _
  leftOpen h _ given rule known opened := by
    -- the rule is the one of its name, so that no rule of its name is atomic
    have single : ¬x.IsAtomic rule.name := by
      rintro ⟨rule', known', atomic⟩
      rw [named _ rule (given ▸ known)] at known'
      obtain rfl : rule = rule' := Except.ok.inj (known.symm.trans (given ▸ known'))
      exact opened atomic
    exact ⟨trivial, fun _ _ => ⟨single, h.2⟩⟩
  round h _ := ⟨fun _ => h.2 _ _, fun _ => ⟨trivial, fun _ _ => h⟩⟩
  rest h _ := h.2 _ _
  close h := h.2 _ _
  retreat h := ⟨⟨trivial, h.2⟩, ⟨trivial, h.2⟩⟩
  full _ _ := Run.upholds_throw _
  enter {_ _ _ depth pos _} _ := upholds_still fun _ _ => (Run.still_enter env depth pos).mono
    fun _ _ still => ⟨still, fun _ _ => trivial⟩
  test _ _ v _ := upholds_still fun _ _ => (Run.still_ofExcept v).mono
    fun _ _ h => ⟨h.1, fun _ ha => h.2.symm.trans ha⟩
  definesSpace _ := upholds_still fun s hs => Run.still_definesSpace.mono
    fun _ _ h => ⟨h.1, fun own ha => ⟨x, rfl, hs ▸ Except.ok.inj (h.2.symm.trans ha)⟩⟩
  lookup {_ _ name _ _ _ _} _ := upholds_still fun s hs => (Run.still_lookup name).mono
    fun _ _ h => ⟨h.1, fun rule ha => ⟨x, rfl, hs ▸ h.2.symm.trans ha⟩⟩
  count _ := upholds_still fun _ _ => Run.still_countCall.mono
    fun _ _ still => ⟨still, fun _ _ => trivial⟩
  verdict {active _ _ _ _ _ _} h _ _ _ _ _ room _ hsolve :=
    (Run.Judgement.upholding (State.Pending x active)).weaken (verdict_upholds memoize room hsolve)
      fun _ _ _ _ _ => h.2 _ _
  finish h := finish_upholds h.1 fun _ => h.2 _ _

end Expansion

/-! ## 5. Calls in a row -/

/-- **A query upholds what is noted**, as it starts where no call is active. -/
theorem query_upholds {x : Lexicon} (named : x.Named) {env : Env}
    (memoize : env.settings.memoize = true) (q : Query) (pos : Int) :
    (q.run env pos).Upholds (State.Pending x []) fun _ => True := by
  have note (name : String) (matched : Bool) :
      (Run.logRun name pos matched).Upholds (State.Pending x []) fun _ => True := fun s hs _ _ =>
    ⟨⟨hs.1.noted (fun _ _ same => by cases same) (fun _ _ _ => rfl) hs.1.lexicon rfl rfl, hs.2⟩,
      trivial⟩
  have start : (booking x).needs [] (fun _ _ => True) q.goal pos [] :=
    ⟨by cases q <;> trivial, fun _ _ => trivial⟩
  exact (Run.Judgement.upholding (State.Pending x [])).weaken
    ((booking_lawful named memoize).obeyed.query note q start) fun _ _ => trivial

end Match

/-- Nothing is kept or noted at the start. -/
theorem Match.State.booked_start (registry : Option Registry) :
    State.Booked (.of registry) { registry } := by
  refine ⟨rfl, fun name pos => ?_, fun _ _ _ => Nat.le_refl 0⟩
  rw [Std.HashMap.getElem?_empty]
  rfl

/-- Calls that all come to a result uphold what is noted. -/
theorem Matcher.askAll_booked {x : Lexicon} (named : x.Named) {m : Matcher}
    (memoize : m.env.settings.memoize = true) (booked : m.state.Booked x)
    {calls : List (Query × Int)} (answered : ∀ o ∈ (m.askAll calls).1, ∃ found, o = .ok found) :
    (m.askAll calls).2.state.Booked x := by
  induction calls generalizing m with
  | nil => exact booked
  | cons c calls ih =>
    obtain ⟨q, pos⟩ := c
    obtain ⟨⟨found, first⟩, others⟩ := List.forall_mem_cons.mp answered
    obtain ⟨upheld, env⟩ := Matcher.advance_spec (m := m)
      (query_upholds named memoize q pos m.state ⟨booked, List.forall_mem_nil _⟩)
    exact ih (m := (m.ask q pos).2) (by rw [Matcher.ask, env]; exact memoize)
      (upheld found first).1.1 others

/-- **An atomic rule is tried to the end at most once at a position**, and its callback runs at
    most once there, over the whole life of a matcher that keeps results, if no call fails. -/
theorem askAll_once (text : Text) (registry : Option Registry) (actions : Actions)
    (settings : Settings) (built : ∀ r ∈ registry, r.Built) (calls : List (Query × Int)) :
    let after := (Matcher.start text registry actions
      { settings with memoize := true }).askAll calls
    (∀ o ∈ after.1, ∃ found, o = .ok found) → ∀ name, (Lexicon.of registry).IsAtomic name →
      ∀ pos, after.2.state.settlements name pos ≤ 1 ∧ after.2.state.callbacks name pos ≤ 1 := by
  intro after answered name atomic pos
  have booked : after.2.state.Booked (.of registry) :=
    Matcher.askAll_booked (Lexicon.named_of built) rfl (State.booked_start registry) answered
  have settled : after.2.state.settlements name pos ≤ 1 := by
    rw [booked.settled]
    split <;> decide
  exact ⟨settled, Nat.le_trans (booked.called name pos atomic) settled⟩

/-- A callback for the rule that matches the empty text. -/
def gapActions : Actions := ⟨[("gap", Callback.span)]⟩

/-- The rule is tried once, and its result is kept for the second call. -/
theorem askAll_gap :
    ((Matcher.start #[] (some nested) gapActions { ({} : Settings) with memoize := true }).askAll
      [(.rule "gap" false, 0), (.rule "gap" false, 0)]).1 =
    let found : Found := ⟨0, gapRule.emptyCapture.make (.tuple [.int 0, .int 0])⟩
    [.ok (some found), .ok (some found)] := by
  let env : Env := ⟨#[], gapActions, {}⟩
  let c : Capture := gapRule.emptyCapture.make (.tuple [.int 0, .int 0])
  let s₁ : State := { registry := some nested, peakDepth := 2, ruleCalls := 1 }
  let s₂ : State := { s₁ with
    trace := .settled "gap" 0 :: .called "gap" 0 0 :: s₁.trace,
    memo := s₁.memo.insert ("gap", 0) (some (0, c)) }
  have body : seek env [("gap", 0)] none [⟨[.part gapRule.pattern 2], 0, []⟩]
      { registry := some nested, ruleCalls := 1 } = .ok (some (⟨0, []⟩, [])) s₁ :=
    calc
      _ = seek env [("gap", 0)] none [⟨[], 0, []⟩] s₁ := seek_step (fun _ => rfl) rfl
      _ = _ := by rw [seek.eq_2]; rfl
  have first : seek env [] none [⟨[.call "gap" (some (.name "gap")) 1], 0, []⟩]
      { registry := some nested } = .ok (some (⟨0, [(.name "gap", c)]⟩, [])) s₂ :=
    calc
      _ = seek env [] none [⟨[], 0, [(.name "gap", c)]⟩] s₂ :=
        (seek_fresh (by decide) rfl rfl rfl Std.HashMap.getElem?_empty rfl body rfl).trans rfl
      _ = _ := by rw [seek.eq_2]; rfl
  have second (s : State) (registry : s.registry = some nested)
      (kept : s.memo[("gap", (0 : Int))]? = some (some (0, c))) :
      ∃ s', seek env [] none [⟨[.call "gap" (some (.name "gap")) 1], 0, []⟩] s =
        .ok (some (⟨0, [(.name "gap", c)]⟩, [])) s' := by
    have known : Run.lookup "gap" s = .ok gapRule s := Run.lookup_ok registry rfl
    exact ⟨_, (seek_kept (by decide) known rfl rfl kept).trans (by rw [seek.eq_2]; rfl)⟩
  obtain ⟨s₃, again⟩ := second (s₂.noted "gap" 0 true) rfl Std.HashMap.getElem?_insert_self
  have one : (Matcher.start #[] (some nested) gapActions {}).ask (.rule "gap" false) 0 =
      (.ok (some ⟨0, c⟩), ⟨env, s₂.noted "gap" 0 true⟩) := Matcher.ask_rule first rfl
  have two := Matcher.ask_rule again rfl
  unfold Matcher.askAll
  simp only [one]
  unfold Matcher.askAll
  simp only [two]
  rfl

/-- The rule is asked for twice at the start, and its callback runs no more than once. -/
theorem askAll_once_gap :
    (∀ r ∈ some nested, r.Built) ∧
      let after := (Matcher.start #[] (some nested) gapActions
        { ({} : Settings) with memoize := true }).askAll
          [(.rule "gap" false, 0), (.rule "gap" false, 0)]
      (∀ o ∈ after.1, ∃ found, o = .ok found) ∧ (Lexicon.of (some nested)).IsAtomic "gap" ∧
        after.2.state.settlements "gap" 0 ≤ 1 ∧ after.2.state.callbacks "gap" 0 ≤ 1 := by
  have answered : ∀ o ∈ ((Matcher.start #[] (some nested) gapActions
      { ({} : Settings) with memoize := true }).askAll
        [(.rule "gap" false, 0), (.rule "gap" false, 0)]).1, ∃ found, o = .ok found := by
    rw [askAll_gap]
    exact List.forall_mem_cons.mpr ⟨⟨_, rfl⟩, List.forall_mem_singleton.mpr ⟨_, rfl⟩⟩
  have atomic : (Lexicon.of (some nested)).IsAtomic "gap" := ⟨gapRule, rfl, rfl⟩
  exact ⟨nested_built, answered, atomic,
    askAll_once #[] (some nested) gapActions {} nested_built _ answered "gap" atomic 0⟩

end GrammarMatch
