/-
  File:      GrammarMatch/Proofs/Search.lean
  Subject:   The search answers what plain recursion answers.

  Working off a goal replaces it by ways with the same answers, one lemma for each kind of goal
  (`expand_expands`). So `seek` comes to the first answer of its agenda and leaves an agenda
  that stands for the others (`seek_computes`), on the terms of the comparison.
-/
import GrammarMatch.Proofs.Agenda
import GrammarMatch.Proofs.Terms

namespace GrammarMatch.Match

/-! ## 1. Working off goals -/

section Expansion

variable {w : Basis} (T : Terms w) (active : Active) {α : Type} {b : Bounds} {m : Nat × Nat}

/-- A computation comes to ways with the given answers. -/
def Expands (x : Run (List (Branch b m))) (y : Answers Solution) : Prop :=
  ∃ v, T.Computes x (waysAnswers w active) v ∧ y = .attempt v id

/-- Matching something smaller first comes to the first of its answers. -/
def Solves (solve : Solver w.env.bounds m) : Prop :=
  ∀ active' target t h, T.Computes (solve active' target t h) id (sought w active' target [t]).first

variable {T active}

theorem expands_pure (ways : List (Branch b m)) :
    Expands T active (pure ways) (waysAnswers w active ways) :=
  ⟨_, Terms.computes_pure ways _, rfl⟩

theorem expands_of_eq {ways : List (Branch b m)} {y : Answers Solution}
    (h : waysAnswers w active ways = y) : Expands T active (pure ways) y := by
  rw [← h]
  exact expands_pure ways

theorem expands_throw (f : Failure) :
    Expands T active (throw f : Run (List (Branch b m))) (.failed f) :=
  ⟨_, Terms.computes_throw f _, rfl⟩

theorem expands_bind {x : Run α} {k : α → Run (List (Branch b m))} {v : Except Failure α}
    {y : α → Answers Solution} (hx : T.Computes x id v) (hk : ∀ a, Expands T active (k a) (y a)) :
    Expands T active (x >>= k) (.attempt v y) := by
  refine ⟨_, Terms.computes_bind (m := fun a => (hk a).choose) hx fun a => (hk a).choose_spec.1, ?_⟩
  cases v with
  | ok a => exact (hk a).choose_spec.2
  | error f => rfl

theorem expands_comes {x : Run α} {k : α → Run (List (Branch b m))} {v : Except Failure α}
    {y : α → Answers Solution} (hx : Terms.Comes w x v)
    (hk : ∀ a, v = .ok a → Expands T active (k a) (y a)) :
    Expands T active (x >>= k) (.attempt v y) := by
  cases v with
  | error f =>
    refine ⟨.error f, ?_, rfl⟩
    exact hx.computes_bind (m := fun _ => .error f) fun a ha => by cases ha
  | ok a =>
    obtain ⟨v, hv, hy⟩ := hk a rfl
    refine ⟨v, ?_, hy⟩
    exact hx.computes_bind (m := fun _ => v) fun a' ha' => by cases ha'; exact hv

theorem expands_after {x : Run Unit} {k : Unit → Run (List (Branch b m))} {y : Answers Solution}
    (hx : Terms.Comes w x (.ok ())) (hk : Expands T active (k ()) y) :
    Expands T active (x >>= k) y :=
  expands_comes (y := fun _ => y) hx fun _ _ => hk

theorem expands_room {depth : Nat} {x : depth ≤ w.env.bounds.room → Run (List (Branch b m))}
    {y : Answers Solution} (hx : ∀ room, Expands T active (x room) y) :
    Expands T active (if room : depth ≤ w.env.bounds.room then x room else throw .stackExhausted)
      (if depth ≤ w.env.settings.room then y else .failed .stackExhausted) := by
  by_cases room : depth ≤ w.env.bounds.room
  · rw [dif_pos room, if_pos (show depth ≤ w.env.settings.room from room)]
    exact hx room
  · rw [dif_neg room, if_neg (show ¬depth ≤ w.env.settings.room from room)]
    exact expands_throw .stackExhausted

theorem Solves.part {solve : Solver w.env.bounds m} (hs : Solves T solve) (active' : Active)
    (p : Pattern) (depth : Nat) (pos : Int) (captured : Captured)
    (h : ∀ g ∈ [Goal.part p depth], g.Under w.env.bounds m) :
    T.Computes (solve active' none ⟨[.part p depth], pos, captured⟩ h) id
      (w.solutions depth active' p ⟨pos, captured⟩).first := by
  have := hs active' none ⟨[.part p depth], pos, captured⟩ h
  rw [sought_single] at this
  have hf : (goalAnswers w active' (.part p depth) ⟨pos, captured⟩).filter
      (fun t => accepts none t.stop) = w.solutions depth active' p ⟨pos, captured⟩ :=
    Answers.filter_true _
  rwa [hf] at this

variable {depth : Nat} (room : depth ≤ w.env.settings.room) (pos : Int) (captured : Captured)

/-- **A part is worked off to ways with its answers.** -/
theorem expandPart_expands {solve : Solver w.env.bounds (Goal.partSize w.env.bounds depth)}
    (hs : Solves T solve) (p : Pattern) :
    Expands T active (expandPart w.env active depth room pos captured solve p)
      (w.part (w.solutions (depth + 1)) active ⟨pos, captured⟩ p) := by
  have call (name : String) (key : Option CaptureKey) :
      goalAnswers w active (.call name key depth) ⟨pos, captured⟩ =
        w.call (w.solutions (depth + 1)) active name key ⟨pos, captured⟩ := if_pos room
  cases p with
  | literal chars ignoreCase =>
    simp only [expandPart, Basis.part]
    cases literalStop? w.env.text chars ignoreCase pos with
    | none => exact expands_pure []
    | some stop => exact expands_pure [.done stop captured]
  | charClass items negated ignoreCase =>
    exact expands_comes (Terms.comes_ofExcept _) fun holds _ =>
      expands_of_eq (waysAnswers_wayIf w.env holds (pos + 1) captured)
  | sequence parts =>
    refine expands_of_eq ?_
    rw [waysAnswers_cons, waysAnswers_nil, Answers.append_done]
    unfold goalsAnswers
    rw [List.map_map]
    rfl
  | alternation mode branches =>
    cases mode with
    | ordered => exact expands_of_eq (waysAnswers_parts branches pos captured _)
    | longest =>
      refine expands_bind (Terms.computes_mapM fun p _ => hs.part active p _ _ _ _) fun found => ?_
      exact expands_of_eq (waysAnswers_ofList (longestFirst found))
  | repetition q body =>
    exact expands_of_eq (waysAnswers_choices T.not_again q body 0 room pos captured _ _)
  | group key plural body =>
    cases key with
    | none => exact expands_of_eq (waysAnswers_single (.part body (depth + 1)) _ pos captured)
    | some key =>
      exact expands_of_eq (waysAnswers_both (.part body (depth + 1))
        (.close key plural pos captured) _ _ pos [])
  | look kind body =>
    have way (found : Option Solution) : Expands T active
        (pure (wayIf w.env (found.isSome != kind.negative) pos captured : List (Branch w.env.bounds
          (Goal.partSize w.env.bounds depth))))
        (.only (found.isSome != kind.negative) ⟨pos, captured⟩) :=
      expands_of_eq (waysAnswers_wayIf w.env _ pos captured)
    show Expands T active _ (.attempt (Basis.looked _ active kind body pos) _)
    simp only [expandPart]
    unfold Basis.looked
    by_cases hk : kind.backward = true
    · rw [if_pos hk, if_pos hk]
      refine expands_bind ?_ way
      have := hs active (some pos) ⟨[.retreat body (retreatFrom body pos).1 depth],
        (retreatFrom body pos).2, []⟩ (by simpa using Goal.retreat_under_part body _ depth)
      rw [sought_single, goalAnswers_retreat room] at this
      exact this
    · rw [if_neg hk, if_neg hk]
      exact expands_bind (hs.part active body _ _ _ _) way
  | anchor kind =>
    exact expands_comes (Terms.comes_ofExcept _) fun holds _ =>
      expands_of_eq (waysAnswers_wayIf w.env holds pos captured)
  | ruleRef r =>
    exact expands_of_eq ((waysAnswers_single (.call r.name r.key? depth) _ pos captured).trans
      (call r.name r.key?))
  | whitespace =>
    simp only [expandPart]
    show Expands T active _ (.attempt (.ok w.lexicon.space) fun own => if own = true then
      w.call (w.solutions (depth + 1)) active "ws" none ⟨pos, captured⟩ else _)
    refine expands_comes Terms.comes_definesSpace fun own _ => ?_
    cases own with
    | true => exact expands_of_eq ((waysAnswers_single _ _ pos captured).trans (call "ws" none))
    | false =>
      refine expands_comes (Terms.comes_ofExcept _) fun stop _ => ?_
      cases stop with
      | none => exact expands_pure []
      | some stop => exact expands_pure [.done stop captured]

/-! ## 2. Working off calls -/

theorem settle_grows (name : String) (v : Verdict) (s : State) :
    (do Run.settle w.env name pos v; return v : Run Verdict).Ensures s fun _ s' => s.Grows s' := by
  rw [Run.ensures_bind]
  refine (Run.settle_spec w.env name pos v).mono fun o s' h => ?_
  obtain ⟨grows, rfl, _⟩ := h
  exact grows

/-- What plain recursion has may be kept. -/
theorem settle_computes {name : String} {rule : Rule} (known : w.lexicon.rules name = .ok rule)
    {v : Verdict} (hv : w.verdict (w.solutions depth) active rule pos = .ok v) :
    T.Computes (do Run.settle w.env rule.name pos v; return v) id (.ok v) := by
  intro s _
  rw [Run.ensures_bind]
  refine (Run.settle_spec w.env rule.name pos v).mono fun o s' h => ?_
  obtain ⟨grows, rfl, once, memo⟩ := h
  refine ⟨grows, fun kept => .inl ⟨rfl, fun key v' held => ?_, ?_⟩⟩
  rotate_left
  · exact kept.once.imp id fun never entered => never (once entered)
  rw [memo] at held
  by_cases hm : w.env.settings.memoize = true
  · rw [if_pos hm, Std.HashMap.getElem?_insert] at held
    split at held
    · rename_i hkey
      cases held
      rw [← eq_of_beq hkey]
      exact T.settle hm known hv
    · exact kept.right key v' held
  · rw [if_neg hm] at held
    exact kept.right key v' held

section Calls

variable {solve : Solver w.env.bounds (Goal.callSize w.env.bounds depth)}

/-- The body of an atomic rule is tried to its first match, which is finished and kept. -/
theorem fresh_computes (hs : Solves T solve) {name : String} {rule : Rule}
    (known : w.lexicon.rules name = .ok rule) (fresh : ¬active.contains (rule.name, pos) = true)
    (h : ∀ g ∈ [Goal.part rule.pattern (depth + 1)],
      g.Under w.env.bounds (Goal.callSize w.env.bounds depth)) :
    T.Computes (do
      let found ← solve ((rule.name, pos) :: active) none
        ⟨[.part rule.pattern (depth + 1)], pos, []⟩ h
      let result ← match found with
        | none => pure none
        | some s => do
          let c ← Run.finish w.env rule pos s.stop s.captured
          pure (some (s.stop, c))
      Run.settle w.env rule.name pos result
      return result) id (w.verdict (w.solutions (depth + 1)) active rule pos) := by
  have hv : w.verdict (w.solutions (depth + 1)) active rule pos = _ := if_neg fresh
  rw [hv]
  refine Terms.computes_bind_of (hs.part _ rule.pattern _ pos [] h) (fun found s hs => ?_)
    fun found hfound => ?_
  · cases found with
    | none => exact settle_grows pos rule.name none s
    | some t =>
      show ((Run.finish w.env rule pos t.stop t.captured) >>= fun c => _).Ensures s _
      rw [Run.ensures_bind]
      refine (Run.finish_spec w rule pos t).mono fun o s₁ h₁ => ?_
      cases o with
      | error f => exact h₁.1.grows
      | ok c => exact (settle_grows pos rule.name _ s₁).mono fun _ _ h₂ => h₁.1.grows.trans h₂
  · rw [hfound] at hv
    cases found with
    | none => exact settle_computes pos known hv
    | some t =>
      change _ = (w.finished rule pos t).map _ at hv
      show T.Computes ((Run.finish w.env rule pos t.stop t.captured) >>= fun c => _) id
        ((w.finished rule pos t).map fun c => some (t.stop, c))
      refine (Terms.comes_finish rule pos t).computes_bind fun c hc => ?_
      rw [hc] at hv
      exact settle_computes pos known hv

/-- A rule that is already being matched does not match, or plain recursion is excused. -/
theorem reentered_computes {rule : Rule} (entered : active.contains (rule.name, pos) = true) :
    T.Computes (do Run.log (.reentered rule.name pos); return none) id
      (w.verdict (w.solutions (depth + 1)) active rule pos) := by
  have hv : w.verdict (w.solutions (depth + 1)) active rule pos = w.again := if_pos entered
  rw [hv]
  intro s _
  rw [Run.ensures_bind]
  refine (Run.reentered_spec rule.name pos).mono fun o s' h => ?_
  obtain ⟨grows, memo, logged, rfl⟩ := h
  refine ⟨grows, fun kept => ?_⟩
  rcases T.again with again | ⟨f, again, excused⟩
  · refine .inl ⟨again, ?_, .inl again⟩
    rw [memo]
    exact kept.right
  · exact .inr ⟨f, again, excused s' logged⟩

/-- **An atomic rule comes to the result that plain recursion has.** -/
theorem verdict_computes (hs : Solves T solve) {name : String} {rule : Rule}
    (known : w.lexicon.rules name = .ok rule) :
    T.Computes (verdict w.env active depth room pos solve rule) id
      (w.verdict (w.solutions (depth + 1)) active rule pos) := by
  intro s hlex
  unfold verdict
  rw [Run.ensures_bind]
  refine (Run.remembered_spec w.env rule.name pos).mono fun o s₁ h₁ => ?_
  obtain ⟨steady, rfl | ⟨kept, memo, held, rfl⟩⟩ := h₁
  · -- Nothing is kept: the rule is tried, or it is already being matched here.
    by_cases fresh : active.contains (rule.name, pos) = true
    · simp only [if_pos fresh]
      exact (reentered_computes pos fresh).after steady hlex
    · simp only [if_neg fresh]
      exact (fresh_computes pos hs known fresh _).after steady hlex
  · refine ⟨steady.grows, fun before => ?_⟩
    rcases T.hit memo known (before.right _ _ held) with hv | ⟨f, hf, excused⟩
    · exact .inl ⟨hv, Terms.kept_of_steady steady before⟩
    · exact .inr ⟨f, hf, excused s₁⟩

/-- A call is worked off to ways with its answers. -/
theorem expandCall_expands (hs : Solves T solve) (name : String) (key : Option CaptureKey) :
    Expands T active (expandCall w.env active depth room pos captured solve name key)
      (w.call (w.solutions (depth + 1)) active name key ⟨pos, captured⟩) := by
  unfold Basis.call
  refine expands_comes (Terms.comes_lookup name) fun rule known => ?_
  refine expands_after Terms.comes_countCall ?_
  by_cases atomic : rule.kind.atomic = true
  · simp only [if_pos atomic]
    refine expands_bind (verdict_computes room pos hs known) fun v => ?_
    cases v with
    | none => exact expands_pure []
    | some v => exact expands_of_eq (waysAnswers_done v.1 (capturedUnder key v.2 captured))
  · simp only [if_neg atomic]
    exact expands_of_eq (waysAnswers_both (.part rule.pattern (depth + 1))
      (.finish rule key pos captured) _ _ pos [])

end Calls

/-- **A goal is worked off to ways with its answers.** -/
theorem expand_expands (g : Goal) {solve : Solver w.env.bounds (g.size w.env.bounds)}
    (hs : Solves T solve) :
    Expands T active (expand w.env active pos captured g solve)
      (goalAnswers w active g ⟨pos, captured⟩) := by
  cases g with
  | part p depth =>
    show Expands T active _ (w.solutions depth active p ⟨pos, captured⟩)
    rw [solutions_eq]
    refine expands_comes (Terms.comes_enter depth pos) fun _ _ => ?_
    exact expands_room fun room => expandPart_expands room pos captured hs p
  | call name key depth =>
    exact expands_room fun room => expandCall_expands room pos captured hs name key
  | round q body count start depth =>
    refine expands_room fun room => ?_
    by_cases further : start < pos ∧ start < w.env.text.stop
    · rw [dif_pos (show start < pos ∧ start < w.env.bounds.stop from further), if_pos further]
      exact expands_of_eq (waysAnswers_choices T.not_again q body (count + 1) room pos captured _ _)
    · rw [dif_neg (show ¬(start < pos ∧ start < w.env.bounds.stop) from further), if_neg further]
      exact expands_of_eq (waysAnswers_done pos captured)
  | close key plural start outer => exact expands_of_eq (waysAnswers_done pos _)
  | finish rule key start outer =>
    exact expands_comes (Terms.comes_finish rule start ⟨pos, captured⟩) fun c _ =>
      expands_of_eq (waysAnswers_done pos (capturedUnder key c outer))
  | retreat body left depth =>
    cases left with
    | zero => exact expands_pure []
    | succ left =>
      refine expands_room fun room => expands_of_eq ?_
      exact waysAnswers_retreat room body left pos captured _ _

end Expansion

/-! ## 3. The search -/

section Seek

variable {w : Basis} (T : Terms w)

/-- A solution with the answers that the agenda after it stands for. -/
def withRest (w : Basis) (active : Active) (target : Option Int) (r : Solution × Agenda) :
    Solution × Answers Solution := (r.1, sought w active target r.2)

/-- A search of which only the solution counts. -/
theorem solve_computes {active : Active} {target : Option Int} {agenda : Agenda}
    {x : Answers Solution}
    (h : T.Computes (seek w.env active target agenda) (Option.map (withRest w active target))
      x.head) :
    T.Computes (do
      let found ← seek w.env active target agenda
      return found.map Prod.fst) id x.first := by
  have hx : x.first = x.head.bind fun r => .ok (r.map Prod.fst) := by cases x <;> rfl
  rw [hx]
  refine Terms.computes_bind h fun found => ?_
  cases found with
  | none => exact Terms.computes_pure none id
  | some r => exact Terms.computes_pure (some r.1) id

/-- **The search comes to the first answer of its agenda, and leaves an agenda that stands for
    the others.** -/
theorem seek_computes (active : Active) (target : Option Int) (agenda : Agenda) :
    T.Computes (seek w.env active target agenda) (Option.map (withRest w active target))
      (sought w active target agenda).head := by
  induction active, target, agenda using seek.induct w.env with
  | case1 active target =>
    rw [seek.eq_1]
    exact Terms.computes_pure none _
  | case2 active target pos captured rest accepted =>
    rw [seek.eq_2, if_pos accepted, sought_nil, accepted]
    exact Terms.computes_pure (some ((⟨pos, captured⟩ : Solution), rest)) _
  | case3 active target pos captured rest passed ih =>
    rw [seek.eq_2, if_neg passed, sought_nil, Bool.eq_false_iff.mpr passed]
    exact ih
  | case4 active target g goals pos captured rest ihSolve ihWays =>
    rw [seek.eq_3, sought_cons]
    obtain ⟨v, hv, hy⟩ := expand_expands (T := T) pos captured g
      (fun active' target' t h => solve_computes T (ihSolve active' target' t h))
    rw [hy]
    let follow (y : Answers Solution) : Answers Solution :=
      (y.bind (goalsAnswers w active goals) ++ agendaAnswers w active rest).filter
        fun t => accepts target t.stop
    have goOn : T.Computes _ (Option.map (withRest w active target))
        (v.bind fun y => (follow y).head) :=
      Terms.computes_bind hv fun ways => sought_ways goals ways rest ▸ ihWays ways
    cases v with
    | ok y => exact goOn
    | error f => exact goOn

end Seek

end GrammarMatch.Match
