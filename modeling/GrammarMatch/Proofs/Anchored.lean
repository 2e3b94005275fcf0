/-
  File:      GrammarMatch/Proofs/Anchored.lean
  Subject:   Solutions that have to end where the text ends.

  There are two ways to ask for the first solution that reaches the end of the text. A search can
  pass over the solutions that end elsewhere, or the end of the text can stand as an anchor after
  the pattern, so that the search goes back into the pattern where the anchor does not hold. Both
  try the same in the same order and come to the same solution (`firstOf_whole`), which is the
  first one that ends there of all that the pattern has (`Enumerates.sought`).
-/
import GrammarMatch.Proofs.Agreement
import GrammarMatch.Proofs.Enumeration

namespace GrammarMatch

namespace Match

/-! ## 1. What a computation comes to -/

namespace Run

variable {α β : Type}

/-- The result or the failure that a computation comes to. -/
def outcome (x : Run α) (s : State) : Except Failure α :=
  match x s with
  | .ok a _ => .ok a
  | .error f _ => .error f

theorem outcome_congr {x y : Run α} {s s' : State} (h : x s = y s') :
    x.outcome s = y.outcome s' := by
  unfold outcome
  rw [h]

theorem outcome_ok {x : Run α} {s s' : State} {a : α} (h : x s = .ok a s') :
    x.outcome s = .ok a := by
  unfold outcome
  rw [h]

theorem outcome_error {x : Run α} {s s' : State} {f : Failure} (h : x s = .error f s') :
    x.outcome s = .error f := by
  unfold outcome
  rw [h]

theorem bind_error {x : Run α} {k : α → Run β} {f : Failure} {s s' : State}
    (h : x s = .error f s') : (x >>= k) s = .error f s' := by
  simp only [bind, EStateM.bind]
  rw [h]

/-- A result that is read off the result of a search. -/
theorem outcome_map {x : Run α} {k : α → Run β} {g : α → β} {s : State}
    (h : ∀ a s', (k a).outcome s' = .ok (g a)) :
    (x >>= k).outcome s = (x.outcome s).map g := by
  unfold outcome at *
  simp only [bind, EStateM.bind]
  cases x s with
  | ok a s' => exact h a s'
  | error f s' => rfl

end Run

/-- Where two computations come to the same unless the second is given up, so do their outcomes. -/
theorem Correspondence.Pace.outcome {C : Correspondence} {α : Type} {x y : Run α} {s s' : State}
    (h : C.Pace Eq (x s) (y s')) :
    (∃ f, C.stops f ∧ y.outcome s' = .error f) ∨ x.outcome s = y.outcome s' := by
  unfold Run.outcome
  generalize x s = r at h ⊢
  generalize y s' = r' at h ⊢
  cases h with
  | stopped h => exact .inl ⟨_, h, rfl⟩
  | ok h _ => exact .inr (congrArg Except.ok h)
  | failed _ => exact .inr rfl

theorem Correspondence.pace_congr_right {C : Correspondence} {α α' : Type} {R : α → α' → Prop}
    {r : EStateM.Result Failure State α} {r' r'' : EStateM.Result Failure State α'}
    (same : r'' = r') (h : C.Pace R r r') : C.Pace R r r'' := same ▸ h

/-! ## 2. All solutions -/

section Solutions

variable {env : Env} {active : Active} {s : State}

/-- What a search goes on with after a solution of all, if only those at a target count. -/
def passing (env : Env) (active : Active) (target : Option Int) :
    Option (Solution × Agenda) → Run (Option (Solution × Agenda))
  | none => pure none
  | some (u, rest) =>
    if accepts target u.stop then pure (some (u, rest)) else seek env active target rest

/-- A search that passes over solutions goes on with what is left after each of them. -/
theorem seek_passing (env : Env) (active : Active) (target : Option Int) (agenda : Agenda) :
    seek env active target agenda = seek env active none agenda >>= passing env active target := by
  have first (pos : Int) (captured : Captured) (rest : Agenda) :
      seek env active none (⟨[], pos, captured⟩ :: rest) =
        pure (some (⟨pos, captured⟩, rest)) := by
    have every : accepts none pos = true := rfl
    rw [seek.eq_2, if_pos every]
  induction active, target, agenda using seek.induct env with
  | case1 active target =>
    rw [seek.eq_1, seek.eq_1, pure_bind]
    rfl
  | case2 active target pos captured rest accepted =>
    rw [first, pure_bind, seek.eq_2, passing, if_pos accepted]
  | case3 active target pos captured rest passed ih =>
    rw [first, pure_bind, seek.eq_2, passing]
  | case4 active target g goals pos captured rest ihSolve ihWays =>
    rw [seek.eq_3, seek.eq_3, bind_assoc]
    exact congrArg _ (funext fun ways => ihWays ways first)

/-- **The first solution that counts is the first one that counts of all that are seen.** -/
theorem Enumerates.sought {agenda : Agenda} {y : Answers Solution} (target : Option Int)
    (h : Enumerates env active agenda s y) :
    ((seek env active target agenda).outcome s).map (Option.map Prod.fst) =
      (y.filter fun u => accepts target u.stop).first := by
  induction h with
  | done h =>
    rw [seek_passing, Run.outcome_congr (Run.bind_ok h)]
    rfl
  | failed h =>
    rw [seek_passing, Run.outcome_error (Run.bind_error h)]
    rfl
  | @found agenda rest s s' t later h _ ih =>
    rw [seek_passing, Run.outcome_congr (Run.bind_ok h), passing]
    show _ = ((Answers.only (accepts target t.stop) t) ++ _).first
    by_cases accepted : accepts target t.stop = true
    · rw [if_pos accepted, Answers.only, if_pos accepted]
      rfl
    · rw [if_neg accepted, Answers.only, if_neg accepted]
      exact ih

/-- What is seen of an agenda is seen of one that the search comes to from it. -/
theorem Enumerates.of_seek {agenda agenda' : Agenda} {s s' : State} {y : Answers Solution}
    (same : seek env active none agenda s = seek env active none agenda' s')
    (h : Enumerates env active agenda' s' y) : Enumerates env active agenda s y := by
  cases h with
  | done h => exact .done (same.trans h)
  | failed h => exact .failed (same.trans h)
  | found h later => exact .found (same.trans h) later

/-- Every agenda has its solutions, up to the end or up to a failure. -/
theorem Enumerates.total (agenda : Agenda) (s : State) :
    ∃ y, Enumerates env active agenda s y := by
  -- the agenda that is left after a solution is smaller, as is the one after a step
  refine (WellFoundedRelation.wf (α := Job env.bounds)).induction
    (C := fun job => ∀ s, ∃ y, Enumerates env active job.agenda s y) ⟨agenda⟩ ?_ s
  intro ⟨agenda⟩ smaller s
  match agenda with
  | [] => exact ⟨.done, .done (by rw [seek.eq_1]; rfl)⟩
  | ⟨[], pos, captured⟩ :: rest =>
    obtain ⟨y, h⟩ := smaller ⟨rest⟩ (Shrinks.replace [] (List.forall_mem_nil _)) s
    exact ⟨.found ⟨pos, captured⟩ y, .found (by rw [seek.eq_2]; rfl) h⟩
  | ⟨g :: goals, pos, captured⟩ :: rest =>
    cases worked : expand env active pos captured g (solver env) s with
    | error f s' => exact ⟨.failed f, .failed (by rw [seek_goal]; exact Run.bind_error worked)⟩
    | ok ways s' =>
      have below : ∀ th ∈ ways.map (Branch.thread goals),
          Thread.Below env.bounds th ⟨g :: goals, pos, captured⟩ := by
        intro th hth
        obtain ⟨way, _, rfl⟩ := List.mem_map.mp hth
        exact Shrinks.replace way.goals way.below
      obtain ⟨y, h⟩ := smaller ⟨ways.map (Branch.thread goals) ++ rest⟩ (Shrinks.replace _ below) s'
      exact ⟨y, h.of_seek (by rw [seek_goal]; exact Run.bind_ok worked)⟩

theorem firstOf_outcome (target : Option Int) (th : Thread) :
    (firstOf env active target th).outcome s =
      ((seek env active target [th]).outcome s).map (Option.map Prod.fst) :=
  Run.outcome_map fun _ _ => rfl

end Solutions

/-! ## 3. The end of the text as an anchor -/

/-- The end of the text has to follow. -/
def Thread.closed (depth : Nat) (th : Thread) : Thread :=
  { th with goals := th.goals ++ [.part (.anchor .endOfString) depth] }

/-- A search one level deeper, that may run out of room. -/
abbrev beneath (env : Env) : Correspondence :=
  agreeing env.settings.memoize 0 1 (· = .stackExhausted)

section Anchored

variable {env : Env} (unlimited : env.settings.maxDepth = none) {active : Active} {s s' : State}
  {pos : Int} {captured : Captured} {depth : Nat}

include unlimited

/-- Entering a part is always allowed. -/
theorem Run.enter_unlimited (depth : Nat) (pos : Int) :
    Run.enter env depth pos s = .ok () (s.entered depth pos) := by
  rw [Run.enter_eq, unlimited]

/-- A part for which there is room is entered and then matched. -/
theorem expand_entered (room : depth ≤ env.bounds.room) (p : Pattern) (solve) :
    expand env active pos captured (.part p depth) solve s =
      expandPart env active depth room pos captured solve p (s.entered depth pos) :=
  (Run.bind_ok (Run.enter_unlimited unlimited depth pos)).trans (congrFun (dif_pos room) _)

/-- A part for which there is no room is not matched. -/
theorem expand_full (full : ¬depth ≤ env.bounds.room) (p : Pattern) (solve) :
    expand env active pos captured (.part p depth) solve s =
      .error .stackExhausted (s.entered depth pos) :=
  (Run.bind_ok (Run.enter_unlimited unlimited depth pos)).trans (congrFun (dif_neg full) _)

theorem seek_full (full : ¬depth ≤ env.bounds.room) {target : Option Int} {p : Pattern}
    {goals : List Goal} (rest : Agenda) :
    seek env active target (⟨.part p depth :: goals, pos, captured⟩ :: rest) s =
      .error .stackExhausted (s.entered depth pos) := by
  rw [seek_goal]
  exact Run.bind_error (expand_full unlimited full p _)

/-- Where only the end of the text is left to come, a solution is found or passed over. -/
theorem seek_end (room : depth ≤ env.bounds.room) (rest : Agenda) :
    seek env active none (⟨[.part (.anchor .endOfString) depth], pos, captured⟩ :: rest) s =
      if accepts (some env.text.stop) pos then
        .ok (some (⟨pos, captured⟩, rest)) (s.entered depth pos)
      else seek env active none rest (s.entered depth pos) := by
  by_cases accepted : accepts (some env.text.stop) pos = true
  · have holds (solve) : expand env active pos captured (.part (.anchor .endOfString) depth) solve
        s = .ok [.done pos captured] (s.entered depth pos) := by
      refine (expand_entered unlimited room _ solve).trans ?_
      show EStateM.Result.ok (wayIf env (accepts (some env.text.stop) pos) pos captured) _ = _
      rw [accepted]
      rfl
    have next : seek env active none
        (⟨[.part (.anchor .endOfString) depth], pos, captured⟩ :: rest) s =
          seek env active none (⟨[], pos, captured⟩ :: rest) (s.entered depth pos) :=
      seek_step holds rfl
    rw [if_pos accepted, next, seek.eq_2]
    rfl
  · have fails (solve) : expand env active pos captured (.part (.anchor .endOfString) depth) solve
        s = .ok [] (s.entered depth pos) := by
      refine (expand_entered unlimited room _ solve).trans ?_
      show EStateM.Result.ok (wayIf env (accepts (some env.text.stop) pos) pos captured) _ = _
      rw [Bool.eq_false_iff.mpr accepted]
      rfl
    rw [if_neg accepted]
    exact seek_step fails rfl

/-- **A search that passes over solutions that end elsewhere goes in step with one in which the end
    of the text has to follow**, one level deeper, unless that runs out of room. -/
theorem seek_closed (depth : Nat) {start : Moment} {target : Option Int}
    (atEnd : target = some env.text.stop) {agenda agenda' : Agenda}
    (reached : Reaches env start ⟨active, target, agenda, s⟩)
    (h : List.Forall₂ (beneath env).thread agenda agenda')
    (same : s.Agrees env.settings.memoize 0 s') :
    (beneath env).Pace (Option.Rel fun r r' => (beneath env).solution r.1 r'.1)
      (seek env active target agenda s)
      (seek env active none (agenda'.map (Thread.closed depth)) s') := by
  have lockstep := agreeing_lockstep env start 0 1 (· = .stackExhausted) (.inl unlimited)
    fun _ => rfl
  induction active, target, agenda using seek.induct env generalizing agenda' s s' with
  | case1 active target =>
    cases h
    rw [seek.eq_1, List.map_nil, seek.eq_1]
    exact Correspondence.pace_pure .none same
  | case2 active target pos captured rest accepted =>
    obtain ⟨⟨_, pos', captured'⟩, rest', ⟨goals, alike, caps⟩, hrest, rfl⟩ :=
      List.forall₂_cons_left_iff.mp h
    cases goals
    subst alike atEnd
    rw [seek.eq_2, if_pos accepted]
    by_cases room : depth ≤ env.bounds.room
    · refine Correspondence.pace_congr_right (seek_end unlimited room _) ?_
      rw [if_pos accepted]
      exact .ok (.some ⟨rfl, caps⟩) (same.trans (s'.agrees_entered _ _))
    · exact Correspondence.pace_congr_right (seek_full unlimited room _) (.stopped rfl)
  | case3 active target pos captured rest passed ih =>
    obtain ⟨⟨_, pos', captured'⟩, rest', ⟨goals, alike, caps⟩, hrest, rfl⟩ :=
      List.forall₂_cons_left_iff.mp h
    cases goals
    subst alike atEnd
    rw [seek.eq_2, if_neg passed]
    by_cases room : depth ≤ env.bounds.room
    · refine Correspondence.pace_congr_right (seek_end unlimited room _) ?_
      rw [if_neg passed]
      exact ih rfl (reached.tail (.passed passed)) hrest (same.trans (s'.agrees_entered _ _))
    · exact Correspondence.pace_congr_right (seek_full unlimited room _) (.stopped rfl)
  | case4 active target g goals pos captured rest ihSolve ihWays =>
    obtain ⟨⟨_, pos', captured'⟩, rest', ⟨all, alike, caps⟩, hrest, rfl⟩ :=
      List.forall₂_cons_left_iff.mp h
    obtain ⟨g', goals', hg, hgoals, rfl⟩ := List.forall₂_cons_left_iff.mp all
    subst alike
    show (beneath env).Pace _ _
      (seek env active none (⟨g' :: (goals' ++ [_]), pos, captured'⟩ :: rest'.map _) s')
    rw [seek_goal, seek_goal]
    refine Correspondence.pace_bind (lockstep.expand (lockstep.inner _) reached hg caps same)
      fun ways ways' t t' hways later worked => ?_
    have next : ways'.map (Branch.thread (goals' ++ [.part (.anchor .endOfString) depth])) ++
        rest'.map (Thread.closed depth) =
          (ways'.map (Branch.thread goals') ++ rest').map (Thread.closed depth) := by
      rw [List.map_append, List.map_map]
      refine congrArg (· ++ _) (List.map_congr_left fun way _ => ?_)
      simp only [Function.comp, Thread.closed, Branch.thread, List.append_assoc]
    rw [next]
    refine ihWays ways atEnd (reached.tail (.worked worked)) (List.rel_append ?_ hrest) later
    rw [List.forall₂_map_left_iff, List.forall₂_map_right_iff]
    exact hways.imp fun w w' hw => Correspondence.thread_way hw hgoals

/-- **The end of the text may as well be an anchor after the pattern**, unless that runs out of
    room one level deeper. -/
theorem firstOf_whole (p : Pattern) :
    let whole := firstOf env [] none ⟨[.part (.sequence [p, .anchor .endOfString]) 1], pos, []⟩
    whole.outcome s = .error .stackExhausted ∨ whole.outcome s =
      (firstOf env [] (some env.text.stop) ⟨[.part p 1], pos, []⟩).outcome s := by
  intro whole
  by_cases room : 1 ≤ env.bounds.room
  · have parts (solve) : expand env [] pos []
        (.part (.sequence [p, .anchor .endOfString]) 1) solve s = .ok _ (s.entered 1 pos) :=
      (expand_entered unlimited room _ solve).trans rfl
    have next : seek env [] none [⟨[.part (.sequence [p, .anchor .endOfString]) 1], pos, []⟩] s =
        seek env [] none ([⟨[.part p 2], pos, []⟩].map (Thread.closed 2)) (s.entered 1 pos) :=
      seek_step parts rfl
    have deeper : (beneath env).thread ⟨[.part p 1], pos, []⟩ ⟨[.part p 2], pos, []⟩ :=
      ⟨.cons (.part trivial) .nil, rfl, .nil⟩
    let start : Moment := ⟨[], some env.text.stop, [⟨[.part p 1], pos, []⟩], s⟩
    have reached : Reaches env start start := .refl
    have closed := seek_closed unlimited 2 rfl reached (.cons deeper .nil) (s.agrees_entered 1 pos)
    rw [← next] at closed
    have first : (beneath env).Pace Eq
        (firstOf env [] (some env.text.stop) ⟨[.part p 1], pos, []⟩ s) (whole s) := by
      refine Correspondence.pace_bind closed fun found found' _ _ h later _ =>
        Correspondence.pace_pure ?_ later
      cases h with
      | none => rfl
      | some h => exact congrArg some (Correspondence.solution_eq rfl h)
    rcases first.outcome with ⟨f, rfl, exhausted⟩ | same
    · exact .inl exhausted
    · exact .inr same.symm
  · left
    exact Run.outcome_error (Run.bind_error (seek_full unlimited room []))

end Anchored

end Match

end GrammarMatch
