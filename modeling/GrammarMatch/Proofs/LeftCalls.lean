/-
  File:      GrammarMatch/Proofs/LeftCalls.lean
  Subject:   Branches of an atomic rule that begin with the rule itself.

  An atomic rule does not match where it is being matched already. So a branch of it that begins
  with a call of the rule is refused whenever it is tried, and the first solution of the rule is
  that of the other branches (`choose_pruned`). Without these branches a registry matches as it did
  with them (`pruning_harmless`): what is captured is the same but for the keys that the rule itself
  binds, of which there may be fewer, and as a refused branch is nested two levels deeper than the
  rule, the stack may be exhausted two levels later.
-/
import GrammarMatch.Proofs.Anchored
import GrammarMatch.Proofs.Awaiting
import GrammarMatch.Proofs.Parallel
import GrammarMatch.Proofs.Termination

namespace GrammarMatch

/-! ## 1. Rules without such branches -/

/-- The pattern begins with a call of a rule: it is one, or a sequence of which the first part is
    one. -/
def Pattern.beginsWith (name : String) : Pattern → Bool
  | .ruleRef r => r.name == name
  | .sequence (.ruleRef r :: _) => r.name == name
  | _ => false

/-- The rule without the branches that begin with a call of the rule itself. -/
def Rule.pruned (rule : Rule) : Rule :=
  match rule.pattern with
  | .alternation mode branches =>
    { rule with pattern := .alternation mode (branches.filter (!·.beginsWith rule.name)) }
  | _ => rule

/-- The registry with a rule that does not begin with itself. -/
def Registry.pruned (r : Registry) (rule : Rule) : Registry :=
  r.put rule.name (.compiled rule.pruned)

mutual

/-- The capture, with nothing said of the keys that bind a list in captures of a rule. -/
def Capture.unkeyed (name : String) : Capture → Capture
  | .node label inside =>
    .node (if label.rule = some name then { label with plural := [] } else label)
      (unkeyedAll name inside)

/-- The captures of a scope, with nothing said of the keys that bind a list in captures of a
    rule. -/
def Capture.unkeyedAll (name : String) : List (CaptureKey × Capture) → List (CaptureKey × Capture)
  | [] => []
  | (key, c) :: rest => (key, c.unkeyed name) :: unkeyedAll name rest

end

/-- What was found, with nothing said of the keys that bind a list in captures of a rule. -/
def Match.Found.unkeyed (name : String) (u : Found) : Found := ⟨u.stop, u.capture.unkeyed name⟩

theorem Capture.unkeyedAll_eq (name : String) (captured : List (CaptureKey × Capture)) :
    unkeyedAll name captured = captured.map fun e => (e.1, e.2.unkeyed name) := by
  induction captured with
  | nil => rfl
  | cons e captured ih => exact congrArg (_ :: ·) ih

namespace Match

/-- Going on in the same way after what comes to the same. -/
theorem Run.bind_alike {α β : Type} {x y : Run α} {k : α → Run β} {s s' : State}
    (h : x s = y s') : (x >>= k) s = (y >>= k) s' := by
  simp only [bind, EStateM.bind]
  rw [h]

/-! ## 2. Threads one after the other -/

/-- The threads in front come first, and what is left of them then. -/
theorem seek_append (env : Env) (active : Active) (target : Option Int) (agenda rest : Agenda) :
    seek env active target (agenda ++ rest) = (do
      match ← seek env active target agenda with
      | none => seek env active target rest
      | some (u, left) => return some (u, left ++ rest)) := by
  induction active, target, agenda using seek.induct env with
  | case1 active target =>
    rw [seek.eq_1, List.nil_append, pure_bind]
  | case2 active target pos captured later accepted =>
    rw [List.cons_append, seek.eq_2, seek.eq_2, if_pos accepted, if_pos accepted, pure_bind]
  | case3 active target pos captured later passed ih =>
    rw [List.cons_append, seek.eq_2, seek.eq_2, if_neg passed, if_neg passed]
    exact ih
  | case4 active target g goals pos captured later _ ih =>
    rw [List.cons_append, seek_goal, seek_goal, bind_assoc]
    refine congrArg _ (funext fun ways => ?_)
    rw [← List.append_assoc]
    exact ih ways

/-- The first solution of threads that are tried one after the other. -/
theorem first_cons (env : Env) (active : Active) (target : Option Int) (th : Thread)
    (rest : Agenda) :
    (do return (← seek env active target (th :: rest)).map Prod.fst) = (do
      match ← firstOf env active target th with
      | none => return (← seek env active target rest).map Prod.fst
      | some u => return some u) := by
  have split := seek_append env active target [th] rest
  rw [List.singleton_append] at split
  rw [split]
  unfold firstOf
  rw [bind_assoc, bind_assoc]
  refine congrArg _ (funext fun found => ?_)
  cases found with
  | none => rfl
  | some r => rfl

/-! ## 3. Alternations as choices -/

section Choice

variable (env : Env) (active : Active) (pos : Int) (depth : Nat)

/-- The first solution of a branch. -/
abbrev branch (p : Pattern) : Run (Option Solution) :=
  firstOf env active none ⟨[.part p (depth + 1)], pos, []⟩

/-- The first solution of an alternation, branch by branch. -/
def choose : ChoiceMode → List Pattern → Run (Option Solution)
  | .ordered, branches =>
    branches.foldr (fun p later => do
      match ← branch env active pos depth p with
      | none => later
      | some u => return some u) (pure none)
  | .longest, branches => do
    return (longestFirst (← branches.mapM (branch env active pos depth))).head?

theorem choose_ordered (branches : List Pattern) :
    choose env active pos depth .ordered branches = (do
      return (← seek env active none
        (branches.map fun p => ⟨[.part p (depth + 1)], pos, []⟩)).map Prod.fst) := by
  induction branches with
  | nil =>
    rw [List.map_nil, seek.eq_1]
    rfl
  | cons p branches ih =>
    rw [List.map_cons, first_cons]
    show (branch env active pos depth p >>= _) = _
    refine congrArg _ (funext fun found => ?_)
    cases found with
    | none => exact ih
    | some u => rfl

/-- The first of the solutions that are left. -/
theorem seek_done {b : Bounds} {m : Nat × Nat} (found : List Solution) :
    (do return (← seek env active none
        ((found.map fun u => (.done u.stop u.captured : Branch b m)).map (Branch.thread []) ++
          [])).map Prod.fst) = (pure found.head? : Run (Option Solution)) := by
  cases found with
  | nil =>
    rw [List.map_nil, List.map_nil, List.append_nil, seek.eq_1]
    rfl
  | cons u found =>
    rw [List.map_cons, List.map_cons, List.cons_append]
    have first := seek.eq_2 env active none u.stop u.captured
      ((found.map fun u => (.done u.stop u.captured : Branch b m)).map (Branch.thread []) ++ [])
    exact (congrArg (· >>= _) first).trans rfl

variable {env active pos depth}

/-- An alternation has the first solution for which one of its branches is chosen. -/
theorem first_alternation (unlimited : env.settings.maxDepth = none)
    (room : depth ≤ env.bounds.room) (mode : ChoiceMode)
    (branches : List Pattern) (s : State) :
    firstOf env active none ⟨[.part (.alternation mode branches) depth], pos, []⟩ s =
      choose env active pos depth mode branches (s.entered depth pos) := by
  have step : firstOf env active none ⟨[.part (.alternation mode branches) depth], pos, []⟩ s =
      (expandPart env active depth room pos [] (solver env) (.alternation mode branches) >>=
        fun ways => do
          return (← seek env active none (ways.map (Branch.thread []) ++ [])).map Prod.fst)
        (s.entered depth pos) := by
    unfold firstOf
    rw [seek_goal, bind_assoc]
    exact Run.bind_alike (expand_entered unlimited room _ _)
  rw [step]
  cases mode with
  | ordered =>
    rw [choose_ordered]
    simp only [expandPart, pure_bind]
    rw [List.map_map, List.append_nil]
    rfl
  | longest =>
    unfold choose
    simp only [expandPart, bind_assoc, pure_bind]
    refine congrFun (congrArg _ (funext fun found => ?_)) _
    exact seek_done env active _

end Choice

/-! ## 4. Refused calls -/

/-- The states of two searches of which the second also tries what is refused: it calls rules some
    times more often. Nothing is kept of the call that is refused. -/
structure Spares (memoize : Bool) (x : Lexicon) (call : String × Int) (s s' : State) : Prop where
  agrees : ∃ more, s.Agrees memoize more s'
  awaits : s'.Awaits memoize x call

section Refused

variable {env : Env} {x : Lexicon} {active : Active} {rule : Rule} {pos : Int}

theorem Spares.trans {memoize : Bool} {call : String × Int} {s s' s'' : State}
    (h : Spares memoize x call s s') (h' : Spares memoize x call s' s'') :
    Spares memoize x call s s'' := by
  obtain ⟨more, agrees⟩ := h.agrees
  obtain ⟨more', agrees'⟩ := h'.agrees
  exact ⟨⟨more + more', agrees.trans agrees'⟩, h'.awaits⟩

/-- Entering a part keeps nothing. -/
theorem spares_entered {memoize : Bool} {call : String × Int} {s : State}
    (awaits : s.Awaits memoize x call) (depth : Nat) (pos : Int) :
    Spares memoize x call s (s.entered depth pos) := by
  refine ⟨⟨0, s.agrees_entered depth pos⟩, ?_⟩
  unfold State.entered
  split
  · exact awaits
  · exact awaits

variable (mem : (rule.name, pos) ∈ active)

include mem

/-- A rule that is being matched at the position does not match there. -/
theorem verdict_refused {s : State} (awaits : s.Awaits env.settings.memoize x (rule.name, pos))
    {depth : Nat} (room : depth ≤ env.bounds.room) (solve) :
    verdict env active depth room pos solve rule s =
      .ok none { s with trace := .reentered rule.name pos :: s.trace } := by
  have missed : Run.remembered env rule.name pos s = .ok none s := by
    by_cases on : env.settings.memoize = true
    · exact Run.remembered_none on (awaits.free on)
    · unfold Run.remembered
      rw [if_neg on]
      rfl
  unfold verdict
  refine (Run.bind_ok missed).trans ?_
  simp only [if_pos (List.contains_iff_mem.mpr mem)]
  exact (Run.bind_ok rfl).trans rfl

variable (known : x.rules rule.name = .ok rule) (atomic : rule.kind.atomic = true)

include known atomic

/-- The search goes on after a call that is refused. -/
theorem seek_refused_call {s : State} (awaits : s.Awaits env.settings.memoize x (rule.name, pos))
    {depth : Nat} (room : depth ≤ env.bounds.room) (key : Option CaptureKey) (goals : List Goal)
    (captured : Captured) (rest : Agenda) :
    ∃ s', Spares env.settings.memoize x (rule.name, pos) s s' ∧
      seek env active none (⟨.call rule.name key depth :: goals, pos, captured⟩ :: rest) s =
        seek env active none rest s' := by
  have answer := Run.lookup_spec (s := s) rule.name
  have uncounted := Run.lookup_uncounted (s := s) rule.name
  cases looked : Run.lookup rule.name s with
  | error f s₁ =>
    have failed := (answer.error looked).2
    rw [awaits.1, known] at failed
    cases failed
  | ok rule' s₁ =>
    obtain ⟨steady, found⟩ := answer.ok looked
    rw [awaits.1, known] at found
    cases found
    have counted : s₁.ruleCalls = s.ruleCalls := uncounted.ok looked
    have later : s₁.Awaits env.settings.memoize x (rule.name, pos) := keeping_steady steady awaits
    let s₂ : State := { s₁ with ruleCalls := s₁.ruleCalls + 1 }
    refine ⟨{ s₂ with trace := .reentered rule.name pos :: s₂.trace }, ⟨⟨1, ?_⟩, later⟩, ?_⟩
    · exact ⟨steady.lexicon, fun _ => steady.memo, congrArg (· + 1) counted⟩
    · exact seek_unmatched room looked atomic (verdict_refused mem (s := s₂) later room _)

variable (unlimited : env.settings.maxDepth = none)

include unlimited

/-- A thread that begins with a reference to the rule comes to nothing, unless there is no room for
    the reference. -/
theorem seek_refused_ref {s : State} (awaits : s.Awaits env.settings.memoize x (rule.name, pos))
    {r : Reference} (refers : r.name = rule.name) (depth : Nat) (goals : List Goal)
    (captured : Captured) :
    (∃ s', Spares env.settings.memoize x (rule.name, pos) s s' ∧
      seek env active none [⟨.part (.ruleRef r) depth :: goals, pos, captured⟩] s = .ok none s') ∨
    ∃ s', seek env active none [⟨.part (.ruleRef r) depth :: goals, pos, captured⟩] s =
      .error .stackExhausted s' ∧ ¬depth ≤ env.settings.room := by
  by_cases room : depth ≤ env.bounds.room
  · have entered := spares_entered awaits depth pos
    have step : seek env active none [⟨.part (.ruleRef r) depth :: goals, pos, captured⟩] s =
        seek env active none [⟨.call rule.name r.key? depth :: goals, pos, captured⟩]
          (s.entered depth pos) := by
      rw [← refers]
      exact seek_step (fun solve => expand_entered unlimited room (.ruleRef r) solve) rfl
    obtain ⟨s', spares, next⟩ :=
      seek_refused_call mem known atomic entered.awaits room r.key? goals captured []
    refine .inl ⟨s', entered.trans spares, step.trans (next.trans ?_)⟩
    rw [seek.eq_1]
    rfl
  · exact .inr ⟨_, seek_full unlimited room [], room⟩

/-- A branch that begins with the rule comes to nothing, unless there is no room for it. -/
theorem branch_refused {s : State} (awaits : s.Awaits env.settings.memoize x (rule.name, pos))
    {depth : Nat} {p : Pattern} (begins : p.beginsWith rule.name = true) :
    (∃ s', Spares env.settings.memoize x (rule.name, pos) s s' ∧
      branch env active pos depth p s = .ok none s') ∨
    ∃ s', branch env active pos depth p s = .error .stackExhausted s' ∧
      ¬depth + 2 ≤ env.settings.room := by
  unfold branch firstOf
  cases p with
  | ruleRef r =>
    rcases seek_refused_ref mem known atomic unlimited awaits (beq_iff_eq.mp begins) (depth + 1) []
      [] with ⟨s', spares, sought⟩ | ⟨s', sought, full⟩
    · exact .inl ⟨s', spares, (Run.bind_ok sought).trans rfl⟩
    · exact .inr ⟨s', Run.bind_error sought, by omega⟩
  | sequence parts =>
    cases parts with
    | nil => cases begins
    | cons first parts =>
      cases first with
      | ruleRef r =>
        by_cases room : depth + 1 ≤ env.bounds.room
        · have entered := spares_entered awaits (depth + 1) pos
          have step : seek env active none
              [⟨[.part (.sequence (.ruleRef r :: parts)) (depth + 1)], pos, []⟩] s =
              seek env active none [⟨.part (.ruleRef r) (depth + 2) ::
                (parts.map (Goal.part · (depth + 2)) ++ []), pos, []⟩]
                (s.entered (depth + 1) pos) :=
            seek_step (fun solve => expand_entered unlimited room _ solve) rfl
          rcases seek_refused_ref mem known atomic unlimited entered.awaits
            (beq_iff_eq.mp begins) (depth + 2) (parts.map (Goal.part · (depth + 2)) ++ []) []
            with ⟨s', spares, sought⟩ | ⟨s', sought, full⟩
          · exact .inl ⟨s', entered.trans spares, (Run.bind_ok (step.trans sought)).trans rfl⟩
          · exact .inr ⟨s', Run.bind_error (step.trans sought), full⟩
        · exact .inr ⟨_, Run.bind_error (seek_full unlimited room []), by
            have : ¬depth + 1 ≤ env.settings.room := room
            omega⟩
      | _ => cases begins
  | _ => cases begins

end Refused

/-! ## 5. Choices without refused branches -/

/-- A search that tries what is refused as well, and may be given up if there may be no room for
    it. -/
def sparing (memoize : Bool) (x : Lexicon) (call : String × Int) (full : Prop) : Correspondence where
  same := Spares memoize x call
  captures := Eq
  stops f := f = .stackExhausted ∧ full
  part _ := True
  level _ := True

section Pruned

variable {env : Env} {x : Lexicon} {active : Active} {rule : Rule} {pos : Int} {depth : Nat}
  {full : Prop} {s s' : State}

/-- Where nothing is refused both searches come to the same. -/
theorem branch_spared {call : String × Int} (mem : call ∈ active)
    (same : Spares env.settings.memoize x call s s') (p : Pattern) :
    (sparing env.settings.memoize x call full).Pace Eq (branch env active pos depth p s)
      (branch env active pos depth p s') := by
  obtain ⟨more, agrees⟩ := same.agrees
  let start : Thread := ⟨[.part p (depth + 1)], pos, []⟩
  have lockstep := agreeing_lockstep env ⟨active, none, [start], s⟩ more 0 (fun _ => False)
    (.inr rfl) fun deeper => absurd rfl deeper
  have threads : List.Forall₂ (agreeing env.settings.memoize more 0 fun _ => False).thread [start]
      [start] := .cons ⟨.cons (.part trivial) .nil, rfl, .nil⟩ .nil
  have search : (agreeing env.settings.memoize more 0 fun _ => False).Pace
      (Option.Rel (agreeing env.settings.memoize more 0 fun _ => False).solution)
      (branch env active pos depth p s) (branch env active pos depth p s') :=
    Lockstep.pace_firstOf (lockstep.seek .refl threads agrees)
  have awaits : Patient env.settings.memoize x call (firstOf env active none start) :=
    seek_awaits mem none start
  unfold branch at search ⊢
  generalize firstOf env active none start s = r at search ⊢
  generalize hr' : firstOf env active none start s' = r' at search ⊢
  cases search with
  | stopped stops => exact stops.elim
  | ok h later =>
    refine .ok ?_ ⟨⟨more, later⟩, (awaits s' same.awaits).ok hr' |>.1⟩
    cases h with
    | none => rfl
    | some h => exact congrArg some (Correspondence.solution_eq rfl h)
  | failed later => exact .failed ⟨⟨more, later⟩, (awaits s' same.awaits).error hr' |>.1⟩

variable (mem : (rule.name, pos) ∈ active) (known : x.rules rule.name = .ok rule)
  (atomic : rule.kind.atomic = true) (unlimited : env.settings.maxDepth = none)

include mem known atomic unlimited

/-- After a branch that is refused both searches go on alike. -/
theorem refused_spared {α α' : Type} {A : α → α' → Prop} {p : Pattern}
    (begins : p.beginsWith rule.name = true)
    (same : Spares env.settings.memoize x (rule.name, pos) s s') {r : Run α}
    {k : Option Solution → Run α'}
    (next : ∀ t, Spares env.settings.memoize x (rule.name, pos) s t →
      (sparing env.settings.memoize x (rule.name, pos) (¬depth + 2 ≤ env.settings.room)).Pace A
        (r s) (k none t)) :
    (sparing env.settings.memoize x (rule.name, pos) (¬depth + 2 ≤ env.settings.room)).Pace A
      (r s) ((branch env active pos depth p >>= k) s') := by
  rcases branch_refused mem known atomic unlimited same.awaits begins with
    ⟨t, spares, refused⟩ | ⟨t, refused, full⟩
  · rw [Run.bind_ok refused]
    exact next t (same.trans spares)
  · rw [Run.bind_error refused]
    exact .stopped ⟨rfl, full⟩

theorem ordered_pruned (same : Spares env.settings.memoize x (rule.name, pos) s s')
    (branches : List Pattern) :
    (sparing env.settings.memoize x (rule.name, pos) (¬depth + 2 ≤ env.settings.room)).Pace Eq
      (choose env active pos depth .ordered (branches.filter (!·.beginsWith rule.name)) s)
      (choose env active pos depth .ordered branches s') := by
  induction branches generalizing s s' with
  | nil => exact Correspondence.pace_pure rfl same
  | cons p branches ih =>
    by_cases begins : p.beginsWith rule.name = true
    · rw [List.filter_cons_of_neg (by simpa using begins)]
      exact refused_spared mem known atomic unlimited begins same fun t spares => ih spares
    · rw [List.filter_cons_of_pos (by simpa using begins)]
      refine Correspondence.pace_bind (branch_spared mem same p)
        fun found _ t t' alike later _ => ?_
      subst alike
      cases found with
      | none => exact ih later
      | some u => exact Correspondence.pace_pure rfl later

theorem longest_pruned (same : Spares env.settings.memoize x (rule.name, pos) s s')
    (branches : List Pattern) :
    (sparing env.settings.memoize x (rule.name, pos) (¬depth + 2 ≤ env.settings.room)).Pace
      (fun found found' => found.filterMap id = found'.filterMap id)
      ((branches.filter (!·.beginsWith rule.name)).mapM (branch env active pos depth) s)
      (branches.mapM (branch env active pos depth) s') := by
  induction branches generalizing s s' with
  | nil =>
    rw [List.filter_nil, List.mapM_nil]
    exact Correspondence.pace_pure rfl same
  | cons p branches ih =>
    rw [List.mapM_cons]
    by_cases begins : p.beginsWith rule.name = true
    · rw [List.filter_cons_of_neg (by simpa using begins)]
      refine refused_spared mem known atomic unlimited begins same fun t spares => ?_
      rw [← bind_pure (List.mapM _ _)]
      exact Correspondence.pace_bind (ih spares) fun found found' _ _ alike later _ =>
        Correspondence.pace_pure alike later
    · rw [List.filter_cons_of_pos (by simpa using begins), List.mapM_cons]
      refine Correspondence.pace_bind (branch_spared mem same p)
        fun found _ t t' alike later _ => ?_
      subst alike
      refine Correspondence.pace_bind (ih later) fun others others' _ _ alike later _ =>
        Correspondence.pace_pure ?_ later
      rw [List.filterMap_cons, List.filterMap_cons, alike]

/-- **Branches that are refused make no difference to the first solution of an alternation**, if
    there is room for them. -/
theorem choose_pruned (same : Spares env.settings.memoize x (rule.name, pos) s s')
    (mode : ChoiceMode) (branches : List Pattern) :
    (sparing env.settings.memoize x (rule.name, pos) (¬depth + 2 ≤ env.settings.room)).Pace Eq
      (choose env active pos depth mode (branches.filter (!·.beginsWith rule.name)) s)
      (choose env active pos depth mode branches s') := by
  cases mode with
  | ordered => exact ordered_pruned mem known atomic unlimited same branches
  | longest =>
    refine Correspondence.pace_bind (longest_pruned mem known atomic unlimited same branches)
      fun found found' _ _ alike later _ => Correspondence.pace_pure ?_ later
    unfold longestFirst
    rw [alike]

end Pruned

/-! ## 6. Two registries -/

theorem pruned_eq {rule : Rule} {mode : ChoiceMode} {branches : List Pattern}
    (shape : rule.pattern = .alternation mode branches) :
    rule.pruned =
      { rule with pattern := .alternation mode (branches.filter (!·.beginsWith rule.name)) } := by
  unfold Rule.pruned
  rw [shape]

/-- The first solution of the body of a rule that is being matched, without refused branches and
    with them. -/
theorem first_pruned {env : Env} {x : Lexicon} {active : Active} {rule : Rule} {pos : Int} {s : State}
    (mem : (rule.name, pos) ∈ active) (known : x.rules rule.name = .ok rule)
    (atomic : rule.kind.atomic = true) {mode : ChoiceMode} {branches : List Pattern}
    (shape : rule.pattern = .alternation mode branches) (unlimited : env.settings.maxDepth = none)
    (awaits : s.Awaits env.settings.memoize x (rule.name, pos)) (depth : Nat) :
    (sparing env.settings.memoize x (rule.name, pos) (¬depth + 2 ≤ env.settings.room)).Pace Eq
      (firstOf env active none ⟨[.part rule.pruned.pattern depth], pos, []⟩ s)
      (firstOf env active none ⟨[.part rule.pattern depth], pos, []⟩ s) := by
  have entered := (spares_entered awaits depth pos).awaits
  have same : Spares env.settings.memoize x (rule.name, pos) (s.entered depth pos)
      (s.entered depth pos) := ⟨⟨0, rfl, fun _ => rfl, rfl⟩, entered⟩
  rw [pruned_eq shape, shape]
  by_cases room : depth ≤ env.bounds.room
  · rw [first_alternation unlimited room, first_alternation unlimited room]
    exact choose_pruned mem known atomic unlimited same mode branches
  · have full (p : Pattern) : firstOf env active none ⟨[.part p depth], pos, []⟩ s =
        .error .stackExhausted (s.entered depth pos) :=
      Run.bind_error (seek_full unlimited room [])
    rw [full, full]
    exact .failed same

/-- A search by a registry and one by the registry without refused branches, which may have less
    room. -/
def pruning (r : Registry) (rule : Rule) (memoize : Bool) (extra : Nat) : Likeness where
  lexicon := .of (some r)
  lexicon' := .of (some (r.pruned rule))
  memoize := memoize
  captures c c' := c'.unkeyed rule.name = c.unkeyed rule.name
  captured cs cs' := Capture.unkeyedAll rule.name cs' = Capture.unkeyedAll rule.name cs
  lost f := f = .stackExhausted ∧ extra = 0
  lost' f := f = .stackExhausted ∧ 0 < extra
  part p p' := p' = p
  rule q q' := q' = q ∨ q = rule ∧ q' = rule.pruned
  call _ := True

section Pruning

variable {r : Registry} {rule : Rule} {memoize : Bool} {extra : Nat}

theorem pruning_place {pos pos' : Int} :
    (pruning r rule memoize extra).place pos pos' ↔ pos' = pos := Likeness.place_still rfl

/-- Captures of one span are alike if what is inside is, but for keys of the rule itself. -/
theorem unkeyed_build {name : String} {key : Option CaptureKey} {start stop : Int}
    {plural plural' : List CaptureKey} {owner : Option String} {captured captured' : Captured}
    (keys : owner = some name ∨ plural' = plural)
    (inside : Capture.unkeyedAll name captured' = Capture.unkeyedAll name captured) :
    (Capture.build key start stop plural' owner captured').unkeyed name =
      (Capture.build key start stop plural owner captured).unkeyed name := by
  have reversed : Capture.unkeyedAll name captured'.reverse =
      Capture.unkeyedAll name captured.reverse := by
    rw [Capture.unkeyedAll_eq, Capture.unkeyedAll_eq] at inside ⊢
    rw [List.map_reverse, List.map_reverse, inside]
  unfold Capture.build Capture.unkeyed
  rw [reversed]
  rcases keys with rfl | rfl
  · rw [if_pos rfl, if_pos rfl]
  · rfl

/-- States stay together if only what is refused was tried as well. -/
theorem pruning_spares {s s' t : State} {call : String × Int}
    (spares : Spares memoize (.of (some r)) call s s')
    (same : (pruning r rule memoize extra).same s t) :
    (pruning r rule memoize extra).same s' t := by
  obtain ⟨more, agrees⟩ := spares.agrees
  refine ⟨agrees.lexicon.trans same.lexicon, same.lexicon', fun on name pos pos' hpos => ?_⟩
  rw [agrees.memo on]
  exact same.kept on name pos pos' hpos

variable (known : r.resolve rule.name = .ok rule)

include known

theorem pruning_answers (name : String) :
    (pruning r rule memoize extra).answers (r.resolve name) ((r.pruned rule).resolve name) := by
  unfold Registry.pruned
  rw [Registry.resolve_put]
  by_cases own : name = rule.name
  · rw [if_pos own, own, known]
    exact .known (.inr ⟨rfl, rfl⟩)
  · rw [if_neg own]
    cases r.resolve name with
    | ok q => exact .known (.inl rfl)
    | error f => exact .unknown f

variable {mode : ChoiceMode} {branches : List Pattern}
  (shape : rule.pattern = .alternation mode branches)

include shape

/-- A rule of which the pattern is an alternation is one of the grammar itself. -/
theorem pruned_defines : (r.pruned rule).defines "ws" = r.defines "ws" := by
  unfold Registry.pruned Registry.defines
  rw [Registry.lookup_put]
  by_cases own : "ws" = rule.name
  · rw [if_pos own]
    unfold Registry.resolve at known
    rw [← own] at known
    cases held : r.entries.lookup "ws" with
    | some e => rfl
    | none =>
      rw [held] at known
      cases known
      cases shape
  · rw [if_neg own]

/-- Every pattern is built like itself. -/
theorem pruning_layer (p : Pattern) : (pruning r rule memoize extra).Layer p p := by
  have parts (l : List Pattern) : List.Forall₂ (fun p p' : Pattern => p' = p) l l :=
    List.forall₂_same.mpr fun _ _ => rfl
  cases p with
  | literal chars ignoreCase => exact .literal chars ignoreCase
  | charClass items negated ignoreCase => exact .charClass items negated ignoreCase
  | sequence l => exact .sequence (parts l)
  | alternation mode l =>
    cases mode with
    | ordered => exact .ordered (parts l)
    | longest => exact .longest l l
  | repetition q body => exact .repetition q rfl
  | group key plural body => exact .group key plural rfl
  | look kind body => exact .look kind rfl fun _ => ⟨rfl, rfl⟩
  | anchor kind => exact .anchor kind rfl
  | ruleRef q => exact .ruleRef trivial
  | whitespace => exact .whitespace rfl (pruned_defines known shape) fun _ => trivial

end Pruning

section Parallel

variable {r : Registry} {rule : Rule} (known : r.resolve rule.name = .ok rule)
  (atomic : rule.kind.atomic = true) {mode : ChoiceMode} {branches : List Pattern}
  (shape : rule.pattern = .alternation mode branches) (text : Text) (memoize : Bool) (room : Nat)
  {extra : Nat} (levels : extra = 0 ∨ extra = 2)

include known atomic shape levels

/-- The body of an atomic rule comes to the same without the branches that are refused. Where there
    is no room for these there is none for the rule two levels higher. -/
theorem pruning_delve :
    Likeness.Delve (pruning r rule memoize extra) ⟨text, {}, ⟨none, memoize, room + extra⟩⟩
      ⟨text, {}, ⟨none, memoize, room⟩⟩ fun _ => True := by
  let env : Env := ⟨text, {}, ⟨none, memoize, room + extra⟩⟩
  let env' : Env := ⟨text, {}, ⟨none, memoize, room⟩⟩
  let L := pruning r rule memoize extra
  intro active target name key depth goals pos pos' captured rest s₀ s s' q q' hq inner reached
    enters room' hpos same
  have called : L.moved ((q.name, pos) :: active) = (q.name, pos') :: L.moved active := by
    rw [hpos.moved]
    rfl
  have search (p : Pattern) : L.Pace (Option.Rel L.solution)
      (firstOf env ((q.name, pos) :: active) none ⟨[.part p (depth + 1)], pos, []⟩ s)
      (firstOf env' ((q.name, pos') :: L.moved active) none ⟨[.part p (depth + 1)], pos', []⟩ s') := by
    rw [← called]
    exact inner _ none ⟨[.part p (depth + 1)], pos, []⟩ ⟨[.part p (depth + 1)], pos', []⟩ s s'
      (List.forall_mem_singleton.mpr (Goal.part_under enters.room p 0))
      ⟨.cons (.part rfl) .nil, hpos, rfl⟩ same trivial
  rcases hq with rfl | ⟨rfl, rfl⟩
  · exact search q'.pattern
  · have mem : (q.name, pos) ∈ (q.name, pos) :: active := List.mem_cons_self
    have first := first_pruned (x := .of (some r)) mem known atomic shape rfl
      (enters_awaits enters same.lexicon) (depth + 1)
    have full : ¬depth + 1 ≤ room → firstOf env' ((q.name, pos') :: L.moved active) none
        ⟨[.part q.pruned.pattern (depth + 1)], pos', []⟩ s' =
          .error .stackExhausted (s'.entered (depth + 1) pos') := fun full =>
      Run.bind_error (seek_full rfl full [])
    have pace := search q.pruned.pattern
    generalize firstOf env ((q.name, pos) :: active) none ⟨[.part q.pruned.pattern (depth + 1)],
      pos, []⟩ s = o at first pace
    generalize firstOf env ((q.name, pos) :: active) none ⟨[.part q.pattern (depth + 1)], pos, []⟩ s =
      o'' at first ⊢
    generalize firstOf env' ((q.name, pos') :: L.moved active) none
      ⟨[.part q.pruned.pattern (depth + 1)], pos', []⟩ s' = o' at full pace ⊢
    cases first with
    | stopped stops =>
      obtain ⟨rfl, beyond⟩ := stops
      rcases levels with none | two
      · exact .lost ⟨rfl, none⟩
      · have beyond : ¬depth + 1 + 2 ≤ room + extra := beyond
        rw [full (by omega)]
        exact .lost' ⟨rfl, by omega⟩
    | ok h later =>
      subst h
      cases pace with
      | lost' h => exact .lost' h
      | ok h same => exact .ok h (pruning_spares later same)
    | failed later =>
      cases pace with
      | lost h => exact .lost h
      | lost' h => exact .lost' h
      | failed h same => exact .failed h (pruning_spares later same)

/-- **The search without the branches that are refused is parallel.** -/
theorem pruning_parallel :
    Parallel ⟨text, {}, ⟨none, memoize, room + extra⟩⟩ ⟨text, {}, ⟨none, memoize, room⟩⟩
      (fun _ => True) (pruning r rule memoize extra) where
  text := ⟨#[], rfl, Array.empty_append.symm⟩
  actions := rfl
  actions' := rfl
  memoize := rfl
  memoize' := rfl
  maxDepth := rfl
  full {depth} full fits := by
    have full : ¬depth ≤ room + extra := full
    have fits : depth ≤ room := fits
    omega
  full' {depth} fits full := by
    have fits : depth ≤ room + extra := fits
    have full : ¬depth ≤ room := full
    exact ⟨rfl, by omega⟩
  leads _ _ := trivial
  nil := rfl
  cons hc ho := congrArg₂ (fun c outer => (_, c) :: outer) hc ho
  single h := (Prod.ext_iff.mp (List.cons.inj h).1).2
  build ho hs h := by
    rw [pruning_place.mp ho, pruning_place.mp hs]
    exact unkeyed_build (.inr rfl) h
  node {q q' opened opened' stop stop' captured captured'} hq ho hs h := by
    rw [pruning_place.mp ho, pruning_place.mp hs]
    rcases hq with rfl | ⟨rfl, rfl⟩
    · exact unkeyed_build (.inr rfl) h
    · unfold node
      rw [pruned_eq shape]
      exact unkeyed_build (.inl rfl) h
  rules {name} _ := pruning_answers known name
  kind hq := by
    rcases hq with rfl | ⟨rfl, rfl⟩
    · exact ⟨rfl, rfl⟩
    · rw [pruned_eq shape]
      exact ⟨rfl, rfl⟩
  layer := by
    rintro _ p rfl
    exact pruning_layer known shape p
  pattern hq open' := by
    rcases hq with rfl | ⟨rfl, _⟩
    · rfl
    · exact absurd atomic open'
  compete := by
    refine Likeness.compete_pairs ?_ fun _ _ _ _ => trivial
    intro l l' alike
    cases alike
    exact List.forall₂_same.mpr fun _ _ => rfl
  delve := pruning_delve known atomic shape text memoize room levels

/-- A rule comes to the same without the branches that are refused, unless one of the searches is
    given up. -/
theorem ask_pruned (start : String) (anchored : Bool) (pos : Int) :
    (pruning r rule memoize extra).outcome (Option.Rel (pruning r rule memoize extra).found)
      ((Matcher.start text (some r) {} ⟨none, memoize, room + extra⟩).ask (.rule start anchored) pos).1
      ((Matcher.start text (some (r.pruned rule)) {} ⟨none, memoize, room⟩).ask
        (.rule start anchored) pos).1 := by
  have parallel := pruning_parallel known atomic shape text memoize room levels
  exact (parallel.query (.rule trivial anchored) trivial (pruning_place.mpr rfl)
    (Likeness.same_start rfl rfl) (sound_start text (some r))
    (sound_start text (some (r.pruned rule)))).advance

end Parallel

/-- The same outcome, with nothing said of the keys of a rule, unless a search is given up. -/
theorem unkeyed_outcome {r : Registry} {rule : Rule} {memoize : Bool} {extra : Nat}
    {o o' : Except Failure (Option Found)}
    (h : (pruning r rule memoize extra).outcome
      (Option.Rel (pruning r rule memoize extra).found) o o') :
    (o = .error .stackExhausted ∧ extra = 0) ∨ (o' = .error .stackExhausted ∧ 0 < extra) ∨
      o'.map (Option.map (Found.unkeyed rule.name)) =
        o.map (Option.map (Found.unkeyed rule.name)) := by
  cases h with
  | lost h =>
    obtain ⟨rfl, none⟩ := h
    exact .inl ⟨rfl, none⟩
  | lost' h =>
    obtain ⟨rfl, some⟩ := h
    exact .inr (.inl ⟨rfl, some⟩)
  | failed h =>
    rcases h with rfl | ⟨rfl, _⟩
    · exact .inr (.inr (congrArg Except.error (Failure.moved_zero _)))
    · exact .inr (.inr rfl)
  | @ok found found' h =>
    cases h with
    | none => exact .inr (.inr rfl)
    | @some u u' h =>
      refine .inr (.inr (congrArg (fun u => Except.ok (some u)) ?_))
      unfold Found.unkeyed
      rw [pruning_place.mp h.stop, h.capture]

end Match

open Match

/-- What a fresh matcher without callbacks answers about a rule, if nesting is limited by the stack
    alone. -/
def Registry.answer (r : Registry) (text : Text) (memoize : Bool) (start : String) (anchored : Bool)
    (pos : Int) (room : Nat) : Except Failure (Option Found) :=
  ((Matcher.start text (some r) {} ⟨none, memoize, room⟩).ask (.rule start anchored) pos).1

/-- An answer, with nothing said of the keys that bind a list in captures of a rule. -/
def unkeyedAnswer (name : String) (o : Except Failure (Option Found)) :
    Except Failure (Option Found) := o.map (Option.map (Found.unkeyed name))

/-- The answers are the same for a stack of any size: the same failure, no match, or a match that
    ends at the same place with the same captures, of which only those of one rule may bind other
    keys. The first may need a stack of two levels more. -/
structure SameButKeys (name : String) (answer answer' : Nat → Except Failure (Option Found)) :
    Prop where
  /-- On the same stack, unless the first exhausts it. -/
  level (room : Nat) : answer room = .error .stackExhausted ∨
    unkeyedAnswer name (answer' room) = unkeyedAnswer name (answer room)
  /-- On a stack of two levels less for the second, unless it exhausts that. -/
  lower (room : Nat) : answer' room = .error .stackExhausted ∨
    unkeyedAnswer name (answer' room) = unkeyedAnswer name (answer (room + 2))
  /-- There is no stack that is enough for one and none that is enough for the other. -/
  endless : (∀ room, answer room = .error .stackExhausted) ↔
    ∀ room, answer' room = .error .stackExhausted

theorem SameButKeys.of {name : String} {answer answer' : Nat → Except Failure (Option Found)}
    (level : ∀ room, answer room = .error .stackExhausted ∨
      unkeyedAnswer name (answer' room) = unkeyedAnswer name (answer room))
    (lower : ∀ room, answer' room = .error .stackExhausted ∨
      unkeyedAnswer name (answer' room) = unkeyedAnswer name (answer (room + 2))) :
    SameButKeys name answer answer' := by
  have exhausted {o : Except Failure (Option Found)}
      (h : unkeyedAnswer name o = .error .stackExhausted) : o = .error .stackExhausted := by
    cases o with
    | ok found => cases h
    | error f => exact congrArg Except.error (Except.error.inj h)
  refine ⟨level, lower, fun all room => ?_, fun all room => ?_⟩
  · rcases lower room with lost | same
    · exact lost
    · exact exhausted (same.trans (congrArg (unkeyedAnswer name) (all (room + 2))))
  · rcases level room with lost | same
    · exact lost
    · exact exhausted (same.symm.trans (congrArg (unkeyedAnswer name) (all room)))

/-- **Branches of an atomic rule that begin with the rule itself are dead.** If they are left out
    of an alternation, whatever rule is asked for comes to the same on every text, with kept
    results or without. A branch that is refused is nested up to two levels deeper than the rule,
    so that the stack may be exhausted by two levels more. -/
theorem pruning_harmless {r : Registry} (built : r.Built) {name : String} {rule : Rule}
    (known : r.resolve name = .ok rule) (atomic : rule.kind.atomic = true) {mode : ChoiceMode}
    {branches : List Pattern} (shape : rule.pattern = .alternation mode branches) (text : Text)
    (memoize : Bool) (start : String) (anchored : Bool) (pos : Int) :
    SameButKeys name (r.answer text memoize start anchored pos)
      ((r.pruned rule).answer text memoize start anchored pos) := by
  obtain rfl := built.named name rule known
  refine .of (fun room => ?_) fun room => ?_
  · rcases unkeyed_outcome (ask_pruned known atomic shape text memoize room (.inl rfl) start
      anchored pos) with ⟨lost, _⟩ | ⟨_, some⟩ | same
    · exact .inl lost
    · exact absurd some (Nat.lt_irrefl 0)
    · exact .inr same
  · rcases unkeyed_outcome (ask_pruned known atomic shape text memoize room (.inr rfl) start
      anchored pos) with ⟨_, none⟩ | ⟨lost, _⟩ | same
    · cases none
    · exact .inl lost
    · exact .inr same

/-- A rule that calls itself first, or else takes a letter, may take a letter right away. -/
theorem pruning_harmless_leftward :
    leftward.Built ∧ leftward.resolve "left" = .ok leftRule ∧ leftRule.kind.atomic = true ∧
      leftRule.pruned = { leftRule with pattern := .alternation .ordered [.literal ['a'] false] } ∧
      SameButKeys "left" (leftward.answer #['a', 'a'] true "left" false 0)
        ((leftward.pruned leftRule).answer #['a', 'a'] true "left" false 0) :=
  have built : leftward.Built := leftward_built leftward rfl
  ⟨built, rfl, rfl, rfl, pruning_harmless built rfl rfl rfl #['a', 'a'] true "left" false 0⟩

end GrammarMatch
