/-
  File:      GrammarMatch/Proofs/Agenda.lean
  Subject:   What an agenda stands for.

  The agenda of a search stands for answers of plain recursion: a thread for those of its goals
  one after the other, the agenda for those of its threads. The ways to work off a goal are such
  an agenda too; those of a repetition stand for its rounds (`waysAnswers_choices`).
-/
import GrammarMatch.Proofs.Derivation

namespace GrammarMatch.Match

/-! ## 1. Answers of goals and agendas -/

section Agenda

variable (w : Basis) (active : Active)

/-- The answers of a goal, from a position on and with what is captured then. -/
def goalAnswers : Goal → Solution → Answers Solution
  | .part p depth, s => w.solutions depth active p s
  | .call name key depth, s =>
    if depth ≤ w.env.settings.room then w.call (w.solutions (depth + 1)) active name key s
    else .failed .stackExhausted
  | .round q body count start depth, s =>
    if depth ≤ w.env.settings.room then
      if start < s.stop ∧ start < w.env.text.stop then
        rounds q (w.solutions (depth + 1) active body) (w.roundsLeft s.stop) (count + 1) s
      else .just s
    else .failed .stackExhausted
  | .close key plural start outer, s => .just (Basis.grouped key plural start outer s)
  | .finish rule key start outer, s => w.closed rule key start outer s
  | .retreat body left depth, s =>
    if left = 0 then .done
    else if depth ≤ w.env.settings.room then
      Basis.retreat (w.solutions (depth + 1) active body) left s
    else .failed .stackExhausted

/-- The answers of goals, one after the other. -/
def goalsAnswers (goals : List Goal) : Solution → Answers Solution :=
  .chain (goals.map (goalAnswers w active))

/-- The answers of a thread. -/
def threadAnswers (t : Thread) : Answers Solution :=
  goalsAnswers w active t.goals ⟨t.pos, t.captured⟩

/-- The answers of an agenda. -/
def agendaAnswers (agenda : Agenda) : Answers Solution :=
  .concat (agenda.map (threadAnswers w active))

/-- The answers of the ways to work off a goal. -/
def waysAnswers {b : Bounds} {m : Nat × Nat} (ways : List (Branch b m)) : Answers Solution :=
  agendaAnswers w active (ways.map (Branch.thread []))

/-- The answers of an agenda of which only those at a target count. -/
def sought (target : Option Int) (agenda : Agenda) : Answers Solution :=
  (agendaAnswers w active agenda).filter fun t => accepts target t.stop

variable {w active}

theorem threadAnswers_thread {b : Bounds} {m : Nat × Nat} (goals : List Goal) (way : Branch b m) :
    threadAnswers w active (way.thread goals) =
      (threadAnswers w active (way.thread [])).bind (goalsAnswers w active goals) := by
  show goalsAnswers w active (way.goals ++ goals) ⟨way.pos, way.captured⟩ =
    (goalsAnswers w active (way.goals ++ []) ⟨way.pos, way.captured⟩).bind _
  unfold goalsAnswers
  rw [List.append_nil, List.map_append, Answers.chain_append]

/-- Ways that go on with the goals that were left. -/
theorem agendaAnswers_ways {b : Bounds} {m : Nat × Nat} (goals : List Goal)
    (ways : List (Branch b m)) (rest : Agenda) :
    agendaAnswers w active (ways.map (Branch.thread goals) ++ rest) =
      (waysAnswers w active ways).bind (goalsAnswers w active goals) ++
        agendaAnswers w active rest := by
  unfold waysAnswers agendaAnswers
  rw [List.map_append, Answers.concat_append, Answers.concat_bind, List.map_map, List.map_map,
    List.map_map]
  congr 2
  exact List.map_congr_left fun way _ => threadAnswers_thread goals way

section Ways

variable {b : Bounds} {m : Nat × Nat}

@[simp] theorem waysAnswers_nil : waysAnswers w active ([] : List (Branch b m)) = .done := rfl

theorem waysAnswers_cons (way : Branch b m) (ways : List (Branch b m)) :
    waysAnswers w active (way :: ways) =
      goalsAnswers w active way.goals ⟨way.pos, way.captured⟩ ++ waysAnswers w active ways := by
  show goalsAnswers w active (way.goals ++ []) _ ++ _ = _
  rw [List.append_nil]
  rfl

theorem waysAnswers_append (ways ways' : List (Branch b m)) :
    waysAnswers w active (ways ++ ways') =
      waysAnswers w active ways ++ waysAnswers w active ways' := by
  unfold waysAnswers agendaAnswers
  rw [List.map_append, List.map_append, Answers.concat_append]

@[simp] theorem waysAnswers_done (pos : Int) (captured : Captured) :
    waysAnswers w active [(.done pos captured : Branch b m)] = .just ⟨pos, captured⟩ := rfl

@[simp] theorem waysAnswers_single (g : Goal) (h : g.Under b m) (pos : Int) (captured : Captured) :
    waysAnswers w active [.single g h pos captured] = goalAnswers w active g ⟨pos, captured⟩ := by
  rw [waysAnswers_cons, waysAnswers_nil, Answers.append_done]
  exact Answers.bind_just _

@[simp] theorem waysAnswers_both (g g' : Goal) (h : g.Under b m) (h' : g'.Under b m) (pos : Int)
    (captured : Captured) :
    waysAnswers w active [.both g g' h h' pos captured] =
      (goalAnswers w active g ⟨pos, captured⟩).bind (goalAnswers w active g') := by
  rw [waysAnswers_cons, waysAnswers_nil, Answers.append_done]
  show (goalAnswers w active g _).bind (fun t => (goalAnswers w active g' t).bind _) = _
  exact Answers.bind_congr fun t _ => Answers.bind_just _

theorem waysAnswers_wayIf (env : Env) (holds : Bool) (pos : Int) (captured : Captured) :
    waysAnswers w active (wayIf env holds pos captured : List (Branch env.bounds m)) =
      .only holds ⟨pos, captured⟩ := by
  cases holds with
  | true => rfl
  | false => rfl

theorem waysAnswers_parts (branches : List Pattern) {depth : Nat} (pos : Int) (captured : Captured)
    (h : ∀ p, (Goal.part p (depth + 1)).Under b m) :
    waysAnswers w active (branches.map fun p => (.single (.part p (depth + 1)) (h p) pos captured
        : Branch b m)) =
      .concat (branches.map fun p => w.solutions (depth + 1) active p ⟨pos, captured⟩) := by
  induction branches with
  | nil => rfl
  | cons p branches ih =>
    rw [List.map_cons, List.map_cons, Answers.concat, ← ih]
    exact (waysAnswers_append [_] _).trans (congrArg (· ++ _) (waysAnswers_single ..))

theorem waysAnswers_ofList (l : List Solution) :
    waysAnswers w active (l.map fun s => (.done s.stop s.captured : Branch b m)) = .ofList l := by
  induction l with
  | nil => rfl
  | cons s l ih =>
    rw [List.map_cons, Answers.ofList, ← ih]
    exact waysAnswers_append [_] _

/-- The answers of a look behind are those from its starts. -/
theorem goalAnswers_retreat {depth : Nat} (room : depth ≤ w.env.settings.room) (body : Pattern)
    (left : Nat) (s : Solution) :
    goalAnswers w active (.retreat body left depth) s =
      Basis.retreat (w.solutions (depth + 1) active body) left s := by
  cases left with
  | zero => rfl
  | succ left =>
    simp only [goalAnswers]
    rw [if_neg (Nat.succ_ne_zero left), if_pos room]

theorem waysAnswers_retreat {depth : Nat} (room : depth ≤ w.env.settings.room) (body : Pattern)
    (left : Nat) (pos : Int) (captured : Captured) (hp : (Goal.part body (depth + 1)).Under b m)
    (hr : (Goal.retreat body left depth).Under b m) :
    waysAnswers w active [.single (.part body (depth + 1)) hp pos captured,
        .single (.retreat body left depth) hr (pos - 1) captured] =
      Basis.retreat (w.solutions (depth + 1) active body) (left + 1) ⟨pos, captured⟩ := by
  refine (waysAnswers_append [.single _ hp pos captured] [_]).trans ?_
  rw [waysAnswers_single, waysAnswers_single, goalAnswers_retreat room]
  rfl

end Ways

section Sought

variable {target : Option Int} {pos : Int} {captured : Captured}

/-- An agenda with a single goal. -/
theorem agendaAnswers_goal (g : Goal) :
    agendaAnswers w active [⟨[g], pos, captured⟩] = goalAnswers w active g ⟨pos, captured⟩ := by
  show (goalAnswers w active g ⟨pos, captured⟩).bind .just ++ .done = _
  rw [Answers.append_done, Answers.bind_just]

theorem sought_single (g : Goal) :
    sought w active target [⟨[g], pos, captured⟩] =
      (goalAnswers w active g ⟨pos, captured⟩).filter fun t => accepts target t.stop := by
  unfold sought
  rw [agendaAnswers_goal]

theorem sought_cons (g : Goal) (goals : List Goal) (rest : Agenda) :
    sought w active target (⟨g :: goals, pos, captured⟩ :: rest) =
      ((goalAnswers w active g ⟨pos, captured⟩).bind (goalsAnswers w active goals) ++
        agendaAnswers w active rest).filter fun t => accepts target t.stop := rfl

theorem sought_ways {b : Bounds} {m : Nat × Nat} (goals : List Goal) (ways : List (Branch b m))
    (rest : Agenda) :
    sought w active target (ways.map (Branch.thread goals) ++ rest) =
      ((waysAnswers w active ways).bind (goalsAnswers w active goals) ++
        agendaAnswers w active rest).filter fun t => accepts target t.stop := by
  unfold sought
  rw [agendaAnswers_ways]

theorem sought_nil (rest : Agenda) :
    sought w active target (⟨[], pos, captured⟩ :: rest) =
      .only (accepts target pos) ⟨pos, captured⟩ ++ sought w active target rest := by
  show Answers.filter _ (.just ⟨pos, captured⟩ ++ agendaAnswers w active rest) = _
  rw [Answers.filter_append]
  exact congrArg (· ++ _) (Answers.just_bind _ _)

theorem sought_none (agenda : Agenda) :
    sought w active none agenda = agendaAnswers w active agenda := Answers.filter_true _

end Sought

/-- One level of nesting, where there is room for it. -/
theorem solutions_eq (depth : Nat) (p : Pattern) (s : Solution) :
    w.solutions depth active p s = .attempt (w.entry depth s.stop) fun _ =>
      if depth ≤ w.env.settings.room then w.part (w.solutions (depth + 1)) active s p
      else .failed .stackExhausted := by
  unfold Basis.solutions
  by_cases room : depth ≤ w.env.settings.room
  · have h : w.env.settings.room + 1 - depth = w.env.settings.room + 1 - (depth + 1) + 1 := by omega
    rw [h]
    simp only [if_pos room]
    rfl
  · have h : w.env.settings.room + 1 - depth = 0 := by omega
    rw [h]
    simp only [if_neg room]
    rfl

theorem solutions_onward (again : ∀ v, w.again ≠ .ok (some v)) {depth : Nat} {p : Pattern}
    {s t : Solution} (h : t ∈ w.solutions depth active p s) :
    Onward w.env.text s.stop t.stop :=
  (eval_derives again _ _ _ _ _ _ h).onward

end Agenda

/-! ## 2. Rounds -/

/-- More rounds than there can be make no difference. -/
theorem rounds_irrelevant {w : Basis} {q : Quantity} {k : Solution → Answers Solution}
    (hk : ∀ s t, t ∈ k s → Onward w.env.text s.stop t.stop) {m n count : Nat} {s : Solution}
    (hm : w.roundsLeft s.stop ≤ m) (hn : w.roundsLeft s.stop ≤ n) :
    rounds q k m count s = rounds q k n count s := by
  unfold Basis.roundsLeft at hm hn
  induction m generalizing n count s with
  | zero => omega
  | succ m ih =>
    cases n with
    | zero => omega
    | succ n =>
      unfold rounds
      have inner :
          ((k s).bind fun t => if t.stop = s.stop then .just t else rounds q k m (count + 1) t) =
            (k s).bind fun t =>
              if t.stop = s.stop then .just t else rounds q k n (count + 1) t := by
        refine Answers.bind_congr fun t ht => ?_
        by_cases width : t.stop = s.stop
        · rw [if_pos width, if_pos width]
        · rw [if_neg width, if_neg width]
          obtain ⟨h1, h2⟩ := hk s t ht
          have := h2 (by omega)
          exact ih (by omega) (by omega)
      rw [inner]

/-- The rounds of a repetition, with as many left as there can be: after each of them that has a
    width there may be another one. -/
theorem rounds_unfold {w : Basis} {k : Solution → Answers Solution}
    (hk : ∀ s t, t ∈ k s → Onward w.env.text s.stop t.stop) (q : Quantity) (count : Nat)
    (s : Solution) :
    rounds q k (w.roundsLeft s.stop) count s =
      .only (!q.greedy && q.mayStop count) s ++
        (if q.mayGoOn count then
          (k s).bind fun t =>
            if t.stop = s.stop then .just t else rounds q k (w.roundsLeft t.stop) (count + 1) t
        else .done) ++
        .only (q.greedy && q.mayStop count) s := by
  have inner : ((k s).bind fun t => if t.stop = s.stop then .just t
        else rounds q k (w.env.text.stop - s.stop).toNat (count + 1) t) =
      (k s).bind fun t =>
        if t.stop = s.stop then .just t else rounds q k (w.roundsLeft t.stop) (count + 1) t := by
    refine Answers.bind_congr fun t ht => ?_
    by_cases width : t.stop = s.stop
    · rw [if_pos width, if_pos width]
    · rw [if_neg width, if_neg width]
      obtain ⟨h1, h2⟩ := hk s t ht
      refine rounds_irrelevant hk ?_ (Nat.le_refl _)
      have := h2 (by omega)
      unfold Basis.roundsLeft
      omega
  rw [← inner]
  rfl

section Choices

variable {w : Basis} {active : Active} {m : Nat × Nat}

/-- Going on after a round: one of no width was the last. -/
theorem bind_round (again : ∀ v, w.again ≠ .ok (some v)) {depth : Nat}
    (room : depth ≤ w.env.settings.room) (q : Quantity) (body : Pattern) (count : Nat)
    (s : Solution) :
    (w.solutions (depth + 1) active body s).bind
        (goalAnswers w active (.round q body count s.stop depth)) =
      (w.solutions (depth + 1) active body s).bind fun t =>
        if t.stop = s.stop then .just t
        else
          rounds q (w.solutions (depth + 1) active body) (w.roundsLeft t.stop) (count + 1) t := by
  refine Answers.bind_congr fun t ht => ?_
  obtain ⟨h1, h2⟩ := solutions_onward again ht
  unfold goalAnswers
  simp only [if_pos room]
  by_cases width : t.stop = s.stop
  · rw [if_pos width, if_neg (by omega)]
  · have hlt : s.stop < t.stop := by omega
    rw [if_neg width, if_pos ⟨hlt, h2 hlt⟩]

/-- The choices of a repetition are those of its rounds. -/
theorem waysAnswers_choices (again : ∀ v, w.again ≠ .ok (some v)) (q : Quantity) (body : Pattern)
    (count : Nat) {depth : Nat} (room : depth ≤ w.env.settings.room) (pos : Int)
    (captured : Captured) (hp : (Goal.part body (depth + 1)).Under w.env.bounds m)
    (hr : (Goal.round q body count pos depth).Under w.env.bounds m) :
    waysAnswers w active (choices w.env q body count depth pos captured hp hr) =
      rounds q (w.solutions (depth + 1) active body) (w.roundsLeft pos) count ⟨pos, captured⟩ := by
  let goOn : List (Branch w.env.bounds m) := if q.mayGoOn count then
      [.both (.part body (depth + 1)) (.round q body count pos depth) hp hr pos captured]
    else []
  let stop : List (Branch w.env.bounds m) := wayIf w.env (q.mayStop count) pos captured
  have hgo : waysAnswers w active goOn = if q.mayGoOn count then
      (w.solutions (depth + 1) active body ⟨pos, captured⟩).bind fun t =>
        if t.stop = pos then .just t
        else rounds q (w.solutions (depth + 1) active body) (w.roundsLeft t.stop) (count + 1) t
      else .done := by
    by_cases hc : q.mayGoOn count = true
    · simp only [goOn, if_pos hc, waysAnswers_both]
      exact bind_round again room q body count ⟨pos, captured⟩
    · simp only [goOn, if_neg hc, waysAnswers_nil]
  have hstop : waysAnswers w active stop = .only (q.mayStop count) ⟨pos, captured⟩ :=
    waysAnswers_wayIf w.env _ pos captured
  have hrounds := rounds_unfold
    (fun s t (h : t ∈ w.solutions (depth + 1) active body s) => solutions_onward again h) q count
    ⟨pos, captured⟩
  show waysAnswers w active (if q.greedy then goOn ++ stop else stop ++ goOn) = _
  rw [hrounds]
  cases q.greedy with
  | true =>
    rw [if_pos rfl, waysAnswers_append, hgo, hstop]
    rfl
  | false =>
    rw [if_neg Bool.false_ne_true, waysAnswers_append, hgo, hstop]
    exact (Answers.append_done _).symm

end Choices

/-! ## 3. All ways -/

section AllWays

variable {env : Env} {m : Nat × Nat} {P : Branch env.bounds m → Prop} {pos : Int}
  {captured : Captured}

theorem forall_wayIf {holds : Bool} (h : holds = true → P (.done pos captured)) :
    ∀ way ∈ wayIf env holds pos captured, P way := by
  cases holds with
  | true => exact List.forall_mem_singleton.mpr (h rfl)
  | false => exact List.forall_mem_nil P

/-- The choices of a repetition are to stop and to go on, where it may. -/
theorem forall_choices {q : Quantity} {body : Pattern} {count depth : Nat}
    {hp : (Goal.part body (depth + 1)).Under env.bounds m}
    {hr : (Goal.round q body count pos depth).Under env.bounds m}
    (stop : q.mayStop count = true → P (.done pos captured))
    (goOn : q.mayGoOn count = true →
      P (.both (.part body (depth + 1)) (.round q body count pos depth) hp hr pos captured)) :
    ∀ way ∈ choices env q body count depth pos captured hp hr, P way := by
  have hstop : ∀ way ∈ wayIf env (q.mayStop count) pos captured, P way :=
    forall_wayIf stop
  have hgo : ∀ way ∈ (if q.mayGoOn count then
      [.both (.part body (depth + 1)) (.round q body count pos depth) hp hr pos captured]
      else [] : List (Branch env.bounds m)), P way := by
    by_cases more : q.mayGoOn count = true
    · rw [if_pos more]
      exact List.forall_mem_singleton.mpr (goOn more)
    · rw [if_neg more]
      exact List.forall_mem_nil P
  show ∀ way ∈ (if q.greedy then (if q.mayGoOn count then _ else _) ++ wayIf env _ _ _
    else wayIf env _ _ _ ++ (if q.mayGoOn count then _ else _)), P way
  cases q.greedy with
  | true => exact List.forall_mem_append.mpr ⟨hgo, hstop⟩
  | false => exact List.forall_mem_append.mpr ⟨hstop, hgo⟩

end AllWays

end GrammarMatch.Match
