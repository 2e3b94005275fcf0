/-
  File:      GrammarMatch/Proofs/Chains.lean
  Subject:   The solutions of a repetition are its admissible chains.

  A repetition goes on from where a solution of its body ended to the next solution of its body.
  Each way of doing so is a chain of steps. `Admissible` says without reference to the search which
  chains count, and `Before` in which order. The solutions of a repetition correspond to the
  admissible chains one to one, in that order (`repetition_chains`).

  `chains` lists them by the recursion of the rounds. It keeps the steps, where the rounds only
  keep what the steps lead to.
-/
import GrammarMatch.Proofs.Carried
import GrammarMatch.Proofs.Enumeration
import GrammarMatch.Proofs.Language

namespace GrammarMatch.Match

/-! ## 1. Chains -/

/-- A step: which of the solutions of the body is taken, and that solution. -/
structure Step where
  choice : Nat
  taken : Solution

/-- Steps that follow each other. -/
abbrev Chain := List Step

/-- Each step takes the solution of its choice, from where the step before it ended. -/
def Runs (child : Int → Answers Solution) : Int → Chain → Prop
  | _, [] => True
  | pos, step :: c =>
    (child pos).toList[step.choice]? = some step.taken ∧ Runs child step.taken.stop c

/-- Every step has a width. -/
def Wide : Int → Chain → Prop
  | _, [] => True
  | pos, step :: c => step.taken.stop ≠ pos ∧ Wide step.taken.stop c

/-- Where a chain from a position ends. -/
def Chain.stop : Int → Chain → Int
  | pos, [] => pos
  | _, step :: c => Chain.stop step.taken.stop c

/-- The last step has no width. -/
def EndsEmpty (pos : Int) (c : Chain) : Prop :=
  ∃ before last, c = before ++ [last] ∧ last.taken.stop = Chain.stop pos before

/-- The chains of a repetition: every step but perhaps the last one has a width, there are not too
    many, and the last one has no width unless there are enough that have one. -/
structure Admissible (q : Quantity) (child : Int → Answers Solution) (pos : Int) (c : Chain) :
    Prop where
  runs : Runs child pos c
  wide : Wide pos c.dropLast
  room : ∀ max, q.max = some max → c.length ≤ max
  closed : q.min ≤ c.length ∧ Wide pos c ∨ EndsEmpty pos c

/-- The order of chains: at the first step in which they differ the earlier choice comes first, and
    a chain comes after those that go on from it if often is tried first, and before them if
    seldom is. -/
inductive Before (greedy : Bool) : Chain → Chain → Prop
  | choice {a b : Step} {c d : Chain} (h : a.choice < b.choice) : Before greedy (a :: c) (b :: d)
  | step {a : Step} {c d : Chain} (h : Before greedy c d) : Before greedy (a :: c) (a :: d)
  | longer {a : Step} {c : Chain} (often : greedy = true) : Before greedy (a :: c) []
  | shorter {a : Step} {c : Chain} (seldom : greedy = false) : Before greedy [] (a :: c)

/-- The solution that a chain leads to: what its steps captured is added in their order. -/
def Chain.solution (c : Chain) (s : Solution) : Solution :=
  c.foldl (fun s step => step.taken.over s.captured) s

theorem Before.irrefl {greedy : Bool} (c : Chain) : ¬Before greedy c c := by
  induction c with
  | nil => exact fun h => by cases h
  | cons a c ih =>
    intro h
    cases h with
    | choice h => exact Nat.lt_irrefl _ h
    | step h => exact ih h

section Admissible

variable {q : Quantity} {child : Int → Answers Solution} {pos : Int} {step : Step} {c : Chain}

theorem wide_dropLast_cons : Wide pos (step :: c).dropLast ↔
    c = [] ∨ step.taken.stop ≠ pos ∧ Wide step.taken.stop c.dropLast := by
  cases c with
  | nil => exact iff_of_true trivial (.inl rfl)
  | cons b c => exact ⟨.inr, fun h => h.resolve_left (List.cons_ne_nil b c)⟩

theorem endsEmpty_cons : EndsEmpty pos (step :: c) ↔
    c = [] ∧ step.taken.stop = pos ∨ EndsEmpty step.taken.stop c := by
  constructor
  · rintro ⟨before, last, eq, ends⟩
    cases before with
    | nil =>
      obtain ⟨rfl, rfl⟩ := List.cons.inj eq
      exact .inl ⟨rfl, ends⟩
    | cons b before =>
      obtain ⟨rfl, rfl⟩ := List.cons.inj eq
      exact .inr ⟨before, last, rfl, ends⟩
  · rintro (⟨rfl, ends⟩ | ⟨before, last, rfl, ends⟩)
    · exact ⟨[], step, rfl, ends⟩
    · exact ⟨step :: before, last, rfl, ends⟩

/-- No step at all is admissible where a repetition may stop. -/
theorem admissible_nil (room : ∀ max, q.max = some max → 0 ≤ max) :
    Admissible q child pos [] ↔ q.mayStop 0 = true := by
  rw [Quantity.mayStop_iff]
  constructor
  · rintro ⟨_, _, _, ⟨enough, _⟩ | ⟨before, last, eq, _⟩⟩
    · exact enough
    · exact absurd eq.symm (List.append_ne_nil_of_right_ne_nil before (List.cons_ne_nil last []))
  · exact fun enough => ⟨trivial, trivial, room, .inl ⟨enough, trivial⟩⟩

/-- After a first step the chain ends, if the step has no width, or goes on within what is left of
    the bounds. -/
theorem admissible_cons : Admissible q child pos (step :: c) ↔
    q.mayGoOn 0 = true ∧ (child pos).toList[step.choice]? = some step.taken ∧
      (step.taken.stop = pos ∧ c = [] ∨
        step.taken.stop ≠ pos ∧ Admissible (q.after 1) child step.taken.stop c) := by
  rw [Quantity.mayGoOn_iff]
  constructor
  · rintro ⟨⟨taken, runs⟩, wide, room, closed⟩
    refine ⟨fun max hmax => ?_, taken, ?_⟩
    · have := room max hmax
      rw [List.length_cons] at this
      omega
    · rw [wide_dropLast_cons] at wide
      by_cases width : step.taken.stop = pos
      · exact .inl ⟨width, wide.resolve_right fun h => h.1 width⟩
      · refine .inr ⟨width, runs, ?_, fun max hmax => ?_, ?_⟩
        · rcases wide with rfl | wide
          · trivial
          · exact wide.2
        · have := room _ (Quantity.max_after hmax)
          rw [List.length_cons] at this
          omega
        · rcases closed with ⟨enough, wide⟩ | empty
          · refine .inl ⟨?_, wide.2⟩
            rw [List.length_cons] at enough
            show q.min - (1 : Nat) ≤ c.length
            omega
          · exact .inr ((endsEmpty_cons.mp empty).resolve_left fun h => width h.2)
  · rintro ⟨more, taken, ⟨width, rfl⟩ | ⟨width, runs, wide, room, closed⟩⟩
    · refine ⟨⟨taken, trivial⟩, trivial, fun max hmax => ?_, .inr ?_⟩
      · have := more max hmax
        rw [List.length_singleton]
        omega
      · exact endsEmpty_cons.mpr (.inl ⟨rfl, width⟩)
    · refine ⟨⟨taken, runs⟩, wide_dropLast_cons.mpr (.inr ⟨width, wide⟩), fun max hmax => ?_, ?_⟩
      · have := room (max - 1) (by rw [Quantity.after, hmax]; rfl)
        rw [List.length_cons]
        omega
      · rcases closed with ⟨enough, all⟩ | empty
        · refine .inl ⟨?_, width, all⟩
          change q.min - (1 : Nat) ≤ c.length at enough
          rw [List.length_cons]
          omega
        · exact .inr (endsEmpty_cons.mpr (.inr empty))

end Admissible

/-! ## 2. The list of chains -/

/-- The first steps that there are, in order. -/
def steps (x : Answers Solution) : List Step := x.toList.zipIdx.map fun e => ⟨e.2, e.1⟩

/-- The chain without steps, if it counts. -/
def stopping (holds : Bool) : List Chain := if holds then [[]] else []

/-- The chains that begin with a first step: none goes on from a step that has no width. -/
def going (first : Answers Solution) (pos : Int) (rest : Int → List Chain) : List Chain :=
  (steps first).flatMap fun step =>
    if step.taken.stop = pos then [[step]] else (rest step.taken.stop).map (step :: ·)

/-- The chains of a repetition, of fewer steps than `left`. -/
def chains (child : Int → Answers Solution) : Nat → Quantity → Int → List Chain
  | 0, _, _ => []
  | left + 1, q, pos =>
    stopping (!q.greedy && q.mayStop 0) ++
      (if q.mayGoOn 0 then going (child pos) pos (chains child left (q.after 1)) else []) ++
        stopping (q.greedy && q.mayStop 0)

section Listed

variable {child : Int → Answers Solution} {x : Answers Solution} {q : Quantity} {left : Nat}
  {pos : Int} {c : Chain}

theorem mem_steps {step : Step} : step ∈ steps x ↔ x.toList[step.choice]? = some step.taken := by
  unfold steps
  rw [List.mem_map]
  constructor
  · rintro ⟨e, he, rfl⟩
    exact List.mem_zipIdx_iff_getElem?.mp he
  · exact fun h => ⟨(step.taken, step.choice), List.mem_zipIdx_iff_getElem?.mpr h, rfl⟩

theorem steps_taken : (steps x).map Step.taken = x.toList := by
  unfold steps
  rw [List.map_map]
  exact List.zipIdx_map_fst 0 x.toList

/-- The first steps come in the order of their choices. -/
theorem steps_ordered : (steps x).Pairwise fun a b => a.choice < b.choice := by
  have choices : (steps x).map Step.choice = List.range' 0 x.toList.length := by
    unfold steps
    rw [List.map_map]
    exact List.zipIdx_map_snd 0 x.toList
  have ordered : ((steps x).map Step.choice).Pairwise (· < ·) := by
    rw [choices]
    exact List.pairwise_lt_range'
  exact List.pairwise_map.mp ordered

theorem mem_stopping {holds : Bool} : c ∈ stopping holds ↔ holds = true ∧ c = [] := by
  cases holds with
  | true => simp [stopping]
  | false => simp [stopping]

theorem mem_going {rest : Int → List Chain} : c ∈ going x pos rest ↔
    ∃ step c', c = step :: c' ∧ x.toList[step.choice]? = some step.taken ∧
      (step.taken.stop = pos ∧ c' = [] ∨ step.taken.stop ≠ pos ∧ c' ∈ rest step.taken.stop) := by
  unfold going
  rw [List.mem_flatMap]
  constructor
  · rintro ⟨step, hstep, hc⟩
    by_cases width : step.taken.stop = pos
    · rw [if_pos width, List.mem_singleton] at hc
      exact ⟨step, [], hc, mem_steps.mp hstep, .inl ⟨width, rfl⟩⟩
    · rw [if_neg width, List.mem_map] at hc
      obtain ⟨c', hc', rfl⟩ := hc
      exact ⟨step, c', rfl, mem_steps.mp hstep, .inr ⟨width, hc'⟩⟩
  · rintro ⟨step, c', rfl, taken, h⟩
    refine ⟨step, mem_steps.mpr taken, ?_⟩
    rcases h with ⟨width, rfl⟩ | ⟨width, hc'⟩
    · rw [if_pos width]
      exact List.mem_singleton_self _
    · rw [if_neg width]
      exact List.mem_map_of_mem hc'

/-- What the list of chains is made of. -/
theorem mem_chains_succ : c ∈ chains child (left + 1) q pos ↔
    q.mayStop 0 = true ∧ c = [] ∨
      q.mayGoOn 0 = true ∧ c ∈ going (child pos) pos (chains child left (q.after 1)) := by
  have goOn : c ∈ (if q.mayGoOn 0 then going (child pos) pos (chains child left (q.after 1))
      else []) ↔
        q.mayGoOn 0 = true ∧ c ∈ going (child pos) pos (chains child left (q.after 1)) := by
    by_cases more : q.mayGoOn 0 = true
    · rw [if_pos more, and_iff_right more]
    · rw [if_neg more]
      exact iff_of_false List.not_mem_nil fun h => more h.1
  unfold chains
  rw [List.mem_append, List.mem_append, goOn, mem_stopping, mem_stopping]
  cases q.greedy with
  | true => simp [or_comm]
  | false => simp

/-- **The chains that are listed are the admissible ones**, if there may be as many steps as
    characters are left, and one more. -/
theorem mem_chains {t : Text} (onward : ∀ p, ∀ u ∈ child p, Onward t p u.stop)
    (room : ∀ max, q.max = some max → 0 ≤ max) (enough : (t.stop - pos).toNat < left) :
    c ∈ chains child left q pos ↔ Admissible q child pos c := by
  induction left generalizing q pos c with
  | zero => exact absurd enough (Nat.not_lt_zero _)
  | succ left ih =>
    rw [mem_chains_succ, mem_going]
    cases c with
    | nil =>
      rw [admissible_nil room]
      simp
    | cons step c =>
      rw [admissible_cons]
      -- From where a step ends that has a width there are fewer characters left.
      have rest (more : q.mayGoOn 0 = true)
          (taken : (child pos).toList[step.choice]? = some step.taken)
          (width : step.taken.stop ≠ pos) :
          c ∈ chains child left (q.after 1) step.taken.stop ↔
            Admissible (q.after 1) child step.taken.stop c := by
        refine ih (fun max hmax => ?_) ?_
        · have := Quantity.mayGoOn_iff.mp more _ (Quantity.max_after hmax)
          omega
        · obtain ⟨le, lt⟩ := onward pos _ (Answers.mem_toList.mp (List.mem_of_getElem? taken))
          have := lt (by omega)
          omega
      constructor
      · rintro (⟨_, eq⟩ | ⟨more, step', c', eq, taken, h⟩)
        · cases eq
        · obtain ⟨rfl, rfl⟩ := List.cons.inj eq
          exact ⟨more, taken, h.imp id fun h => ⟨h.1, (rest more taken h.1).mp h.2⟩⟩
      · rintro ⟨more, taken, h⟩
        exact .inr ⟨more, step, c, rfl, taken,
          h.imp id fun h => ⟨h.1, (rest more taken h.1).mpr h.2⟩⟩

theorem pairwise_stopping (holds : Bool) : (stopping holds).Pairwise (Before q.greedy) := by
  cases holds with
  | true => exact List.pairwise_singleton _ _
  | false => exact .nil

theorem pairwise_going {greedy : Bool} {rest : Int → List Chain}
    (h : ∀ p, (rest p).Pairwise (Before greedy)) :
    (going x pos rest).Pairwise (Before greedy) := by
  unfold going
  refine List.pairwise_flatMap.mpr ⟨fun step _ => ?_, ?_⟩
  · by_cases width : step.taken.stop = pos
    · rw [if_pos width]
      exact List.pairwise_singleton _ _
    · rw [if_neg width]
      exact List.pairwise_map.mpr ((h _).imp fun h => .step h)
  · have begins {step : Step} {c : Chain} (hc : c ∈ (if step.taken.stop = pos then [[step]]
        else (rest step.taken.stop).map (step :: ·))) : ∃ c', c = step :: c' := by
      split at hc
      · exact ⟨[], List.mem_singleton.mp hc⟩
      · obtain ⟨c', _, rfl⟩ := List.mem_map.mp hc
        exact ⟨c', rfl⟩
    refine steps_ordered.imp fun lt c hc d hd => ?_
    obtain ⟨c', rfl⟩ := begins hc
    obtain ⟨d', rfl⟩ := begins hd
    exact .choice lt

/-- **The chains are listed in their order.** -/
theorem pairwise_chains : (chains child left q pos).Pairwise (Before q.greedy) := by
  induction left generalizing q pos with
  | zero => exact .nil
  | succ left ih =>
    have goOn : (if q.mayGoOn 0 then going (child pos) pos (chains child left (q.after 1))
        else []).Pairwise (Before q.greedy) := by
      split
      · exact pairwise_going fun p => ih (q := q.after 1)
      · exact .nil
    have begins {c : Chain} (hc : c ∈ (if q.mayGoOn 0 then
        going (child pos) pos (chains child left (q.after 1)) else [])) :
        ∃ step c', c = step :: c' := by
      split at hc
      · obtain ⟨step, c', eq, _⟩ := mem_going.mp hc
        exact ⟨step, c', eq⟩
      · cases hc
    unfold chains
    refine List.pairwise_append.mpr ⟨List.pairwise_append.mpr ⟨pairwise_stopping _, goOn, ?_⟩,
      pairwise_stopping _, ?_⟩
    · intro c hc d hd
      obtain ⟨stop, rfl⟩ := mem_stopping.mp hc
      obtain ⟨step, d', rfl⟩ := begins hd
      exact .shorter (by simpa using (Bool.and_eq_true_iff.mp stop).1)
    · intro c hc d hd
      obtain ⟨stop, rfl⟩ := mem_stopping.mp hd
      have often := (Bool.and_eq_true_iff.mp stop).1
      rcases List.mem_append.mp hc with hc | hc
      · have seldom := (Bool.and_eq_true_iff.mp (mem_stopping.mp hc).1).1
        rw [often] at seldom
        cases seldom
      · obtain ⟨step, c', rfl⟩ := begins hc
        exact .longer often

end Listed

/-! ## 3. Rounds and chains -/

section Rounds

variable {k : Solution → Answers Solution} {q : Quantity}

/-- The solutions after a first step, where none of them fails. -/
theorem going_solutions (carries : Carries k) {s : Solution} {m : Solution → Answers Solution}
    {rest : Int → List Chain}
    (ends : ((k s).bind fun t => if t.stop = s.stop then .just t else m t).Ends)
    (h : ∀ t ∈ k s, t.stop ≠ s.stop → (m t).Ends →
      m t = .ofList ((rest t.stop).map (·.solution t))) :
    ((k s).bind fun t => if t.stop = s.stop then .just t else m t) =
      .ofList ((going (k ⟨s.stop, []⟩) s.stop rest).map (·.solution s)) := by
  let g (t : Solution) : List Solution :=
    if t.stop = s.stop then [t] else (rest t.stop).map (·.solution t)
  obtain ⟨whole, each⟩ := ends.of_bind
  have eachList : ((k s).bind fun t => if t.stop = s.stop then .just t else m t) =
      (k s).bind fun t => .ofList (g t) := by
    refine Answers.bind_congr fun t ht => ?_
    have ends := each t ht
    unfold g
    by_cases width : t.stop = s.stop
    · rw [if_pos width, if_pos width]
      rfl
    · rw [if_neg width] at ends
      rw [if_neg width, if_neg width]
      exact h t ht width ends
  have bare : (k ⟨s.stop, []⟩).Ends := by
    rw [carries s] at whole
    exact whole.of_bind.1
  have here : k s = .ofList ((steps (k ⟨s.stop, []⟩)).map fun step =>
      step.taken.over s.captured) := by
    rw [carries s, bare.eq_ofList, ← Answers.ofList_map, ← bare.eq_ofList, ← steps_taken,
      List.map_map]
    rfl
  rw [eachList, here, Answers.ofList_bind, List.flatMap_map]
  unfold going
  rw [List.map_flatMap]
  refine congrArg Answers.ofList (List.flatMap_congr fun step _ => ?_)
  unfold g
  rw [Solution.over_stop]
  by_cases width : step.taken.stop = s.stop
  · rw [if_pos width, if_pos width]
    rfl
  · rw [if_neg width, if_neg width, List.map_map]
    rfl

/-- **The rounds of a repetition lead to what its chains lead to**, if none of them fails. -/
theorem rounds_chains (carries : Carries k) {left count : Nat} {s : Solution}
    (ends : (rounds q k left count s).Ends) :
    rounds q k left count s =
      .ofList ((chains (fun p => k ⟨p, []⟩) left (q.after count) s.stop).map (·.solution s)) := by
  induction left generalizing count s with
  | zero => rfl
  | succ left ih =>
    have stop (holds : Bool) :
        Answers.only holds s = .ofList ((stopping holds).map (·.solution s)) := by
      cases holds with
      | true => rfl
      | false => rfl
    unfold rounds at ends ⊢
    unfold chains
    rw [List.map_append, List.map_append, Answers.ofList_append, Answers.ofList_append, ← stop,
      ← stop, Quantity.mayStop_after, Quantity.mayGoOn_after, Quantity.after_after]
    have goOn := ends.of_append.1.of_append.2
    by_cases more : q.mayGoOn count = true
    · rw [if_pos more] at goOn
      simp only [if_pos more, Nat.add_zero]
      rw [going_solutions carries goOn fun t _ _ ends => ih ends]
      rfl
    · simp only [if_neg more, Nat.add_zero]
      rfl

end Rounds

/-! ## 4. Repetitions -/

/-- **A repetition yields every admissible chain once, in order.** If no bound is negative and they
    are in order, and nothing fails, the solutions of a repetition are those that its admissible
    chains lead to: each of them once, in the order of the chains. What is captured on the way is
    added in the order of the steps. -/
theorem repetition_chains {env : Env} {active : Active} (off : env.settings.memoize = false)
    {s : State} {q : Quantity} (nonneg : 0 ≤ q.min) (le : ∀ max, q.max = some max → q.min ≤ max)
    {body : Pattern} {depth : Nat} {child : Int → Answers Solution}
    (each : ∀ p, Enumerates env active [⟨[.part body (depth + 1)], p, []⟩] s (child p)) {pos : Int}
    {captured : Captured} {y : Answers Solution}
    (seen : Enumerates env active [⟨[.part (.repetition q body) depth], pos, captured⟩] s y)
    (ends : y.Ends) :
    ∃ l : List Chain, y = .ofList (l.map (·.solution ⟨pos, captured⟩)) ∧
      (∀ c, c ∈ l ↔ Admissible q child pos c) ∧ l.Nodup ∧ l.Pairwise (Before q.greedy) := by
  let w := Basis.of env s.lexicon
  have again : ∀ v, w.again ≠ .ok (some v) := fun _ h => by cases h
  obtain rfl : child = fun p => w.solutions (depth + 1) active body ⟨p, []⟩ :=
    funext fun p => (enumerates_goal off).mp (each p)
  have whole : y = rounds q (w.solutions (depth + 1) active body) (w.roundsLeft pos) 0
      ⟨pos, captured⟩ := enumerates_part off seen ends
  rw [whole] at ends
  rw [rounds_chains (solutions_carry w _ _ _) ends, Quantity.after_zero] at whole
  have ordered : (chains (fun p => w.solutions (depth + 1) active body ⟨p, []⟩) (w.roundsLeft pos) q
      pos).Pairwise (Before q.greedy) := pairwise_chains
  refine ⟨_, whole, fun c => ?_, ordered.imp fun before eq => ?_, ordered⟩
  · refine mem_chains (t := env.text) (fun p u hu => solutions_onward again hu) ?_
      (Nat.lt_succ_self _)
    exact fun max hmax => Int.le_trans nonneg (le max hmax)
  · subst eq
    exact Before.irrefl _ before

/-- `a`, or else `aa`, up to two times: two steps lead as far as a longer one does. -/
theorem repetition_chains_twice :
    let env : Env := ⟨#['a', 'a'], {}, ⟨none, false, 4000⟩⟩
    let s : State := { registry := none }
    let q : Quantity := ⟨0, some 2, true⟩
    let body : Pattern := .alternation .ordered [.literal ['a'] false, .literal ['a', 'a'] false]
    let child (p : Int) : Answers Solution :=
      (Basis.of env s.lexicon).solutions 2 [] body ⟨p, []⟩
    let y : Answers Solution :=
      .found ⟨2, []⟩ (.found ⟨1, []⟩ (.found ⟨2, []⟩ (.found ⟨0, []⟩ .done)))
    env.settings.memoize = false ∧ 0 ≤ q.min ∧ (∀ max, q.max = some max → q.min ≤ max) ∧
      (∀ p, Enumerates env [] [⟨[.part body 2], p, []⟩] s (child p)) ∧
      Enumerates env [] [⟨[.part (.repetition q body) 1], 0, []⟩] s y ∧ y.Ends ∧
      ∃ l : List Chain, y = .ofList (l.map (·.solution ⟨0, []⟩)) ∧
        (∀ c, c ∈ l ↔ Admissible q child 0 c) ∧ l.Nodup ∧ l.Pairwise (Before q.greedy) := by
  intro env s q body child y
  have le : ∀ max, q.max = some max → q.min ≤ max := by
    rintro max ⟨⟩
    decide
  have each (p : Int) : Enumerates env [] [⟨[.part body 2], p, []⟩] s (child p) :=
    (enumerates_goal rfl).mpr rfl
  have seen : Enumerates env [] [⟨[.part (.repetition q body) 1], 0, []⟩] s y :=
    (enumerates_goal rfl).mpr rfl
  exact ⟨rfl, Int.le_refl 0, le, each, seen, trivial,
    repetition_chains rfl (Int.le_refl 0) le each seen trivial⟩

end GrammarMatch.Match
