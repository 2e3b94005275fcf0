/-
  File:      GrammarMatch/Proofs/Discipline.lean
  Subject:   What holds of a search from its start to its end.

  A judgement is what is said of computations, such that it is said of steps in a row if it is said
  of each of them: that they keep up what holds of the state and fail only as they may, say, or that
  they do not depend on the state. A discipline judges the steps of a search, and says what a goal
  needs so that something holds of where it ends and of what is captured then. It is obeyed if
  whatever a goal is worked off to needs no more than the goal did. Then the whole search is judged
  alike, and comes to a solution as required (`Discipline.Obeyed.seek`), through whatever it tried
  and gave up on the way.
-/
import GrammarMatch.Proofs.Run

namespace GrammarMatch.Match

/-! ## 1. Computations -/

namespace Run

variable {I : State → Prop} {E : Failure → Prop} {α β γ : Type} {P : α → Prop} {Q : β → Prop}

/-- What holds of the state holds afterwards, a result is as required, and a failure is one that
    may come up. -/
def Meets (I : State → Prop) (E : Failure → Prop) (x : Run α) (P : α → Prop) : Prop :=
  ∀ s, I s → x.Ensures s fun o s' =>
    I s' ∧ (∀ a, o = .ok a → P a) ∧ ∀ f, o = .error f → E f

theorem meets_pure {a : α} (h : P a) : Meets I E (pure a) P := by
  intro s hs
  refine ⟨hs, fun b hb => ?_, fun _ hf => by cases hf⟩
  cases hb
  exact h

theorem meets_throw {f : Failure} (h : E f) : Meets I E (throw f : Run α) P := by
  intro s hs
  refine ⟨hs, fun _ hb => (by cases hb), fun g hg => ?_⟩
  cases hg
  exact h

theorem meets_bind {x : Run α} {k : α → Run β} (hx : Meets I E x P)
    (hk : ∀ a, P a → Meets I E (k a) Q) : Meets I E (x >>= k) Q := by
  intro s hs
  rw [ensures_bind]
  refine (hx s hs).mono fun o s' h => ?_
  obtain ⟨hs', result, failure⟩ := h
  cases o with
  | error f => exact ⟨hs', fun _ hb => (by cases hb), fun g hg => by cases hg; exact failure f rfl⟩
  | ok a => exact hk a (result a rfl) s' hs'

theorem Meets.mono {P' : α → Prop} {x : Run α} (hx : Meets I E x P) (h : ∀ a, P a → P' a) :
    Meets I E x P' :=
  fun s hs => (hx s hs).mono fun _ _ ho => ⟨ho.1, fun a ha => h a (ho.2.1 a ha), ho.2.2⟩

/-- A test that keeps nothing. -/
theorem meets_ofExcept {v : Except Failure α} (h : ∀ f, v = .error f → E f) :
    Meets I E (ofExcept v) fun a => v = .ok a := by
  cases v with
  | ok a => exact meets_pure rfl
  | error f => exact meets_throw (h f rfl)

/-- A steady step, where nothing but what it may change is spoken of. -/
theorem meets_steady (steady : ∀ {s s' : State}, s.Steady s' → I s → I s') {x : Run α}
    {v : State → Except Failure α} (hx : ∀ s, x.Ensures s fun o s' => s.Steady s' ∧ o = v s)
    (result : ∀ s a, I s → v s = .ok a → P a) (failure : ∀ s f, I s → v s = .error f → E f) :
    Meets I E x P := by
  intro s hs
  refine (hx s).mono fun o s' h => ?_
  obtain ⟨same, rfl⟩ := h
  exact ⟨steady same hs, fun a ha => result s a hs ha, fun f hf => failure s f hs hf⟩

/-! ## 2. Judgements -/

/-- What is said of computations, with what their results are like. -/
structure Judgement where
  /-- It is said of a computation, and its results are as required. -/
  deems {α : Type} : Run α → (α → Prop) → Prop
  result {α : Type} {P : α → Prop} {a : α} (h : P a) : deems (pure a) P
  next {α β : Type} {P : α → Prop} {Q : β → Prop} {x : Run α} {k : α → Run β} (hx : deems x P)
    (hk : ∀ a, P a → deems (k a) Q) : deems (x >>= k) Q

namespace Judgement

variable (J : Judgement)

theorem weaken {P' : α → Prop} {x : Run α} (hx : J.deems x P) (h : ∀ a, P a → P' a) :
    J.deems x P' := by
  have last : J.deems (x >>= pure) P' := J.next hx fun a ha => J.result (h a ha)
  rwa [bind_pure] at last

theorem each {x : γ → Run α} {l : List γ} (h : ∀ c ∈ l, J.deems (x c) P) :
    J.deems (l.mapM x) fun l' => ∀ a ∈ l', P a := by
  induction l with
  | nil =>
    rw [List.mapM_nil]
    exact J.result fun _ h => by cases h
  | cons c l ih =>
    rw [List.mapM_cons]
    refine J.next (h c List.mem_cons_self) fun a ha => ?_
    refine J.next (ih fun d hd => h d (List.mem_cons_of_mem c hd)) fun l' hl' => ?_
    exact J.result (List.forall_mem_cons.mpr ⟨ha, hl'⟩)

/-- What holds of the state is kept up, and a failure is one that may come up. -/
def meeting (I : State → Prop) (E : Failure → Prop) : Judgement where
  deems := Meets I E
  result := meets_pure
  next := meets_bind

end Judgement

end Run

/-! ## 3. Goals and threads -/

/-- What is demanded of a search. -/
structure Discipline where
  /-- How steps are judged, while some calls are active. -/
  judge : Active → Run.Judgement
  /-- What a goal needs, while some calls are active, at a position and of what is captured there,
      so that something holds of where it ends and of what is captured then. -/
  needs : Active → (Int → Captured → Prop) → Goal → Int → Captured → Prop

namespace Discipline

/-- Something holds of the state all along, and only some failures may come up. -/
def ofState (I : State → Prop) (E : Failure → Prop)
    (needs : Active → (Int → Captured → Prop) → Goal → Int → Captured → Prop) : Discipline where
  judge _ := .meeting I E
  needs := needs

/-- It matters only what the goals are, not where they begin nor what is captured there. -/
def plain (judge : Active → Run.Judgement) (G : Active → Goal → Prop) : Discipline where
  judge := judge
  needs active K g _ _ := G active g ∧ ∀ stop c, K stop c

variable (D : Discipline) (active : Active) (K : Int → Captured → Prop)

/-- What goals need that are worked off one after the other. -/
def goals (goals : List Goal) : Int → Captured → Prop :=
  goals.foldr (fun g K => D.needs active K g) K

/-- What a thread needs. -/
def thread (th : Thread) : Prop := D.goals active K th.goals th.pos th.captured

variable {b : Bounds} {m : Nat × Nat}

/-- What a way needs. -/
def way (w : Branch b m) : Prop := D.goals active K w.goals w.pos w.captured

/-- What ways need, of which any may be taken. -/
def ways (l : List (Branch b m)) : Prop := ∀ w ∈ l, D.way active K w

/-- Matching something smaller first comes to a solution as required. -/
def Solves (solve : Solver b m) : Prop :=
  ∀ active target th h K, D.thread active K th →
    (D.judge active).deems (solve active target th h) fun found =>
      ∀ u, found = some u → K u.stop u.captured

/-- Whatever a goal is worked off to needs no more than the goal. -/
def Obeyed (env : Env) : Prop :=
  ∀ active K g pos captured (solve : Solver env.bounds (g.size env.bounds)), D.Solves solve →
    D.needs active K g pos captured →
      (D.judge active).deems (expand env active pos captured g solve) (D.ways active K)

variable {D active K}

theorem thread_way (goals : List Goal) (w : Branch b m) :
    D.thread active K (w.thread goals) ↔ D.way active (D.goals active K goals) w := by
  show D.goals active K (w.goals ++ goals) _ _ ↔ _
  unfold Discipline.goals
  rw [List.foldr_append]
  exact Iff.rfl

theorem ways_one {w : Branch b m} (h : D.way active K w) : D.ways active K [w] :=
  List.forall_mem_singleton.mpr h

theorem ways_none : D.ways active K ([] : List (Branch b m)) := List.forall_mem_nil _

theorem plain_goals {judge : Active → Run.Judgement} {G : Active → Goal → Prop}
    (hK : ∀ stop c, K stop c) {goals : List Goal} {pos : Int} {captured : Captured} :
    (plain judge G).goals active K goals pos captured ↔ ∀ g ∈ goals, G active g := by
  induction goals generalizing pos captured with
  | nil => exact iff_of_true (hK pos captured) (List.forall_mem_nil _)
  | cons g goals ih =>
    rw [List.forall_mem_cons]
    exact and_congr_right fun _ => ⟨fun h => ih.mp (h pos captured), fun h _ _ => ih.mpr h⟩

/-! ## 4. The search -/

/-- **A search that obeys a discipline is judged as its steps are, and comes to a solution as
    required.** What is left of the agenda still has what it needs, so that the next solution may be
    asked for. -/
theorem Obeyed.seek {env : Env} (obeyed : D.Obeyed env) (active : Active) (target : Option Int)
    (agenda : Agenda) {K : Int → Captured → Prop} (h : ∀ th ∈ agenda, D.thread active K th) :
    (D.judge active).deems (seek env active target agenda) fun found => ∀ r, found = some r →
      K r.1.stop r.1.captured ∧ accepts target r.1.stop = true ∧
        ∀ th ∈ r.2, D.thread active K th := by
  induction active, target, agenda using seek.induct env generalizing K with
  | case1 active target =>
    rw [seek.eq_1]
    exact (D.judge active).result fun _ h => by cases h
  | case2 active target pos captured rest accepted =>
    rw [seek.eq_2, if_pos accepted]
    refine (D.judge active).result fun r hr => ?_
    cases hr
    exact ⟨h _ List.mem_cons_self, accepted, fun th hth => h th (List.mem_cons_of_mem _ hth)⟩
  | case3 active target pos captured rest passed ih =>
    rw [seek.eq_2, if_neg passed]
    exact ih fun th hth => h th (List.mem_cons_of_mem _ hth)
  | case4 active target g goals pos captured rest ihSolve ihWays =>
    rw [seek.eq_3]
    have here : D.needs active (D.goals active K goals) g pos captured := h _ List.mem_cons_self
    refine (D.judge active).next (obeyed active _ g pos captured _ ?_ here) fun ways hways => ?_
    · intro active' target' th below K' hth
      have found := ihSolve active' target' th below (K := K') (List.forall_mem_singleton.mpr hth)
      refine (D.judge active').next found fun found hfound => (D.judge active').result fun u hu => ?_
      obtain ⟨r, hr, rfl⟩ := Option.map_eq_some_iff.mp hu
      exact (hfound r hr).1
    · refine ihWays ways fun th hth => ?_
      rcases List.mem_append.mp hth with hth | hth
      · obtain ⟨w, hw, rfl⟩ := List.mem_map.mp hth
        exact (thread_way goals w).mpr (hways w hw)
      · exact h th (List.mem_cons_of_mem _ hth)

end Discipline

end GrammarMatch.Match
