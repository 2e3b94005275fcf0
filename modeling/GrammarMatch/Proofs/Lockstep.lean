/-
  File:      GrammarMatch/Proofs/Lockstep.lean
  Subject:   Two searches of one text that go in step.

  A correspondence says which states and which captures of two searches belong together, how deep
  both may be, and for which failures the second one may be given up before the first. Two searches
  go in step if every step that touches more than the text does so (`Lockstep`): then the whole
  searches correspond, whatever they go through (`Lockstep.seek`, `Lockstep.query`). The first
  search is followed from moment to moment, so that a step may count on what it has come to.
-/
import GrammarMatch.Proofs.Moments
import GrammarMatch.Proofs.Peaks
import Mathlib.Data.List.Forall2

namespace GrammarMatch.Match

/-! ## 1. What corresponds -/

/-- What belongs together in two searches. -/
structure Correspondence where
  /-- States that belong together. -/
  same : State → State → Prop
  /-- Captures that belong together. -/
  captures : Capture → Capture → Prop
  /-- A failure for which the second search may be given up before the first. -/
  stops : Failure → Prop
  /-- A depth at which both searches may come to a part. -/
  part : Nat → Prop
  /-- A depth at which both searches may work something off. -/
  level : Nat → Prop
  /-- How much deeper the second search is than the first. -/
  deeper : Nat := 0

namespace Correspondence

variable (C : Correspondence)

/-- What was captured in one scope. -/
abbrev captured : Captured → Captured → Prop :=
  List.Forall₂ fun e e' => e.1 = e'.1 ∧ C.captures e.2 e'.2

/-- Solutions with the same end. -/
def solution (u u' : Solution) : Prop := u.stop = u'.stop ∧ C.captured u.captured u'.captured

/-- Results of an atomic rule with the same end. -/
abbrev verdict : Verdict → Verdict → Prop :=
  Option.Rel fun v v' => v.1 = v'.1 ∧ C.captures v.2 v'.2

/-- What was found with the same end. -/
def found (u u' : Found) : Prop := u.stop = u'.stop ∧ C.captures u.capture u'.capture

/-- The same goal, but for how deep it is and what was captured before. -/
inductive goal : Goal → Goal → Prop
  | part {p : Pattern} {depth : Nat} (h : C.part depth) :
      goal (.part p depth) (.part p (depth + C.deeper))
  | call {name : String} {key : Option CaptureKey} {depth : Nat} (h : C.level depth) :
      goal (.call name key depth) (.call name key (depth + C.deeper))
  | round {q : Quantity} {body : Pattern} {count : Nat} {opened : Int} {depth : Nat}
      (h : C.level depth) :
      goal (.round q body count opened depth) (.round q body count opened (depth + C.deeper))
  | close {key : CaptureKey} {plural : List CaptureKey} {opened : Int} {outer outer' : Captured}
      (h : C.captured outer outer') :
      goal (.close key plural opened outer) (.close key plural opened outer')
  | finish {rule : Rule} {key : Option CaptureKey} {opened : Int} {outer outer' : Captured}
      (h : C.captured outer outer') :
      goal (.finish rule key opened outer) (.finish rule key opened outer')
  | retreat {body : Pattern} {left depth : Nat} (h : C.level depth) :
      goal (.retreat body left depth) (.retreat body left (depth + C.deeper))

/-- Threads with the same goals at the same position. -/
structure thread (th th' : Thread) : Prop where
  goals : List.Forall₂ C.goal th.goals th'.goals
  pos : th.pos = th'.pos
  captured : C.captured th.captured th'.captured

variable {b b' : Bounds} {m m' : Nat × Nat}

/-- Ways with the same goals from the same position on. -/
structure way (w : Branch b m) (w' : Branch b' m') : Prop where
  goals : List.Forall₂ C.goal w.goals w'.goals
  pos : w.pos = w'.pos
  captured : C.captured w.captured w'.captured

/-- The same ways in the same order. -/
abbrev ways : List (Branch b m) → List (Branch b' m') → Prop := List.Forall₂ C.way

/-! ## 2. Computations -/

variable {α α' β β' γ : Type} {R : α → α' → Prop} {Q : β → β' → Prop} {s s' : State}

/-- Two computations come to what corresponds, or to the same failure, in states that belong
    together, unless the second is given up. -/
inductive Pace (R : α → α' → Prop) :
    EStateM.Result Failure State α → EStateM.Result Failure State α' → Prop
  | stopped {r : EStateM.Result Failure State α} {f : Failure} {s : State} (h : C.stops f) :
      Pace R r (.error f s)
  | ok {a : α} {a' : α'} {s s' : State} (h : R a a') (same : C.same s s') :
      Pace R (.ok a s) (.ok a' s')
  | failed {f : Failure} {s s' : State} (same : C.same s s') : Pace R (.error f s) (.error f s')

variable {C}

theorem pace_pure {a : α} {a' : α'} (h : R a a') (same : C.same s s') :
    C.Pace R ((pure a : Run α) s) ((pure a' : Run α') s') := .ok h same

theorem pace_throw {f : Failure} (same : C.same s s') :
    C.Pace R ((throw f : Run α) s) ((throw f : Run α') s') := .failed same

theorem Pace.mono {R' : α → α' → Prop} {r : EStateM.Result Failure State α}
    {r' : EStateM.Result Failure State α'} (h : C.Pace R r r') (hR : ∀ a a', R a a' → R' a a') :
    C.Pace R' r r' := by
  cases h with
  | stopped h => exact .stopped h
  | ok h same => exact .ok (hR _ _ h) same
  | failed same => exact .failed same

theorem pace_bind {x : Run α} {y : Run α'} {k : α → Run β} {l : α' → Run β'}
    (h : C.Pace R (x s) (y s'))
    (hk : ∀ a a' t t', R a a' → C.same t t' → x s = .ok a t → C.Pace Q (k a t) (l a' t')) :
    C.Pace Q ((x >>= k) s) ((y >>= l) s') := by
  simp only [bind, EStateM.bind]
  generalize hx : x s = r at h hk ⊢
  generalize y s' = r' at h ⊢
  cases h with
  | stopped h => exact .stopped h
  | ok h same => exact hk _ _ _ _ h same rfl
  | failed same => exact .failed same

/-- The same test of the text. -/
theorem pace_ofExcept (v : Except Failure α) (same : C.same s s') :
    C.Pace Eq (Run.ofExcept v s) (Run.ofExcept v s') := by
  cases v with
  | ok a => exact .ok rfl same
  | error f => exact .failed same

/-- One after the other, where each may count on what came before it. -/
theorem pace_mapM {x : γ → Run α} {y : γ → Run α'} {l : List γ} (same : C.same s s')
    (h : ∀ before c after done t t', l = before ++ c :: after → before.mapM x s = .ok done t →
      C.same t t' → C.Pace R (x c t) (y c t')) :
    C.Pace (List.Forall₂ R) (l.mapM x s) (l.mapM y s') := by
  induction l generalizing s s' with
  | nil =>
    rw [List.mapM_nil, List.mapM_nil]
    exact pace_pure .nil same
  | cons c l ih =>
    rw [List.mapM_cons, List.mapM_cons]
    have first : C.Pace R (x c s) (y c s') := h [] c l [] s s' rfl (by rw [List.mapM_nil]; rfl) same
    refine pace_bind first fun a a' t t' ha same' hx => ?_
    refine pace_bind (ih same' ?_) fun l l' u u' hl same'' _ => pace_pure (.cons ha hl) same''
    intro before d after done v v' hl hdone same''
    refine h (c :: before) d after (a :: done) v v' (congrArg (c :: ·) hl) ?_ same''
    rw [List.mapM_cons]
    exact (Run.bind_ok hx).trans ((Run.bind_ok hdone).trans rfl)

/-- Where there is room for another level in the first search, but there may be none in the
    second. -/
theorem pace_level {depth depth' limit limit' : Nat} (le : depth' ≤ limit' → depth ≤ limit)
    (full : limit' < depth' → depth ≤ limit → C.stops .stackExhausted) (same : C.same s s')
    {x : depth ≤ limit → Run α} {y : depth' ≤ limit' → Run α'}
    (h : ∀ room room', C.Pace R (x room s) (y room' s')) :
    C.Pace R ((if room : depth ≤ limit then x room else throw .stackExhausted) s)
      ((if room : depth' ≤ limit' then y room else throw .stackExhausted) s') := by
  by_cases room' : depth' ≤ limit'
  · have room : depth ≤ limit := le room'
    rw [dif_pos room, dif_pos room']
    exact h room room'
  · rw [dif_neg room']
    by_cases room : depth ≤ limit
    · exact .stopped (full (Nat.lt_of_not_le room') room)
    · rw [dif_neg room]
      exact pace_throw same

/-! ## 3. Ways -/

theorem captured_under {key : Option CaptureKey} {c c' : Capture} {outer outer' : Captured}
    (h : C.captures c c') (ho : C.captured outer outer') :
    C.captured (capturedUnder key c outer) (capturedUnder key c' outer') := by
  cases key with
  | none => exact ho
  | some key => exact .cons ⟨rfl, h⟩ ho

theorem thread_way {goals goals' : List Goal} {w : Branch b m} {w' : Branch b' m'}
    (hw : C.way w w') (hgoals : List.Forall₂ C.goal goals goals') :
    C.thread (w.thread goals) (w'.thread goals') :=
  ⟨List.rel_append hw.goals hgoals, hw.pos, hw.captured⟩

theorem way_one {w : Branch b m} {w' : Branch b' m'} (h : C.way w w') : C.ways [w] [w'] :=
  .cons h .nil

/-- A part one level below goals that belong together. -/
theorem goal_part {p : Pattern} {depth : Nat} (part : C.part (depth + 1)) :
    C.goal (.part p (depth + 1)) (.part p (depth + C.deeper + 1)) := by
  rw [Nat.add_right_comm]
  exact .part part

section Tests

variable (env env' : Env) {pos : Int} {captured captured' : Captured}
  (caps : C.captured captured captured')

include caps

theorem ways_wayIf (holds : Bool) :
    C.ways (wayIf env holds pos captured : List (Branch env.bounds m))
      (wayIf env' holds pos captured' : List (Branch env'.bounds m')) := by
  cases holds with
  | true => exact way_one ⟨.nil, rfl, caps⟩
  | false => exact .nil

theorem ways_choices {q : Quantity} {body : Pattern} {count depth : Nat} (part : C.part (depth + 1))
    (level : C.level depth) {hp : (Goal.part body (depth + 1)).Under env.bounds m}
    {hr : (Goal.round q body count pos depth).Under env.bounds m}
    {hp' : (Goal.part body (depth + C.deeper + 1)).Under env'.bounds m'}
    {hr' : (Goal.round q body count pos (depth + C.deeper)).Under env'.bounds m'} :
    C.ways (choices env q body count depth pos captured hp hr)
      (choices env' q body count (depth + C.deeper) pos captured' hp' hr') := by
  have stop : C.ways
      (wayIf env (q.mayStop count) pos captured : List (Branch env.bounds m))
      (wayIf env' (q.mayStop count) pos captured' : List (Branch env'.bounds m')) :=
    ways_wayIf env env' caps _
  have goOn : C.ways
      (if q.mayGoOn count then
        [Branch.both (.part body (depth + 1)) (.round q body count pos depth) hp hr pos captured]
      else [])
      (if q.mayGoOn count then
        [Branch.both (.part body (depth + C.deeper + 1))
          (.round q body count pos (depth + C.deeper)) hp' hr' pos captured']
      else []) := by
    cases q.mayGoOn count with
    | true => exact way_one ⟨.cons (goal_part part) (.cons (.round level) .nil), rfl, caps⟩
    | false => exact .nil
  show C.ways (if q.greedy then (if q.mayGoOn count then _ else _) ++ wayIf env _ _ _
      else wayIf env _ _ _ ++ (if q.mayGoOn count then _ else _))
    (if q.greedy then (if q.mayGoOn count then _ else _) ++ wayIf env' _ _ _
      else wayIf env' _ _ _ ++ (if q.mayGoOn count then _ else _))
  cases q.greedy with
  | true => exact List.rel_append goOn stop
  | false => exact List.rel_append stop goOn

end Tests

/-- Pairs that are ordered alike by their ends stay pairs when the longest come first. -/
theorem longestFirst_pairs {Q : Solution → Solution → Prop}
    (order : ∀ a a' b b', Q a a' → Q b b' → (b.stop ≤ a.stop ↔ b'.stop ≤ a'.stop))
    {found found' : List (Option Solution)} (h : List.Forall₂ (Option.Rel Q) found found') :
    List.Forall₂ Q (longestFirst found) (longestFirst found') := by
  have kept : List.Forall₂ Q (found.filterMap id) (found'.filterMap id) :=
    List.rel_filterMap (fun _ _ h => h) h
  unfold longestFirst
  obtain ⟨length, pairs⟩ := List.forall₂_iff_zip.mp kept
  generalize found.filterMap id = l at kept length pairs ⊢
  generalize found'.filterMap id = l' at kept length pairs ⊢
  -- the pairs are sorted as either side is, since they are ordered alike
  let sorted := (l.zip l').mergeSort fun a b => b.1.stop ≤ a.1.stop
  have left : sorted.map Prod.fst = l.mergeSort fun a b => b.stop ≤ a.stop := by
    have sort := List.map_mergeSort (f := Prod.fst) (l := l.zip l')
      (r := fun a b => b.1.stop ≤ a.1.stop) (s := fun a b => b.stop ≤ a.stop) fun _ _ _ _ => rfl
    rwa [List.map_fst_zip (Nat.le_of_eq length)] at sort
  have right : sorted.map Prod.snd = l'.mergeSort fun a b => b.stop ≤ a.stop := by
    have sort := List.map_mergeSort (f := Prod.snd) (l := l.zip l')
      (r := fun a b => b.1.stop ≤ a.1.stop) (s := fun a b => b.stop ≤ a.stop) fun a ha b hb =>
        decide_eq_decide.mpr (order _ _ _ _ (pairs ha) (pairs hb))
    rwa [List.map_snd_zip (Nat.le_of_eq length.symm)] at sort
  rw [← left, ← right, List.forall₂_map_left_iff, List.forall₂_map_right_iff]
  refine List.forall₂_same.mpr fun a ha => ?_
  exact pairs (List.mem_mergeSort.mp ha)

/-- Solutions that belong together stay so when the longest come first. -/
theorem longestFirst_solutions {found found' : List (Option Solution)}
    (h : List.Forall₂ (Option.Rel C.solution) found found') :
    List.Forall₂ C.solution (longestFirst found) (longestFirst found') :=
  longestFirst_pairs (fun _ _ _ _ ha hb => by rw [ha.1, hb.1]) h

end Correspondence

/-! ## 4. Searches -/

/-- Two searches of the same text go in step: every step that touches more than the text does. The
    second may have less room, if it may be given up when it runs out of it. -/
structure Lockstep (env env' : Env) (start : Moment) (C : Correspondence) : Prop where
  text : env'.text = env.text
  room : env'.settings.room ≤ env.settings.room + C.deeper
  full {depth} (beyond : env'.settings.room < depth + C.deeper)
    (room : depth ≤ env.settings.room) : C.stops .stackExhausted
  first : C.part 1 ∧ C.level 1
  next {depth} (h : C.level depth) : C.part (depth + 1)
  build {name opened stop plural captured captured'} (h : C.captured captured captured') :
    C.captures (.build name opened stop plural none captured)
      (.build name opened stop plural none captured')
  enter {active target p depth goals pos captured rest s s'}
    (h : Reaches env start ⟨active, target, ⟨.part p depth :: goals, pos, captured⟩ :: rest, s⟩)
    (part : C.part depth) (same : C.same s s') :
    C.Pace (fun _ _ => C.level depth) (Run.enter env depth pos s)
      (Run.enter env' (depth + C.deeper) pos s')
  lookup (name) {s s'} (same : C.same s s') :
    C.Pace Eq (Run.lookup name s) (Run.lookup name s')
  space {s s'} (same : C.same s s') : C.Pace Eq (Run.definesSpace s) (Run.definesSpace s')
  count {s s'} (same : C.same s s') : C.Pace Eq (Run.countCall s) (Run.countCall s')
  remembered (name pos) {s s'} (same : C.same s s') :
    C.Pace (Option.Rel C.verdict) (Run.remembered env name pos s) (Run.remembered env' name pos s')
  reenter (name pos) {s s'} (same : C.same s s') :
    C.Pace Eq (Run.log (.reentered name pos) s) (Run.log (.reentered name pos) s')
  settle (name pos) {v v' s s'} (hv : C.verdict v v') (same : C.same s s') :
    C.Pace Eq (Run.settle env name pos v s) (Run.settle env' name pos v' s')
  finish {rule opened stop captured captured' s s'}
    (given : Given env start rule (node rule opened stop captured))
    (caps : C.captured captured captured') (same : C.same s s') :
    C.Pace C.captures (Run.finish env rule opened stop captured s)
      (Run.finish env' rule opened stop captured' s')
  note (name pos matched) {s s'} (same : C.same s s') :
    C.Pace Eq (Run.logRun name pos matched s) (Run.logRun name pos matched s')

namespace Lockstep

variable {env env' : Env} {start : Moment} {C : Correspondence} (L : Lockstep env env' start C)

/-- Searches inside the first goal correspond, if their goals are below a size. -/
def Inner (env env' : Env) (start : Moment) (C : Correspondence) (m : Nat × Nat) : Prop :=
  ∀ active target th th' s s', (∀ h ∈ th.goals, h.Under env.bounds m) → C.thread th th' →
    C.same s s' → Reaches env start ⟨active, target, [th], s⟩ →
      C.Pace (Option.Rel C.solution) (firstOf env active target th s)
        (firstOf env' active target th' s')

open Correspondence

/-- The first solution is what a search of its own comes to. -/
theorem pace_firstOf {active : Active} {target : Option Int} {th th' : Thread} {s s' : State}
    (h : C.Pace (Option.Rel fun r r' => C.solution r.1 r'.1) (Match.seek env active target [th] s)
      (Match.seek env' active target [th'] s')) :
    C.Pace (Option.Rel C.solution) (firstOf env active target th s)
      (firstOf env' active target th' s') := by
  refine pace_bind h fun found found' _ _ h after _ => pace_pure ?_ after
  cases h with
  | none => exact .none
  | some h => exact .some h

variable {active : Active} {target : Option Int} {goals : List Goal} {pos : Int}
  {captured captured' : Captured} {rest : Agenda} {depth : Nat} {s₀ s s' : State}
  (room : depth ≤ env.bounds.room) (room' : depth + C.deeper ≤ env'.bounds.room)

/-- What a test comes to goes in step. -/
theorem pace_wayIf (caps : C.captured captured captured') (same : C.same s s') (holds : Bool)
    (pos : Int) :
    C.Pace C.ways
      ((pure (wayIf env holds pos captured) :
        Run (List (Branch env.bounds (Goal.partSize env.bounds depth)))) s)
      ((pure (wayIf env' holds pos captured') :
        Run (List (Branch env'.bounds (Goal.partSize env'.bounds (depth + C.deeper))))) s') :=
  pace_pure (ways_wayIf env env' caps holds) same

include L

/-- Where there is room for a level in the second search, there is in the first. -/
theorem fits (h : depth + C.deeper ≤ env'.bounds.room) : depth ≤ env.bounds.room :=
  Nat.le_of_add_le_add_right (Nat.le_trans h L.room)

/-- The longest branches go in step if the search of each branch does. -/
theorem expandLongest {branches : List Pattern}
    (inner : Inner env env' start C (Goal.partSize env.bounds depth))
    (reached : Reaches env start
      ⟨active, target, ⟨.part (.alternation .longest branches) depth :: goals, pos, captured⟩ ::
        rest, s₀⟩)
    (entered : Run.enter env depth pos s₀ = .ok () s) (level : C.level depth)
    (caps : C.captured captured captured') (same : C.same s s') :
    C.Pace C.ways
      (expandPart env active depth room pos captured (solver env) (.alternation .longest branches) s)
      (expandPart env' active (depth + C.deeper) room' pos captured' (solver env')
        (.alternation .longest branches) s') := by
  refine pace_bind (R := List.Forall₂ (Option.Rel C.solution)) (pace_mapM same ?_)
    fun found found' t t' h later _ => pace_pure ?_ later
  · intro before p after done t t' split tried later
    subst split
    refine inner _ _ _ _ _ _ ?_ ⟨.cons (goal_part (L.next level)) .nil, rfl, caps⟩ later ?_
    · exact List.forall_mem_singleton.mpr (Goal.part_under_part room p)
    · exact reached.tail (.inner (.branch room entered tried))
  · rw [Correspondence.ways, List.forall₂_map_left_iff, List.forall₂_map_right_iff]
    exact (longestFirst_solutions h).imp fun u u' hu => ⟨.nil, hu.1, hu.2⟩

/-- Looking around goes in step if the search inside does. -/
theorem expandLook {kind : LookKind} {body : Pattern}
    (inner : Inner env env' start C (Goal.partSize env.bounds depth))
    (reached : Reaches env start
      ⟨active, target, ⟨.part (.look kind body) depth :: goals, pos, captured⟩ :: rest, s₀⟩)
    (entered : Run.enter env depth pos s₀ = .ok () s) (level : C.level depth)
    (caps : C.captured captured captured') (same : C.same s s') :
    C.Pace C.ways (expandPart env active depth room pos captured (solver env) (.look kind body) s)
      (expandPart env' active (depth + C.deeper) room' pos captured' (solver env')
        (.look kind body) s') := by
  have answer {t t' : State} {found found' : Option Solution}
      (h : Option.Rel C.solution found found') (later : C.same t t') :
      C.Pace C.ways
        ((pure (wayIf env (found.isSome != kind.negative) pos captured) :
          Run (List (Branch env.bounds (Goal.partSize env.bounds depth)))) t)
        ((pure (wayIf env' (found'.isSome != kind.negative) pos captured') :
          Run (List (Branch env'.bounds
            (Goal.partSize env'.bounds (depth + C.deeper))))) t') := by
    have alike : found'.isSome = found.isSome := by
      cases h with
      | none => rfl
      | some _ => rfl
    rw [alike]
    exact pace_wayIf caps later _ pos
  simp only [Match.expandPart]
  by_cases hk : kind.backward = true
  · rw [if_pos hk, if_pos hk]
    refine pace_bind (R := Option.Rel C.solution) (inner _ _ _ _ _ _ ?_ ?_ same ?_)
      fun _ _ _ _ h later _ => answer h later
    · exact List.forall_mem_singleton.mpr (Goal.retreat_under_part body _ depth)
    · exact ⟨.cons (.retreat level) .nil, rfl, .nil⟩
    · exact reached.tail (.inner (.behind room entered hk))
  · rw [if_neg hk, if_neg hk]
    refine pace_bind (R := Option.Rel C.solution) (inner _ _ _ _ _ _ ?_ ?_ same ?_)
      fun _ _ _ _ h later _ => answer h later
    · exact List.forall_mem_singleton.mpr (Goal.part_under_part room body)
    · exact ⟨.cons (goal_part (L.next level)) .nil, rfl, .nil⟩
    · exact reached.tail (.inner (.ahead room entered hk))

theorem expandPart {p : Pattern} (inner : Inner env env' start C (Goal.partSize env.bounds depth))
    (reached : Reaches env start
      ⟨active, target, ⟨.part p depth :: goals, pos, captured⟩ :: rest, s₀⟩)
    (entered : Run.enter env depth pos s₀ = .ok () s) (level : C.level depth)
    (caps : C.captured captured captured') (same : C.same s s') :
    C.Pace C.ways (expandPart env active depth room pos captured (solver env) p s)
      (expandPart env' active (depth + C.deeper) room' pos captured' (solver env') p s') := by
  have next := L.next level
  have part (p : Pattern) : C.goal (.part p (depth + 1)) (.part p (depth + C.deeper + 1)) :=
    goal_part next
  cases p with
  | literal chars ignoreCase =>
    simp only [Match.expandPart]
    rw [L.text]
    cases literalStop? env.text chars ignoreCase pos with
    | none => exact pace_pure .nil same
    | some stop => exact pace_pure (way_one ⟨.nil, rfl, caps⟩) same
  | charClass items negated ignoreCase =>
    simp only [Match.expandPart]
    rw [L.text]
    refine pace_bind (pace_ofExcept _ same) fun holds _ t t' same' later _ => ?_
    subst same'
    exact pace_wayIf caps later holds _
  | sequence parts =>
    refine pace_pure (way_one ⟨?_, rfl, caps⟩) same
    rw [List.forall₂_map_left_iff, List.forall₂_map_right_iff]
    exact List.forall₂_same.mpr fun p _ => part p
  | alternation mode branches =>
    cases mode with
    | ordered =>
      refine pace_pure ?_ same
      rw [Correspondence.ways, List.forall₂_map_left_iff, List.forall₂_map_right_iff]
      exact List.forall₂_same.mpr fun p _ => ⟨.cons (part p) .nil, rfl, caps⟩
    | longest => exact L.expandLongest room room' inner reached entered level caps same
  | repetition q body => exact pace_pure (ways_choices env env' caps next level) same
  | group key plural body =>
    cases key with
    | none => exact pace_pure (way_one ⟨.cons (part body) .nil, rfl, caps⟩) same
    | some key =>
      exact pace_pure (way_one ⟨.cons (part body) (.cons (.close caps) .nil), rfl, .nil⟩) same
  | look kind body => exact L.expandLook room room' inner reached entered level caps same
  | anchor kind =>
    simp only [Match.expandPart]
    rw [L.text]
    refine pace_bind (pace_ofExcept _ same) fun holds _ t t' same' later _ => ?_
    subst same'
    exact pace_wayIf caps later holds pos
  | ruleRef r => exact pace_pure (way_one ⟨.cons (.call level) .nil, rfl, caps⟩) same
  | whitespace =>
    simp only [Match.expandPart]
    refine pace_bind (L.space same) fun own _ t t' same' later _ => ?_
    subst same'
    cases own with
    | true => exact pace_pure (way_one ⟨.cons (.call level) .nil, rfl, caps⟩) later
    | false =>
      rw [L.text]
      refine pace_bind (pace_ofExcept _ later) fun found _ t t' same' later _ => ?_
      subst same'
      cases found with
      | none => exact pace_pure .nil later
      | some stop => exact pace_pure (way_one ⟨.nil, rfl, caps⟩) later

/-- Results of an atomic rule that was looked up, and its call counted, correspond. -/
theorem verdict {name : String} {key : Option CaptureKey} {rule : Rule} {s₁ : State}
    (inner : Inner env env' start C (Goal.callSize env.bounds depth))
    (reached : Reaches env start
      ⟨active, target, ⟨.call name key depth :: goals, pos, captured⟩ :: rest, s₀⟩)
    (known : Run.lookup name s₀ = .ok rule s₁) (counted : Run.countCall s₁ = .ok () s)
    (atomic : rule.kind.atomic = true) (level : C.level depth) (same : C.same s s') :
    C.Pace C.verdict (verdict env active depth room pos (solver env) rule s)
      (verdict env' active (depth + C.deeper) room' pos (solver env') rule s') := by
  refine pace_bind (L.remembered rule.name pos same) fun kept kept' t t' h later missed => ?_
  cases h with
  | some h => exact pace_pure h later
  | none =>
    by_cases entered : active.contains (rule.name, pos) = true
    · simp only [if_pos entered]
      exact pace_bind (L.reenter rule.name pos later) fun _ _ _ _ _ after _ =>
        pace_pure .none after
    · simp only [if_neg entered]
      have enters : Enters env active name depth pos s₀ rule t := by
        refine ⟨room, ⟨s₁, known, ?_⟩, atomic, entered⟩
        cases counted
        exact missed
      have keep {v v' : Verdict} {t t' : State} (hv : C.verdict v v') (after : C.same t t') :
          C.Pace C.verdict ((do Run.settle env rule.name pos v; return v : Run Verdict) t)
            ((do Run.settle env' rule.name pos v'; return v' : Run Verdict) t') :=
        pace_bind (L.settle rule.name pos hv after) fun _ _ _ _ _ after _ => pace_pure hv after
      refine pace_bind (R := Option.Rel C.solution) (inner _ _ _ _ _ _ ?_ ?_ later ?_)
        fun found found' u u' h after matched => ?_
      · exact List.forall_mem_singleton.mpr (Goal.part_under room rule.pattern 0)
      · exact ⟨.cons (goal_part (L.next level)) .nil, rfl, .nil⟩
      · exact reached.tail (.inner (.body enters))
      · cases h with
        | none => exact keep .none after
        | @some w w' h =>
          have given : Given env start rule (node rule pos w.stop w.captured) :=
            .body reached enters matched
          obtain ⟨stop, captured'⟩ := w'
          obtain ⟨rfl, caps⟩ := h
          exact pace_bind (L.finish given caps after) fun c c' _ _ hc after _ =>
            keep (.some ⟨rfl, hc⟩) after

theorem expandCall {name : String} {key : Option CaptureKey}
    (inner : Inner env env' start C (Goal.callSize env.bounds depth))
    (reached : Reaches env start
      ⟨active, target, ⟨.call name key depth :: goals, pos, captured⟩ :: rest, s⟩)
    (level : C.level depth) (caps : C.captured captured captured') (same : C.same s s') :
    C.Pace C.ways (expandCall env active depth room pos captured (solver env) name key s)
      (expandCall env' active (depth + C.deeper) room' pos captured' (solver env') name key
        s') := by
  refine pace_bind (L.lookup name same) fun rule _ t t' alike later known => ?_
  subst alike
  refine pace_bind (L.count later) fun _ _ u u' _ after counted => ?_
  by_cases atomic : rule.kind.atomic = true
  · simp only [if_pos atomic]
    refine pace_bind (L.verdict room room' inner reached known counted atomic level after)
      fun v v' _ _ h after _ => ?_
    cases h with
    | none => exact pace_pure .nil after
    | some h =>
      refine pace_pure (way_one ⟨.nil, h.1, ?_⟩) after
      exact captured_under h.2 caps
  · simp only [if_neg atomic]
    have goals := goal_part (p := rule.pattern) (L.next level)
    exact pace_pure (way_one ⟨.cons goals (.cons (.finish caps) .nil), rfl, .nil⟩) after

/-- **What a goal is worked off to corresponds.** -/
theorem expand {g g' : Goal} (inner : Inner env env' start C (g.size env.bounds))
    (reached : Reaches env start ⟨active, target, ⟨g :: goals, pos, captured⟩ :: rest, s⟩)
    (hg : C.goal g g') (caps : C.captured captured captured') (same : C.same s s') :
    C.Pace C.ways (expand env active pos captured g (solver env) s)
      (expand env' active pos captured' g' (solver env') s') := by
  have text := L.text
  cases hg with
  | @part p depth part =>
    refine pace_bind (L.enter reached part same) fun _ _ t t' level later entered => ?_
    exact pace_level L.fits L.full later fun room room' =>
      L.expandPart room room' inner reached entered level caps later
  | @call name key depth level =>
    exact pace_level L.fits L.full same fun room room' =>
      L.expandCall room room' inner reached level caps same
  | @round q body count opened depth level =>
    refine pace_level L.fits L.full same fun room room' => ?_
    have stop : env'.bounds.stop = env.bounds.stop := congrArg Text.stop text
    by_cases further : opened < pos ∧ opened < env.bounds.stop
    · rw [dif_pos further, dif_pos (stop.symm ▸ further)]
      exact pace_pure (ways_choices env env' caps (L.next level) level) same
    · rw [dif_neg further, dif_neg (stop.symm ▸ further)]
      exact pace_pure (way_one ⟨.nil, rfl, caps⟩) same
  | close outer =>
    exact pace_pure (way_one ⟨.nil, rfl, .cons ⟨rfl, L.build caps⟩ outer⟩) same
  | finish outer =>
    exact pace_bind (L.finish (.finish reached) caps same) fun c c' _ _ hc later _ =>
      pace_pure (way_one ⟨.nil, rfl, captured_under hc outer⟩) later
  | @retreat body left depth level =>
    cases left with
    | zero => exact pace_pure .nil same
    | succ left =>
      refine pace_level L.fits L.full same fun room room' => pace_pure ?_ same
      exact .cons ⟨.cons (goal_part (L.next level)) .nil, rfl, caps⟩
        (way_one ⟨.cons (.retreat level) .nil, rfl, caps⟩)

/-- **Two searches that go in step correspond**, from any moment that the first one comes to. -/
theorem seek {agenda agenda' : Agenda} (reached : Reaches env start ⟨active, target, agenda, s⟩)
    (h : List.Forall₂ C.thread agenda agenda') (same : C.same s s') :
    C.Pace (Option.Rel fun r r' => C.solution r.1 r'.1) (seek env active target agenda s)
      (seek env' active target agenda' s') := by
  induction active, target, agenda using seek.induct env generalizing agenda' s s' with
  | case1 active target =>
    cases h
    rw [seek.eq_1, seek.eq_1]
    exact pace_pure .none same
  | case2 active target pos captured rest accepted =>
    obtain ⟨⟨_, pos', captured'⟩, rest', ⟨goals, alike, caps⟩, hrest, rfl⟩ :=
      List.forall₂_cons_left_iff.mp h
    cases goals
    subst alike
    rw [seek.eq_2, seek.eq_2, if_pos accepted, if_pos accepted]
    exact pace_pure (.some ⟨rfl, caps⟩) same
  | case3 active target pos captured rest passed ih =>
    obtain ⟨⟨_, pos', captured'⟩, rest', ⟨goals, alike, caps⟩, hrest, rfl⟩ :=
      List.forall₂_cons_left_iff.mp h
    cases goals
    subst alike
    rw [seek.eq_2, seek.eq_2, if_neg passed, if_neg passed]
    exact ih (reached.tail (.passed passed)) hrest same
  | case4 active target g goals pos captured rest ihSolve ihWays =>
    obtain ⟨⟨_, pos', captured'⟩, rest', ⟨all, alike, caps⟩, hrest, rfl⟩ :=
      List.forall₂_cons_left_iff.mp h
    obtain ⟨g', goals', hg, hgoals, rfl⟩ := List.forall₂_cons_left_iff.mp all
    subst alike
    rw [seek_goal, seek_goal]
    refine pace_bind (L.expand ?_ reached hg caps same) fun ways ways' t t' hways later worked => ?_
    · intro active' target' th th' t t' below hth later reached'
      exact pace_firstOf (ihSolve active' target' th below reached' (.cons hth .nil) later)
    · refine ihWays ways (reached.tail (.worked worked)) (List.rel_append ?_ hrest) later
      rw [List.forall₂_map_left_iff, List.forall₂_map_right_iff]
      exact hways.imp fun w w' hw => thread_way hw hgoals

/-- Searches inside a goal correspond. -/
theorem inner (m : Nat × Nat) : Inner env env' start C m :=
  fun _ _ _ _ _ _ _ h same reached => pace_firstOf (L.seek reached (.cons h .nil) same)

end Lockstep

/-- **A query comes to what corresponds in two searches that go in step.** -/
theorem Lockstep.query {env env' : Env} {C : Correspondence} {q : Query} {pos : Int} {s s' : State}
    (L : Lockstep env env' ⟨[], q.target env.text, [⟨[q.goal], pos, []⟩], s⟩ C)
    (level : C.deeper = 0) (same : C.same s s') :
    C.Pace (Option.Rel C.found) (q.run env pos s) (q.run env' pos s') := by
  have depth : 1 = 1 + C.deeper := congrArg (1 + ·) level.symm
  have part (p : Pattern) : C.goal (.part p 1) (.part p 1) := by
    nth_rewrite 2 [depth]
    exact .part L.first.1
  have call (name : String) (key : Option CaptureKey) :
      C.goal (.call name key 1) (.call name key 1) := by
    nth_rewrite 2 [depth]
    exact .call L.first.2
  have start {target : Option Int} (ht : target = q.target env.text) {g : Goal} (hg : g = q.goal)
      (goal : C.goal g g) : C.Pace (Option.Rel fun r r' => C.solution r.1 r'.1)
        (Match.seek env [] target [⟨[g], pos, []⟩] s)
        (Match.seek env' [] target [⟨[g], pos, []⟩] s') := by
    subst ht hg
    exact L.seek .refl (.cons ⟨.cons goal .nil, rfl, .nil⟩ .nil) same
  cases q with
  | pattern p =>
    refine Correspondence.pace_bind (start rfl rfl (part p))
      fun found found' _ _ h later _ => ?_
    cases h with
    | none => exact Correspondence.pace_pure .none later
    | @some r r' h =>
      obtain ⟨⟨stop, captured⟩, rest⟩ := r
      obtain ⟨⟨stop', captured'⟩, rest'⟩ := r'
      obtain ⟨alike, caps⟩ := h
      cases alike
      exact Correspondence.pace_pure (.some ⟨rfl, L.build caps⟩) later
  | rule name anchored =>
    have text : (if anchored then some env'.text.stop else none) =
        (if anchored then some env.text.stop else none) := by rw [L.text]
    simp only [Query.run, Matcher.runRule]
    rw [text]
    refine Correspondence.pace_bind (start rfl rfl (call name _))
      fun found found' _ _ h later _ => ?_
    cases h with
    | none =>
      exact Correspondence.pace_bind (L.note name pos false later) fun _ _ _ _ _ after _ =>
        Correspondence.pace_pure .none after
    | @some r r' h =>
      obtain ⟨⟨stop, captured⟩, rest⟩ := r
      obtain ⟨⟨stop', captured'⟩, rest'⟩ := r'
      obtain ⟨alike, caps⟩ := h
      cases alike
      cases caps with
      | nil =>
        exact Correspondence.pace_bind (L.note name pos false later) fun _ _ _ _ _ after _ =>
          Correspondence.pace_pure .none after
      | cons first _ =>
        exact Correspondence.pace_bind (L.note name pos true later) fun _ _ _ _ _ after _ =>
          Correspondence.pace_pure (.some ⟨rfl, first.2⟩) after

/-- Answers that correspond: the same failure, or what was found with the same end. -/
inductive Correspondence.outcome (C : Correspondence) :
    Except Failure (Option Found) → Except Failure (Option Found) → Prop
  | ok {found found' : Option Found} (h : Option.Rel C.found found found') :
      outcome C (.ok found) (.ok found')
  | error (f : Failure) : outcome C (.error f) (.error f)

/-- **Matchers whose searches go in step answer what corresponds**, unless the second one gives
    up. -/
theorem Lockstep.ask {m m' : Matcher} {C : Correspondence} {q : Query} {pos : Int}
    (L : Lockstep m.env m'.env ⟨[], q.target m.env.text, [⟨[q.goal], pos, []⟩], m.state⟩ C)
    (level : C.deeper = 0) (same : C.same m.state m'.state) :
    (∃ f, C.stops f ∧ (m'.ask q pos).1 = .error f) ∨
      C.outcome (m.ask q pos).1 (m'.ask q pos).1 ∧
        C.same (m.ask q pos).2.state (m'.ask q pos).2.state := by
  have pace := L.query level same
  unfold Matcher.ask Matcher.advance
  generalize q.run m.env pos m.state = r at pace ⊢
  generalize q.run m'.env pos m'.state = r' at pace ⊢
  cases pace with
  | stopped h => exact .inl ⟨_, h, rfl⟩
  | ok h same => exact .inr ⟨.ok h, same⟩
  | failed same => exact .inr ⟨.error _, same⟩

/-! ## 5. Searches that capture the same -/

namespace Correspondence

section Exact

variable {C : Correspondence} (exact : C.captures = Eq)

include exact

theorem captured_iff {captured captured' : Captured} :
    C.captured captured captured' ↔ captured = captured' := by
  have pairs : (fun e e' : CaptureKey × Capture => e.1 = e'.1 ∧ C.captures e.2 e'.2) =
      (· = ·) := by
    funext e e'
    rw [exact, Prod.ext_iff]
  show List.Forall₂ (fun e e' : CaptureKey × Capture => e.1 = e'.1 ∧ C.captures e.2 e'.2) _ _ ↔ _
  rw [pairs, List.forall₂_eq_eq_eq]

theorem verdict_iff {v v' : Verdict} : C.verdict v v' ↔ v = v' := by
  constructor
  · intro h
    cases h with
    | none => rfl
    | some h => exact congrArg some (Prod.ext h.1 (exact ▸ h.2))
  · rintro rfl
    cases v with
    | none => exact .none
    | some v => exact .some ⟨rfl, exact ▸ rfl⟩

theorem solution_eq {u u' : Solution} (h : C.solution u u') : u = u' := by
  obtain ⟨stop, captured⟩ := u
  obtain ⟨rfl, caps⟩ := h
  exact congrArg (Solution.mk u'.stop) ((captured_iff exact).mp caps)

theorem found_eq {found found' : Option Found} (h : Option.Rel C.found found found') :
    found = found' := by
  cases h with
  | none => rfl
  | @some u u' h =>
    obtain ⟨stop, capture⟩ := u
    obtain ⟨rfl, same⟩ := h
    rw [exact] at same
    exact congrArg (fun c => some (Found.mk u'.stop c)) same

theorem outcome_eq {o o' : Except Failure (Option Found)} (h : C.outcome o o') : o = o' := by
  cases h with
  | ok h => exact congrArg Except.ok (found_eq exact h)
  | error f => rfl

end Exact

end Correspondence

/-! ## 6. The same search in other settings -/

/-- The same states and the same captures, as long as something holds of how deep the search has
    been. -/
def Correspondence.alike (holds : Nat → Prop) (stops : Failure → Prop) (part level : Nat → Prop) :
    Correspondence where
  same s s' := s = s' ∧ holds s.peakDepth
  captures := Eq
  stops := stops
  part := part
  level := level

namespace Correspondence

variable {holds : Nat → Prop} {stops : Failure → Prop} {part level : Nat → Prop}

theorem alike_captured {captured captured' : Captured} :
    (alike holds stops part level).captured captured captured' ↔ captured = captured' :=
  captured_iff rfl

theorem alike_verdict {v v' : Verdict} :
    (alike holds stops part level).verdict v v' ↔ v = v' := verdict_iff rfl

theorem alike_outcome {o o' : Except Failure (Option Found)}
    (h : (alike holds stops part level).outcome o o') : o = o' := outcome_eq rfl h

/-- The same step that enters nothing. -/
theorem pace_alike {α : Type} {x : Run α} (flat : x.Flat) {s s' : State}
    (same : (alike holds stops part level).same s s') :
    (alike holds stops part level).Pace Eq (x s) (x s') := by
  obtain ⟨rfl, h⟩ := same
  cases hx : x s with
  | ok a t => exact .ok rfl ⟨rfl, Run.peak_ok hx ▸ (flat s).symm ▸ h⟩
  | error f t => exact .failed ⟨rfl, Run.peak_error hx ▸ (flat s).symm ▸ h⟩

end Correspondence

open Correspondence in
/-- The same search with less room and another limit on nesting goes in step, if entering a part
    does. -/
theorem Lockstep.alike {env : Env} {settings : Settings} {start : Moment} {holds : Nat → Prop}
    {stops : Failure → Prop} {part level : Nat → Prop}
    (memoize : settings.memoize = env.settings.memoize) (room : settings.room ≤ env.settings.room)
    (full : ∀ depth, settings.room < depth → depth ≤ env.settings.room → stops .stackExhausted)
    (first : part 1 ∧ level 1) (next : ∀ depth, level depth → part (depth + 1))
    (enter : ∀ active target p depth goals pos captured rest s,
      Reaches env start ⟨active, target, ⟨.part p depth :: goals, pos, captured⟩ :: rest, s⟩ →
      part depth → holds s.peakDepth → (Correspondence.alike holds stops part level).Pace
        (fun _ _ => level depth) (Run.enter env depth pos s)
          (Run.enter { env with settings } depth pos s)) :
    Lockstep env { env with settings } start (Correspondence.alike holds stops part level) where
  text := rfl
  room := room
  full := full _
  first := first
  next := next _
  build h := by rw [alike_captured.mp h]; rfl
  enter := by
    rintro active target p depth goals pos captured rest s _ reached hpart ⟨rfl, h⟩
    exact enter _ _ _ _ _ _ _ _ _ reached hpart h
  lookup name _ _ same := pace_alike (Run.flat_lookup name) same
  space same := pace_alike Run.flat_definesSpace same
  count same := pace_alike Run.flat_countCall same
  remembered name pos s s' same := by
    have again : Run.remembered { env with settings } name pos = Run.remembered env name pos := by
      unfold Run.remembered
      rw [memoize]
    rw [again]
    refine (pace_alike (Run.flat_remembered env name pos) same).mono fun kept _ h => ?_
    subst h
    cases kept with
    | none => exact .none
    | some v => exact .some (alike_verdict.mpr rfl)
  reenter name pos _ _ same := pace_alike (Run.flat_log _) same
  settle name pos v v' s s' hv same := by
    have again : Run.settle { env with settings } name pos v' = Run.settle env name pos v := by
      unfold Run.settle
      rw [memoize, alike_verdict.mp hv]
    rw [again]
    exact pace_alike (Run.flat_settle env name pos v) same
  finish {rule opened stop captured captured' s s'} _ caps same := by
    have again : Run.finish { env with settings } rule opened stop captured' =
        Run.finish env rule opened stop captured := by
      rw [alike_captured.mp caps]
      rfl
    rw [again]
    exact pace_alike (Run.flat_finish env rule opened stop captured) same
  note name pos matched _ _ same := pace_alike (Run.flat_logRun name pos matched) same

end GrammarMatch.Match
