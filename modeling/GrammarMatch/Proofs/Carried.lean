/-
  File:      GrammarMatch/Proofs/Carried.lean
  Subject:   What was captured before is carried along.

  A thread carries what it captured so far, and every part adds to it. No part looks at it: the
  solutions from a position are the same whatever was captured before, with that below what they
  captured themselves (`solutions_carry`).
-/
import GrammarMatch.Proofs.Agenda

namespace GrammarMatch.Match

/-- A solution, when something was captured before. -/
def Solution.over (t : Solution) (outer : Captured) : Solution := ⟨t.stop, t.captured ++ outer⟩

@[simp] theorem Solution.over_stop (t : Solution) (outer : Captured) :
    (t.over outer).stop = t.stop := rfl

@[simp] theorem Solution.over_captured (t : Solution) (outer : Captured) :
    (t.over outer).captured = t.captured ++ outer := rfl

theorem Solution.over_over (t : Solution) (inner outer : Captured) :
    (t.over inner).over outer = t.over (inner ++ outer) :=
  congrArg (Solution.mk t.stop) (List.append_assoc _ _ _)

/-! ## 1. Answers that do not depend on what was captured before -/

/-- The answers from a position on are the same whatever was captured before. -/
def Carries (k : Solution → Answers Solution) : Prop :=
  ∀ s, k s = (k ⟨s.stop, []⟩).map (·.over s.captured)

namespace Carries

variable {k : Solution → Answers Solution}

theorem bind {m : Int → Solution → Answers Solution} (hk : Carries k)
    (hm : ∀ pos, Carries (m pos)) : Carries fun s => (k s).bind (m s.stop) := by
  intro s
  show (k s).bind (m s.stop) = ((k ⟨s.stop, []⟩).bind (m s.stop)).bind _
  rw [hk s, Answers.map, Answers.bind_assoc, Answers.bind_assoc]
  refine Answers.bind_congr fun t _ => ?_
  rw [Answers.just_bind, hm s.stop (t.over s.captured), hm s.stop t]
  show _ = ((m s.stop ⟨t.stop, []⟩).bind _).bind _
  rw [Answers.bind_assoc]
  refine Answers.bind_congr fun u _ => ?_
  rw [Answers.just_bind]
  exact congrArg Answers.just (Solution.over_over u t.captured s.captured).symm

theorem append {m : Solution → Answers Solution} (hk : Carries k) (hm : Carries m) :
    Carries fun s => k s ++ m s := by
  intro s
  show k s ++ m s = (k ⟨s.stop, []⟩ ++ m ⟨s.stop, []⟩).bind _
  rw [Answers.append_bind, hk s, hm s]
  rfl

theorem done : Carries fun _ => .done := fun _ => rfl

theorem failed (f : Failure) : Carries fun _ => .failed f := fun _ => rfl

theorem just : Carries Answers.just := fun _ => rfl

/-- Going on at a stop, if there is one. -/
theorem moved (v : Int → Option Int) :
    Carries fun s => match v s.stop with
      | some stop => .just ⟨stop, s.captured⟩
      | none => .done := by
  intro s
  simp only
  cases v s.stop with
  | none => rfl
  | some stop => rfl

theorem only (holds : Int → Bool) : Carries fun s => .only (holds s.stop) s := by
  intro s
  show Answers.only (holds s.stop) s =
    (Answers.only (holds s.stop) (Solution.mk s.stop [])).map (·.over s.captured)
  cases holds s.stop with
  | true => rfl
  | false => rfl

theorem ite {m : Solution → Answers Solution} (p : Int → Prop) [DecidablePred p] (hk : Carries k)
    (hm : Carries m) : Carries fun s => if p s.stop then k s else m s := by
  intro s
  show (if p s.stop then k s else m s) =
    (if p s.stop then k ⟨s.stop, []⟩ else m ⟨s.stop, []⟩).map _
  by_cases h : p s.stop
  · rw [if_pos h, if_pos h]
    exact hk s
  · rw [if_neg h, if_neg h]
    exact hm s

theorem attempt {α : Type} {m : α → Solution → Answers Solution} (v : Int → Except Failure α)
    (hm : ∀ a, Carries (m a)) : Carries fun s => .attempt (v s.stop) fun a => m a s := by
  intro s
  show Answers.attempt (v s.stop) _ = Answers.map _ (.attempt (v s.stop) _)
  cases v s.stop with
  | error f => rfl
  | ok a => exact hm a s

theorem chain {l : List (Solution → Answers Solution)} (h : ∀ k ∈ l, Carries k) :
    Carries (Answers.chain l) := by
  induction l with
  | nil => exact just
  | cons k l ih =>
    obtain ⟨first, others⟩ := List.forall_mem_cons.mp h
    exact first.bind fun _ => ih others

theorem concat {l : List (Solution → Answers Solution)} (h : ∀ k ∈ l, Carries k) :
    Carries fun s => .concat (l.map fun k => k s) := by
  induction l with
  | nil => exact done
  | cons k l ih =>
    obtain ⟨first, others⟩ := List.forall_mem_cons.mp h
    exact first.append (ih others)

end Carries

/-! ## 2. Parts -/

theorem rounds_carry {q : Quantity} {k : Solution → Answers Solution} (hk : Carries k)
    (left count : Nat) : Carries (rounds q k left count) := by
  induction left generalizing count with
  | zero => exact .done
  | succ left ih =>
    refine (Carries.append (.only fun _ => !q.greedy && q.mayStop count) ?_).append
      (.only fun _ => q.greedy && q.mayStop count)
    by_cases more : q.mayGoOn count = true
    · simp only [if_pos more]
      exact hk.bind fun pos => .ite (· = pos) .just (ih (count + 1))
    · simp only [if_neg more]
      exact .done

/-- The longest of solutions with something captured before. -/
theorem longestFirst_over (found : List (Option Solution)) (outer : Captured) :
    longestFirst (found.map (Option.map (·.over outer))) =
      (longestFirst found).map (·.over outer) := by
  have present : (found.map (Option.map (·.over outer))).filterMap id =
      (found.filterMap id).map (·.over outer) := by
    rw [List.filterMap_map, List.map_filterMap]
    exact congrArg (List.filterMap · found) (funext fun o => rfl)
  unfold longestFirst
  rw [present]
  exact (List.map_mergeSort (f := fun t : Solution => t.over outer) fun _ _ _ _ => rfl).symm

/-- The first solutions of branches with something captured before. -/
theorem mapM_firsts {k : Pattern → Solution → Answers Solution} {branches : List Pattern}
    (h : ∀ p ∈ branches, Carries (k p)) (s : Solution) :
    branches.mapM (fun p => (k p s).first) =
      (branches.mapM fun p => (k p ⟨s.stop, []⟩).first).map
        (List.map (Option.map (·.over s.captured))) := by
  induction branches with
  | nil => rfl
  | cons p branches ih =>
    obtain ⟨first, others⟩ := List.forall_mem_cons.mp h
    rw [List.mapM_cons, List.mapM_cons, ih others, first s, Answers.first_map]
    cases (k p ⟨s.stop, []⟩).first with
    | error f => rfl
    | ok o =>
      cases branches.mapM fun p => (k p ⟨s.stop, []⟩).first with
      | error f => rfl
      | ok found => rfl

section Parts

variable {w : Basis} {inner : Inner}

theorem settled_carries (key : Option CaptureKey) (v : Verdict) :
    Carries fun s => Basis.settled key s v := by
  intro s
  cases v with
  | none => rfl
  | some v =>
    cases key with
    | none => rfl
    | some key => rfl

theorem closed_carries (rule : Rule) (key : Option CaptureKey) (start : Int) (outer : Captured)
    (t : Solution) :
    w.closed rule key start outer t = (w.closed rule key start [] t).map (·.over outer) := by
  unfold Basis.closed
  cases w.finished rule start t with
  | error f => rfl
  | ok c =>
    cases key with
    | none => rfl
    | some key => rfl

theorem call_carries (active : Active) (name : String) (key : Option CaptureKey) :
    Carries (w.call inner active name key) := by
  refine Carries.attempt (fun _ => w.lexicon.rules name) fun rule => ?_
  by_cases atomic : rule.kind.atomic = true
  · simp only [if_pos atomic]
    exact Carries.attempt (fun pos => w.verdict inner active rule pos) fun v =>
      settled_carries key v
  · simp only [if_neg atomic]
    intro s
    show Answers.bind _ _ = (Answers.bind _ _).bind _
    rw [Answers.bind_assoc]
    exact Answers.bind_congr fun t _ => closed_carries rule key s.stop s.captured t

/-- One level of nesting carries along what the levels below it do. -/
theorem part_carries (h : ∀ active p, Carries (inner active p)) (active : Active) (p : Pattern) :
    Carries fun s => w.part inner active s p := by
  cases p with
  | literal chars ignoreCase =>
    exact Carries.moved fun pos => literalStop? w.env.text chars ignoreCase pos
  | charClass items negated ignoreCase =>
    refine Carries.attempt (fun pos => classHolds w.env.text items negated ignoreCase pos) ?_
    intro holds s
    cases holds with
    | true => rfl
    | false => rfl
  | sequence parts =>
    refine Carries.chain fun k hk => ?_
    obtain ⟨p, _, rfl⟩ := List.mem_map.mp hk
    exact h active p
  | alternation mode branches =>
    cases mode with
    | ordered =>
      have branch : ∀ k ∈ branches.map (inner active), Carries k := by
        intro k hk
        obtain ⟨p, _, rfl⟩ := List.mem_map.mp hk
        exact h active p
      have := Carries.concat branch
      simp only [List.map_map] at this
      exact this
    | longest =>
      intro s
      unfold Basis.part
      simp only
      rw [mapM_firsts (k := inner active) (fun p _ => h active p) s]
      cases branches.mapM fun p => (inner active p ⟨s.stop, []⟩).first with
      | error f => rfl
      | ok found =>
        show Answers.ofList (longestFirst (found.map _)) = Answers.map _ (.ofList _)
        rw [longestFirst_over, Answers.ofList_map]
  | repetition q body =>
    intro s
    exact rounds_carry (h active body) (w.roundsLeft s.stop) 0 s
  | group key plural body =>
    cases key with
    | none => exact h active body
    | some key =>
      intro s
      show Answers.map _ _ = Answers.map _ (Answers.map _ _)
      unfold Answers.map
      rw [Answers.bind_assoc]
      exact Answers.bind_congr fun t _ => rfl
  | look kind body =>
    exact Carries.attempt (fun pos => Basis.looked inner active kind body pos) fun found =>
      .only fun _ => found.isSome != kind.negative
  | anchor kind =>
    exact Carries.attempt (fun pos => anchorHolds w.env.text pos kind) fun holds =>
      .only fun _ => holds
  | ruleRef r => exact call_carries active r.name r.key?
  | whitespace =>
    unfold Basis.part
    by_cases own : w.lexicon.space = true
    · simp only [if_pos own]
      exact call_carries active "ws" none
    · simp only [if_neg own]
      exact Carries.attempt (fun pos => gapStop? w.env.text pos) fun stop => .moved fun _ => stop

theorem eval_carries (levels depth : Nat) (active : Active) (p : Pattern) :
    Carries (w.eval levels depth active p) := by
  induction levels generalizing depth active p with
  | zero => exact Carries.attempt (fun pos => w.entry depth pos) fun _ => .failed _
  | succ levels ih =>
    exact Carries.attempt (fun pos => w.entry depth pos) fun _ =>
      part_carries (fun active p => ih (depth + 1) active p) active p

/-- **What was captured before is carried along**, and no solution depends on it. -/
theorem solutions_carry (w : Basis) (depth : Nat) (active : Active) (p : Pattern) :
    Carries (w.solutions depth active p) := eval_carries _ depth active p

end Parts

end GrammarMatch.Match
