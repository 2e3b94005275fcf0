/-
  File:      GrammarMatch/Proofs/Awaiting.lean
  Subject:   What is kept of a call that is still active.

  The result of an atomic rule is kept when its body has been tried to the end. While the rule is
  being matched at a position, a search inside keeps nothing of that call: the body is not entered
  there again (`seek_awaits`). So the call is refused wherever it comes up once more.
-/
import GrammarMatch.Proofs.Faults
import GrammarMatch.Proofs.Keeping
import GrammarMatch.Proofs.Moments

namespace GrammarMatch.Match

/-- The rules are as given, and nothing is kept of a call. -/
abbrev State.Awaits (memoize : Bool) (x : Lexicon) (call : String × Int) : State → Prop :=
  State.Keeping (· = x) fun key _ => memoize = true → key ≠ call

/-- Nothing is kept of a call while it is active. -/
def awaiting (memoize : Bool) (x : Lexicon) (call : String × Int) : Discipline :=
  .plain (fun _ => .meeting (State.Awaits memoize x call) fun _ => True) fun active _ =>
    call ∈ active

section Awaiting

variable {memoize : Bool} {x : Lexicon} {call : String × Int} {env : Env}

theorem State.Awaits.free {s : State} (h : s.Awaits memoize x call) (on : memoize = true) :
    s.memo[call]? = none := by
  cases held : s.memo[call]? with
  | none => rfl
  | some v => exact absurd rfl (h.2 call v held on)

/-- A computation that keeps nothing of the call. -/
abbrev Patient (memoize : Bool) (x : Lexicon) (call : String × Int) {α : Type} (r : Run α) : Prop :=
  r.Meets (State.Awaits memoize x call) (fun _ => True) fun _ => True

/-- The body of the call is not entered while it is active, so that no result of it is kept. -/
theorem awaiting_keeper (w : Basis) :
    Keeper w (· = x) (fun key _ => memoize = true → key ≠ call) (fun _ _ _ _ => True)
      (fun _ => True) (awaiting memoize x call).needs where
  literal h _ := h.2 _ _
  charClass h _ := h.2 _ _
  sequence h := (Discipline.plain_goals h.2).mpr fun _ _ => h.1
  branch h _ _ := h
  repetition h := ⟨fun _ => h.2 _ _, fun _ => ⟨h.1, fun _ _ => h⟩⟩
  enclosed h := h
  group h := ⟨h.1, fun _ _ => h⟩
  ahead h _ := ⟨h.1, fun _ _ => trivial⟩
  behind h _ := ⟨h.1, fun _ _ => trivial⟩
  looked h := h.2 _ _
  anchor h _ := h.2 _ _
  ruleRef h := h
  space h _ _ _ := h
  gap h _ _ _ _ _ := h.2 _ _
  leftOpen h _ _ _ _ _ := ⟨h.1, fun _ _ => h⟩
  round h _ := ⟨fun _ => h.2 _ _, fun _ => ⟨h.1, fun _ _ => h⟩⟩
  rest h _ := h.2 _ _
  close h := h.2 _ _
  retreat h := ⟨h, h⟩
  admits _ _ := trivial
  finish h _ _ := h.2 _ _
  body h _ _ _ _ _ _ := ⟨List.mem_cons_of_mem _ h.1, fun _ _ => trivial⟩
  matched h _ _ _ _ fresh _ _ _ _ _ same := fresh (List.contains_iff_mem.mpr (same ▸ h.1))
  missed h _ fresh _ same := fresh (List.contains_iff_mem.mpr (same ▸ h.1))
  kept h _ _ _ _ _ _ _ := h.2 _ _

theorem awaiting_obeyed (env : Env) : (awaiting memoize x call).Obeyed env :=
  (awaiting_keeper (Basis.of env x)).obeyed

/-- **A search keeps nothing of a call that is active.** -/
theorem seek_awaits {active : Active} (mem : call ∈ active) (target : Option Int) (th : Thread) :
    Patient memoize x call (firstOf env active target th) := by
  have goals : (awaiting memoize x call).thread active (fun _ _ => True) th :=
    (Discipline.plain_goals fun _ _ => trivial).mpr fun _ _ => mem
  exact Run.meets_bind ((awaiting_obeyed env).seek active target [th]
    (List.forall_mem_singleton.mpr goals)) fun _ _ => Run.meets_pure trivial

/-- When a body is entered nothing is kept of its call. -/
theorem enters_awaits {active : Active} {name : String} {depth : Nat} {pos : Int}
    {s₀ s : State} {rule : Rule} (h : Enters env active name depth pos s₀ rule s)
    (lexicon : s.lexicon = x) : s.Awaits env.settings.memoize x (rule.name, pos) := by
  refine ⟨lexicon, ?_⟩
  rintro _ v held on rfl
  obtain ⟨s₁, _, missed⟩ := h.known
  let s₂ : State := { s₁ with ruleCalls := s₁.ruleCalls + 1 }
  cases before : s₂.memo[(rule.name, pos)]? with
  | none =>
    have same := EStateM.Result.ok.inj ((Run.remembered_none on before).symm.trans missed)
    rw [← same.2, before] at held
    cases held
  | some kept =>
    cases (EStateM.Result.ok.inj ((Run.remembered_held on before).symm.trans missed)).1

end Awaiting

end GrammarMatch.Match
