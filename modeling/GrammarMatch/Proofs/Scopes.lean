/-
  File:      GrammarMatch/Proofs/Scopes.lean
  Subject:   What the search captures, and what it keeps.

  What is to hold of where a goal ends and of what is captured then says what has to hold before
  it (`Goal.Needs`). Whatever a goal is worked off to needs no more than the goal did
  (`scopes_keeper`), so that the search obeys a discipline (`scopes_obeyed`). The results that are
  kept are captures of the part of the text that they stand for, and remain so.
-/
import GrammarMatch.Proofs.Keeping
import GrammarMatch.Proofs.Nesting
import GrammarMatch.Proofs.Query

namespace GrammarMatch.Match

/-! ## 1. What is kept -/

/-- Every result that is kept covers the part of the text that it stands for. -/
def State.Sound (t : Text) (s : State) : Prop :=
  ∀ (name : String) (pos stop : Int) (c : Capture),
    s.memo[(name, pos)]? = some (some (stop, c)) → Spans t pos stop c

/-- A match that is kept covers what it stands for. -/
abbrev Covering (t : Text) : String × Int → Verdict → Prop :=
  Verdict.Matched fun key stop c => Spans t key.2 stop c

theorem sound_eq (t : Text) : State.Sound t = State.Keeping (fun _ => True) (Covering t) :=
  funext fun _ => propext ((keeping_matched (X := fun _ => True)
    (Q := fun key stop c => Spans t key.2 stop c)).trans (and_iff_right trivial)).symm

theorem sound_start (t : Text) (registry : Option Registry) :
    State.Sound t { registry } := by
  rw [sound_eq]
  exact keeping_start trivial

theorem sound_steady {t : Text} {s s' : State} (steady : s.Steady s') (sound : s.Sound t) :
    s'.Sound t := by
  rw [sound_eq] at sound ⊢
  exact keeping_steady steady sound

/-- The capture of a rule covers what its body matched. -/
theorem spans_finished {w : Basis} {rule : Rule} {t : Text} {start : Int} {u : Solution}
    (h : InScope t start u.stop u.captured) {c : Capture}
    (hc : w.finished rule start u = .ok c) : Spans t start u.stop c := by
  have built := h.build (some (.name rule.name)) rule.plural (some rule.name)
  unfold Basis.finished Actions.invoke at hc
  split at hc
  · cases hc
    exact built
  · split at hc
    · cases hc
      exact built.make _
    · cases hc
    · cases hc

/-- What is kept stays sound, and a result is as required. -/
abbrev Run.Keeps {α : Type} (t : Text) (x : Run α) (P : α → Prop) : Prop :=
  x.Meets (State.Sound t) (fun _ => True) P

/-! ## 2. What goals need -/

section Needs

variable (t : Text)

/-- A scope has come this far, and all that matters of it is that it goes on. -/
def Continues (K : Int → Captured → Prop) (pos : Int) (captured : Captured) : Prop :=
  ∃ start, InScope t start pos captured ∧
    ∀ stop captured', InScope t start stop captured' → K stop captured'

/-- What a goal needs at a position, and of what is captured there, so that something holds of
    where it ends and of what is captured then. -/
def Goal.Needs (K : Int → Captured → Prop) : Goal → Int → Captured → Prop
  | .part _ _, pos, captured => Continues t K pos captured
  | .round _ _ _ _ _, pos, captured => Continues t K pos captured
  | .call _ key _, pos, captured =>
    ∀ stop c, Spans t pos stop c → K stop (capturedUnder key c captured)
  | .close key _ start outer, pos, captured =>
    InScope t start pos captured ∧ ∀ c, Spans t start pos c → K pos ((key, c) :: outer)
  | .finish _ key start outer, pos, captured =>
    InScope t start pos captured ∧ ∀ c, Spans t start pos c → K pos (capturedUnder key c outer)
  | .retreat _ _ _, _, _ => ∀ stop captured, K stop captured

end Needs

namespace Continues

variable {t : Text} {K : Int → Captured → Prop} {pos stop : Int} {captured : Captured}

theorem start (t : Text) (pos : Int) : Continues t (InScope t pos) pos [] :=
  ⟨pos, inScope_nil t pos, fun _ _ h => h⟩

theorem step (h : Continues t K pos captured) (steps : Steps t pos stop) : K stop captured := by
  obtain ⟨start, hs, hK⟩ := h
  exact hK _ _ (hs.onward steps)

theorem here (h : Continues t K pos captured) : K pos captured := by
  obtain ⟨start, hs, hK⟩ := h
  exact hK _ _ hs

theorem under (h : Continues t K pos captured) (key : Option CaptureKey) {c : Capture}
    (hc : Spans t pos stop c) : K stop (capturedUnder key c captured) := by
  obtain ⟨start, hs, hK⟩ := h
  exact hK _ _ (hs.capturedUnder hc key)

/-- A scope may go on step by step. -/
theorem again (h : Continues t K pos captured) : Continues t (Continues t K) pos captured := by
  obtain ⟨start, hs, hK⟩ := h
  exact ⟨start, hs, fun _ _ hs' => ⟨start, hs', hK⟩⟩

end Continues

/-! ## 3. Steps in the text -/

section Steps

variable {t : Text} {pos stop : Int}

theorem steps_literal {chars : List Char} {ignoreCase : Bool}
    (h : literalStop? t chars ignoreCase pos = some stop) : Steps t pos stop := by
  intro here
  obtain ⟨stands, rfl⟩ := literalStop_eq_some.mp h
  obtain ⟨inside, _⟩ := (literalStands_iff here.le here.le_stop).mp stands
  exact ⟨here.le, by omega, inside⟩

theorem steps_class {items : List ClassItem} {negated ignoreCase : Bool}
    (h : classHolds t items negated ignoreCase pos = .ok true) : Steps t pos (pos + 1) :=
  fun here => ⟨here.le, by omega, Int.add_one_le_of_lt (lt_of_classHolds h)⟩

theorem steps_gap (h : gapStop? t pos = .ok (some stop)) : Steps t pos stop := by
  intro here
  obtain ⟨le, inside⟩ := gapStop_spec h
  refine ⟨here.le, le, ?_⟩
  by_cases width : pos < stop
  · exact (inside width).2
  · exact Int.le_trans (Int.not_lt.mp width) here.le_stop

end Steps

/-! ## 4. The discipline -/

/-- Captures have the places that their goals need. -/
def withinScopes (t : Text) : Discipline :=
  .ofState (State.Sound t) (fun _ => True) fun _ K g => g.Needs t K

/-- Parts of a sequence are worked off one after the other. -/
theorem scopes_parts {t : Text} (active : Active) {K : Int → Captured → Prop} {pos : Int}
    {captured : Captured} (h : Continues t K pos captured) (parts : List Pattern) (depth : Nat) :
    (withinScopes t).goals active K (parts.map (Goal.part · depth)) pos captured := by
  obtain ⟨start, hs, hK⟩ := h
  induction parts generalizing pos captured with
  | nil => exact hK pos captured hs
  | cons p parts ih => exact ⟨start, hs, fun stop captured' hs' => ih hs'⟩

/-- **What a goal needs is enough for its ways**, and the capture of an atomic rule covers what its
    body matched. -/
theorem scopes_keeper (w : Basis) :
    Keeper w (fun _ => True) (Covering w.env.text) (fun _ pos => InScope w.env.text pos)
      (fun _ => True) (withinScopes w.env.text).needs where
  literal h stands := Continues.step h (steps_literal stands)
  charClass h holds := Continues.step h (steps_class holds)
  sequence {active _ parts depth _ _} h := scopes_parts active h parts (depth + 1)
  branch h _ _ := h
  repetition h := ⟨fun _ => Continues.here h, fun _ => Continues.again h⟩
  enclosed h := h
  group {_ _ key _ _ _ pos _} h :=
    ⟨pos, inScope_nil _ pos, fun _ _ inner => ⟨inner, fun _ hc => Continues.under h (some key) hc⟩⟩
  ahead {_ _ _ _ _ pos _} _ _ := ⟨pos, inScope_nil _ pos, fun _ _ _ => trivial⟩
  behind _ _ := fun _ _ => trivial
  looked h := Continues.here h
  anchor h _ := Continues.here h
  ruleRef {_ _ r _ _ _} h := fun _ _ hc => Continues.under h r.key? hc
  space h _ _ _ := fun _ _ hc => Continues.under h none hc
  gap h _ _ _ _ stops := Continues.step h (steps_gap stops)
  leftOpen {_ _ _ _ _ pos _} h _ _ _ _ _ :=
    ⟨pos, inScope_nil _ pos, fun stop _ inner => ⟨inner, h stop⟩⟩
  round h _ := ⟨fun _ => Continues.here h, fun _ => Continues.again h⟩
  rest h _ := Continues.here h
  close {_ _ key plural _ _ _ _} h := h.2 _ (h.1.build (some key) plural none)
  -- where a look behind starts, nothing is known of the place
  retreat h := ⟨⟨-1, inScope_outside (by decide), fun stop captured' _ => h stop captured'⟩, h⟩
  admits _ _ := trivial
  finish h _ finished := h.2 _ (spans_finished h.1 finished)
  body {_ _ _ _ _ pos _} _ _ _ _ _ _ _ := Continues.start _ pos
  matched _ _ _ _ _ _ _ _ inside finished stop c same := by
    cases same
    exact spans_finished inside finished
  missed _ _ _ _ _ same := by cases same
  kept h _ _ _ _ stop c held := h stop c (held stop c rfl)

/-- **The search captures what its goals need, and what is kept stays sound.** -/
theorem scopes_obeyed (env : Env) : (withinScopes env.text).Obeyed env := by
  unfold withinScopes
  rw [sound_eq]
  exact (scopes_keeper (Basis.of env (Lexicon.of none))).obeyed

/-- The search for a rule captures the rule and nothing else, and ends where it has to. -/
theorem called_captured {env : Env} {target : Option Int} {name : String} {key : CaptureKey}
    {depth : Nat} {pos : Int} {s s' : State} {r : Solution × Agenda} (sound : s.Sound env.text)
    (h : seek env [] target [⟨[.call name (some key) depth], pos, []⟩] s = .ok (some r) s') :
    (∃ c, r.1.captured = [(key, c)]) ∧ accepts target r.1.stop = true := by
  let K : Int → Captured → Prop := fun _ captured => ∃ c, captured = [(key, c)]
  have search := (scopes_obeyed env).seek [] target
    [⟨[.call name (some key) depth], pos, []⟩] (K := K)
    (List.forall_mem_singleton.mpr fun stop c _ => ⟨c, rfl⟩) s sound
  obtain ⟨alone, accepted, _⟩ := (search.ok h).2.1 _ rfl r rfl
  exact ⟨alone, accepted⟩

end GrammarMatch.Match
