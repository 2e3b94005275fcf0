/-
  File:      GrammarMatch/Proofs/Keeping.lean
  Subject:   Searches of which it matters what they keep.

  What a matcher keeps of atomic rules is read again later, by the same search or by another one.
  So what is demanded of a search may have to be demanded of every result that is kept. The steps
  that read and keep results meet that (`Run.meets_remembered`, `Run.meets_settle`), and so does
  the call of an atomic rule, if what its body comes to is as required (`meets_verdict`). What is
  left to show of a discipline that demands this is what it passes on from goal to goal, and what
  it demands of the results (`Keeper`).
-/
import GrammarMatch.Proofs.Lawful

namespace GrammarMatch.Match

/-- The rules are as required, and so is every result that is kept. -/
def State.Keeping (X : Lexicon → Prop) (R : String × Int → Verdict → Prop) (s : State) : Prop :=
  X s.lexicon ∧ ∀ key v, s.memo[key]? = some v → R key v

/-- Where a rule matched, the place and the capture are as required. -/
def Verdict.Matched (Q : String × Int → Int → Capture → Prop) (key : String × Int) (v : Verdict) :
    Prop := ∀ stop c, v = some (stop, c) → Q key stop c

variable {X : Lexicon → Prop} {R : String × Int → Verdict → Prop} {E : Failure → Prop}

/-- What is demanded of matches is demanded of the matches that are kept. -/
theorem keeping_matched {Q : String × Int → Int → Capture → Prop} {s : State} :
    s.Keeping X (Verdict.Matched Q) ↔ X s.lexicon ∧ ∀ (name : String) (pos stop : Int)
      (c : Capture), s.memo[(name, pos)]? = some (some (stop, c)) → Q (name, pos) stop c :=
  and_congr_right fun _ => ⟨fun h _ _ stop c held => h _ _ held stop c rfl,
    fun h key _ held stop c hv => h key.1 key.2 stop c (hv ▸ held)⟩

theorem keeping_start {registry : Option Registry} (h : X (Lexicon.of registry)) :
    State.Keeping X R { registry } := by
  refine ⟨h, fun key v held => ?_⟩
  rw [Std.HashMap.getElem?_empty] at held
  cases held

theorem keeping_steady {s s' : State} (steady : s.Steady s') (h : s.Keeping X R) :
    s'.Keeping X R := by
  refine ⟨steady.lexicon ▸ h.1, fun key v held => ?_⟩
  rw [steady.memo] at held
  exact h.2 key v held

namespace Run

/-- A steady step, where the rules are as required. -/
theorem meets_keeping {α : Type} {P : α → Prop} {r : Run α} {v : State → Except Failure α}
    (hr : ∀ s, r.Ensures s fun o s' => s.Steady s' ∧ o = v s)
    (result : ∀ s a, X s.lexicon → v s = .ok a → P a)
    (failure : ∀ s f, X s.lexicon → v s = .error f → E f) :
    r.Meets (State.Keeping X R) E P :=
  meets_steady keeping_steady hr (fun s a hs => result s a hs.1) fun s f hs => failure s f hs.1

theorem meets_finish (w : Basis) (rule : Rule) (start : Int) (t : Solution)
    (callback : ∀ f, w.finished rule start t = .error f → E f) :
    (finish w.env rule start t.stop t.captured).Meets (State.Keeping X R) E fun c =>
      w.finished rule start t = .ok c :=
  meets_keeping (fun _ => finish_spec w rule start t) (fun _ _ _ h => h) fun _ f _ h => callback f h

theorem meets_settle (env : Env) (name : String) (pos : Int) {v : Verdict} (h : R (name, pos) v) :
    (settle env name pos v).Meets (State.Keeping X R) E fun _ => True := by
  intro s hs
  refine (settle_held env name pos hs.2 h).mono fun o s' h' => ?_
  obtain ⟨grows, rfl, kept⟩ := h'
  exact ⟨⟨grows.lexicon ▸ hs.1, kept⟩, fun _ _ => trivial, fun _ failed => by cases failed⟩

theorem meets_remembered (env : Env) (name : String) (pos : Int) :
    (remembered env name pos).Meets (State.Keeping X R) E fun kept =>
      ∀ v, kept = some v → R (name, pos) v := by
  intro s hs
  refine (remembered_spec env name pos).mono fun o s' h => ?_
  obtain ⟨steady, rfl | ⟨kept, _, held, rfl⟩⟩ := h
  · refine ⟨keeping_steady steady hs, fun kept hkept v hv => ?_, fun _ failed => by cases failed⟩
    cases hkept
    cases hv
  · refine ⟨keeping_steady steady hs, fun kept hkept v hv => ?_, fun _ failed => by cases failed⟩
    cases hkept
    cases hv
    exact hs.2 (name, pos) kept held

theorem meets_reentered (name : String) (pos : Int) :
    (log (.reentered name pos)).Meets (State.Keeping X R) E fun _ => True := by
  intro s hs
  refine (reentered_spec name pos).mono fun o s' h => ?_
  obtain ⟨grows, memo, _, rfl⟩ := h
  refine ⟨⟨grows.lexicon ▸ hs.1, fun key v held => ?_⟩, fun _ _ => trivial,
    fun _ failed => by cases failed⟩
  rw [memo] at held
  exact hs.2 key v held

end Run

section Verdict

variable {w : Basis} {active : Active} {depth : Nat} {pos : Int} {rule : Rule}
  {K : Int → Captured → Prop}

/-- **The result of an atomic rule is as required**, kept or not, if what its body comes to is. The
    body is not entered where the rule is being matched already. -/
theorem meets_verdict (room : depth ≤ w.env.bounds.room)
    {solve : Solver w.env.bounds (Goal.callSize w.env.bounds depth)}
    (body : ¬active.contains (rule.name, pos) = true → ∀ h,
      (solve ((rule.name, pos) :: active) none ⟨[.part rule.pattern (depth + 1)], pos, []⟩ h).Meets
        (State.Keeping X R) E fun found => ∀ u, found = some u → K u.stop u.captured)
    (matched : ¬active.contains (rule.name, pos) = true → ∀ t c, K t.stop t.captured →
      w.finished rule pos t = .ok c → R (rule.name, pos) (some (t.stop, c)))
    (missed : ¬active.contains (rule.name, pos) = true → R (rule.name, pos) none)
    (callback : ∀ t f, w.finished rule pos t = .error f → E f) :
    (verdict w.env active depth room pos solve rule).Meets (State.Keeping X R) E fun v =>
      ∀ e, v = some e → R (rule.name, pos) v := by
  refine Run.meets_bind (Run.meets_remembered w.env rule.name pos) fun kept hkept => ?_
  cases kept with
  | some kept => exact Run.meets_pure fun _ _ => hkept kept rfl
  | none =>
    by_cases entered : active.contains (rule.name, pos) = true
    · simp only [if_pos entered]
      exact Run.meets_bind (Run.meets_reentered rule.name pos) fun _ _ =>
        Run.meets_pure fun _ h => by cases h
    · simp only [if_neg entered]
      have keep {v : Verdict} (hv : R (rule.name, pos) v) :
          (do Run.settle w.env rule.name pos v; return v : Run Verdict).Meets (State.Keeping X R) E
            fun v => ∀ e, v = some e → R (rule.name, pos) v :=
        Run.meets_bind (Run.meets_settle w.env rule.name pos hv) fun _ _ =>
          Run.meets_pure fun _ _ => hv
      refine Run.meets_bind (body entered _) fun found hfound => ?_
      cases found with
      | none => exact keep (missed entered)
      | some t =>
        refine Run.meets_bind (Run.meets_finish w rule pos t (callback t)) fun c hc => ?_
        exact keep (matched entered t c (hfound t rfl) hc)

end Verdict

/-! ## Disciplines -/

/-- A failure that a goal comes to by itself, and not by what takes its place. -/
inductive Goal.Fails (w : Basis) (X : Lexicon → Prop) (pos : Int) : Goal → Failure → Prop
  | full {g : Goal} (beyond : ¬g.level ≤ w.env.settings.room) : Fails w X pos g .stackExhausted
  | entry {p : Pattern} {depth : Nat} {f : Failure} (failed : w.entry depth pos = .error f) :
      Fails w X pos (.part p depth) f
  | test {p : Pattern} {depth : Nat} {f : Failure} (failed : p.Faults w.env.text pos f) :
      Fails w X pos (.part p depth) f
  | unknown {name : String} {key : Option CaptureKey} {depth : Nat} {f : Failure} {x : Lexicon}
      (given : X x) (failed : x.rules name = .error f) : Fails w X pos (.call name key depth) f
  | callback {g : Goal} {rule : Rule} {start : Int} {t : Solution} {f : Failure}
      (failed : w.finished rule start t = .error f) : Fails w X pos g f

/-- A discipline that demands that the rules are such (`X`), that kept results are such (`R`) and
    that only some failures come up (`E`). The body of an atomic rule has to come to what the result
    of the rule needs (`L`). -/
structure Keeper (w : Basis) (X : Lexicon → Prop) (R : String × Int → Verdict → Prop)
    (L : Rule → Int → Int → Captured → Prop) (E : Failure → Prop)
    (needs : Active → (Int → Captured → Prop) → Goal → Int → Captured → Prop) : Prop extends
    (Discipline.ofState (State.Keeping X R) E needs).Passes w.env X where
  admits {active K g pos captured f} (h : needs active K g pos captured)
    (failed : g.Fails w X pos f) : E f
  finish {active K rule key opened outer pos captured}
    (h : needs active K (.finish rule key opened outer) pos captured) {c}
    (finished : w.finished rule opened ⟨pos, captured⟩ = .ok c) : K pos (capturedUnder key c outer)
  body {active K name key depth pos captured}
    (h : needs active K (.call name key depth) pos captured) {x} (given : X x) {rule}
    (known : x.rules name = .ok rule) (atomic : rule.kind.atomic = true)
    (fresh : ¬active.contains (rule.name, pos) = true) :
    needs ((rule.name, pos) :: active) (L rule pos) (.part rule.pattern (depth + 1)) pos []
  matched {active K name key depth pos captured}
    (h : needs active K (.call name key depth) pos captured) {x} (given : X x) {rule}
    (known : x.rules name = .ok rule) (fresh : ¬active.contains (rule.name, pos) = true) {t c}
    (inside : L rule pos t.stop t.captured) (finished : w.finished rule pos t = .ok c) :
    R (rule.name, pos) (some (t.stop, c))
  missed {active K name key depth pos captured}
    (h : needs active K (.call name key depth) pos captured) {rule : Rule}
    (fresh : ¬active.contains (rule.name, pos) = true) : R (rule.name, pos) none
  kept {active K name key depth pos captured}
    (h : needs active K (.call name key depth) pos captured) {x} (given : X x) {rule}
    (known : x.rules name = .ok rule) {stop c}
    (held : R (rule.name, pos) (some (stop, c))) : K stop (capturedUnder key c captured)

namespace Keeper

variable {w : Basis} {L : Rule → Int → Int → Captured → Prop}
  {needs : Active → (Int → Captured → Prop) → Goal → Int → Captured → Prop}
  (keeper : Keeper w X R L E needs)

include keeper

/-- **A discipline that demands such of what is kept is lawful.** -/
theorem lawful : (Discipline.ofState (State.Keeping X R) E needs).Lawful w.env X where
  toPasses := keeper.toPasses
  full h beyond := Run.meets_throw (keeper.admits h (.full beyond))
  enter {_ _ _ depth pos _} h := Run.meets_keeping (fun _ => Run.enter_spec w depth pos)
    (fun _ _ _ _ => trivial) fun _ _ _ failed => keeper.admits h (.entry failed)
  test h _ _ fault := Run.meets_ofExcept fun f failed => keeper.admits h (.test (fault f failed))
  definesSpace _ := Run.meets_keeping (fun _ => Run.definesSpace_spec)
    (fun s _ given same => ⟨s.lexicon, given, Except.ok.inj same⟩)
    fun _ _ _ failed => by cases failed
  lookup {_ _ name _ _ _ _} h := Run.meets_keeping (fun _ => Run.lookup_spec name)
    (fun s _ given known => ⟨s.lexicon, given, known⟩)
    fun _ _ given failed => keeper.admits h (.unknown given failed)
  count _ := Run.meets_keeping (fun _ => Run.countCall_spec) (fun _ _ _ _ => trivial)
    fun _ _ _ failed => by cases failed
  verdict h _ given rule known atomic room _ hsolve :=
    (meets_verdict room
      (fun fresh below => hsolve _ _ _ below (L rule _) (keeper.body h given known atomic fresh))
      (fun fresh _ _ => keeper.matched h given known fresh) (keeper.missed h)
      fun _ _ failed => keeper.admits h (.callback failed)).mono
    fun _ hv _ _ found => keeper.kept h given known (found ▸ hv _ found)
  finish {_ _ rule _ opened _ pos captured} h :=
    (Run.meets_finish w rule opened ⟨pos, captured⟩ fun _ failed =>
      keeper.admits h (.callback failed)).mono fun _ => keeper.finish h

theorem obeyed : (Discipline.ofState (State.Keeping X R) E needs).Obeyed w.env :=
  keeper.lawful.obeyed

end Keeper

end GrammarMatch.Match
