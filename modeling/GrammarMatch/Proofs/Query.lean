/-
  File:      GrammarMatch/Proofs/Query.lean
  Subject:   What a matcher can be asked for.

  A matcher is asked for a pattern or for a rule, at a position. Both are one search, of a thread
  with a single goal, and what is found is read off its solution; a rule also leaves a note in
  the trace (`query_computes`).
-/
import GrammarMatch.Matcher
import GrammarMatch.Proofs.Discipline
import GrammarMatch.Proofs.Search

namespace GrammarMatch

open Match

/-- What a matcher is asked for. -/
inductive Query where
  | pattern (p : Pattern)
  | rule (name : String) (anchored : Bool)

namespace Query

/-- The run that answers a query. -/
def run (env : Env) (pos : Int) : Query → Run (Option Found)
  | .pattern p => Matcher.runPattern env p pos
  | .rule name anchored => Matcher.runRule env name pos anchored

/-- The goal of a query. -/
def goal : Query → Goal
  | .pattern p => .part p 1
  | .rule name _ => .call name (some (.name name)) 1

/-- Where a solution has to end, if that matters. -/
def target (text : Text) : Query → Option Int
  | .pattern _ => none
  | .rule _ anchored => if anchored then some text.stop else none

/-- What is found, read off a solution. -/
def found (pos : Int) : Query → Solution → Option Found
  | .pattern p, s => some ⟨s.stop, .build none pos s.stop p.pluralKeys none s.captured⟩
  | .rule _ _, s => s.captured.head?.map fun c => ⟨s.stop, c.2⟩

end Query

/-- Ask a matcher at a position. -/
def Matcher.ask (m : Matcher) (q : Query) (pos : Int) : Except Failure (Option Found) × Matcher :=
  m.advance (q.run m.env pos)

theorem Matcher.ask_env (m : Matcher) (q : Query) (pos : Int) : (m.ask q pos).2.env = m.env := by
  unfold ask advance
  cases q.run m.env pos m.state with
  | ok a s => rfl
  | error f s => rfl

theorem Matcher.advance_ok {m : Matcher} {α : Type} {x : Run α} {a : α} {s : State}
    (h : x m.state = .ok a s) : (m.advance x).1 = .ok a := by
  unfold Matcher.advance
  rw [h]

/-- What a computation ensures holds of the outcome and of the matcher after it. -/
theorem Matcher.advance_spec {m : Matcher} {α : Type} {x : Run α}
    {Q : Except Failure α → State → Prop} (h : x.Ensures m.state Q) :
    Q (m.advance x).1 (m.advance x).2.state ∧ (m.advance x).2.env = m.env := by
  unfold Matcher.advance
  cases hx : x m.state with
  | ok a s => exact ⟨h.ok hx, rfl⟩
  | error f s => exact ⟨h.error hx, rfl⟩

namespace Match

theorem Run.logRun_spec {s : State} (name : String) (pos : Int) (matched : Bool) :
    (Run.logRun name pos matched).Ensures s fun o s' => s.Steady s' ∧ o = .ok () :=
  ⟨⟨rfl, rfl, List.suffix_cons _ _, reentered_cons (fun _ _ h => by cases h) rfl⟩, rfl⟩

theorem Terms.comes_logRun {w : Basis} (name : String) (pos : Int) (matched : Bool) :
    Terms.Comes w (Run.logRun name pos matched) (.ok ()) :=
  fun _ _ => Run.logRun_spec name pos matched

/-- What plain recursion finds for a query. -/
def Basis.answer (w : Basis) (q : Query) (pos : Int) : Except Failure (Option Found) :=
  (sought w [] (q.target w.env.text) [⟨[q.goal], pos, []⟩]).first.map (·.bind (q.found pos))

/-- What is found for a pattern is read off its first solution. -/
theorem Basis.answer_pattern (w : Basis) (p : Pattern) (pos : Int) :
    w.answer (.pattern p) pos =
      (w.solutions 1 [] p ⟨pos, []⟩).first.map (·.bind ((Query.pattern p).found pos)) := by
  unfold Basis.answer Query.target Query.goal
  rw [sought_single]
  exact congrArg (fun x : Answers Solution => x.first.map _) (Answers.filter_true _)

/-- **A query comes to what plain recursion finds for it.** -/
theorem query_computes {w : Basis} (T : Terms w) (q : Query) (pos : Int) :
    T.Computes (q.run w.env pos) id (w.answer q pos) := by
  have search := seek_computes T [] (q.target w.env.text) [⟨[q.goal], pos, []⟩]
  have answer : w.answer q pos =
      (sought w [] (q.target w.env.text) [⟨[q.goal], pos, []⟩]).head.bind fun r =>
        .ok (r.bind fun r => q.found pos r.1) := by
    unfold Basis.answer
    cases sought w [] (q.target w.env.text) [⟨[q.goal], pos, []⟩] <;> rfl
  rw [answer]
  cases q with
  | pattern p =>
    refine Terms.computes_bind search fun found => ?_
    cases found with
    | none => exact Terms.computes_pure none id
    | some r => exact Terms.computes_pure (some _) id
  | rule name anchored =>
    refine Terms.computes_bind search fun found => ?_
    refine (Terms.comes_logRun name pos _).computes_bind (m := fun _ => .ok _) fun _ _ => ?_
    rcases found with _ | ⟨⟨stop, _ | ⟨c, captured⟩⟩, rest⟩
    · exact Terms.computes_pure none id
    · exact Terms.computes_pure none id
    · exact Terms.computes_pure (some (Found.mk stop c.2)) id

/-- **What is found is read off a solution as required**, if the search obeys a discipline, and so
    does what is noted of it. -/
theorem Discipline.Obeyed.query {D : Discipline} {env : Env} (obeyed : D.Obeyed env) {pos : Int}
    (note : ∀ name matched, (D.judge []).deems (Run.logRun name pos matched) fun _ => True)
    (q : Query) {K : Int → Captured → Prop} (needs : D.needs [] K q.goal pos []) :
    (D.judge []).deems (q.run env pos) fun found => ∀ r, found = some r →
      ∃ s : Solution, q.found pos s = some r ∧ K s.stop s.captured ∧
        accepts (q.target env.text) s.stop = true := by
  let J := D.judge []
  have search := obeyed.seek [] (q.target env.text) [⟨[q.goal], pos, []⟩]
    (List.forall_mem_singleton.mpr needs)
  cases q with
  | pattern p =>
    refine J.next search fun found hfound => ?_
    cases found with
    | none => exact J.result fun _ h => by cases h
    | some u =>
      obtain ⟨reached, accepted, _⟩ := hfound u rfl
      exact J.result fun r hr => ⟨u.1, hr, reached, accepted⟩
  | rule name anchored =>
    refine J.next search fun found hfound => ?_
    refine J.next (note name _) fun _ _ => J.result fun r hr => ?_
    rcases found with _ | ⟨⟨stop, _ | ⟨c, captured⟩⟩, rest⟩
    · cases hr
    · cases hr
    · obtain ⟨reached, accepted, _⟩ := hfound _ rfl
      exact ⟨⟨stop, c :: captured⟩, hr, reached, accepted⟩

/-- A query meets what a discipline demands of the state, if that does not speak of the trace. -/
theorem Discipline.Obeyed.query_meets {I : State → Prop} {E : Failure → Prop}
    {needs : Active → (Int → Captured → Prop) → Goal → Int → Captured → Prop} {env : Env}
    (obeyed : (Discipline.ofState I E needs).Obeyed env)
    (steady : ∀ {s s' : State}, s.Steady s' → I s → I s') (q : Query) {pos : Int}
    {K : Int → Captured → Prop} (start : needs [] K q.goal pos []) :
    (q.run env pos).Meets I E fun found => ∀ r, found = some r →
      ∃ s : Solution, q.found pos s = some r ∧ K s.stop s.captured ∧
        accepts (q.target env.text) s.stop = true := by
  refine obeyed.query (fun name matched => ?_) q start
  exact Run.meets_steady steady (fun _ => Run.logRun_spec name pos matched) (fun _ _ _ _ => trivial)
    fun _ _ _ failed => by cases failed

/-- A matcher that has kept nothing yet is as it should be. -/
theorem kept_start {w : Basis} (T : Terms w) (registry : Option Registry) :
    T.Kept { registry } := by
  constructor
  · intro key v h
    rw [Std.HashMap.getElem?_empty] at h
    cases h
  · right
    rintro ⟨name, start, h⟩
    cases h

/-- The outcome for a matcher that has kept nothing yet is what plain recursion finds, unless
    that is excused. -/
theorem ask_start {w : Basis} (T : Terms w) {registry : Option Registry}
    (lexicon : w.lexicon = Lexicon.of registry) (q : Query) (pos : Int) :
    let after := (Matcher.start w.env.text registry w.env.actions w.env.settings).ask q pos
    (w.answer q pos = after.1 ∧ T.Kept after.2.state) ∨
      ∃ f, w.answer q pos = .error f ∧ T.excuse f after.2.state := by
  have spec := Matcher.advance_spec
    (m := Matcher.start w.env.text registry w.env.actions w.env.settings)
    (query_computes T q pos { registry } lexicon.symm)
  rcases spec.1.2 (kept_start T registry) with ⟨h, kept⟩ | h
  · exact .inl ⟨h.trans (congrFun Except.map_id _), kept⟩
  · exact .inr h

end Match

end GrammarMatch
