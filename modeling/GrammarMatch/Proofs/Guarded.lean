/-
  File:      GrammarMatch/Proofs/Guarded.lean
  Subject:   Matchers and grammars under a guard.

  A guard says which failures may come up in a search whose start is as it demands. A matcher that
  keeps to the rules and the text of a guard comes to no other failure, and keeps to them
  afterwards (`Guard.ask`); so it can be asked again, and each way to use a grammar comes to no
  other failure either (`Guard.parse`, `Guard.subparse`, `Guard.scan`).
-/
import GrammarMatch.Grammar
import GrammarMatch.Proofs.Inside

namespace GrammarMatch

open Match

/-- A matcher that was given so much, whose results are for these rules and end in the text. -/
structure Matcher.KeepsTo (env : Env) (x : Lexicon) (m : Matcher) : Prop where
  given : m.env = env
  lexicon : m.state.lexicon = x
  lands : m.state.Lands env.text

theorem Matcher.keepsTo_start (registry : Option Registry) (text : Text) (actions : Actions)
    (settings : Settings) : (Matcher.start text registry actions settings).KeepsTo
      ⟨text, actions, settings⟩ (Lexicon.of registry) where
  given := rfl
  lexicon := rfl
  lands name pos stop c held := by
    simp only [Matcher.start, Std.HashMap.getElem?_empty] at held
    cases held

namespace Match.Guard

variable {env : Env} {x : Lexicon} (G : Guard env x) {m : Matcher} (keeps : m.KeepsTo env x)

include keeps

/-- **What is as a guard demands fails only as it admits**, and leaves a matcher that keeps to what
    it kept to. -/
theorem advance {α : Type} {run : Run α} (allows : G.Allows run fun _ => True) :
    Fails G.admits (m.advance run).1 ∧ (m.advance run).2.KeepsTo env x := by
  obtain ⟨⟨⟨lexicon, lands⟩, -, failure⟩, same⟩ :=
    Matcher.advance_spec (allows m.state ⟨keeps.lexicon, keeps.lands⟩)
  exact ⟨failure, same.trans keeps.given, lexicon, lands⟩

/-- A matcher is asked. -/
theorem ask {q : Query} (start : G.start q) {pos : Int} (here : env.text.Span 0 pos) :
    Fails G.admits (m.ask q pos).1 ∧ (m.ask q pos).2.KeepsTo env x := by
  refine G.advance keeps ?_
  rw [keeps.given]
  exact G.query start here

/-! ## Grammars -/

variable {r : Registry} {task : Grammar.Task}

omit keeps in
/-- The start rule is looked up. -/
theorem check {depth : Nat} (call : G.call [] depth task.start) :
    G.Allows task.check fun _ => True := by
  refine Run.meets_bind (P := fun _ => True) ?_ fun _ _ => Run.meets_pure trivial
  exact Run.meets_steady inside_steady (fun _ => Run.lookup_spec _) (fun _ _ _ _ => trivial)
    fun s f inside failed => G.lookup call (inside.1 ▸ failed)

omit keeps in
theorem parse (keeps : (task.matcher r).KeepsTo env x) (call : G.call [] 1 task.start) :
    Fails G.admits (Grammar.parse r task).1 := by
  have here : env.text.Span 0 0 := Text.span_self (Int.le_refl 0) env.text.span_whole.le
  refine (G.advance keeps ?_).1
  refine Run.meets_bind (G.check call) fun _ _ => ?_
  rw [keeps.given]
  exact Run.meets_bind (G.query (q := .rule task.start true) call here) fun _ _ =>
    Run.meets_pure trivial

omit keeps in
theorem subparse (keeps : (task.matcher r).KeepsTo env x) (call : G.call [] 1 task.start)
    {pos : Int} (here : env.text.Span 0 pos) :
    Fails G.admits (Grammar.subparse r task pos).1 := by
  have text : env.text = task.text := congrArg Env.text keeps.given.symm
  obtain ⟨cursor, reached⟩ := Cursor.at_span (text ▸ here)
  refine (G.advance keeps ?_).1
  rw [reached]
  refine Run.meets_bind (P := fun _ => True) (Run.meets_pure trivial) fun _ _ => ?_
  refine Run.meets_bind (G.check call) fun _ _ => ?_
  rw [keeps.given]
  exact G.query (q := .rule task.start false) call here

theorem scanFrom {name : String} (call : G.call [] 1 name) {left : Nat} {pos : Int}
    {found : List Capture} (nonneg : 0 ≤ pos) (inside : pos + left ≤ env.text.stop) :
    ∀ f ∈ (Grammar.scanFrom m name left pos found).1.failure, G.admits f := by
  -- each step asks the matcher that the step before it left behind
  have step {m m' : Matcher} {pos : Int} {outcome : Except Failure (Option Found)}
      (keeps : m.KeepsTo env x) (nonneg : 0 ≤ pos) (le : pos ≤ env.text.stop)
      (asked : m.rule name pos false = (outcome, m')) :
      Fails G.admits outcome ∧ m'.KeepsTo env x := by
    have here : env.text.Span 0 pos := ⟨Int.le_refl 0, nonneg, le⟩
    have answer := G.ask keeps (q := .rule name false) call here
    rwa [show m.ask (.rule name false) pos = _ from asked] at answer
  induction m, left, pos, found using Grammar.scanFrom.induct name with
  | case1 m pos found =>
    rw [Grammar.scanFrom, if_pos rfl]
    simp
  | case2 m left pos found more f m' asked =>
    rw [Grammar.scanFrom, if_neg more]
    simp only [asked]
    rintro _ ⟨⟩
    exact (step keeps nonneg (by omega) asked).1 f rfl
  | case3 m left pos found more m' stop c wide asked ih =>
    rw [Grammar.scanFrom, if_neg more]
    simp only [asked, dif_pos wide]
    have keeps' := (step keeps nonneg (by omega) asked).2
    by_cases rest : left - (stop - pos).toNat = 0
    · rw [rest, Grammar.scanFrom, if_pos rfl]
      simp
    · exact ih keeps' (by omega) (by omega)
  | case4 m left pos found more m' stop c narrow asked ih =>
    rw [Grammar.scanFrom, if_neg more]
    simp only [asked, dif_neg narrow]
    exact ih (step keeps nonneg (by omega) asked).2 (by omega) (by omega)
  | case5 m left pos found more m' asked ih =>
    rw [Grammar.scanFrom, if_neg more]
    simp only [asked]
    exact ih (step keeps nonneg (by omega) asked).2 (by omega) (by omega)

omit keeps in
theorem scan (keeps : (task.matcher r).KeepsTo env x) (call : G.call [] 1 task.start) :
    ∀ f ∈ (Grammar.scan r task).1.failure, G.admits f := by
  have checked := G.advance keeps (G.check call)
  have text : env.text = task.text := congrArg Env.text keeps.given.symm
  unfold Grammar.scan
  rcases looked : (task.matcher r).advance task.check with ⟨f | _, m⟩
  · rw [looked] at checked
    rintro _ ⟨⟩
    exact checked.1 f rfl
  · rw [looked] at checked
    have whole : 0 + (task.text.size : Int) ≤ env.text.stop := by
      rw [Int.zero_add, text]
      exact Int.le_refl _
    exact G.scanFrom checked.2 call (Int.le_refl 0) whole

end Match.Guard

end GrammarMatch
