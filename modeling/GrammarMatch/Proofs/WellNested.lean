/-
  File:      GrammarMatch/Proofs/WellNested.lean
  Subject:   Every tree that comes out of a match is well nested.

  It covers the part of the text from where the match was asked for to where it ends, whichever
  way it was asked for, and whatever the matcher was asked for before.
-/
import GrammarMatch.Grammar
import GrammarMatch.Proofs.Scopes
import GrammarMatch.Proofs.Standalone

namespace GrammarMatch

open Match

/-! ## 1. Matchers -/

/-- A matcher that others were asked before, for whatever and wherever. -/
inductive Matcher.Reached (m₀ : Matcher) : Matcher → Prop
  | start : Reached m₀ m₀
  | pattern {m : Matcher} (h : Reached m₀ m) (p : Pattern) (pos : Int) :
      Reached m₀ (m.pattern p pos).2
  | rule {m : Matcher} (h : Reached m₀ m) (name : String) (pos : Int) (anchored : Bool) :
      Reached m₀ (m.rule name pos anchored).2

namespace Match

/-- **What a query finds covers the text from the position on.** -/
theorem query_keeps (env : Env) (q : Query) (pos : Int) :
    (q.run env pos).Keeps env.text fun found => ∀ r, found = some r →
      Spans env.text pos r.stop r.capture ∧ accepts (q.target env.text) r.stop = true := by
  have query {K : Int → Captured → Prop} (needs : q.goal.Needs env.text K pos []) :=
    (scopes_obeyed env).query_meets sound_steady q needs
  cases q with
  | pattern p =>
    refine (query (K := InScope env.text pos) ⟨pos, inScope_nil _ pos, fun _ _ h => h⟩).mono
      fun found hfound r hr => ?_
    obtain ⟨s, read, inside, accepted⟩ := hfound r hr
    cases read
    exact ⟨inside.build none p.pluralKeys none, accepted⟩
  | rule name anchored =>
    let K : Int → Captured → Prop := fun stop captured =>
      ∃ c, captured = [(.name name, c)] ∧ Spans env.text pos stop c
    refine (query (K := K) fun stop c hc => ⟨c, rfl, hc⟩).mono fun found hfound r hr => ?_
    obtain ⟨⟨stop, captured⟩, read, ⟨c, rfl, hc⟩, accepted⟩ := hfound r hr
    cases read
    exact ⟨hc, accepted⟩

end Match

namespace Matcher

variable {m : Matcher} {α : Type} {P : α → Prop}

theorem advance_keeps {x : Run α} (hx : x.Keeps m.env.text P) (sound : m.state.Sound m.env.text) :
    (m.advance x).2.state.Sound m.env.text ∧ ∀ a, (m.advance x).1 = .ok a → P a := by
  obtain ⟨kept, result, _⟩ := (advance_spec (hx m.state sound)).1
  exact ⟨kept, result⟩

/-- A matcher that was asked before keeps what a discipline demands of it, if asking needs
    nothing. -/
theorem Reached.obeying {m₀ : Matcher} {I : State → Prop} {E : Failure → Prop}
    {needs : Active → (Int → Captured → Prop) → Goal → Int → Captured → Prop}
    (reached : m₀.Reached m) (obeyed : (Discipline.ofState I E needs).Obeyed m₀.env)
    (steady : ∀ {s s' : State}, s.Steady s' → I s → I s')
    (idle : ∀ (q : Query) (pos : Int), needs [] (fun _ _ => True) q.goal pos [])
    (start : I m₀.state) : m.env = m₀.env ∧ I m.state := by
  have ask {m : Matcher} (ih : m.env = m₀.env ∧ I m.state) (q : Query) (pos : Int) :
      (m.ask q pos).2.env = m₀.env ∧ I (m.ask q pos).2.state := by
    obtain ⟨env, holds⟩ := ih
    obtain ⟨after, same⟩ := advance_spec
      ((env.symm ▸ obeyed).query_meets steady q (idle q pos) m.state holds)
    exact ⟨same.trans env, after.1⟩
  induction reached with
  | start => exact ⟨rfl, start⟩
  | pattern _ p pos ih => exact ask ih (.pattern p) pos
  | rule _ name pos anchored ih => exact ask ih (.rule name anchored) pos

theorem Reached.sound {m₀ : Matcher} (h : Reached m₀ m) (start : m₀.state.Sound m₀.env.text) :
    m.env = m₀.env ∧ m.state.Sound m₀.env.text := by
  refine h.obeying (scopes_obeyed m₀.env) sound_steady (fun q pos => ?_) start
  cases q with
  | pattern p => exact ⟨pos, inScope_nil _ pos, fun _ _ _ => trivial⟩
  | rule name anchored => exact fun _ _ _ => trivial

end Matcher

/-! ## 2. Every way to ask -/

section Entries

variable (text : Text) (registry : Option Registry) (actions : Actions) (settings : Settings)

theorem ask_covers {m : Matcher}
    (reached : (Matcher.start text registry actions settings).Reached m) (q : Query) {pos : Int}
    (here : text.Span 0 pos) {r : Found} (h : (m.ask q pos).1 = .ok (some r)) :
    r.capture.Covers text pos r.stop := by
  obtain ⟨env, sound⟩ := reached.sound (sound_start text registry)
  obtain ⟨_, state⟩ := m
  subst env
  exact ((Matcher.advance_keeps (query_keeps _ q pos) sound).2 _ h r rfl).1 here

theorem tryMatch_covers (p : Pattern) (c : Cursor) {c' : Cursor} {capture : Capture}
    (h : (p.tryMatch c registry actions settings).1 = .ok (some (c', capture))) :
    capture.Covers c.text c.pos c'.pos := by
  have inside : c.text.Span 0 c.pos := ⟨Int.le_refl 0, by omega, Int.ofNat_le.mpr c.inside⟩
  unfold Pattern.tryMatch at h
  rcases hask : (Matcher.start c.text registry actions settings).pattern p c.pos with ⟨outcome, m⟩
  rw [hask] at h
  rcases outcome with _ | _ | r
  · cases h
  · cases h
  · have covers := ask_covers c.text registry actions settings .start (.pattern p) inside
      (congrArg Prod.fst hask)
    have stop : c.text.Span c.pos r.stop := by
      have span := covers.nested.ordered.span
      rwa [covers.start, covers.stop] at span
    have nonneg := Int.le_trans inside.le stop.le
    have reached : Cursor.at c.text r.stop = .ok ⟨c.text, r.stop.toNat,
        Cursor.toNat_le_size ⟨nonneg, stop.le_stop⟩⟩ := by
      unfold Cursor.at Cursor.of?
      rw [dif_pos ⟨nonneg, stop.le_stop⟩]
    simp only [reached] at h
    cases h
    have back : (r.stop.toNat : Int) = r.stop := Int.toNat_of_nonneg nonneg
    exact back.symm ▸ covers

variable (r : Registry) (task : Grammar.Task)

theorem check_keeps (t : Text) : task.check.Keeps t fun _ => True :=
  Run.meets_bind (Run.meets_steady sound_steady (fun _ => Run.lookup_spec _) (fun _ _ _ _ => trivial)
    fun _ _ _ _ => trivial) fun _ _ => Run.meets_pure trivial

theorem subparse_covers {pos : Int} {found : Found}
    (h : (Grammar.subparse r task pos).1 = .ok (some found)) :
    found.capture.Covers task.text pos found.stop := by
  let m := task.matcher r
  have keeps : Run.Keeps m.env.text (do
      let _ ← Run.ofExcept (Cursor.at task.text pos)
      task.check
      Matcher.runRule m.env task.start pos false) fun found => ∀ r, found = some r →
        r.capture.Covers task.text pos r.stop := by
    refine Run.meets_bind (Run.meets_ofExcept fun _ _ => trivial) fun c hc => ?_
    have here : task.text.Span 0 pos := by
      unfold Cursor.at Cursor.of? at hc
      by_cases inside : 0 ≤ pos ∧ pos ≤ task.text.stop
      · exact ⟨Int.le_refl 0, inside.1, inside.2⟩
      · rw [dif_neg inside] at hc
        cases hc
    refine Run.meets_bind (check_keeps task _) fun _ _ => ?_
    exact (query_keeps m.env (.rule task.start false) pos).mono
      fun found hfound r hr => (hfound r hr).1 here
  exact (Matcher.advance_keeps keeps (sound_start task.text (some r))).2 _ h found rfl

theorem parse_covers {capture : Capture} (h : (Grammar.parse r task).1 = .ok (some capture)) :
    capture.Covers task.text 0 task.text.stop := by
  let m := task.matcher r
  have keeps : Run.Keeps m.env.text (do
      task.check
      let found ← Matcher.runRule m.env task.start 0 true
      return found.map Found.capture) fun found => ∀ c, found = some c →
        c.Covers task.text 0 task.text.stop := by
    refine Run.meets_bind (check_keeps task _) fun _ _ => ?_
    refine Run.meets_bind (query_keeps m.env (.rule task.start true) 0) fun found hfound => ?_
    refine Run.meets_pure fun c hc => ?_
    obtain ⟨r, rfl, rfl⟩ := Option.map_eq_some_iff.mp hc
    obtain ⟨covers, atEnd⟩ := hfound r rfl
    have stop : r.stop = task.text.stop := eq_of_beq atEnd
    rw [← stop]
    exact covers (Text.span_self (Int.le_refl 0) task.text.span_whole.le)
  exact (Matcher.advance_keeps keeps (sound_start task.text (some r))).2 _ h capture rfl

/-- **Every tree that comes out of a match is well nested**, and it covers the part of the text
    from where the match was asked for to where it ends: by a matcher, whatever it was asked for
    before, at a cursor, and by a grammar. -/
theorem captures_wellNested :
    (∀ m, (Matcher.start text registry actions settings).Reached m → ∀ pos, text.Span 0 pos →
      (∀ p found, (m.pattern p pos).1 = .ok (some found) →
        found.capture.Covers text pos found.stop) ∧
      ∀ name anchored found, (m.rule name pos anchored).1 = .ok (some found) →
        found.capture.Covers text pos found.stop) ∧
    (∀ p : Pattern, ∀ c c' capture,
      (p.tryMatch c registry actions settings).1 = .ok (some (c', capture)) →
        capture.Covers c.text c.pos c'.pos) ∧
    (∀ r task pos found, (Grammar.subparse r task pos).1 = .ok (some found) →
      found.capture.Covers task.text pos found.stop) ∧
    ∀ r task capture, (Grammar.parse r task).1 = .ok (some capture) →
      capture.Covers task.text 0 task.text.stop := by
  refine ⟨fun m reached pos here => ⟨fun p found h => ?_, fun name anchored found h => ?_⟩,
    fun p c c' capture h => ?_, fun r task pos found h => ?_, fun r task capture h => ?_⟩
  · exact ask_covers text registry actions settings reached (.pattern p) here h
  · exact ask_covers text registry actions settings reached (.rule name anchored) here h
  · exact tryMatch_covers registry actions settings p c h
  · exact subparse_covers r task h
  · exact parse_covers r task h

end Entries

/-- One group after a letter, inside another one. -/
def groupInGroup : Pattern :=
  .group (some (.index 1)) [] (.sequence [.literal ['a'] false,
    .group (some (.index 2)) [] (.literal ['b'] false)])

/-- The root, a group, and the group in it: three captures, well nested. -/
theorem captures_wellNested_groups :
    (Text.ofString "ab").Span 0 0 ∧
      ∃ found, ((Matcher.start (Text.ofString "ab") none {} {}).pattern groupInGroup 0).1 =
        .ok (some found) ∧ found.capture.walk.length = 3 ∧
        found.capture.Covers (Text.ofString "ab") 0 2 := by
  have alone : groupInGroup.Standalone true := .group (.sequence fun p hp => by
    rcases List.mem_cons.mp hp with rfl | hp
    · exact .literal
    · rw [List.mem_singleton.mp hp]
      exact .group .literal)
  have here : (Text.ofString "ab").Span 0 0 := Text.span_self (Int.le_refl 0) (by decide)
  have asked :=
    (ask_standalone (Matcher.start (Text.ofString "ab") none {} {}) alone (fun _ => rfl) 0).1
  exact ⟨here, _, asked, rfl,
    ((captures_wellNested (Text.ofString "ab") none {} {}).1 _ .start 0 here).1 _ _ asked⟩

end GrammarMatch
