/-
  File:      GrammarMatch/Proofs/Enumeration.lean
  Subject:   The solutions of a pattern, asked for one after the other.

  A caller that is not content with the first solution goes on with the agenda that the search
  left behind. `Enumerates` is what it gets to see: the solutions in order, up to the end or up
  to a failure. Without kept results these are the answers of plain recursion, whatever state
  the matcher is in (`shows_unkept`). Where no rule is called it makes no difference whether
  results are kept (`shows_standalone`).
-/
import GrammarMatch.Proofs.Standalone

namespace GrammarMatch.Match

/-- What a caller gets to see that asks for one solution after the other. -/
inductive Enumerates (env : Env) (active : Active) : Agenda → State → Answers Solution → Prop
  | done {agenda : Agenda} {s s' : State} (h : seek env active none agenda s = .ok none s') :
      Enumerates env active agenda s .done
  | failed {agenda : Agenda} {s s' : State} {f : Failure}
      (h : seek env active none agenda s = .error f s') :
      Enumerates env active agenda s (.failed f)
  | found {agenda rest : Agenda} {s s' : State} {t : Solution} {later : Answers Solution}
      (h : seek env active none agenda s = .ok (some (t, rest)) s')
      (hlater : Enumerates env active rest s' later) :
      Enumerates env active agenda s (.found t later)

/-! ## 1. What a search shows -/

/-- The search of an agenda in a state as required shows how what the agenda stands for begins, and
    what it leaves behind is as required again. -/
def Shows (w : Basis) (active : Active) (good : Agenda → State → Prop) : Prop :=
  ∀ agenda s, good agenda s → (seek w.env active none agenda).Ensures s fun o s' =>
    (agendaAnswers w active agenda).head = o.map (Option.map fun r =>
      (r.1, agendaAnswers w active r.2)) ∧
    ∀ r, o = .ok (some r) → good r.2 s'

section Shows

/-- Where any solution counts, an agenda that is left behind stands for all its answers. -/
theorem withRest_none (w : Basis) (active : Active) :
    withRest w active none = fun r => (r.1, agendaAnswers w active r.2) :=
  funext fun r => Prod.ext rfl (sought_none r.2)

variable {w : Basis} {active : Active} {good : Agenda → State → Prop} (h : Shows w active good)

include h

theorem Shows.cases {agenda : Agenda} {s : State} (hs : good agenda s) :
    (∃ s', seek w.env active none agenda s = .ok none s' ∧
      agendaAnswers w active agenda = .done) ∨
    (∃ f s', seek w.env active none agenda s = .error f s' ∧
      agendaAnswers w active agenda = .failed f) ∨
    ∃ t rest s', seek w.env active none agenda s = .ok (some (t, rest)) s' ∧ good rest s' ∧
      agendaAnswers w active agenda = .found t (agendaAnswers w active rest) := by
  cases sought : seek w.env active none agenda s with
  | error f s' =>
    have first := ((h agenda s hs).error sought).1
    exact .inr (.inl ⟨f, s', rfl, Answers.eq_failed_of_head first⟩)
  | ok r s' =>
    obtain ⟨first, later⟩ := (h agenda s hs).ok sought
    cases r with
    | none => exact .inl ⟨s', rfl, Answers.eq_done_of_head first⟩
    | some r =>
      exact .inr (.inr ⟨r.1, r.2, s', rfl, later r rfl, Answers.eq_found_of_head first⟩)

/-- **What is seen of an agenda is what it stands for.** -/
theorem Shows.enumerates {agenda : Agenda} {s : State} {y : Answers Solution}
    (hs : good agenda s) :
    Enumerates w.env active agenda s y ↔ y = agendaAnswers w active agenda := by
  constructor
  · intro seen
    induction seen with
    | done found => exact (Answers.eq_done_of_head ((h _ _ hs).ok found).1).symm
    | failed found => exact (Answers.eq_failed_of_head ((h _ _ hs).error found).1).symm
    | found found _ ih =>
      obtain ⟨first, later⟩ := (h _ _ hs).ok found
      rw [Answers.eq_found_of_head first, ih (later _ rfl)]
  · intro same
    induction y generalizing agenda s with
    | done =>
      rcases h.cases hs with ⟨s', hs, _⟩ | ⟨f, s', _, hy⟩ | ⟨t, rest, s', _, _, hy⟩
      · exact .done hs
      · cases same.trans hy
      · cases same.trans hy
    | failed f =>
      rcases h.cases hs with ⟨s', _, hy⟩ | ⟨f', s', hs, hy⟩ | ⟨t, rest, s', _, _, hy⟩
      · cases same.trans hy
      · cases same.trans hy
        exact .failed hs
      · cases same.trans hy
    | found t later ih =>
      rcases h.cases hs with ⟨s', _, hy⟩ | ⟨f, s', _, hy⟩ | ⟨t', rest, s', hs, good, hy⟩
      · cases same.trans hy
      · cases same.trans hy
      · obtain ⟨rfl, same⟩ := Answers.found.inj (same.trans hy)
        exact .found hs (ih good same)

end Shows

/-! ## 2. Without kept results -/

/-- Where no results are kept, the search and plain recursion agree without exception. -/
def Terms.unkept (env : Env) (x : Lexicon) (off : env.settings.memoize = false) :
    Terms (Basis.of env x) where
  valid _ _ := True
  excuse _ _ := False
  grows _ h := h
  again := .inl rfl
  hit on := absurd (off.symm.trans on) Bool.false_ne_true
  settle on := absurd (off.symm.trans on) Bool.false_ne_true

section Unkept

variable {env : Env} (off : env.settings.memoize = false) {active : Active} {s : State}

include off

/-- The search without kept results, from any state. -/
theorem seek_unkept (active : Active) (agenda : Agenda) (s : State) :
    (seek env active none agenda).Ensures s fun o s' => s'.lexicon = s.lexicon ∧
      (agendaAnswers (Basis.of env s.lexicon) active agenda).head = o.map (Option.map fun r =>
        (r.1, agendaAnswers (Basis.of env s.lexicon) active r.2)) := by
  refine (seek_computes (Terms.unkept env s.lexicon off) active none agenda s rfl).mono ?_
  intro o s' h
  refine ⟨h.1.lexicon, ?_⟩
  rcases h.2 ⟨fun _ _ _ => trivial, .inl rfl⟩ with ⟨h, _⟩ | ⟨_, _, excused⟩
  · rwa [sought_none, withRest_none] at h
  · exact absurd excused id

theorem shows_unkept (x : Lexicon) (active : Active) :
    Shows (Basis.of env x) active fun _ s => s.lexicon = x := by
  rintro agenda s rfl
  exact (seek_unkept off active agenda s).mono fun o s' h => ⟨h.2, fun _ _ => h.1⟩

/-- What is seen of a goal is what it stands for. -/
theorem enumerates_goal {g : Goal} {pos : Int} {captured : Captured} {y : Answers Solution} :
    Enumerates env active [⟨[g], pos, captured⟩] s y ↔
      y = goalAnswers (Basis.of env s.lexicon) active g ⟨pos, captured⟩ := by
  rw [← agendaAnswers_goal]
  exact (shows_unkept off s.lexicon active).enumerates rfl

/-- **The solutions that are seen of a pattern, one after the other, are those of plain
    recursion.** -/
theorem enumerates_iff {p : Pattern} {depth : Nat} {pos : Int} {captured : Captured}
    {y : Answers Solution} :
    Enumerates env active [⟨[.part p depth], pos, captured⟩] s y ↔
      y = (Basis.of env s.lexicon).solutions depth active p ⟨pos, captured⟩ :=
  enumerates_goal off

/-- Where no failure is seen, the solutions are those of the parts one level deeper. -/
theorem enumerates_part {p : Pattern} {depth : Nat} {pos : Int} {captured : Captured}
    {y : Answers Solution} (seen : Enumerates env active [⟨[.part p depth], pos, captured⟩] s y)
    (ends : y.Ends) :
    y = (Basis.of env s.lexicon).part ((Basis.of env s.lexicon).solutions (depth + 1)) active
      ⟨pos, captured⟩ p := by
  rw [(enumerates_goal off).mp seen, goalAnswers, solutions_eq] at *
  cases entry : (Basis.of env s.lexicon).entry depth pos with
  | error f =>
    rw [entry] at ends
    exact absurd ends id
  | ok =>
    rw [entry] at ends
    rw [Answers.attempt_ok] at ends ⊢
    by_cases room : depth ≤ (Basis.of env s.lexicon).env.settings.room
    · exact if_pos room
    · rw [if_neg room] at ends
      exact absurd ends id

end Unkept

/-! ## 3. Where no rule is called -/

theorem shows_standalone (env : Env) (active : Active) (space : Bool) :
    Shows (Basis.of env (Lexicon.of none)) active fun agenda s =>
      s.Within space ∧ ∀ t ∈ agenda, t.Standalone space := by
  rintro agenda s ⟨within, alone⟩
  obtain ⟨v, later, outcome⟩ := @seek_fixed env space active none agenda alone
  let fresh : State := State.mk none {} 0 0 0 0 []
  have first : (agendaAnswers (Basis.of env (Lexicon.of none)) active agenda).head =
      v.map (Option.map fun r =>
        (r.1, agendaAnswers (Basis.of env (Lexicon.of none)) active r.2)) := by
    have plain := seek_computes (Terms.ruleless env) active none agenda fresh rfl
    have same := outcome fresh State.within_ruleless
    rw [sought_none, withRest_none] at plain
    have kept : (Terms.ruleless env).Kept fresh := kept_start _ none
    cases sought : seek env active none agenda fresh with
    | ok r s' =>
      rcases (plain.ok sought).2 kept with ⟨head, _⟩ | ⟨_, _, excused⟩
      · rw [head, ← (same.ok sought).2]
      · exact absurd excused id
    | error f s' =>
      rcases (plain.error sought).2 kept with ⟨head, _⟩ | ⟨_, _, excused⟩
      · rw [head, ← (same.error sought).2]
      · exact absurd excused id
  refine (outcome s within).mono fun o s' h => ?_
  obtain ⟨steady, rfl⟩ := h
  rw [first]
  exact ⟨rfl, fun r found => ⟨within.steady steady, later (some r) found r rfl⟩⟩

/-- A letter that may stand once or not at all: both ways are seen, the longer one first. -/
theorem enumerates_optional_letter :
    (Settings.mk none false 4000).memoize = false ∧
      Enumerates ⟨Text.ofString "a", {}, ⟨none, false, 4000⟩⟩ []
        [⟨[.part (.repetition ⟨0, some 1, true⟩ (.literal ['a'] false)) 1], 0, []⟩]
        { registry := none } (.found ⟨1, []⟩ (.found ⟨0, []⟩ .done)) :=
  ⟨rfl, (enumerates_iff rfl).mpr rfl⟩

end GrammarMatch.Match
