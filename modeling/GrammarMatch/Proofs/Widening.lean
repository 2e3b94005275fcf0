/-
  File:      GrammarMatch/Proofs/Widening.lean
  Subject:   More room changes nothing.

  A search in more room goes in step with the same search in less, which may be given up when it
  runs out of room. If it is not, both come to the same and keep the same (`ask_widened`).
-/
import GrammarMatch.Proofs.Lockstep

namespace GrammarMatch

open Match

/-- The same, with so much room. -/
def Match.Env.withRoom (env : Env) (room : Nat) : Env :=
  { env with settings := { env.settings with room } }

/-- The same matcher with so much room. -/
def Matcher.withRoom (m : Matcher) (room : Nat) : Matcher := { m with env := m.env.withRoom room }

namespace Match

/-- A search in less room goes in step with one in more. -/
theorem widened_lockstep {env : Env} {room : Nat} (le : env.settings.room ≤ room)
    (start : Moment) : Lockstep (env.withRoom room) env start
      (.alike (fun _ => True) (· = .stackExhausted) (fun _ => True) fun _ => True) := by
  refine @Lockstep.alike (env.withRoom room) env.settings start _ _ _ _ rfl le (fun _ _ _ => rfl)
    ⟨trivial, trivial⟩ (fun _ _ => trivial) ?_
  intro active target p depth goals pos captured rest s _ _ _
  show Correspondence.Pace _ _ (Run.enter env depth pos s) (Run.enter env depth pos s)
  cases Run.enter env depth pos s with
  | ok _ t => exact .ok trivial ⟨rfl, trivial⟩
  | error f t => exact .failed ⟨rfl, trivial⟩

end Match

/-- **In more room a matcher answers the same and keeps the same**, if it did not run out of
    room before. -/
theorem ask_widened {m : Matcher} {room : Nat} (le : m.env.settings.room ≤ room) {q : Query}
    {pos : Int} (enough : (m.ask q pos).1 ≠ .error .stackExhausted) :
    ((m.withRoom room).ask q pos).1 = (m.ask q pos).1 ∧
      ((m.withRoom room).ask q pos).2.state = (m.ask q pos).2.state := by
  rcases @Lockstep.ask (m.withRoom room) m _ q pos (widened_lockstep le _) rfl ⟨rfl, trivial⟩ with
    ⟨f, rfl, full⟩ | ⟨outcome, state, _⟩
  · exact absurd full enough
  · exact ⟨Correspondence.alike_outcome outcome, state⟩

end GrammarMatch
