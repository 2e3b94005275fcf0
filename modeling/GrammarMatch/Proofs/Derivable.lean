/-
  File:      GrammarMatch/Proofs/Derivable.lean
  Subject:   Whatever a search comes to is derivable.

  What plain recursion answers is derivable. A search with kept results may come to something
  else, as a result that was kept for a call inside another one is read outside of it; but a kept
  result stands for a derivation too (`derivable_keeper`), and so each solution that is ever seen
  is derivable (`Matcher.Reached.derives`), from whatever state the matcher was brought into by
  what it was asked before.
-/
import GrammarMatch.Proofs.Enumeration
import GrammarMatch.Proofs.Keeping
import GrammarMatch.Proofs.WellNested

namespace GrammarMatch

open Match

namespace Match

/-! ## 1. What goals lead to -/

/-- The result of an atomic rule at a position: the rule does not match there, or its body leads to
    where the result ends, and is finished to the capture. -/
def Basis.Settles (w : Basis) (rule : Rule) (pos : Int) (v : Verdict) : Prop :=
  ∀ stop c, v = some (stop, c) →
    ∃ t, Derives w rule.pattern ⟨pos, []⟩ t ∧ w.finished rule pos t = .ok c ∧ stop = t.stop

/-- Whatever a goal can lead to is as required. -/
def Goal.Leads (w : Basis) (K : Int → Captured → Prop) (pos : Int) (captured : Captured) :
    Goal → Prop
  | .part p _ => ∀ t, Derives w p ⟨pos, captured⟩ t → K t.stop t.captured
  | .call name key _ => ∀ u, DerivesCall w name key ⟨pos, captured⟩ u → K u.stop u.captured
  | .round q body count start _ => Onward w.env.text start pos ∧ (pos = start → K pos captured) ∧
    (pos ≠ start → ∀ t, Derives w (.repetition (q.after (count + 1)) body) ⟨pos, captured⟩ t →
      K t.stop t.captured)
  | .close key plural start outer =>
    K pos ((key, .build (some key) start pos plural none captured) :: outer)
  | .finish rule key start outer =>
    ∀ c, w.finished rule start ⟨pos, captured⟩ = .ok c → K pos (capturedUnder key c outer)
  | .retreat .. => ∀ stop captured, K stop captured

/-- A result that is kept stands for a derivation. -/
def Basis.StandsFor (w : Basis) (key : String × Int) (v : Verdict) : Prop :=
  ∀ rule, w.lexicon.rules key.1 = .ok rule → w.Settles rule key.2 v

/-- All that is come to is derivable, and so is all that is kept. -/
def derivable (w : Basis) : Discipline :=
  .ofState (State.Keeping (· = w.lexicon) w.StandsFor) (fun _ => True) fun _ K g pos captured =>
    g.Leads w K pos captured

/-! ## 2. Working off goals -/

section Expansion

variable {w : Basis} {active : Active} {K : Int → Captured → Prop} {pos : Int} {captured : Captured}

/-- After `count` rounds a repetition may stop, or go on with one more. -/
theorem derivable_chooses {q : Quantity} {body : Pattern} {count depth : Nat}
    (hK : ∀ t, Derives w (.repetition (q.after count) body) ⟨pos, captured⟩ t →
      K t.stop t.captured) :
    (derivable w).Chooses active K q body count depth pos captured where
  stop enough := hK _ (.stop (by rwa [Quantity.mayStop_after]))
  goOn more t ht := by
    have room : (q.after count).mayGoOn 0 = true := by rwa [Quantity.mayGoOn_after]
    refine ⟨ht.onward, fun width => hK t (.last room ht width), fun width u hu => ?_⟩
    exact hK u (.more room ht width (by rwa [Quantity.after_after]))

/-- Parts of a sequence are worked off one after the other. -/
theorem derivable_parts {parts : List Pattern} {depth : Nat}
    (hK : ∀ t, Derives w (.sequence parts) ⟨pos, captured⟩ t → K t.stop t.captured) :
    (derivable w).goals active K (parts.map (Goal.part · depth)) pos captured := by
  induction parts generalizing pos captured with
  | nil => exact hK _ .nil
  | cons p parts ih => exact fun t ht => ih fun u hu => hK u (.cons ht hu)

/-- **Whatever a goal is worked off to leads nowhere where the goal does not lead**, and the result
    of an atomic rule stands for a derivation. -/
theorem derivable_keeper (named : w.lexicon.Named) :
    Keeper w (· = w.lexicon) w.StandsFor
      (fun rule pos stop inner => Derives w rule.pattern ⟨pos, []⟩ ⟨stop, inner⟩) (fun _ => True)
      (derivable w).needs where
  literal h stands := h _ (.literal stands)
  charClass h holds := h _ (.charClass holds)
  sequence h := derivable_parts h
  branch h _ mem t ht := h t (.branch mem ht)
  repetition h := derivable_chooses fun t ht => h t (by rwa [Quantity.after_zero] at ht)
  enclosed h t ht := h t (.enclosed ht)
  group h _ ht := h _ (.grouped ht)
  ahead _ _ _ _ := trivial
  behind _ _ _ _ := trivial
  looked h := h _ .look
  anchor h holds := h _ (.anchor holds)
  ruleRef h u hu := h u hu.ruleRef
  space h _ given own u hu := h u (hu.space (given ▸ own))
  gap h _ given spaceless _ stops := h _ (.gap (given ▸ spaceless) stops)
  leftOpen h _ given rule known _ t ht c hc :=
    h ⟨t.stop, _⟩ ⟨rule, t, c, given ▸ known, ht, hc, rfl⟩
  round h further := derivable_chooses (h.2.2 (Int.ne_of_gt further.1))
  rest {_ _ _ _ _ opened _ pos _} h stuck := by
    obtain ⟨onward, stay, -⟩ := h
    have le : pos ≤ opened := Int.not_lt.mp fun lt => stuck ⟨lt, onward.2 lt⟩
    exact stay (Int.le_antisymm le onward.1)
  close h := h
  retreat h := ⟨fun t _ => h t.stop t.captured, h⟩
  admits _ _ := trivial
  finish h _ hc := h _ hc
  body _ _ _ _ _ _ _ _ ht := ht
  matched {_ _ name _ _ _ _} _ _ given rule known _ t _ inside hc rule' known' _ _ settled := by
    cases settled
    obtain rfl : rule.name = name := named name rule (given ▸ known)
    obtain rfl : rule = rule' := Except.ok.inj (known.symm.trans (given ▸ known'))
    exact ⟨t, inside, hc, rfl⟩
  missed _ _ _ _ _ _ _ settled := by cases settled
  kept {_ _ name _ _ _ _} h _ given rule known stop c held := by
    obtain rfl : rule.name = name := named name rule (given ▸ known)
    obtain ⟨t, ht, hc, same⟩ := held rule (given ▸ known) stop c rfl
    exact h ⟨stop, _⟩ ⟨rule, t, c, given ▸ known, ht, hc, congrArg (Solution.mk · _) same⟩

end Expansion

/-! ## 3. What is seen -/

/-- What an agenda needs of a discipline that is obeyed holds of each solution that is seen of
    it. -/
theorem Enumerates.reaches {I : State → Prop} {E : Failure → Prop}
    {needs : Active → (Int → Captured → Prop) → Goal → Int → Captured → Prop} {env : Env}
    (obeyed : (Discipline.ofState I E needs).Obeyed env) {active : Active}
    {K : Int → Captured → Prop} {agenda : Agenda} {s : State} {y : Answers Solution}
    (seen : Enumerates env active agenda s y) (holds : I s)
    (start : ∀ th ∈ agenda, (Discipline.ofState I E needs).thread active K th) :
    ∀ t ∈ y, K t.stop t.captured := by
  induction seen with
  | done _ => exact fun t ht => absurd ht (Answers.not_mem_done t)
  | failed _ => exact fun t ht => absurd ht (Answers.not_mem_failed _ t)
  | found h _ ih =>
    obtain ⟨holds', result, _⟩ := (obeyed.seek active none _ start _ holds).ok h
    obtain ⟨first, _, rest⟩ := result _ rfl _ rfl
    intro t ht
    rcases Answers.mem_found.mp ht with rfl | later
    · exact first
    · exact ih holds' rest t later

end Match

section Seen

variable {text : Text} {registry : Option Registry} {actions : Actions} {settings : Settings}
  {m : Matcher}

/-- **Each solution that a matcher shows of a pattern is derivable**, whatever the matcher was asked
    for before, and whether it keeps results or not. -/
theorem Matcher.Reached.derives (built : ∀ r ∈ registry, r.Built)
    (reached : (Matcher.start text registry actions settings).Reached m) {active : Active}
    {p : Pattern} {depth : Nat} {pos : Int} {captured : Captured} {y : Answers Solution}
    (seen : Enumerates m.env active [⟨[.part p depth], pos, captured⟩] m.state y) :
    ∀ t ∈ y, Derives (Basis.of m.env (Lexicon.of registry)) p ⟨pos, captured⟩ t := by
  let w : Basis := .of ⟨text, actions, settings⟩ (.of registry)
  have obeyed : (derivable w).Obeyed w.env := (derivable_keeper (Lexicon.named_of built)).obeyed
  obtain ⟨env, holds⟩ := reached.obeying obeyed (keeping_steady (X := (· = w.lexicon)))
    (fun q pos => by cases q <;> exact fun _ _ => trivial) (keeping_start rfl)
  rw [env]
  rw [env] at seen
  exact seen.reaches obeyed holds (K := fun stop inner => Derives w p ⟨pos, captured⟩ ⟨stop, inner⟩)
    (List.forall_mem_singleton.mpr fun t ht => ht)

end Seen

end GrammarMatch
