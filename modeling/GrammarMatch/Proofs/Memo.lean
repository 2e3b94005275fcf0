/-
  File:      GrammarMatch/Proofs/Memo.lean
  Subject:   Kept results change nothing.

  Both runs are compared with plain recursion on a strict basis, which gives up where an atomic
  rule is already being matched. The run that keeps nothing agrees with it unless it met such a
  rule. The run that keeps results agrees with it too: a kept result was found in another place,
  with other calls active and at another depth, but both places are cuts of one without any
  limit (`eval_cut`), so that they can only differ where plain recursion gives up.
-/
import GrammarMatch.Proofs.Cut
import GrammarMatch.Proofs.Query
import GrammarMatch.Proofs.Stepping

namespace GrammarMatch

/-- Failures at which a match is given up for its depth. -/
def Settings.GivesUp (settings : Settings) (f : Failure) : Prop :=
  f = .stackExhausted ∨ settings.maxDepth ≠ none ∧ ∃ depth pos, f = .depthLimit depth pos

/-- The settings without a limit on nesting. -/
def Settings.unlimited (settings : Settings) : Settings := { settings with maxDepth := none }

namespace Match

/-! ## 1. The strict basis -/

/-- The basis that fails in a given way where an atomic rule is already being matched. -/
def Basis.refusing (env : Env) (x : Lexicon) (f : Failure) : Basis := ⟨env, x, .error f⟩

/-- The basis that gives up where an atomic rule is already being matched. -/
def Basis.strict (env : Env) (x : Lexicon) : Basis := .refusing env x .stackExhausted

/-- Without kept results the search agrees with a strict basis unless a rule was entered again,
    which shows in the failure. -/
def Terms.entered (env : Env) (x : Lexicon) (f : Failure) (off : env.settings.memoize = false) :
    Terms (Basis.refusing env x f) where
  valid _ _ := True
  excuse f' s := f' = f ∧ s.Reentered
  grows := by
    rintro _ s s' suffix ⟨rfl, name, start, h⟩
    exact ⟨rfl, name, start, suffix.subset h⟩
  again := .inr ⟨f, rfl, fun _ entered => ⟨rfl, entered⟩⟩
  hit on := absurd (off.symm.trans on) Bool.false_ne_true
  settle on := absurd (off.symm.trans on) Bool.false_ne_true

/-! ## 2. Kept results -/

section Kept

variable (env : Env) (x : Lexicon)

/-- The strict basis where nesting is not limited. -/
def Basis.vast : Basis := (Basis.strict env x).under env.settings.unlimited

/-- A result is that of a rule where nothing stands in the way: no call is active, nesting is not
    limited, and there are levels enough. -/
def Genuine (key : String × Int) (v : Verdict) : Prop :=
  ∃ rule levels, x.rules key.1 = .ok rule ∧
    (Basis.vast env x).verdict ((Basis.vast env x).eval levels 0) [] rule key.2 = .ok v

variable {env x}

/-- What plain recursion has in any place is what it has where nothing stands in the way, unless
    it gives up. -/
theorem verdict_vast {levels levels' : Nat} (le : levels ≤ levels') (depth : Nat)
    (active : Active) (rule : Rule) (pos : Int) :
    CutOutcome env.settings.GivesUp
      ((Basis.strict env x).verdict ((Basis.strict env x).eval levels depth) active rule pos)
      ((Basis.vast env x).verdict ((Basis.vast env x).eval levels' 0) [] rule pos) := by
  have limit : env.settings.maxDepth = none ∨
      ∀ depth pos, env.settings.GivesUp (.depthLimit depth pos) := by
    by_cases h : env.settings.maxDepth = none
    · exact .inl h
    · exact .inr fun depth pos => .inr ⟨h, depth, pos, rfl⟩
  have again : ∃ f, (Basis.strict env x).again = .error f ∧ env.settings.GivesUp f :=
    ⟨_, rfl, .inl rfl⟩
  exact verdict_cut again (eval_cut again (.inl rfl) limit rfl le depth 0)
    (List.nil_subset active) rule pos

/-- Where nothing stands in the way, more levels do not change a result. -/
theorem vast_mono {levels levels' : Nat} (le : levels ≤ levels') {rule : Rule} {pos : Int}
    {v : Verdict}
    (h : (Basis.vast env x).verdict ((Basis.vast env x).eval levels 0) [] rule pos = .ok v) :
    (Basis.vast env x).verdict ((Basis.vast env x).eval levels' 0) [] rule pos = .ok v := by
  have again : ∃ f, (Basis.vast env x).again = .error f ∧ f = .stackExhausted := ⟨_, rfl, rfl⟩
  have cut : Inner.Cuts (· = .stackExhausted) ((Basis.vast env x).eval levels 0)
      (((Basis.vast env x).under env.settings.unlimited).eval levels' 0) :=
    eval_cut again rfl (.inl rfl) rfl le 0 0
  exact (verdict_cut again cut (List.nil_subset []) rule pos).eq_ok h

/-- With kept results the search agrees with the strict basis unless that gives up. -/
def Terms.kept (env : Env) (x : Lexicon) (named : x.Named) : Terms (Basis.strict env x) where
  valid := Genuine env x
  excuse f _ := env.settings.GivesUp f
  grows _ h := h
  again := .inr ⟨_, rfl, fun _ _ => .inl rfl⟩
  hit := by
    rintro depth active name rule pos v _ known ⟨rule', levels, known', h⟩
    -- Both are found under the name of the rule, so that they are the same.
    obtain rfl : rule.name = name := named name rule known
    obtain rfl : rule = rule' := Except.ok.inj (known.symm.trans known')
    have le := Nat.le_max_left levels (env.settings.room + 1 - depth)
    have le' := Nat.le_max_right levels (env.settings.room + 1 - depth)
    have cut : CutOutcome env.settings.GivesUp
        ((Basis.strict env x).verdict ((Basis.strict env x).solutions depth) active rule pos)
        ((Basis.vast env x).verdict ((Basis.vast env x).eval _ 0) [] rule pos) :=
      verdict_vast le' depth active rule pos
    rcases cut with same | ⟨f, hf, gaveUp⟩
    · exact .inl (same.trans (vast_mono le h))
    · exact .inr ⟨f, hf, fun _ => gaveUp⟩
  settle := by
    intro depth active name rule pos v _ known h
    obtain rfl : rule.name = name := named name rule known
    exact ⟨rule, _, known, (verdict_vast (Nat.le_refl _) depth active rule pos).eq_ok h⟩

end Kept

/-! ## 3. The two runs -/

section Settings

variable {w : Basis} {settings : Settings} (limit : settings.maxDepth = w.env.settings.maxDepth)
  (room : settings.room = w.env.settings.room)

include limit room

theorem solutions_under (depth : Nat) : (w.under settings).solutions depth = w.solutions depth := by
  have h : (w.under settings).env.settings.room = w.env.settings.room := room
  unfold Basis.solutions
  rw [eval_under w limit, h]

/-- What plain recursion finds does not depend on whether results are kept. -/
theorem answer_under (q : Query) (pos : Int) :
    (w.under settings).answer q pos = w.answer q pos := by
  have goal (s : Solution) :
      goalAnswers (w.under settings) [] q.goal s = goalAnswers w [] q.goal s := by
    cases q with
    | pattern p => exact congrFun (congrFun (congrFun (solutions_under limit room 1) []) p) s
    | rule name anchored =>
      show (if 1 ≤ settings.room then _ else _) = if 1 ≤ w.env.settings.room then _ else _
      rw [room, solutions_under limit room]
      rfl
  unfold Basis.answer
  rw [sought_single, sought_single, goal]
  rfl

end Settings

end Match

open Match

/-- A query to a fresh matcher, which keeps results or does not. -/
def Query.fresh (q : Query) (text : Text) (registry : Option Registry) (actions : Actions)
    (settings : Settings) (memoize : Bool) (pos : Int) :
    Except Failure (Option Found) × Matcher :=
  (Matcher.start text registry actions { settings with memoize }).ask q pos

/-- A run without kept results enters no rule again if plain recursion does not fail in the way
    that shows it. Then it comes to what plain recursion finds. -/
theorem Query.fresh_once {q : Query} {text : Text} {registry : Option Registry} {actions : Actions}
    {settings : Settings} {pos : Int} {f : Failure} {y : Except Failure (Option Found)}
    (h : (Basis.refusing ⟨text, actions, { settings with memoize := false }⟩ (.of registry)
      f).answer q pos = y) (hy : y ≠ .error f) :
    ¬(q.fresh text registry actions settings false pos).2.state.Reentered ∧
      (q.fresh text registry actions settings false pos).1 = y := by
  rcases ask_start (Terms.entered ⟨text, actions, { settings with memoize := false }⟩
      (.of registry) f rfl) rfl q pos with ⟨same, kept⟩ | ⟨f', failed, rfl, _⟩
  · refine ⟨?_, same.symm.trans h⟩
    rcases kept.once with again | once
    · cases again
    · exact once
  · exact absurd (h.symm.trans failed) hy

/-- If the run without kept results never enters an atomic rule where it is being matched, the run
    with them has the same outcome, unless the first was given up for its depth. -/
theorem Query.fresh_agree {q : Query} {text : Text} {registry : Option Registry}
    {actions : Actions} {settings : Settings} {pos : Int} (built : ∀ r ∈ registry, r.Built)
    (once : ¬(q.fresh text registry actions settings false pos).2.state.Reentered) :
    (q.fresh text registry actions settings true pos).1 =
        (q.fresh text registry actions settings false pos).1 ∨
      ∃ f, (q.fresh text registry actions settings false pos).1 = .error f ∧
        settings.GivesUp f := by
  let w (memoize : Bool) : Basis :=
    .strict ⟨text, actions, { settings with memoize }⟩ (Lexicon.of registry)
  have off := ask_start (w := w false) (.entered _ _ _ rfl) rfl q pos
  have on := ask_start (w := w true) (.kept _ _ (Lexicon.named_of built)) rfl q pos
  have same : ((w false).under { settings with memoize := true }).answer q pos =
      (w false).answer q pos := answer_under (by rfl) (by rfl) q pos
  rcases off with ⟨off, _⟩ | ⟨f, _, _, entered⟩
  · rcases on with ⟨on, _⟩ | ⟨f, hf, gaveUp⟩
    · exact .inl (on.symm.trans (same.trans off))
    · exact .inr ⟨f, off.symm.trans (same.symm.trans hf), gaveUp⟩
  · exact absurd entered once

/-- **Kept results change nothing.** If the run without them never enters an atomic rule where it
    is being matched, the run with them has the same outcome: the same failure, too, if nesting
    is not limited and there was room enough, and in any case the same result. -/
theorem memo_transparent (text : Text) (registry : Option Registry) (actions : Actions)
    (settings : Settings) (q : Query) (pos : Int) (built : ∀ r ∈ registry, r.Built)
    (once : ¬(q.fresh text registry actions settings false pos).2.state.Reentered) :
    (settings.maxDepth = none →
      (q.fresh text registry actions settings false pos).1 ≠ .error .stackExhausted →
      (q.fresh text registry actions settings true pos).1 =
        (q.fresh text registry actions settings false pos).1) ∧
    ∀ found, (q.fresh text registry actions settings false pos).1 = .ok found →
      (q.fresh text registry actions settings true pos).1 = .ok found := by
  rcases Query.fresh_agree built once with same | ⟨f, hf, gaveUp⟩
  · exact ⟨fun _ _ => same, fun found hfound => same.trans hfound⟩
  · constructor
    · intro unlimited enough
      rcases gaveUp with rfl | ⟨limited, _⟩
      · exact absurd hf enough
      · exact absurd unlimited limited
    · intro found hfound
      rw [hfound] at hf
      cases hf

/-! ## 4. Where there is not room enough -/

/-- A reference that captures nothing. -/
def Pattern.plainRef (name : String) : Pattern := .ruleRef ⟨name, none, false⟩

/-- A rule that matches the empty text. -/
def gapRule : Rule := ⟨"gap", .token, .literal [] false, .none⟩

/-- A rule that is nothing but a call of the other. -/
def lineRule : Rule := ⟨"line", .token, .plainRef "gap", .none⟩

/-- The two rules. -/
def nested : Registry :=
  (Registry.empty.put "gap" (.compiled gapRule)).put "line" (.compiled lineRule)

/-- An environment with room for three levels of nesting. -/
def narrow : Env := ⟨#[], {}, ⟨none, true, 3⟩⟩

/-- The capture of the empty text by a rule. -/
def Rule.emptyCapture (rule : Rule) : Capture :=
  .build (some (.name rule.name)) 0 0 rule.plural (some rule.name) []

/-- With kept results there is room enough for a call of one rule after the other. -/
theorem seek_nested : ∃ s,
    seek narrow [] none [⟨[.part (.sequence [.plainRef "gap", .plainRef "line"]) 1], 0, []⟩]
      { registry := some nested } = .ok (some (⟨0, []⟩, [])) s := by
  let s₁ : State := { registry := some nested, peakDepth := 2, ruleCalls := 1 }
  let s₂ : State := { s₁ with
    peakDepth := 3, memo := s₁.memo.insert ("gap", 0) (some (0, gapRule.emptyCapture)),
    trace := [.settled "gap" 0] }
  let s₃ : State := { s₂ with ruleCalls := 3, memoHits := 1 }
  let s₄ : State := { s₃ with
    memo := s₃.memo.insert ("line", 0) (some (0, lineRule.emptyCapture)),
    trace := [.settled "line" 0, .settled "gap" 0] }
  have gap : seek narrow [("gap", 0)] none [⟨[.part (.literal [] false) 3], 0, []⟩] s₁ =
      .ok (some (⟨0, []⟩, [])) { s₁ with peakDepth := 3 } :=
    calc
      _ = seek narrow [("gap", 0)] none [⟨[], 0, []⟩] { s₁ with peakDepth := 3 } :=
        seek_step (fun _ => rfl) rfl
      _ = _ := by rw [seek.eq_2]; rfl
  have line : seek narrow [("line", 0)] none [⟨[.part (.plainRef "gap") 3], 0, []⟩]
      { s₂ with ruleCalls := 2 } = .ok (some (⟨0, []⟩, [])) s₃ :=
    calc
      _ = seek narrow [("line", 0)] none [⟨[.call "gap" none 3], 0, []⟩]
          { s₂ with ruleCalls := 2 } :=
        seek_step (fun _ => rfl) rfl
      _ = seek narrow [("line", 0)] none [⟨[], 0, []⟩] s₃ :=
        (seek_kept (Nat.le_refl 3) rfl rfl rfl Std.HashMap.getElem?_insert_self).trans rfl
      _ = _ := by rw [seek.eq_2]; rfl
  have untried : s₂.memo[("line", (0 : Int))]? = none := by
    show (s₁.memo.insert ("gap", 0) _)[("line", (0 : Int))]? = none
    rw [Std.HashMap.getElem?_insert, if_neg (by decide)]
    exact Std.HashMap.getElem?_empty
  refine ⟨s₄, ?_⟩
  calc
    _ = seek narrow [] none [⟨[.part (.plainRef "gap") 2, .part (.plainRef "line") 2], 0, []⟩]
        { registry := some nested, peakDepth := 1 } := seek_step (fun _ => rfl) rfl
    _ = seek narrow [] none [⟨[.call "gap" none 2, .part (.plainRef "line") 2], 0, []⟩]
        { registry := some nested, peakDepth := 2 } := seek_step (fun _ => rfl) rfl
    _ = seek narrow [] none [⟨[.part (.plainRef "line") 2], 0, []⟩] s₂ :=
      (seek_fresh (Nat.le_succ 2) rfl rfl rfl Std.HashMap.getElem?_empty rfl gap rfl).trans rfl
    _ = seek narrow [] none [⟨[.call "line" none 2], 0, []⟩] s₂ := seek_step (fun _ => rfl) rfl
    _ = seek narrow [] none [⟨[], 0, []⟩] s₄ :=
      (seek_fresh (Nat.le_succ 2) rfl rfl rfl untried rfl line rfl).trans rfl
    _ = _ := by rw [seek.eq_2]; rfl

/-- A query for one rule after the other. -/
def nestedQuery : Query := .pattern (.sequence [.plainRef "gap", .plainRef "line"])

/-- With kept results the query finds the empty text, with room for three levels. -/
theorem nested_found :
    (nestedQuery.fresh #[] (some nested) {} narrow.settings true 0).1 =
      .ok (nestedQuery.found 0 ⟨0, []⟩) := by
  obtain ⟨s, h⟩ := seek_nested
  refine Matcher.advance_ok (s := s) ?_
  show Matcher.runPattern narrow _ 0 { registry := some nested } = _
  unfold Matcher.runPattern
  simp only [bind, EStateM.bind]
  rw [h]
  rfl

theorem nested_built : ∀ r ∈ some nested, r.Built := by
  have gap : Registry.empty.define "gap" (.now (.pattern gapRule.pattern)) .token .none =
      .ok (Registry.empty.put "gap" (.compiled gapRule)) := rfl
  have line : (Registry.empty.put "gap" (.compiled gapRule)).define "line"
      (.now (.pattern lineRule.pattern)) .token .none = .ok nested := rfl
  rintro r ⟨⟩
  exact .define (.define .empty gap) line

/-- Where there is room enough, the query finds the empty text with kept results, since it does
    so without them. -/
theorem memo_transparent_nested :
    (∀ r ∈ some nested, r.Built) ∧
      ¬(nestedQuery.fresh #[] (some nested) {} {} false 0).2.state.Reentered ∧
      (nestedQuery.fresh #[] (some nested) {} {} true 0).1 =
        .ok (nestedQuery.found 0 ⟨0, []⟩) := by
  have plain : (Basis.refusing ⟨#[], {}, { ({} : Settings) with memoize := false }⟩
      (.of (some nested)) .stackExhausted).answer nestedQuery 0 =
        .ok (nestedQuery.found 0 ⟨0, []⟩) := rfl
  obtain ⟨once, off⟩ := Query.fresh_once plain nofun
  exact ⟨nested_built, once,
    (memo_transparent #[] (some nested) {} {} nestedQuery 0 nested_built once).2 _ off⟩

/-- Without kept results there may not be room enough where there is with them. -/
theorem memo_needs_room :
    (∀ r ∈ some nested, r.Built) ∧
      ¬(nestedQuery.fresh #[] (some nested) {} narrow.settings false 0).2.state.Reentered ∧
      narrow.settings.maxDepth = none ∧
      (nestedQuery.fresh #[] (some nested) {} narrow.settings true 0).1 ≠
        (nestedQuery.fresh #[] (some nested) {} narrow.settings false 0).1 := by
  have plain : (Basis.refusing ⟨#[], {}, { narrow.settings with memoize := false }⟩
      (.of (some nested)) (.badDepthLimit 0)).answer nestedQuery 0 = .error .stackExhausted := rfl
  obtain ⟨once, off⟩ := Query.fresh_once plain nofun
  refine ⟨nested_built, once, rfl, ?_⟩
  rw [nested_found, off]
  exact nofun

end GrammarMatch
