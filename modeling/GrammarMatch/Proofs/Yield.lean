/-
  File:      GrammarMatch/Proofs/Yield.lean
  Subject:   What a row of patterns may capture.

  `Yields` says which captures a row of patterns may leave in its scope, in the order of the text,
  and what each of them holds in turn: a group holds what its body yields, a rule what its pattern
  yields. The text and the positions do not matter for it, nor does what succeeds; what a branch
  captured that was given up is not there. Whatever the search comes to, it captured what its
  goals may yield (`yielding_obeyed`), and kept results are captures of their rules.
-/
import GrammarMatch.Proofs.Agenda
import GrammarMatch.Proofs.Keeping

namespace GrammarMatch

/-- A pattern that captures nothing. -/
def Pattern.Silent : Pattern → Prop
  | .literal .. | .charClass .. | .look .. | .anchor _ | .whitespace => True
  | .ruleRef r => r.key? = none
  | _ => False

namespace Match

/-! ## 1. Rows -/

/-- A row of patterns may capture this, in the order of the text. -/
inductive Yields (x : Lexicon) : List Pattern → List (CaptureKey × Capture) → Prop
  | nil : Yields x [] []
  | silent {p : Pattern} {row : List Pattern} {l : List (CaptureKey × Capture)} (h : p.Silent)
      (rest : Yields x row l) : Yields x (p :: row) l
  | sequence {parts row : List Pattern} {l : List (CaptureKey × Capture)}
      (h : Yields x (parts ++ row) l) : Yields x (.sequence parts :: row) l
  | alternation {mode : ChoiceMode} {branches row : List Pattern} {p : Pattern}
      {l : List (CaptureKey × Capture)} (mem : p ∈ branches) (h : Yields x (p :: row) l) :
      Yields x (.alternation mode branches :: row) l
  | repetition {q : Quantity} {body : Pattern} {row : List Pattern} {n : Nat}
      {l : List (CaptureKey × Capture)} (allowed : ∀ i < n, q.mayGoOn i = true)
      (h : Yields x (List.replicate n body ++ row) l) : Yields x (.repetition q body :: row) l
  | enclosed {plural : List CaptureKey} {body : Pattern} {row : List Pattern}
      {l : List (CaptureKey × Capture)} (h : Yields x (body :: row) l) :
      Yields x (.group none plural body :: row) l
  | group {key : CaptureKey} {plural : List CaptureKey} {body : Pattern} {row : List Pattern}
      {start stop : Int} {inner l : List (CaptureKey × Capture)} (inside : Yields x [body] inner)
      (rest : Yields x row l) :
      Yields x (.group (some key) plural body :: row)
        ((key, .node ⟨some key, start, stop, none, none, plural⟩ inner) :: l)
  | rule {r : Reference} {key : CaptureKey} {rule : Rule} {c : Capture} {row : List Pattern}
      {l : List (CaptureKey × Capture)} (captured : r.key? = some key)
      (known : x.rules r.name = .ok rule) (named : c.label.rule = some rule.name)
      (plural : c.label.plural = rule.plural) (inside : Yields x [rule.pattern] c.entries)
      (rest : Yields x row l) : Yields x (.ruleRef r :: row) ((key, c) :: l)

/-- A capture of the rule of a name. -/
structure OfRule (x : Lexicon) (name : String) (rule : Rule) (c : Capture) : Prop where
  known : x.rules name = .ok rule
  named : c.label.rule = some rule.name
  plural : c.label.plural = rule.plural
  inside : Yields x [rule.pattern] c.entries

namespace Yields

variable {x : Lexicon} {p : Pattern} {row row' : List Pattern} {l l' : List (CaptureKey × Capture)}

/-- One row after the other. -/
theorem append (h : Yields x row l) (h' : Yields x row' l') :
    Yields x (row ++ row') (l ++ l') := by
  induction h with
  | nil => exact h'
  | silent silent _ ih => exact .silent silent ih
  | sequence _ ih =>
    rw [List.append_assoc] at ih
    exact .sequence ih
  | alternation mem _ ih => exact .alternation mem ih
  | repetition allowed _ ih =>
    rw [List.append_assoc] at ih
    exact .repetition allowed ih
  | enclosed _ ih => exact .enclosed ih
  | group inside _ _ ih => exact .group inside ih
  | rule captured known named plural inside _ _ ih =>
    exact .rule captured known named plural inside ih

theorem alone_silent (h : p.Silent) : Yields x [p] [] := .silent h .nil

/-- The capture of a rule under the key of a reference, if it has one. -/
theorem alone_rule {r : Reference} {rule : Rule} {c : Capture} (hc : OfRule x r.name rule c) :
    Yields x [.ruleRef r] ((r.key?.map fun key => (key, c)).toList) := by
  cases captured : r.key? with
  | none => exact alone_silent captured
  | some key => exact .rule captured hc.known hc.named hc.plural hc.inside .nil

/-- One more round of a repetition. -/
theorem round {body : Pattern} {n : Nat} (h : Yields x [body] l)
    (h' : Yields x (List.replicate n body) l') :
    Yields x (List.replicate (n + 1) body) (l ++ l') := h.append h'

end Yields

/-- What was captured after a rule, with what was captured before it. -/
theorem capturedUnder_eq (key : Option CaptureKey) (c : Capture) (outer : Captured) :
    capturedUnder key c outer = (key.map fun key => (key, c)).toList.reverse ++ outer := by
  cases key with
  | none => rfl
  | some key => rfl

/-! ## 2. The discipline -/

/-- What a goal needs if all that it may capture has to be as required. -/
def Goal.YieldNeeds (x : Lexicon) (K : Int → Captured → Prop) (pos : Int) (captured : Captured) :
    Goal → Prop
  | .part p _ => ∀ stop l, Yields x [p] l → K stop (l.reverse ++ captured)
  | .round q body count _ _ => ∀ stop n l, (∀ i < n, q.mayGoOn (count + 1 + i) = true) →
      Yields x (List.replicate n body) l → K stop (l.reverse ++ captured)
  | .call name key _ => ∀ stop rule c, OfRule x name rule c → K stop (capturedUnder key c captured)
  | .close key plural start outer =>
    K pos ((key, .build (some key) start pos plural none captured) :: outer)
  | .finish rule key _ outer => ∀ c, c.label.rule = some rule.name → c.label.plural = rule.plural →
      c.entries = captured.reverse → K pos (capturedUnder key c outer)
  | .retreat _ _ _ => ∀ stop captured, K stop captured

/-- A match that is kept for a rule holds a capture of it. -/
abbrev Kept (x : Lexicon) : String × Int → Verdict → Prop :=
  Verdict.Matched fun key _ c => ∃ rule, OfRule x key.1 rule c

/-- Every result that is kept is a capture of its rule. -/
abbrev State.Yielding (x : Lexicon) : State → Prop := State.Keeping (· = x) (Kept x)

/-- All that is captured is what may be. -/
def yielding (x : Lexicon) : Discipline :=
  .ofState (State.Yielding x) (fun _ => True) fun _ K g pos captured => g.YieldNeeds x K pos captured

variable {x : Lexicon}

theorem yielding_start {registry : Option Registry} (h : Lexicon.of registry = x) :
    State.Yielding x { registry } := keeping_start h

/-- The capture of a rule holds what its body captured. -/
theorem label_finished {w : Basis} {rule : Rule} {start : Int} {t : Solution} {c : Capture}
    (hc : w.finished rule start t = .ok c) :
    c.label.rule = some rule.name ∧ c.label.plural = rule.plural ∧
      c.entries = t.captured.reverse := by
  unfold Basis.finished Actions.invoke at hc
  split at hc
  · cases hc
    exact ⟨rfl, rfl, rfl⟩
  · split at hc
    · cases hc
      exact ⟨rfl, rfl, rfl⟩
    · cases hc
    · cases hc

namespace Run

variable {α : Type} {P : α → Prop}

/-- A computation after which everything that is captured is what may be. -/
abbrev Yielding (x : Lexicon) (r : Run α) (P : α → Prop) : Prop :=
  r.Meets (State.Yielding x) (fun _ => True) P

end Run

/-! ## 3. Working off goals -/

section Expansion

variable {active : Active} {K : Int → Captured → Prop} {pos : Int} {captured : Captured}

/-- What captures nothing may be passed. -/
theorem yielding_silent {p : Pattern}
    (hK : ∀ stop l, Yields x [p] l → K stop (l.reverse ++ captured)) (silent : p.Silent)
    (stop : Int) : K stop captured := hK stop [] (.alone_silent silent)

/-- After `count` rounds a repetition may stop, or go on with one more. -/
theorem yielding_chooses {q : Quantity} {body : Pattern} {count depth : Nat}
    (hK : ∀ stop n l, (∀ i < n, q.mayGoOn (count + i) = true) →
      Yields x (List.replicate n body) l → K stop (l.reverse ++ captured)) :
    (yielding x).Chooses active K q body count depth pos captured where
  stop _ := hK pos 0 [] nofun .nil
  goOn more stop l hl stop' n l' allowed hl' := by
    have together := hK stop' (n + 1) (l ++ l') (fun i hi => ?_) (hl.round hl')
    · rwa [List.reverse_append, List.append_assoc] at together
    · cases i with
      | zero => exact more
      | succ i =>
        have := allowed i (by omega)
        rwa [show count + (i + 1) = count + 1 + i by omega]

/-- Parts of a sequence are worked off one after the other. -/
theorem yielding_parts {parts : List Pattern} {depth : Nat}
    (hK : ∀ stop l, Yields x parts l → K stop (l.reverse ++ captured)) :
    (yielding x).goals active K (parts.map (Goal.part · depth)) pos captured := by
  induction parts generalizing pos captured K with
  | nil => exact hK pos [] .nil
  | cons p parts ih =>
    intro stop l hl
    refine ih fun stop' l' hl' => ?_
    have together := hK stop' (l ++ l') (hl.append hl')
    rwa [List.reverse_append, List.append_assoc] at together

/-- **Whatever a goal is worked off to, it may capture no more than the goal**, and the result of an
    atomic rule is a capture of it. -/
theorem yielding_keeper (named : x.Named) (env : Env) :
    Keeper (Basis.of env x) (· = x) (Kept x)
      (fun rule _ _ captured => Yields x [rule.pattern] captured.reverse) (fun _ => True)
      (yielding x).needs where
  literal h _ := yielding_silent h trivial _
  charClass h _ := yielding_silent h trivial _
  sequence h := yielding_parts fun stop l hl => h stop l (.sequence (by rwa [List.append_nil]))
  branch h _ mem stop l hl := h stop l (.alternation mem hl)
  repetition h := yielding_chooses fun stop n l allowed hl => by
    refine h stop l (.repetition (fun i hi => ?_) (by rwa [List.append_nil]))
    have := allowed i hi
    rwa [Nat.zero_add] at this
  enclosed h stop l hl := h stop l (.enclosed hl)
  group {_ K key plural _ _ pos captured} h stop l hl := by
    show K stop ((key, .build (some key) pos stop plural none (l.reverse ++ [])) :: captured)
    unfold Capture.build
    rw [List.append_nil, List.reverse_reverse]
    exact h stop _ (.group hl .nil)
  ahead _ _ _ _ _ := trivial
  behind _ _ _ _ := trivial
  looked h := yielding_silent h trivial _
  anchor h _ := yielding_silent h trivial _
  ruleRef h stop rule c hc := by
    rw [capturedUnder_eq]
    exact h stop _ (.alone_rule hc)
  space h _ _ _ stop _ _ _ := yielding_silent h trivial stop
  gap h _ _ _ stop _ := yielding_silent h trivial stop
  leftOpen h _ given rule known _ stop l hl c rul plural inside := by
    change c.entries = (l.reverse ++ []).reverse at inside
    rw [List.append_nil, List.reverse_reverse] at inside
    exact h stop rule c ⟨given ▸ known, rul, plural, inside ▸ hl⟩
  round h _ := yielding_chooses h
  rest {_ _ _ _ _ _ _ pos _} h _ := h pos 0 [] nofun .nil
  close h := h
  retreat h := ⟨fun stop _ _ => h stop _, h⟩
  admits _ _ := trivial
  finish h c hc := by
    obtain ⟨rul, plural, inside⟩ := label_finished hc
    exact h c rul plural inside
  body _ _ _ _ _ _ _ _ l hl := by
    show Yields x _ (l.reverse ++ []).reverse
    rwa [List.append_nil, List.reverse_reverse]
  matched {_ _ name _ _ _ _} _ _ given rule known _ _ _ yields hc _ _ same := by
    cases same
    obtain rfl : rule.name = name := named name rule (given ▸ known)
    obtain ⟨rul, plural, inside⟩ := label_finished hc
    exact ⟨rule, given ▸ known, rul, plural, inside ▸ yields⟩
  missed _ _ _ _ _ same := by cases same
  kept {_ _ name _ _ _ _} h _ given rule known stop c held := by
    obtain rfl : rule.name = name := named name rule (given ▸ known)
    obtain ⟨rule', hc⟩ := held stop c rfl
    exact h stop rule' c hc

theorem yielding_obeyed (named : x.Named) (env : Env) : (yielding x).Obeyed env :=
  (yielding_keeper named env).obeyed

end Expansion

end GrammarMatch.Match
