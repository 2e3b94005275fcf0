/-
  File:      GrammarMatch/Proofs/Greed.lean
  Subject:   Greed only puts the solutions in order.

  A greedy repetition goes on before it stops, any other one stops before it goes on. Patterns that
  differ in nothing else (`Pattern.Flipped`) have the same solutions in another order, wherever
  their repetitions stand: what is found in a look, or not found, depends on no order either
  (`Pattern.Flipped.agree`). So they match the same texts as a whole and are found at the same
  places (`greed_keeps_solutions`). A failure cuts the solutions short, so that it matters then
  which of them come first (`greed_decides_failure`).
-/
import GrammarMatch.Proofs.FullMatch
import GrammarMatch.Proofs.Shuffle
import GrammarMatch.Proofs.Sweep

namespace GrammarMatch

open Match

/-! ## 1. Repetitions of another greed -/

/-- The same pattern, but for which of its repetitions are greedy. Branches that compete for the
    longest stay as they are. -/
inductive Pattern.Flipped : Pattern → Pattern → Prop
  | same (p : Pattern) : Flipped p p
  | sequence {parts parts' : List Pattern} (h : List.Forall₂ Flipped parts parts') :
      Flipped (.sequence parts) (.sequence parts')
  | ordered {branches branches' : List Pattern} (h : List.Forall₂ Flipped branches branches') :
      Flipped (.alternation .ordered branches) (.alternation .ordered branches')
  | repetition (q : Quantity) (greedy : Bool) {body body' : Pattern} (h : Flipped body body') :
      Flipped (.repetition q body) (.repetition { q with greedy } body')
  | group (key : Option CaptureKey) (plural : List CaptureKey) {body body' : Pattern}
      (h : Flipped body body') : Flipped (.group key plural body) (.group key plural body')
  | look (kind : LookKind) {body body' : Pattern} (h : Flipped body body') :
      Flipped (.look kind body) (.look kind body')

namespace Pattern

/-- The partner of a member of the second of two lists in step. -/
theorem flipped_partner {l l' : List Pattern} (h : List.Forall₂ Flipped l l') :
    ∀ c' ∈ l', ∃ c ∈ l, c.Flipped c' := by
  induction h with
  | nil => exact List.forall_mem_nil _
  | @cons p p' l l' first _ ih =>
    refine List.forall_mem_cons.mpr ⟨⟨p, List.mem_cons_self, first⟩, fun c' hc' => ?_⟩
    obtain ⟨c, hc, h⟩ := ih c' hc'
    exact ⟨c, List.mem_cons_of_mem p hc, h⟩

theorem Flipped.child {p p' : Pattern} (h : p.Flipped p') :
    ∀ c' ∈ p'.children, ∃ c ∈ p.children, c.Flipped c' := by
  cases h with
  | same => exact fun c hc => ⟨c, hc, .same c⟩
  | sequence h | ordered h => exact flipped_partner h
  | repetition _ _ h | group _ _ h | look _ h =>
    exact List.forall_mem_singleton.mpr ⟨_, List.mem_cons_self, h⟩

/-- The same rules are called, whatever is greedy. -/
theorem Flipped.standalone {p p' : Pattern} (h : p.Flipped p') {space : Bool}
    (alone : p.Standalone space) : p'.Standalone space := by
  intro name calls
  induction calls generalizing p with
  | ruleRef =>
    cases h
    exact Standalone.not_ruleRef alone
  | whitespace own =>
    cases h
    cases own.symm.trans alone.spaceless
  | child hc _ ih =>
    obtain ⟨c, mem, h⟩ := h.child _ hc
    exact ih h (alone.child mem)

mutual

/-- Greed changes no width. -/
theorem Flipped.width {p p' : Pattern} (h : p.Flipped p') : p'.width = p.width := by
  match h with
  | .same _ | .look .. => rfl
  | .sequence h =>
    show widthOfParts _ = widthOfParts _
    rw [widthOfParts_eq, widthOfParts_eq, widths_flipped h]
  | .ordered h => rw [width_alternation, width_alternation, widths_flipped h]
  | .repetition q greedy h => exact congrArg (Width.times · q) (Flipped.width h)
  | .group key plural h =>
    have inside := Flipped.width h
    exact inside

theorem widths_flipped {l l' : List Pattern} (h : List.Forall₂ Flipped l l') :
    l'.map Pattern.width = l.map Pattern.width := by
  match h with
  | .nil => rfl
  | .cons first rest =>
    exact congrArg₂ List.cons (Flipped.width first) (widths_flipped rest)

end

mutual

theorem Flipped.height {p p' : Pattern} (h : p.Flipped p') : p'.height = p.height := by
  match h with
  | .same _ => rfl
  | .sequence h | .ordered h =>
    have inside := heights_flipped h
    exact inside
  | .repetition _ _ h | .group _ _ h | .look _ h => exact congrArg (· + 1) (Flipped.height h)

theorem heights_flipped {l l' : List Pattern} (h : List.Forall₂ Flipped l l') :
    heightOfAll l' = heightOfAll l := by
  match h with
  | .nil => rfl
  | .cons first rest =>
    exact congrArg₂ (fun m n => max (m + 1) n) (Flipped.height first) (heights_flipped rest)

end

end Pattern

/-! ## 2. The same solutions -/

namespace Match

section Composites

variable {k k' : Solution → Answers Solution}

/-- Whatever a repetition reaches, one of another greed does. -/
theorem rounds_covered (h : ∀ s, (k s).CoveredBy (k' s)) (q : Quantity) (greedy : Bool)
    (left count : Nat) (s : Solution) :
    (rounds q k left count s).CoveredBy (rounds { q with greedy } k' left count s) := by
  induction left generalizing count s with
  | zero => exact fun t ht => absurd ht (Answers.not_mem_done t)
  | succ left ih =>
    intro t ht
    have stop {b : Bool} (ht : t ∈ Answers.only (b && q.mayStop count) s) :
        (rounds { q with greedy } k' (left + 1) count s).Covers (· = t) := by
      obtain ⟨enough, same⟩ := Answers.mem_only.mp ht
      exact rounds_stop (q := { q with greedy }) (P := (· = t)) (Bool.and_eq_true_iff.mp enough).2
        same.symm
    unfold rounds at ht
    rcases Answers.mem_of_mem_append ht with ht | ht
    · rcases Answers.mem_of_mem_append ht with ht | ht
      · exact stop ht
      · by_cases more : q.mayGoOn count = true
        · rw [if_pos more] at ht
          obtain ⟨u, hu, ht⟩ := Answers.mem_of_mem_bind ht
          refine rounds_goOn more ((h s u hu).bind fun v _ same => ?_)
          subst same
          by_cases width : v.stop = s.stop
          · rw [if_pos width] at ht ⊢
            exact Answers.covers_of_mem ht
          · rw [if_neg width] at ht ⊢
            exact ih (count + 1) v t ht
        · rw [if_neg more] at ht
          exact absurd ht (Answers.not_mem_done t)
    · exact stop ht

theorem rounds_agree (h : ∀ s, (k s).Agree (k' s)) (q : Quantity) (greedy : Bool)
    (left count : Nat) (s : Solution) :
    (rounds q k left count s).Agree (rounds { q with greedy } k' left count s) :=
  ⟨rounds_covered (fun s => (h s).left) q greedy left count s,
    rounds_covered (fun s => (h s).right) { q with greedy } q.greedy left count s⟩

theorem retreat_agree (h : ∀ s, (k s).Agree (k' s)) (left : Nat) (s : Solution) :
    (Basis.retreat k left s).Agree (Basis.retreat k' left s) := by
  induction left generalizing s with
  | zero => exact .refl _
  | succ left ih => exact (h s).append (ih _)

/-- A look for what has the same width finds something if the other one does. -/
theorem looked_agree {inner inner' : Inner} {active : Active} {body body' : Pattern}
    (h : ∀ s, (inner active body s).Agree (inner' active body' s))
    (width : body'.width = body.width) (kind : LookKind) {pos : Int} {o o' : Option Solution}
    (here : Basis.looked inner active kind body pos = .ok o)
    (there : Basis.looked inner' active kind body' pos = .ok o') : o'.isSome = o.isSome := by
  have starts : retreatFrom body' pos = retreatFrom body pos := by
    unfold retreatFrom
    rw [width]
  unfold Basis.looked at here there
  rw [starts] at there
  by_cases backward : kind.backward = true
  · rw [if_pos backward] at here there
    exact ((retreat_agree h _ _).bind fun t => .refl _).first here there
  · rw [if_neg backward] at here there
    exact (h ⟨pos, []⟩).first here there

end Composites

variable {w : Basis}

/-- What agrees one level deeper agrees. -/
theorem solutions_agree {p p' : Pattern} {depth : Nat} {active : Active} {s : Solution}
    (h : (w.part (w.solutions (depth + 1)) active s p).Agree
      (w.part (w.solutions (depth + 1)) active s p')) :
    (w.solutions depth active p s).Agree (w.solutions depth active p' s) := by
  rw [solutions_eq, solutions_eq]
  refine .attempt fun _ _ _ _ => ?_
  by_cases room : depth ≤ w.env.settings.room
  · rw [if_pos room, if_pos room]
    exact h
  · rw [if_neg room, if_neg room]
    exact .refl _

end Match

namespace Pattern

variable {w : Basis}

mutual

/-- **Patterns that differ only in greed have the same solutions**, but for what failures cut
    off. -/
theorem Flipped.agree {p p' : Pattern} (h : p.Flipped p') (depth : Nat) (active : Active)
    (s : Solution) : (w.solutions depth active p s).Agree (w.solutions depth active p' s) := by
  match h with
  | .same _ => exact .refl _
  | .sequence h =>
    refine solutions_agree (.chain ?_ s)
    rw [List.forall₂_map_left_iff, List.forall₂_map_right_iff]
    exact agree_flipped h (depth + 1) active
  | .ordered h =>
    refine solutions_agree (.concat ?_)
    rw [List.forall₂_map_left_iff, List.forall₂_map_right_iff]
    exact (agree_flipped h (depth + 1) active).imp fun _ _ agree => agree s
  | .repetition q greedy h =>
    exact solutions_agree (rounds_agree (Flipped.agree h (depth + 1) active) q greedy _ 0 s)
  | .group none plural h => exact solutions_agree (Flipped.agree h (depth + 1) active s)
  | .group (some key) plural h =>
    exact solutions_agree ((Flipped.agree h (depth + 1) active ⟨s.stop, []⟩).bind fun _ => .refl _)
  | .look kind h =>
    have inside := Flipped.agree h (depth + 1) active
    refine solutions_agree (.attempt fun o o' here there => ?_)
    rw [looked_agree inside h.width kind here there]
    exact .refl _

theorem agree_flipped {l l' : List Pattern} (h : List.Forall₂ Flipped l l') (depth : Nat)
    (active : Active) : List.Forall₂
      (fun p p' => ∀ s, (w.solutions depth active p s).Agree (w.solutions depth active p' s))
      l l' := by
  match h with
  | .nil => exact .nil
  | .cons first rest =>
    exact .cons (Flipped.agree first depth active) (agree_flipped rest depth active)

end

end Pattern

/-! ## 3. Where no failure comes -/

/-- Every member of a class in a pattern is known. -/
inductive Pattern.Known : Pattern → Prop
  | intro {p : Pattern}
      (own : ∀ items negated ignoreCase, p = .charClass items negated ignoreCase →
        ∀ item ∈ items, item.Known)
      (inner : ∀ c ∈ p.children, Known c) : Known p

namespace Pattern

variable {t : Text} {p p' : Pattern}

theorem Known.testable (known : p.Known) (nonneg : p.NonNegative) : Testable t p := by
  induction known with
  | @intro p own _ ih =>
    refine .intro (fun items negated ignoreCase same c _ => ?_) (fun kind body same => ?_)
      fun c hc => ih c hc (nonneg.child hc)
    · cases has : classHas items negated ignoreCase c with
      | ok holds => exact ⟨holds, rfl⟩
      | error f =>
        have unknown := (fails_classHas items negated ignoreCase c f has).2
        exact absurd (own items negated ignoreCase same) unknown
    · subst same
      exact (nonneg.child List.mem_cons_self).low

theorem Flipped.testable (h : p.Flipped p') (testable : Testable t p) : Testable t p' := by
  induction testable generalizing p' with
  | @intro p classes looks _ ih =>
    refine .intro (fun items negated ignoreCase same => ?_) (fun kind body same => ?_)
      fun c' hc' => ?_
    · subst same
      cases h
      exact classes items negated ignoreCase rfl
    · subst same
      cases h with
      | same => exact looks kind body rfl
      | look _ h => exact h.width ▸ looks kind _ rfl
    · obtain ⟨c, hc, h⟩ := h.child c' hc'
      exact ih c hc h

end Pattern

/-! ## 4. Matchers -/

/-- Kept results make no difference to a pattern: none are kept, or it calls no rule. -/
def Pattern.Unaided (p : Pattern) (settings : Settings) (x : Lexicon) : Prop :=
  settings.memoize = false ∨ p.Standalone x.space

theorem Pattern.Flipped.unaided {p p' : Pattern} (h : p.Flipped p') {settings : Settings}
    {x : Lexicon} (unaided : p.Unaided settings x) : p'.Unaided settings x :=
  unaided.imp id h.standalone

theorem Pattern.Unaided.toEnd {p : Pattern} {settings : Settings} {x : Lexicon}
    (unaided : p.Unaided settings x) : p.toEnd.Unaided settings x :=
  unaided.imp id (·.toEnd)

namespace Match

/-- What plain recursion depends on where kept results make no difference. If there are any, no
    rule is called, and there might as well be none. -/
def Basis.plain (env : Env) (x : Lexicon) : Basis :=
  .of env (if env.settings.memoize then .of none else x)

section Plain

variable {env : Env} {x : Lexicon} {p : Pattern}

theorem Basis.plain_off (off : env.settings.memoize = false) : Basis.plain env x = .of env x := by
  unfold Basis.plain
  rw [off]
  rfl

theorem Basis.plain_on (on : env.settings.memoize = true) :
    Basis.plain env x = .of env (.of none) := by
  unfold Basis.plain
  rw [on]
  rfl

theorem Basis.plain_again (v : Int × Capture) : (Basis.plain env x).again ≠ .ok (some v) :=
  fun h => by cases h

/-- What calls no rule of the registry calls none that plain recursion depends on. -/
theorem Basis.plain_standalone (alone : p.Standalone x.space) :
    p.Standalone (Basis.plain env x).lexicon.space := by
  cases memoize : env.settings.memoize with
  | false =>
    rw [Basis.plain_off memoize]
    exact alone
  | true =>
    rw [Basis.plain_on memoize]
    exact alone.lessen

variable (unaided : p.Unaided env.settings x) {s : State} (lexicon : s.lexicon = x)

include unaided lexicon

/-- **What is seen of a pattern are its solutions by plain recursion.** -/
theorem enumerates_plain {active : Active} {depth : Nat} {pos : Int} {captured : Captured}
    {y : Answers Solution} :
    Enumerates env active [⟨[.part p depth], pos, captured⟩] s y ↔
      y = (Basis.plain env x).solutions depth active p ⟨pos, captured⟩ := by
  cases memoize : env.settings.memoize with
  | false =>
    rw [Basis.plain_off memoize, ← lexicon]
    exact enumerates_goal memoize
  | true =>
    have alone : p.Standalone x.space :=
      unaided.resolve_left fun off => by cases off.symm.trans memoize
    have within : s.Within x.space := fun own => lexicon ▸ own
    rw [Basis.plain_on memoize]
    refine Iff.trans ((shows_standalone env active x.space).enumerates
      ⟨within, List.forall_mem_singleton.mpr (part_standalone alone)⟩) ?_
    rw [agendaAnswers_goal]
    exact Iff.rfl

/-- **What a matcher answers is the first solution by plain recursion**, and its rules stay as they
    are. -/
theorem ask_plain (pos : Int) :
    (Matcher.ask ⟨env, s⟩ (.pattern p) pos).1 = (Basis.plain env x).answer (.pattern p) pos ∧
      (Matcher.ask ⟨env, s⟩ (.pattern p) pos).2.state.lexicon = x := by
  cases memoize : env.settings.memoize with
  | false =>
    rw [Basis.plain_off memoize]
    obtain ⟨answered, kept, _⟩ := ask_answers (Terms.unkept env x memoize)
      (fun _ _ _ excused => excused) lexicon ⟨fun _ _ _ => trivial, .inl rfl⟩
    exact ⟨answered, kept⟩
  | true =>
    have alone : p.Standalone x.space :=
      unaided.resolve_left fun off => by cases off.symm.trans memoize
    have within : s.Within x.space := fun own => lexicon ▸ own
    obtain ⟨answered, steady⟩ := ask_standalone ⟨env, s⟩ alone within pos
    rw [Basis.plain_on memoize]
    exact ⟨answered, steady.lexicon.trans lexicon⟩

end Plain

/-- What is found of two patterns, or not found, begins at the same place. -/
theorem answer_agree {w : Basis} {p p' : Pattern} {pos : Int}
    (h : (w.solutions 1 [] p ⟨pos, []⟩).Agree (w.solutions 1 [] p' ⟨pos, []⟩))
    {o o' : Option Found} (here : w.answer (.pattern p) pos = .ok o)
    (there : w.answer (.pattern p') pos = .ok o') :
    o'.map (·.capture.label.start) = o.map (·.capture.label.start) := by
  rw [Basis.answer_pattern] at here there
  cases first : (w.solutions 1 [] p ⟨pos, []⟩).first with
  | error f =>
    rw [first] at here
    cases here
  | ok a =>
    cases first' : (w.solutions 1 [] p' ⟨pos, []⟩).first with
    | error f =>
      rw [first'] at there
      cases there
    | ok a' =>
      have both := h.first first first'
      rw [first] at here
      rw [first'] at there
      cases here
      cases there
      cases a with
      | none =>
        cases a' with
        | none => rfl
        | some t' => cases both
      | some t =>
        cases a' with
        | none => cases both
        | some t' => rfl

end Match

/-! ## 5. Finders -/

namespace Finder

/-- Two finders with the same registry come to the same, but for the order of their solutions: they
    have the same ones where no failure cuts them short, both match a text as a whole or both do
    not, and what they find from a position on begins at the same place. -/
structure Concurs (f f' : Finder) (text : Text) : Prop where
  solutions {actions : Actions} {active : Active} {depth : Nat} {pos : Int} {captured : Captured}
    {s s' : State} {y y' : Answers Solution} (lexicon : s.lexicon = Lexicon.of f.registry)
    (lexicon' : s'.lexicon = Lexicon.of f.registry)
    (seen : Enumerates ⟨text, actions, f.settings⟩ active
      [⟨[.part f.pattern depth], pos, captured⟩] s y)
    (seen' : Enumerates ⟨text, actions, f'.settings⟩ active
      [⟨[.part f'.pattern depth], pos, captured⟩] s' y')
    (ends : y.Ends) (ends' : y'.Ends) : ∀ t, t ∈ y ↔ t ∈ y'
  full {o o' : Option Capture} (here : f.fullMatch text = .ok o)
    (there : f'.fullMatch text = .ok o') : o'.isSome = o.isSome
  search {pos : Int} {o o' : Option Capture} (here : f.search text pos = .ok o)
    (there : f'.search text pos = .ok o') : o'.map (·.label.start) = o.map (·.label.start)

/-- In a text nothing that is asked of a finder comes to a failure. -/
structure Unfailing (f : Finder) (text : Text) : Prop where
  solutions (actions : Actions) {s : State} (lexicon : s.lexicon = Lexicon.of f.registry)
    {pos : Int} (here : text.Span 0 pos) : ∃ y,
      Enumerates ⟨text, actions, f.settings⟩ [] [⟨[.part f.pattern 1], pos, []⟩] s y ∧ y.Ends
  full : ∃ o, f.fullMatch text = .ok o
  search {pos : Int} (here : text.Span 0 pos) : ∃ o, f.search text pos = .ok o

section Loops

variable {env : Env} {x : Lexicon} {p p' : Pattern} {pos : Int} {left : Nat} {s s' : State}

/-- One attempt of a finder. -/
theorem attempt_plain (unaided : p.Unaided env.settings x) (lexicon : s.lexicon = x) {m : Matcher}
    {outcome : Except Failure (Option Found)}
    (asked : Matcher.pattern ⟨env, s⟩ p pos = (outcome, m)) :
    outcome = (Basis.plain env x).answer (.pattern p) pos ∧
      ∃ s', m = ⟨env, s'⟩ ∧ s'.lexicon = x := by
  have plain := ask_plain unaided lexicon pos
  have same : m.env = env := by
    have := Matcher.ask_env ⟨env, s⟩ (.pattern p) pos
    rwa [show Matcher.ask ⟨env, s⟩ (.pattern p) pos = _ from asked] at this
  rw [show Matcher.ask ⟨env, s⟩ (.pattern p) pos = _ from asked] at plain
  exact ⟨plain.1, m.state, congrArg (Matcher.mk · m.state) same, plain.2⟩

theorem searchFrom_flipped (h : p.Flipped p') (unaided : p.Unaided env.settings x)
    (lexicon : s.lexicon = x) (lexicon' : s'.lexicon = x) {o o' : Option Capture}
    (here : searchFrom p ⟨env, s⟩ left pos = .ok o)
    (there : searchFrom p' ⟨env, s'⟩ left pos = .ok o') :
    o'.map (·.label.start) = o.map (·.label.start) := by
  induction left using Nat.strongRecOn generalizing pos s s' with
  | ind left ih =>
    unfold searchFrom at here there
    rcases asked : Matcher.pattern ⟨env, s⟩ p pos with ⟨outcome, m⟩
    rcases asked' : Matcher.pattern ⟨env, s'⟩ p' pos with ⟨outcome', m'⟩
    obtain ⟨answer, s₁, rfl, lexicon₁⟩ := attempt_plain unaided lexicon asked
    obtain ⟨answer', s₁', rfl, lexicon₁'⟩ := attempt_plain (h.unaided unaided) lexicon' asked'
    rw [asked] at here
    rw [asked'] at there
    cases outcome with
    | error f => cases here
    | ok a =>
      cases outcome' with
      | error f => cases there
      | ok a' =>
        have begin := answer_agree (h.agree 1 [] ⟨pos, []⟩) answer.symm answer'.symm
        cases a with
        | none =>
          cases a' with
          | some v' => cases begin
          | none =>
            cases left with
            | zero =>
              cases here
              cases there
              rfl
            | succ left => exact ih left (Nat.lt_succ_self left) lexicon₁ lexicon₁' here there
        | some v =>
          cases a' with
          | none => cases begin
          | some v' =>
            cases here
            cases there
            exact begin

theorem searchFrom_answers (unaided : p.Unaided env.settings x) (lexicon : s.lexicon = x)
    (answers : ∀ pos, env.text.Span 0 pos →
      ∃ o, (Basis.plain env x).answer (.pattern p) pos = .ok o)
    (nonneg : 0 ≤ pos) (inside : pos + left ≤ env.text.stop) :
    ∃ o, searchFrom p ⟨env, s⟩ left pos = .ok o := by
  induction left generalizing pos s with
  | zero =>
    unfold searchFrom
    rcases asked : Matcher.pattern ⟨env, s⟩ p pos with ⟨outcome, m⟩
    obtain ⟨answer, _⟩ := attempt_plain unaided lexicon asked
    obtain ⟨o, come⟩ := answers pos ⟨Int.le_refl 0, nonneg, by omega⟩
    obtain rfl := answer.trans come
    cases o with
    | none => exact ⟨none, rfl⟩
    | some v => exact ⟨some v.capture, rfl⟩
  | succ left ih =>
    unfold searchFrom
    rcases asked : Matcher.pattern ⟨env, s⟩ p pos with ⟨outcome, m⟩
    obtain ⟨answer, s₁, rfl, lexicon₁⟩ := attempt_plain unaided lexicon asked
    obtain ⟨o, come⟩ := answers pos ⟨Int.le_refl 0, nonneg, by omega⟩
    obtain rfl := answer.trans come
    cases o with
    | none => exact ih lexicon₁ (by omega) (by omega)
    | some v => exact ⟨some v.capture, rfl⟩

end Loops

section Finders

variable {f : Finder} {p' : Pattern} {text : Text}

/-- The finder for another pattern. -/
def withPattern (f : Finder) (p' : Pattern) : Finder := { f with pattern := p' }

theorem fullMatch_plain (unaided : f.pattern.Unaided f.settings (Lexicon.of f.registry)) :
    f.fullMatch text =
      ((Basis.plain (f.matcher text).env (Lexicon.of f.registry)).answer
        (.pattern f.pattern.toEnd) 0).map (·.map Found.capture) :=
  congrArg (Except.map _) (ask_plain unaided.toEnd rfl 0).1

/-- Finders of patterns that differ only in greed come to the same. -/
theorem concurs_flipped (h : f.pattern.Flipped p')
    (unaided : f.pattern.Unaided f.settings (Lexicon.of f.registry)) :
    f.Concurs (f.withPattern p') text where
  solutions lexicon lexicon' seen seen' ends ends' t := by
    obtain rfl := (enumerates_plain unaided lexicon).mp seen
    obtain rfl := (enumerates_plain (h.unaided unaided) lexicon').mp seen'
    exact (h.agree _ _ _).mem_iff ends ends' t
  full {o o'} here there := by
    have whole : f.pattern.toEnd.Flipped p'.toEnd := .sequence (.cons h (.cons (.same _) .nil))
    have agree := whole.agree (w := Basis.plain (f.matcher text).env (Lexicon.of f.registry)) 1 []
      ⟨0, []⟩
    rw [fullMatch_plain unaided] at here
    rw [fullMatch_plain (h.unaided unaided)] at there
    obtain ⟨a, answer, rfl⟩ := Pattern.ok_of_map here
    obtain ⟨a', answer', rfl⟩ := Pattern.ok_of_map there
    have begin := congrArg Option.isSome (answer_agree agree answer answer')
    rwa [Option.isSome_map, Option.isSome_map] at begin ⊢
  search {pos o o'} here there := by
    unfold search at here there
    cases cursor : Cursor.at text pos with
    | error e =>
      rw [cursor] at here
      cases here
    | ok c =>
      rw [cursor] at here there
      exact searchFrom_flipped h unaided rfl rfl here there

/-- A finder of a pattern that calls no rule does not fail where nesting is allowed and every class
    can be tested. -/
theorem unfailing_standalone (testable : Testable text f.pattern)
    (alone : f.pattern.Standalone (Lexicon.of f.registry).space)
    (allows : f.settings.Allows (f.pattern.height + 2)) : f.Unfailing text := by
  have safe (actions : Actions) {pos : Int} (here : text.Span 0 pos) :
      ((Basis.plain ⟨text, actions, f.settings⟩ (Lexicon.of f.registry)).solutions 1 [] f.pattern
        ⟨pos, []⟩).Ends :=
    (solutions_safe (w := Basis.plain ⟨text, actions, f.settings⟩ _) Basis.plain_again testable
      (Basis.plain_standalone alone) (allows.mono (by omega)) [] ⟨pos, []⟩ here).1
  refine ⟨fun actions s lexicon pos here => ?_, ?_, fun {pos} here => ?_⟩
  · exact ⟨_, (enumerates_plain (.inr alone) lexicon).mpr rfl, safe actions here⟩
  · have whole : ((Basis.plain (f.matcher text).env (Lexicon.of f.registry)).solutions 1 []
        f.pattern.toEnd ⟨0, []⟩).Ends :=
      Pattern.toEnd_ends Basis.plain_again testable (Basis.plain_standalone alone) allows
    obtain ⟨o, first⟩ := whole.first
    rw [fullMatch_plain (.inr alone), Basis.answer_pattern, first]
    exact ⟨_, rfl⟩
  · obtain ⟨c, cursor⟩ := Cursor.at_span here
    have inside := here.le_stop
    unfold search
    rw [cursor]
    refine searchFrom_answers (.inr alone) rfl (fun pos here => ?_) here.le (by
      show pos + ((text.stop - pos).toNat : Int) ≤ text.stop
      omega)
    obtain ⟨o, first⟩ := (safe {} here).first
    refine ⟨o.bind ((Query.pattern f.pattern).found pos), ?_⟩
    rw [Basis.answer_pattern]
    exact congrArg (Except.map _) first

end Finders

/-- **Greed only puts the solutions in order.** Take a finder, and one for the same pattern with
    other repetitions greedy; no results are kept, or the pattern calls no rule. Where no failure
    cuts them short, the two have the same solutions, as positions with what was captured; both
    match a text as a whole or both do not; and what they find from a position on begins at the
    same place. If the pattern calls no rule, all members of its classes are known, no repetition
    asks for less than no rounds and nesting is allowed, there is no failure. -/
theorem greed_keeps_solutions (f : Finder) {p' : Pattern} (h : f.pattern.Flipped p')
    (unaided : f.pattern.Unaided f.settings (Lexicon.of f.registry)) (text : Text) :
    f.Concurs (f.withPattern p') text ∧
      (f.pattern.Standalone (Lexicon.of f.registry).space → f.pattern.Known →
        f.pattern.NonNegative → f.settings.Allows (f.pattern.height + 2) →
        f.Unfailing text ∧ (f.withPattern p').Unfailing text) := by
  refine ⟨concurs_flipped h unaided, fun alone known nonneg allows => ?_⟩
  have testable : Testable text f.pattern := known.testable nonneg
  have allows' : f.settings.Allows (p'.height + 2) := by
    rw [h.height]
    exact allows
  exact ⟨unfailing_standalone testable alone allows,
    unfailing_standalone (f := f.withPattern p') (h.testable testable) (h.standalone alone) allows'⟩

/-- Any number of groups of letters: as many groups as possible, each as short as possible. -/
def manyShort : Pattern :=
  .repetition ⟨0, none, true⟩ (.group (some (.index 1)) []
    (.repetition ⟨1, none, false⟩ (.literal ['a'] false)))

/-- Any number of groups of letters: as few groups as possible, each as long as possible. -/
def fewLong : Pattern :=
  .repetition ⟨0, none, false⟩ (.group (some (.index 1)) []
    (.repetition ⟨1, none, true⟩ (.literal ['a'] false)))

theorem greed_keeps_solutions_letters :
    let f := ofPattern manyShort {}
    let text := Text.ofString "aab"
    manyShort.Flipped fewLong ∧ manyShort.Unaided f.settings (Lexicon.of f.registry) ∧
      (manyShort.Standalone (Lexicon.of f.registry).space ∧ manyShort.Known ∧
        manyShort.NonNegative ∧ f.settings.Allows (manyShort.height + 2)) ∧
      f.Concurs (f.withPattern fewLong) text ∧ f.Unfailing text ∧
        (f.withPattern fewLong).Unfailing text := by
  intro f text
  have flipped : manyShort.Flipped fewLong :=
    .repetition _ false (.group _ _ (.repetition _ true (.same _)))
  have alone : manyShort.Standalone (Lexicon.of f.registry).space :=
    .repetition (.group (.repetition .literal))
  have known : manyShort.Known := by
    refine .intro (fun _ _ _ same => by cases same) (List.forall_mem_singleton.mpr ?_)
    refine .intro (fun _ _ _ same => by cases same) (List.forall_mem_singleton.mpr ?_)
    refine .intro (fun _ _ _ same => by cases same) (List.forall_mem_singleton.mpr ?_)
    exact .intro (fun _ _ _ same => by cases same) (List.forall_mem_nil _)
  have nonneg : manyShort.NonNegative :=
    .repetition (Int.le_refl 0) (.group (.repetition Int.one_nonneg .literal))
  have allows : f.settings.Allows (manyShort.height + 2) := ⟨by decide, fun _ h => by cases h⟩
  obtain ⟨concurs, unfailing⟩ := greed_keeps_solutions f flipped (.inr alone) text
  obtain ⟨first, second⟩ := unfailing alone known nonneg allows
  exact ⟨flipped, .inr alone, ⟨alone, known, nonneg, allows⟩, concurs, first, second⟩

/-! ## 6. Where nesting is limited -/

/-- A look ahead at a letter that may be missing. -/
def lookAhead (greedy : Bool) : Pattern :=
  .look .ahead (.repetition ⟨0, some 1, greedy⟩ (.literal ['a'] false))

/-- **Greed decides what fails.** Where nesting is limited, a greedy repetition comes to a part that
    is too deep, while the other one stops before it. -/
theorem greed_decides_failure :
    let f := ofPattern (lookAhead true) { maxDepth := some 3 }
    let text := Text.ofString ""
    (lookAhead true).Flipped (lookAhead false) ∧ (lookAhead true).Standalone true ∧
      (lookAhead true).Known ∧ (lookAhead true).NonNegative ∧
      f.fullMatch text = .error (.depthLimit 4 0) ∧
      ∃ c, (f.withPattern (lookAhead false)).fullMatch text = .ok (some c) := by
  intro f text
  have alone : (lookAhead true).Standalone true := .look (.repetition .literal)
  have flipped : (lookAhead true).Flipped (lookAhead false) :=
    .look _ (.repetition _ false (.same _))
  have known : (lookAhead true).Known := by
    refine .intro (fun _ _ _ same => by cases same) (List.forall_mem_singleton.mpr ?_)
    refine .intro (fun _ _ _ same => by cases same) (List.forall_mem_singleton.mpr ?_)
    exact .intro (fun _ _ _ same => by cases same) (List.forall_mem_nil _)
  have nonneg : (lookAhead true).NonNegative := .look (.repetition (Int.le_refl 0) .literal)
  refine ⟨flipped, alone, known, nonneg, ?_, ?_⟩
  · rw [fullMatch_plain (f := f) (.inr alone.lessen)]
    rfl
  · rw [fullMatch_plain (f := f.withPattern (lookAhead false))
      (.inr (flipped.standalone alone.lessen))]
    exact ⟨_, rfl⟩

end Finder

end GrammarMatch
