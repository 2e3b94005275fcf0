/-
  File:      GrammarMatch/Proofs/Inside.lean
  Subject:   Searches that stay in the text.

  Where no repetition asks for less than no rounds, a search that starts in the text never leaves
  it: every part ends in the text where it began in it, and looks behind start nearer to the start
  of the text. A guard says what is demanded of a part before it is entered and of a rule before it
  is called, so that this holds of all that is entered and called from there, and which failures
  may come up then. What a guard demands of the start it keeps up through the whole search
  (`Guard.obeyed`).
-/
import GrammarMatch.Proofs.Faults
import GrammarMatch.Proofs.Keeping
import GrammarMatch.Proofs.Query
import GrammarMatch.Proofs.Scopes
import GrammarMatch.Proofs.Standalone

namespace GrammarMatch

/-! ## 1. Patterns -/

namespace Pattern

/-- No repetition asks for less than no rounds. An upper bound may be anything. -/
inductive NonNegative : Pattern → Prop
  | literal {chars : List Char} {ignoreCase : Bool} : NonNegative (.literal chars ignoreCase)
  | charClass {items : List ClassItem} {negated ignoreCase : Bool} :
      NonNegative (.charClass items negated ignoreCase)
  | sequence {parts : List Pattern} (h : ∀ p ∈ parts, NonNegative p) : NonNegative (.sequence parts)
  | alternation {mode : ChoiceMode} {branches : List Pattern} (h : ∀ p ∈ branches, NonNegative p) :
      NonNegative (.alternation mode branches)
  | repetition {q : Quantity} {body : Pattern} (least : 0 ≤ q.min) (h : NonNegative body) :
      NonNegative (.repetition q body)
  | group {key : Option CaptureKey} {plural : List CaptureKey} {body : Pattern}
      (h : NonNegative body) : NonNegative (.group key plural body)
  | look {kind : LookKind} {body : Pattern} (h : NonNegative body) : NonNegative (.look kind body)
  | anchor {kind : AnchorKind} : NonNegative (.anchor kind)
  | ruleRef {r : Reference} : NonNegative (.ruleRef r)
  | whitespace : NonNegative .whitespace

theorem low_widthOfParts {parts : List Pattern} (h : ∀ p ∈ parts, 0 ≤ p.width.low) :
    0 ≤ (widthOfParts parts).low := by
  induction parts with
  | nil => exact Int.le_refl 0
  | cons p parts ih =>
    obtain ⟨first, rest⟩ := List.forall_mem_cons.mp h
    exact Int.add_nonneg first (ih rest)

theorem low_widthOfBranches {branches : List Pattern} (h : ∀ p ∈ branches, 0 ≤ p.width.low)
    {w : Width} (hw : 0 ≤ w.low) : 0 ≤ (widthOfBranches w branches).low := by
  induction branches generalizing w with
  | nil => exact hw
  | cons p branches ih =>
    obtain ⟨first, rest⟩ := List.forall_mem_cons.mp h
    exact ih rest (Int.le_min.mpr ⟨hw, first⟩)

/-- What matches has a width that is not below nothing. -/
theorem NonNegative.low {p : Pattern} (h : p.NonNegative) : 0 ≤ p.width.low := by
  induction h with
  | literal => exact Int.natCast_nonneg _
  | charClass => exact Int.one_nonneg
  | sequence _ ih => exact low_widthOfParts ih
  | @alternation mode branches _ ih =>
    cases branches with
    | nil => exact Int.le_refl 0
    | cons p branches =>
      obtain ⟨first, rest⟩ := List.forall_mem_cons.mp ih
      exact low_widthOfBranches rest first
  | repetition least _ ih => exact Int.mul_nonneg ih least
  | group _ ih => exact ih
  | look | anchor | ruleRef | whitespace => exact Int.le_refl 0

theorem NonNegative.child {p c : Pattern} (h : p.NonNegative) (hc : c ∈ p.children) :
    c.NonNegative := by
  cases h with
  | sequence parts => exact parts c hc
  | alternation branches => exact branches c hc
  | repetition _ body | group body | look body =>
    rw [List.mem_singleton.mp hc]
    exact body
  | literal | charClass | anchor | ruleRef | whitespace => cases hc

theorem Compiled.child {p c : Pattern} (h : p.Compiled) (hc : c ∈ p.children) : c.Compiled := by
  cases h with
  | sequence parts => exact parts c hc
  | alternation branches => exact branches c hc
  | repetition body | group body | look body =>
    rw [List.mem_singleton.mp hc]
    exact body
  | literal | charClass | anchor | ruleRef | whitespace => cases hc

end Pattern

namespace Match

/-! ## 2. Guards -/

/-- Every result that is kept for a position in the text ends in the text. -/
def State.Lands (t : Text) (s : State) : Prop :=
  ∀ (name : String) (pos stop : Int) (c : Capture),
    s.memo[(name, pos)]? = some (some (stop, c)) → t.Span 0 pos → t.Span 0 stop

/-- The rules are as given, and what is kept ends in the text. -/
def State.Inside (x : Lexicon) (t : Text) (s : State) : Prop := s.lexicon = x ∧ s.Lands t

theorem Steps.inside {t : Text} {pos stop : Int} (h : Steps t pos stop) (here : t.Span 0 pos) :
    t.Span 0 stop :=
  ⟨Int.le_refl 0, Int.le_trans here.le (h here).le, (h here).le_stop⟩

/-- Where a look behind starts. -/
theorem retreatFrom_inside {t : Text} {body : Pattern} (least : 0 ≤ body.width.low) {pos : Int}
    (here : t.Span 0 pos) :
    ((retreatFrom body pos).1 : Int) ≤ (retreatFrom body pos).2 + 1 ∧
      (retreatFrom body pos).2 ≤ t.stop ∨ (retreatFrom body pos).1 = 0 := by
  have inside := here.le_stop
  simp only [retreatFrom]
  split <;> omega

/-- What is demanded before something is entered, so that it holds of all that is entered then. -/
structure Guard (env : Env) (x : Lexicon) where
  /-- A failure that may come up. -/
  admits : Failure → Prop
  /-- A part may be entered at a depth, while some calls are active. -/
  part : Active → Nat → Pattern → Prop
  /-- A rule may be called at a depth, while some calls are active. -/
  call : Active → Nat → String → Prop
  nonNegative {active depth p} (h : part active depth p) : p.NonNegative
  child {active depth p} (h : part active depth p) : ∀ c ∈ p.children, part active (depth + 1) c
  ruleRef {active depth r} (h : part active depth (.ruleRef r)) : call active depth r.name
  space {active depth} (h : part active depth .whitespace) (own : x.space = true) :
    call active depth "ws"
  entry {active depth p pos f} (h : part active depth p)
    (failed : (Basis.of env x).entry depth pos = .error f) : admits f
  test {active depth p pos f} (h : part active depth p) (here : env.text.Span 0 pos)
    (failed : p.Faults env.text pos f) : admits f
  level {active depth p} (h : part active depth p) (full : ¬depth ≤ env.settings.room) :
    admits .stackExhausted
  callLevel {active depth name} (h : call active depth name) (full : ¬depth ≤ env.settings.room) :
    admits .stackExhausted
  lookup {active depth name f} (h : call active depth name) (failed : x.rules name = .error f) :
    admits f
  atomic {active depth name rule pos} (h : call active depth name)
    (known : x.rules name = .ok rule) (kind : rule.kind.atomic = true)
    (here : env.text.Span 0 pos) (fresh : ¬active.contains (rule.name, pos) = true) :
    part ((rule.name, pos) :: active) (depth + 1) rule.pattern
  nonAtomic {active depth name rule} (h : call active depth name) (known : x.rules name = .ok rule)
    (kind : ¬rule.kind.atomic = true) : part active (depth + 1) rule.pattern
  callback {name c f} (failed : env.actions.invoke env.text name c = .error f) : admits f

namespace Guard

variable {env : Env} {x : Lexicon} (G : Guard env x)

/-- What a goal needs at a position, while some calls are active. -/
def goal (active : Active) (pos : Int) : Goal → Prop
  | .part p depth => G.part active depth p ∧ env.text.Span 0 pos
  | .call name _ depth => G.call active depth name ∧ env.text.Span 0 pos
  | .round _ body _ _ depth => G.part active (depth + 1) body ∧ env.text.Span 0 pos
  | .close .. | .finish .. => env.text.Span 0 pos
  | .retreat body left depth =>
    G.part active (depth + 1) body ∧ ((left : Int) ≤ pos + 1 ∧ pos ≤ env.text.stop ∨ left = 0)

/-- All that is entered and called is as demanded, and in the text. -/
def discipline : Discipline :=
  .ofState (State.Inside x env.text) G.admits fun active K g pos _ =>
    G.goal active pos g ∧ ∀ stop c, env.text.Span 0 stop → K stop c

/-! ## 3. Working off goals -/

/-- A match that is kept for a place in the text ends in the text. -/
abbrev Kept (t : Text) : String × Int → Verdict → Prop :=
  Verdict.Matched fun key stop _ => t.Span 0 key.2 → t.Span 0 stop

theorem inside_eq (x : Lexicon) (t : Text) : State.Inside x t = State.Keeping (· = x) (Kept t) :=
  funext fun _ => propext (keeping_matched (X := (· = x))
    (Q := fun key stop _ => t.Span 0 key.2 → t.Span 0 stop)).symm

theorem inside_steady {t : Text} {s s' : State} (steady : s.Steady s') (h : s.Inside x t) :
    s'.Inside x t := by
  rw [inside_eq] at h ⊢
  exact keeping_steady steady h

variable {G} {active : Active} {K : Int → Captured → Prop} {pos : Int} {captured : Captured}

/-- A failure that a goal comes to by itself is one that the guard admits. -/
theorem goal_admits {g : Goal} (h : G.goal active pos g) {f : Failure}
    (failed : g.Fails (Basis.of env x) (· = x) pos f) : G.admits f := by
  cases failed with
  | full beyond =>
    have below {body : Pattern} {depth : Nat} (part : G.part active (depth + 1) body)
        (beyond : ¬depth ≤ env.settings.room) : G.admits .stackExhausted :=
      G.level part fun le => beyond (Nat.le_of_succ_le le)
    cases g with
    | part p depth => exact G.level h.1 beyond
    | call name key depth => exact G.callLevel h.1 beyond
    | round q body count opened depth => exact below h.1 beyond
    | retreat body left depth => exact below h.1 beyond
    | close | finish => exact absurd (Nat.zero_le _) beyond
  | entry failed => exact G.entry h.1 failed
  | test failed => exact G.test h.1 h.2 failed
  | unknown given failed => exact G.lookup h.1 (given ▸ failed)
  | callback failed => exact G.callback failed

/-- Parts of a sequence are worked off one after the other. -/
theorem allows_parts (hK : ∀ stop c, env.text.Span 0 stop → K stop c) {parts : List Pattern}
    {depth : Nat} (each : ∀ p ∈ parts, G.part active depth p) (here : env.text.Span 0 pos) :
    G.discipline.goals active K (parts.map (Goal.part · depth)) pos captured := by
  induction parts generalizing pos captured with
  | nil => exact hK pos captured here
  | cons p parts ih =>
    obtain ⟨first, rest⟩ := List.forall_mem_cons.mp each
    exact ⟨⟨first, here⟩, fun stop c there => ih rest there⟩

variable (G)

/-- **What is demanded of a goal holds of whatever it is worked off to**, and an atomic rule, which
    is entered where it is not being matched, ends in the text. -/
theorem keeper : Keeper (Basis.of env x) (· = x) (Kept env.text)
    (fun _ _ stop _ => env.text.Span 0 stop) G.admits G.discipline.needs where
  literal h stands := h.2 _ _ ((steps_literal stands).inside h.1.2)
  charClass h holds := h.2 _ _ ((steps_class holds).inside h.1.2)
  sequence h := allows_parts h.2 (G.child h.1.1) h.1.2
  branch h _ mem := ⟨⟨G.child h.1.1 _ mem, h.1.2⟩, h.2⟩
  repetition h := by
    have inner := G.child h.1.1 _ List.mem_cons_self
    refine ⟨fun _ => h.2 _ _ h.1.2, fun _ => ?_⟩
    exact ⟨⟨inner, h.1.2⟩, fun _ _ there => ⟨⟨inner, there⟩, h.2⟩⟩
  enclosed h := ⟨⟨G.child h.1.1 _ List.mem_cons_self, h.1.2⟩, h.2⟩
  group h := ⟨⟨G.child h.1.1 _ List.mem_cons_self, h.1.2⟩, fun _ _ there => ⟨there, h.2⟩⟩
  ahead h _ := ⟨⟨G.child h.1.1 _ List.mem_cons_self, h.1.2⟩, fun _ _ _ => trivial⟩
  behind h _ := by
    have inner := G.child h.1.1 _ List.mem_cons_self
    exact ⟨⟨inner, retreatFrom_inside (G.nonNegative inner).low h.1.2⟩, fun _ _ _ => trivial⟩
  looked h := h.2 _ _ h.1.2
  anchor h _ := h.2 _ _ h.1.2
  ruleRef h := ⟨⟨G.ruleRef h.1.1, h.1.2⟩, h.2⟩
  space h _ given own := ⟨⟨G.space h.1.1 (given ▸ own), h.1.2⟩, h.2⟩
  gap h _ _ _ _ stops := h.2 _ _ ((steps_gap stops).inside h.1.2)
  leftOpen h _ given _ known opened :=
    ⟨⟨G.nonAtomic h.1.1 (given ▸ known) opened, h.1.2⟩, fun _ _ there => ⟨there, h.2⟩⟩
  round h _ :=
    ⟨fun _ => h.2 _ _ h.1.2, fun _ => ⟨h.1, fun _ _ there => ⟨⟨h.1.1, there⟩, h.2⟩⟩⟩
  rest h _ := h.2 _ _ h.1.2
  close h := h.2 _ _ h.1
  retreat {_ _ _ left _ pos _} h := by
    obtain ⟨⟨part, starts⟩, hK⟩ := h
    have here : env.text.Span 0 pos := ⟨Int.le_refl 0, by omega, by omega⟩
    have back : (left : Int) ≤ pos - 1 + 1 ∧ pos - 1 ≤ env.text.stop := by omega
    exact ⟨⟨⟨part, here⟩, hK⟩, ⟨part, .inl back⟩, hK⟩
  admits h failed := goal_admits h.1 failed
  finish h _ _ := h.2 _ _ h.1
  body h _ given _ known atomic fresh :=
    ⟨⟨G.atomic h.1.1 (given ▸ known) atomic h.1.2 fresh, h.1.2⟩, fun _ _ there => there⟩
  matched _ _ _ _ _ _ _ _ inside _ _ _ same _ := by
    cases same
    exact inside
  missed _ _ _ _ _ same := by cases same
  kept h _ _ _ _ stop c held := h.2 _ _ (held stop c rfl h.1.2)

theorem obeyed : G.discipline.Obeyed env := by
  unfold discipline
  rw [inside_eq]
  exact G.keeper.obeyed

/-- A computation that is as the guard demands. -/
abbrev Allows (G : Guard env x) {α : Type} (r : Run α) (P : α → Prop) : Prop :=
  r.Meets (State.Inside x env.text) G.admits P

/-- What is demanded of a query. -/
def start : Query → Prop
  | .pattern p => G.part [] 1 p
  | .rule name _ => G.call [] 1 name

/-- **A query of which holds what is demanded comes to no failure but what may come up.** -/
theorem query {q : Query} {pos : Int} (h : G.start q) (here : env.text.Span 0 pos) :
    G.Allows (q.run env pos) fun _ => True := by
  have goal : G.goal [] pos q.goal := by
    cases q with
    | pattern p => exact ⟨h, here⟩
    | rule name anchored => exact ⟨h, here⟩
  exact (G.obeyed.query_meets inside_steady q (K := fun _ _ => True)
    ⟨goal, fun _ _ _ => trivial⟩).mono fun _ _ => trivial

end Guard

end Match

end GrammarMatch
