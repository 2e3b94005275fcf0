/-
  File:      GrammarMatch/Proofs/Standalone.lean
  Subject:   Patterns that call no rule.

  Matching such a pattern reads nothing of what the matcher keeps, neither the rules of the
  registry nor kept results: whatever state it starts from, it comes to the same (`seek_fixed`),
  which is what plain recursion finds without any rules (`ask_standalone`). A gap between the parts
  of a rule calls one only where the registry has a rule for white space of its own.
-/
import GrammarMatch.Proofs.Lawful
import GrammarMatch.Proofs.Query

namespace GrammarMatch

/-! ## 1. Patterns -/

/-- What a pattern is made of. -/
def Pattern.children : Pattern → List Pattern
  | .sequence parts => parts
  | .alternation _ branches => branches
  | .repetition _ body => [body]
  | .group _ _ body => [body]
  | .look _ body => [body]
  | _ => []

/-- The rules that are called in a pattern. Where the grammar has a rule for white space of its
    own, the gaps between the parts of a rule call it. -/
inductive Pattern.Calls (space : Bool) : Pattern → String → Prop
  | ruleRef {r : Reference} : Calls space (.ruleRef r) r.name
  | whitespace (own : space = true) : Calls space .whitespace "ws"
  | child {p c : Pattern} {name : String} (hc : c ∈ p.children) (h : Calls space c name) :
      Calls space p name

/-- A pattern calls no rule. -/
def Pattern.Standalone (space : Bool) (p : Pattern) : Prop := ∀ name, ¬p.Calls space name

namespace Pattern.Standalone

variable {space : Bool} {p : Pattern}

theorem child (h : p.Standalone space) {c : Pattern} (hc : c ∈ p.children) : c.Standalone space :=
  fun name calls => h name (.child hc calls)

theorem literal {chars : List Char} {ignoreCase : Bool} :
    (Pattern.literal chars ignoreCase).Standalone space := by
  intro name calls
  cases calls with
  | child hc _ => cases hc

theorem charClass {items : List ClassItem} {negated ignoreCase : Bool} :
    (Pattern.charClass items negated ignoreCase).Standalone space := by
  intro name calls
  cases calls with
  | child hc _ => cases hc

theorem anchor {kind : AnchorKind} : (Pattern.anchor kind).Standalone space := by
  intro name calls
  cases calls with
  | child hc _ => cases hc

theorem sequence {parts : List Pattern} (h : ∀ p ∈ parts, p.Standalone space) :
    (Pattern.sequence parts).Standalone space := by
  intro name calls
  cases calls with
  | child hc calls => exact h _ hc name calls

theorem alternation {mode : ChoiceMode} {branches : List Pattern}
    (h : ∀ p ∈ branches, p.Standalone space) :
    (Pattern.alternation mode branches).Standalone space := by
  intro name calls
  cases calls with
  | child hc calls => exact h _ hc name calls

theorem repetition {q : Quantity} {body : Pattern} (h : body.Standalone space) :
    (Pattern.repetition q body).Standalone space := by
  intro name calls
  cases calls with
  | child hc calls =>
    cases List.mem_singleton.mp hc
    exact h name calls

theorem group {key : Option CaptureKey} {plural : List CaptureKey} {body : Pattern}
    (h : body.Standalone space) : (Pattern.group key plural body).Standalone space := by
  intro name calls
  cases calls with
  | child hc calls =>
    cases List.mem_singleton.mp hc
    exact h name calls

theorem look {kind : LookKind} {body : Pattern} (h : body.Standalone space) :
    (Pattern.look kind body).Standalone space := by
  intro name calls
  cases calls with
  | child hc calls =>
    cases List.mem_singleton.mp hc
    exact h name calls

theorem body {body : Pattern} (h : p.Standalone space) (only : p.children = [body]) :
    body.Standalone space := h.child (only ▸ List.mem_cons_self)

theorem not_ruleRef {r : Reference} : ¬(Pattern.ruleRef r).Standalone space :=
  fun h => h r.name .ruleRef

/-- A gap calls no rule where there is none for it. -/
theorem spaceless (h : Pattern.whitespace.Standalone space) : space = false :=
  Bool.eq_false_iff.mpr fun own => h "ws" (.whitespace own)

/-- Without a rule for white space no more rules are called. -/
theorem lessen (h : p.Standalone space) : p.Standalone false := by
  intro name calls
  refine h name ?_
  induction calls with
  | ruleRef => exact .ruleRef
  | whitespace own => cases own
  | child hc _ ih => exact .child hc (ih (h.child hc))

end Pattern.Standalone

namespace Match

/-! ## 2. Computations that depend on no state -/

/-- The registry has no rule for white space of its own, unless one is reckoned with. -/
def State.Within (space : Bool) (s : State) : Prop := s.lexicon.space = true → space = true

theorem State.Within.steady {space : Bool} {s s' : State} (h : s.Within space)
    (steady : s.Steady s') : s'.Within space := by
  unfold Within
  rw [steady.lexicon]
  exact h

namespace Run

variable {α β : Type} {P : α → Prop} {Q : β → Prop} {space : Bool}

/-- Whatever state it starts from, a computation comes to the same and keeps nothing, and a result
    is as required. -/
def Fixed (space : Bool) (x : Run α) (P : α → Prop) : Prop :=
  ∃ v : Except Failure α, (∀ a, v = .ok a → P a) ∧
    ∀ s : State, s.Within space → x.Ensures s fun o s' => s.Steady s' ∧ o = v

theorem fixed_pure {a : α} (h : P a) : Fixed space (pure a) P :=
  ⟨.ok a, fun _ hb => by cases hb; exact h, fun s _ => ⟨.refl s, rfl⟩⟩

theorem fixed_throw (f : Failure) : Fixed space (throw f : Run α) P :=
  ⟨.error f, fun _ h => (by cases h), fun s _ => ⟨.refl s, rfl⟩⟩

theorem fixed_ofExcept (v : Except Failure α) : Fixed space (ofExcept v) fun a => v = .ok a :=
  ⟨v, fun _ h => h, fun _ _ => ofExcept_spec v⟩

theorem fixed_bind {x : Run α} {k : α → Run β} (hx : x.Fixed space P)
    (hk : ∀ a, P a → (k a).Fixed space Q) : (x >>= k).Fixed space Q := by
  obtain ⟨v, hv, hx⟩ := hx
  cases v with
  | error f =>
    refine ⟨.error f, fun _ h => (by cases h), fun s hs => ?_⟩
    rw [ensures_bind]
    refine (hx s hs).mono fun o s' ho => ?_
    obtain ⟨steady, rfl⟩ := ho
    exact ⟨steady, rfl⟩
  | ok a =>
    obtain ⟨v', hv', hk⟩ := hk a (hv a rfl)
    refine ⟨v', hv', fun s hs => ?_⟩
    rw [ensures_bind]
    refine (hx s hs).mono fun o s' ho => ?_
    obtain ⟨steady, rfl⟩ := ho
    exact (hk s' (hs.steady steady)).mono fun _ _ h => ⟨steady.trans h.1, h.2⟩

theorem fixed_enter (env : Env) (depth : Nat) (pos : Int) :
    (enter env depth pos).Fixed space fun _ => True :=
  ⟨(Basis.of env (Lexicon.of none)).entry depth pos, fun _ _ => trivial,
    fun _ _ => enter_spec (Basis.of env (Lexicon.of none)) depth pos⟩

/-- Where no rule for white space is reckoned with, there is none. -/
theorem fixed_definesSpace : definesSpace.Fixed false (· = false) := by
  refine ⟨.ok false, fun _ h => (Except.ok.inj h).symm, fun s hs => ?_⟩
  refine definesSpace_spec.mono fun o s' h => ⟨h.1, ?_⟩
  have none : s.lexicon.space = false := Bool.eq_false_iff.mpr fun own => by cases hs own
  rw [h.2, none]

/-- A computation depends on no state. -/
def Judgement.fixing (space : Bool) : Judgement where
  deems := Fixed space
  result := fixed_pure
  next := fixed_bind

end Run

/-! ## 3. The search -/

/-- A goal calls no rule. -/
def Goal.Standalone (space : Bool) : Goal → Prop
  | .part p _ => p.Standalone space
  | .round _ body _ _ _ => body.Standalone space
  | .retreat body _ _ => body.Standalone space
  | .close .. => True
  | .call .. => False
  | .finish .. => False

/-- No goal of a thread calls a rule. -/
def Thread.Standalone (space : Bool) (t : Thread) : Prop := ∀ g ∈ t.goals, g.Standalone space

/-- No rule is called, and so nothing depends on the state. -/
def unaided (space : Bool) : Discipline :=
  .plain (fun _ => .fixing space) fun _ g => g.Standalone space

section Search

variable {env : Env} {active : Active} {space : Bool}

theorem part_standalone {p : Pattern} {depth : Nat} {pos : Int} {captured : Captured}
    (h : p.Standalone space) : (Thread.mk [.part p depth] pos captured).Standalone space :=
  List.forall_mem_singleton.mpr h

/-- **What calls no rule is worked off to what calls no rule**, and no step depends on the state. -/
theorem unaided_lawful (env : Env) (space : Bool) :
    (unaided space).Lawful env fun x => x.space = true → space = true where
  literal h _ := h.2 _ _
  charClass h _ := h.2 _ _
  sequence h := (Discipline.plain_goals h.2).mpr fun g hg => by
    obtain ⟨p, hp, rfl⟩ := List.mem_map.mp hg
    exact Pattern.Standalone.child h.1 hp
  branch h _ mem := ⟨Pattern.Standalone.child h.1 mem, h.2⟩
  repetition h := by
    have inner := Pattern.Standalone.body h.1 rfl
    exact ⟨fun _ => h.2 _ _, fun _ => ⟨inner, fun _ _ => ⟨inner, h.2⟩⟩⟩
  enclosed h := ⟨Pattern.Standalone.body h.1 rfl, h.2⟩
  group h := ⟨Pattern.Standalone.body h.1 rfl, fun _ _ => ⟨trivial, h.2⟩⟩
  ahead h _ := ⟨Pattern.Standalone.body h.1 rfl, fun _ _ => trivial⟩
  behind h _ := ⟨Pattern.Standalone.body h.1 rfl, fun _ _ => trivial⟩
  looked h := h.2 _ _
  anchor h _ := h.2 _ _
  ruleRef h := absurd h.1 Pattern.Standalone.not_ruleRef
  space h _ given own := absurd (.whitespace (given own)) (h.1 "ws")
  gap h _ _ _ _ _ := h.2 _ _
  leftOpen h := absurd h.1 id
  round h _ := ⟨fun _ => h.2 _ _, fun _ => ⟨h.1, fun _ _ => h⟩⟩
  rest h _ := h.2 _ _
  close h := h.2 _ _
  retreat h := ⟨h, h⟩
  full _ _ := Run.fixed_throw _
  enter {_ _ _ depth pos _} _ := Run.fixed_enter env depth pos
  test _ _ v _ := Run.fixed_ofExcept v
  definesSpace h := by
    obtain rfl := Pattern.Standalone.spaceless h.1
    exact (Run.Judgement.fixing false).weaken Run.fixed_definesSpace fun own same =>
      ⟨Lexicon.of none, id, same.symm⟩
  lookup h := absurd h.1 id
  count h := absurd h.1 id
  verdict h := absurd h.1 id
  finish h := absurd h.1 id

/-- **The search for what calls no rule depends on no state**, and what it leaves behind calls no
    rule. -/
theorem seek_fixed (active : Active) (target : Option Int) (agenda : Agenda)
    (h : ∀ t ∈ agenda, t.Standalone space) :
    (seek env active target agenda).Fixed space fun found =>
      ∀ r, found = some r → ∀ t ∈ r.2, t.Standalone space := by
  have thread (t : Thread) :
      (unaided space).thread active (fun _ _ => True) t ↔ t.Standalone space :=
    Discipline.plain_goals fun _ _ => trivial
  have search := (unaided_lawful env space).obeyed.seek active target agenda
    (K := fun _ _ => True) fun t ht => (thread t).mpr (h t ht)
  exact (Run.Judgement.fixing space).weaken search fun found hfound r hr t ht =>
    (thread t).mp ((hfound r hr).2.2 t ht)

/-! ## 4. Asking for a pattern -/

/-- Without any rules the search and plain recursion agree without exception. -/
def Terms.ruleless (env : Env) : Terms (Basis.of env (Lexicon.of none)) where
  valid _ _ := False
  excuse _ _ := False
  grows _ h := h
  again := .inl rfl
  hit _ _ h := absurd h id
  settle _ known := by cases known

/-- A matcher without a registry has no rule for white space. -/
theorem State.within_ruleless : (State.mk none {} 0 0 0 0 []).Within space := fun own => by cases own

/-- **Whatever a matcher keeps, for a pattern that calls no rule it finds what plain recursion
    finds**, and it keeps nothing of it. -/
theorem ask_standalone (m : Matcher) {p : Pattern} (h : p.Standalone space)
    (within : m.state.Within space) (pos : Int) :
    (m.ask (.pattern p) pos).1 = (Basis.of m.env (Lexicon.of none)).answer (.pattern p) pos ∧
      m.state.Steady (m.ask (.pattern p) pos).2.state := by
  have fixed : (Matcher.runPattern m.env p pos).Fixed space fun _ => True := by
    refine Run.fixed_bind (seek_fixed [] none _ (List.forall_mem_singleton.mpr (part_standalone h)))
      fun found _ => ?_
    cases found with
    | none => exact Run.fixed_pure trivial
    | some r => exact Run.fixed_pure trivial
  obtain ⟨v, _, outcome⟩ := fixed
  obtain ⟨steady, here⟩ := (Matcher.advance_spec (outcome m.state within)).1
  have start := (Matcher.advance_spec (m := ⟨m.env, State.mk none {} 0 0 0 0 []⟩)
    (outcome _ State.within_ruleless)).1.2
  have same : (Basis.of m.env (Lexicon.of none)).lexicon = Lexicon.of none := rfl
  refine ⟨?_, steady⟩
  rcases ask_start (Terms.ruleless m.env) same (.pattern p) pos with ⟨answer, _⟩ | ⟨_, _, excused⟩
  · rw [answer]
    exact here.trans start.symm
  · exact absurd excused id

end Search

end Match

end GrammarMatch
