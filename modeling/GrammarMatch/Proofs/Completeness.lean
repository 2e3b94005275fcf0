/-
  File:      GrammarMatch/Proofs/Completeness.lean
  Subject:   No text of the language of a pattern is missed.

  Where what lies between two positions is in the language of a pattern, plain recursion leads
  from one to the other, or a failure comes first (`solutions_complete`). The rounds of a
  repetition are put in order for it: those that have a width first, one of no width last, which
  stands for all that are missing.

  No failure comes where the nesting is allowed, every class can be tested on every character of
  the text and no rule is called (`solutions_safe`).
-/
import GrammarMatch.Proofs.Descent
import GrammarMatch.Proofs.Language

namespace GrammarMatch

/-- Nesting is allowed down to a depth. -/
structure Settings.Allows (settings : Settings) (depth : Nat) : Prop where
  room : depth ≤ settings.room
  limit : ∀ limit, settings.maxDepth = some limit → depth ≤ limit

theorem Settings.Allows.mono {settings : Settings} {depth depth' : Nat}
    (h : settings.Allows depth') (le : depth ≤ depth') : settings.Allows depth :=
  ⟨Nat.le_trans le h.room, fun limit hl => Nat.le_trans le (h.limit limit hl)⟩

namespace Match

open Pattern

/-! ## 1. Rounds and parts -/

/-- Whatever of a text is in a language is covered, from any position. -/
def Complete (t : Text) (L : Language Char) (k : Solution → Answers Solution) : Prop :=
  ∀ s stop, t.Span s.stop stop → t.slice s.stop stop ∈ L → (k s).Covers fun u => u.stop = stop

section Composites

variable {t : Text} {L : Language Char} {q : Quantity} {k : Solution → Answers Solution}

/-- Where a repetition may stop, it covers where it is. -/
theorem rounds_stop {left count : Nat} {P : Solution → Prop} (enough : q.mayStop count = true)
    {s : Solution} (hs : P s) : (rounds q k (left + 1) count s).Covers P := by
  unfold rounds
  rw [Answers.append_assoc]
  cases hq : q.greedy with
  | true =>
    refine Answers.Covers.append_right _ (Answers.Covers.append_right _ ?_)
    exact Answers.covers_only (Bool.and_eq_true_iff.mpr ⟨rfl, enough⟩) hs
  | false =>
    refine Answers.Covers.append_left ?_ _
    exact Answers.covers_only (Bool.and_eq_true_iff.mpr ⟨rfl, enough⟩) hs

/-- What is covered by way of another round is covered. -/
theorem rounds_goOn {left count : Nat} {P : Solution → Prop} {s : Solution}
    (more : q.mayGoOn count = true)
    (h : ((k s).bind fun u =>
      if u.stop = s.stop then .just u else rounds q k left (count + 1) u).Covers P) :
    (rounds q k (left + 1) count s).Covers P := by
  unfold rounds
  rw [if_pos more]
  exact (h.append_right _).append_left _

/-- **Rounds that have a width, and any number of others, are covered.** -/
theorem rounds_covers (hk : Complete t L k) (parts : List (List Char)) {empty left count : Nat}
    {s : Solution} {stop : Int} (span : t.Span s.stop stop)
    (slice : t.slice s.stop stop = parts.flatten) (wide : ∀ v ∈ parts, v ≠ [] ∧ v ∈ L)
    (narrow : 0 < empty → [] ∈ L) (admits : q.Admits (count + parts.length + empty))
    (bound : (stop - s.stop).toNat < left) :
    (rounds q k left count s).Covers fun u => u.stop = stop := by
  obtain ⟨left, rfl⟩ : ∃ n, left = n + 1 := ⟨left - 1, by omega⟩
  induction parts generalizing left count s with
  | nil =>
    -- Only rounds of no width are left: stop, or let one of them be the last.
    have done : stop = s.stop := by
      have := Text.length_slice span
      rw [slice, List.flatten_nil, List.length_nil] at this
      omega
    subst done
    by_cases enough : q.mayStop count = true
    · exact rounds_stop enough rfl
    · have missing : 0 < empty := by
        rw [Quantity.mayStop_iff] at enough
        have := admits.1
        rw [List.length_nil] at this
        omega
      have more : q.mayGoOn count = true := Quantity.mayGoOn_iff.mpr fun max hmax => by
        have := admits.2 max hmax
        omega
      refine rounds_goOn more ((hk s s.stop span ?_).bind fun u _ width => ?_)
      · rw [slice]
        exact narrow missing
      · rw [if_pos width]
        exact Answers.covers_just width
  | cons v parts ih =>
    rw [List.flatten_cons] at slice
    rw [List.length_cons] at admits
    obtain ⟨first, rest, hv, hrest⟩ := Text.slice_split span slice
    obtain ⟨ne, mem⟩ := wide v List.mem_cons_self
    have width : 0 < v.length := List.length_pos_iff.mpr ne
    have more : q.mayGoOn count = true := Quantity.mayGoOn_iff.mpr fun max hmax => by
      have := admits.2 max hmax
      omega
    refine rounds_goOn more ((hk s _ first (hv.symm ▸ mem)).bind fun u _ hu => ?_)
    obtain ⟨left, rfl⟩ : ∃ n, left = n + 1 := ⟨left - 1, by have := rest.le; omega⟩
    rw [if_neg (by omega)]
    have wide' : ∀ v ∈ parts, v ≠ [] ∧ v ∈ L := fun v hv => wide v (List.mem_cons_of_mem _ hv)
    refine ih (by rwa [hu]) (by rwa [hu]) wide' ?_ left ?_
    · have : count + 1 + parts.length + empty = count + (parts.length + 1) + empty := by omega
      rwa [this]
    · rw [hu]
      omega

theorem chain_complete {inner : Pattern → Solution → Answers Solution} {parts : List Pattern}
    (h : ∀ p ∈ parts, Complete t p.language (inner p)) :
    Complete t (Pattern.sequence parts).language (.chain (parts.map inner)) := by
  induction parts with
  | nil =>
    intro s stop span mem
    have done : t.slice s.stop stop = [] := mem
    have := Text.length_slice span
    rw [done, List.length_nil] at this
    exact Answers.covers_just (show s.stop = stop by omega)
  | cons p parts ih =>
    intro s stop span mem
    rw [language_sequence_cons] at mem
    obtain ⟨a, ha, b, hb, split⟩ := Language.mem_mul.mp mem
    obtain ⟨first, rest, hfirst, hrest⟩ := Text.slice_split span split.symm
    refine (h p List.mem_cons_self s _ first (hfirst.symm ▸ ha)).bind fun u _ hu => ?_
    refine ih (fun p' hp' => h p' (List.mem_cons_of_mem p hp')) u stop ?_ ?_
    · rwa [hu]
    · rw [hu, hrest]
      exact hb

end Composites

/-! ## 2. All patterns -/

section Patterns

variable {w : Basis}

/-- What is covered at one level is covered, or nesting so deep fails. -/
theorem solutions_covers {p : Pattern} {depth : Nat} {active : Active} {s : Solution}
    {P : Solution → Prop} (h : (w.part (w.solutions (depth + 1)) active s p).Covers P) :
    (w.solutions depth active p s).Covers P := by
  rw [solutions_eq]
  refine Answers.Covers.attempt fun _ _ => ?_
  by_cases room : depth ≤ w.env.settings.room
  · rw [if_pos room]
    exact h
  · rw [if_neg room]
    trivial

/-- **What is in the language of a pattern is covered by its solutions.** -/
theorem solutions_complete {p : Pattern} (regular : p.Regular) (depth : Nat) (active : Active) :
    Complete w.env.text p.language (w.solutions depth active p) := by
  have level {p : Pattern} {L : Language Char} (depth : Nat)
      (h : Complete w.env.text L fun s => w.part (w.solutions (depth + 1)) active s p) :
      Complete w.env.text L (w.solutions depth active p) :=
    fun s stop span mem => solutions_covers (h s stop span mem)
  induction regular generalizing depth with
  | @literal chars ignoreCase =>
    refine level depth fun s stop span mem => ?_
    have stops := (literalStop_slice span).mpr (mem_language_literal.mp mem)
    simp only [Basis.part, stops]
    exact Answers.covers_just rfl
  | charClass =>
    refine level depth fun s stop span mem => ?_
    obtain ⟨c, one, has⟩ := mem_language_charClass.mp mem
    simp only [Basis.part, classHolds_slice span one, has]
    exact Answers.covers_just ((Text.slice_eq_singleton span).mp one).1.symm
  | sequence _ ih => exact level depth (chain_complete fun p hp => ih p hp (depth + 1))
  | alternation _ ih =>
    refine level depth fun s stop span mem => ?_
    obtain ⟨p, hp, mem⟩ := mem_language_alternation.mp mem
    exact (ih p hp (depth + 1) s stop span mem).concat (List.mem_map_of_mem hp)
  | repetition _ _ ih =>
    refine level depth fun s stop span mem => ?_
    obtain ⟨n, admits, mem⟩ := mem_language_repetition.mp mem
    obtain ⟨parts, empty, slice, wide, narrow, rfl⟩ := mem_pow_split mem
    refine rounds_covers (ih (depth + 1)) parts span slice wide narrow ?_ ?_
    · rwa [Nat.zero_add]
    · have := span.le_stop
      unfold Basis.roundsLeft
      omega
  | @group key plural body _ ih =>
    refine level depth fun s stop span mem => ?_
    rw [language_group] at mem
    cases key with
    | none => exact ih (depth + 1) s stop span mem
    | some key =>
      refine (ih (depth + 1) ⟨s.stop, []⟩ stop span mem).bind fun u _ hu => ?_
      exact Answers.covers_just hu

end Patterns

/-! ## 3. Where no failure comes -/

/-- Every class in a pattern can be tested on every character of a text, and no look behind starts
    after the position. -/
inductive Testable (t : Text) : Pattern → Prop
  | intro {p : Pattern}
      (classes : ∀ items negated ignoreCase, p = .charClass items negated ignoreCase →
        ∀ c ∈ t.toList, ∃ has, classHas items negated ignoreCase c = .ok has)
      (looks : ∀ kind body, p = .look kind body → 0 ≤ body.width.low)
      (inner : ∀ c ∈ p.children, Testable t c) : Testable t p

/-- From the inside of a text no failure comes, and nothing leads out of it. -/
def Safe (t : Text) (k : Solution → Answers Solution) : Prop :=
  ∀ s, t.Span 0 s.stop → (k s).Ends ∧ ∀ u ∈ k s, t.Span 0 u.stop

section Composites

variable {t : Text} {k : Solution → Answers Solution}

theorem rounds_end {q : Quantity} (hk : Safe t k) (left count : Nat) {s : Solution}
    (inside : t.Span 0 s.stop) : (rounds q k left count s).Ends := by
  induction left generalizing count s with
  | zero => trivial
  | succ left ih =>
    have goOn : ((k s).bind fun u =>
        if u.stop = s.stop then .just u else rounds q k left (count + 1) u).Ends := by
      refine (hk s inside).1.bind fun u hu => ?_
      by_cases width : u.stop = s.stop
      · rw [if_pos width]
        exact Answers.ends_just u
      · rw [if_neg width]
        exact ih (count + 1) ((hk s inside).2 u hu)
    unfold rounds
    refine Answers.Ends.append (Answers.Ends.append (Answers.ends_only _ s) ?_)
      (Answers.ends_only _ s)
    by_cases more : q.mayGoOn count = true
    · rw [if_pos more]
      exact goOn
    · rw [if_neg more]
      trivial

theorem chain_end {inner : Pattern → Solution → Answers Solution} {parts : List Pattern}
    (h : ∀ p ∈ parts, Safe t (inner p)) {s : Solution} (inside : t.Span 0 s.stop) :
    (Answers.chain (parts.map inner) s).Ends := by
  induction parts generalizing s with
  | nil => exact Answers.ends_just s
  | cons p parts ih =>
    have first := h p List.mem_cons_self s inside
    refine first.1.bind fun u hu => ?_
    exact ih (fun p' hp' => h p' (List.mem_cons_of_mem p hp')) (first.2 u hu)

theorem retreat_end (hk : Safe t k) {left : Nat} {s : Solution}
    (starts : (left : Int) ≤ s.stop + 1 ∧ s.stop ≤ t.stop ∨ left = 0) :
    (Basis.retreat k left s).Ends := by
  induction left generalizing s with
  | zero => trivial
  | succ left ih =>
    refine (hk s ⟨Int.le_refl 0, by omega, by omega⟩).1.append (ih (.inl ?_))
    show (left : Int) ≤ s.stop - 1 + 1 ∧ s.stop - 1 ≤ t.stop
    omega

/-- A look comes to a result. -/
theorem looked_end {inner : Inner} {active : Active} {body : Pattern}
    (hk : Safe t (inner active body)) (least : 0 ≤ body.width.low) (kind : LookKind) {pos : Int}
    (here : t.Span 0 pos) : ∃ found, Basis.looked inner active kind body pos = .ok found := by
  unfold Basis.looked
  by_cases backward : kind.backward = true
  · rw [if_pos backward]
    refine Answers.Ends.first (Answers.Ends.bind ?_ fun u _ => Answers.ends_only _ u)
    exact retreat_end hk (retreatFrom_inside least here)
  · rw [if_neg backward]
    exact (hk ⟨pos, []⟩ here).1.first

/-- Branches come to their first solutions. -/
theorem firsts_end {inner : Pattern → Answers Solution} {branches : List Pattern}
    (h : ∀ p ∈ branches, (inner p).Ends) :
    ∃ found, branches.mapM (fun p => (inner p).first) = .ok found := by
  induction branches with
  | nil => exact ⟨[], rfl⟩
  | cons p branches ih =>
    obtain ⟨o, first⟩ := (h p List.mem_cons_self).first
    obtain ⟨found, others⟩ := ih fun p' hp' => h p' (List.mem_cons_of_mem p hp')
    refine ⟨o :: found, ?_⟩
    rw [List.mapM_cons, first, others]
    rfl

/-- A class that can be tested on every character of a text can be tested at every position. -/
theorem class_end {items : List ClassItem} {negated ignoreCase : Bool}
    (tests : ∀ c ∈ t.toList, ∃ has, classHas items negated ignoreCase c = .ok has) {pos : Int}
    (nonneg : 0 ≤ pos) : ∃ holds, classHolds t items negated ignoreCase pos = .ok holds := by
  by_cases before : pos < t.stop
  · obtain ⟨c, hc, one⟩ := exists_char nonneg before
    obtain ⟨has, tested⟩ := tests c hc
    exact ⟨has, (classHolds_slice ⟨nonneg, by omega, Int.add_one_le_of_lt before⟩ one).trans tested⟩
  · exact ⟨false, if_neg before⟩

end Composites

section Patterns

variable {w : Basis}

theorem entry_allowed {depth : Nat} (allows : w.env.settings.Allows depth) (pos : Int) :
    w.entry depth pos = .ok () := by
  unfold Basis.entry
  cases h : w.env.settings.maxDepth with
  | none => rfl
  | some limit =>
    have := allows.limit limit h
    exact if_neg (Nat.not_lt.mpr this)

theorem solutions_ends {p : Pattern} {depth : Nat} {active : Active} {s : Solution}
    (allows : w.env.settings.Allows depth)
    (h : (w.part (w.solutions (depth + 1)) active s p).Ends) :
    (w.solutions depth active p s).Ends := by
  rw [solutions_eq, entry_allowed allows, Answers.attempt_ok, if_pos allows.room]
  exact h

/-- **Where there are levels enough, every class can be tested and no rule is called, no failure
    comes.** -/
theorem solutions_safe (again : ∀ v, w.again ≠ .ok (some v)) {p : Pattern}
    (testable : Testable w.env.text p) (alone : p.Standalone w.lexicon.space) {depth : Nat}
    (allows : w.env.settings.Allows (depth + p.height)) (active : Active) :
    Safe w.env.text (w.solutions depth active p) := by
  induction testable generalizing depth with
  | @intro p classes looks _ ih =>
    have deeper {c : Pattern} (hc : c ∈ p.children) :
        Safe w.env.text (w.solutions (depth + 1) active c) := by
      have low := height_of_child hc
      exact ih c hc (alone.child hc) (allows.mono (by omega))
    intro s inside
    refine ⟨solutions_ends (allows.mono (Nat.le_add_right _ _)) ?_, fun u hu => ?_⟩
    swap
    · have hd := eval_derives again _ _ _ _ _ _ hu
      exact ⟨Int.le_refl 0, Int.le_trans inside.le hd.onward.1,
        hd.le_stop inside.le inside.le_stop⟩
    cases p with
    | literal chars ignoreCase =>
      simp only [Basis.part]
      cases literalStop? w.env.text chars ignoreCase s.stop with
      | none => trivial
      | some stop => exact Answers.ends_just _
    | charClass items negated ignoreCase =>
      simp only [Basis.part]
      obtain ⟨holds, come⟩ := class_end (classes items negated ignoreCase rfl) inside.le
      rw [come]
      exact Answers.ends_only holds _
    | sequence parts => exact chain_end (fun p hp => deeper hp) inside
    | alternation mode branches =>
      cases mode with
      | ordered =>
        refine Answers.Ends.concat fun x hx => ?_
        obtain ⟨p, hp, rfl⟩ := List.mem_map.mp hx
        exact (deeper hp s inside).1
      | longest =>
        obtain ⟨found, come⟩ : ∃ found,
            branches.mapM (fun p => (w.solutions (depth + 1) active p s).first) = .ok found :=
          firsts_end fun p hp => (deeper hp s inside).1
        simp only [Basis.part, come]
        exact Answers.ends_ofList _
    | repetition q body => exact rounds_end (deeper List.mem_cons_self) _ 0 inside
    | group key plural body =>
      cases key with
      | none => exact (deeper List.mem_cons_self s inside).1
      | some key =>
        exact (deeper List.mem_cons_self ⟨s.stop, []⟩ inside).1.bind fun u _ => Answers.ends_just _
    | look kind body =>
      obtain ⟨found, come⟩ :
          ∃ found, Basis.looked (w.solutions (depth + 1)) active kind body s.stop = .ok found :=
        looked_end (deeper List.mem_cons_self) (looks kind body rfl) kind inside
      simp only [Basis.part, come]
      exact Answers.ends_only _ s
    | anchor kind =>
      cases come : anchorHolds w.env.text s.stop kind with
      | ok holds =>
        simp only [Basis.part, come]
        exact Answers.ends_only holds s
      | error f => exact absurd inside (fails_anchorHolds s.stop kind f come).2
    | ruleRef r => exact absurd alone Pattern.Standalone.not_ruleRef
    | whitespace =>
      cases come : gapStop? w.env.text s.stop with
      | ok stop =>
        simp only [Basis.part, alone.spaceless, come]
        cases stop with
        | none => trivial
        | some stop => exact Answers.ends_just _
      | error f => exact absurd inside (fails_gapStop s.stop f come).2

end Patterns

/-! ## 4. Regular expressions -/

/-- So many levels of nesting are enough for a pattern, and each of its classes can be tested on
    every character of the text. -/
inductive Fits (t : Text) : Nat → Pattern → Prop
  | literal {n : Nat} {chars : List Char} {ignoreCase : Bool} :
      Fits t (n + 1) (.literal chars ignoreCase)
  | charClass {n : Nat} {items : List ClassItem} {negated ignoreCase : Bool}
      (h : ∀ c ∈ t.toList, ∃ has, classHas items negated ignoreCase c = .ok has) :
      Fits t (n + 1) (.charClass items negated ignoreCase)
  | sequence {n : Nat} {parts : List Pattern} (h : ∀ p ∈ parts, Fits t n p) :
      Fits t (n + 1) (.sequence parts)
  | alternation {n : Nat} {branches : List Pattern} (h : ∀ p ∈ branches, Fits t n p) :
      Fits t (n + 1) (.alternation .ordered branches)
  | repetition {n : Nat} {q : Quantity} {body : Pattern} (h : Fits t n body) :
      Fits t (n + 1) (.repetition q body)
  | group {n : Nat} {key : Option CaptureKey} {plural : List CaptureKey} {body : Pattern}
      (h : Fits t n body) : Fits t (n + 1) (.group key plural body)

namespace Fits

variable {t : Text} {n : Nat} {p : Pattern}

/-- There are more levels than a pattern is high. -/
theorem height (h : Fits t n p) : p.height + 1 ≤ n := by
  induction h with
  | literal | charClass => exact Nat.succ_le_succ (Nat.zero_le _)
  | sequence _ ih | alternation _ ih => exact Nat.succ_le_succ (heightOfAll_le ih)
  | repetition _ ih | group _ ih => exact Nat.succ_le_succ ih

theorem standalone (h : Fits t n p) (space : Bool) : p.Standalone space := by
  induction h with
  | literal => exact .literal
  | charClass => exact .charClass
  | sequence _ ih => exact .sequence ih
  | alternation _ ih => exact .alternation ih
  | repetition _ ih => exact .repetition ih
  | group _ ih => exact .group ih

theorem testable (h : Fits t n p) : Testable t p := by
  induction h with
  | literal => exact .intro (fun _ _ _ h => by cases h) (fun _ _ h => by cases h) nofun
  | @charClass n items negated ignoreCase h =>
    refine .intro (fun _ _ _ same => ?_) (fun _ _ h => by cases h) nofun
    cases same
    exact h
  | sequence _ ih | alternation _ ih =>
    exact .intro (fun _ _ _ h => by cases h) (fun _ _ h => by cases h) ih
  | repetition _ ih | group _ ih =>
    exact .intro (fun _ _ _ h => by cases h) (fun _ _ h => by cases h)
      (List.forall_mem_singleton.mpr ih)

end Fits

end Match

end GrammarMatch
