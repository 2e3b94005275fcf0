/-
  File:      GrammarMatch/Proofs/Nesting.lean
  Subject:   Captures that are well nested.

  In a well nested tree every capture lies in the text, holds what was captured inside it, and
  holds it side by side. Such a tree is built from captures in a scope: those that were made from
  one position on, each behind the one before (`Within.build`).

  Matching may start outside the text, behind it even, when a look tries what comes before.
  Nothing is said then of what is captured: `InScope` and `Spans` are about scopes that begin in
  the text.
-/
import GrammarMatch.Proofs.Slice

namespace GrammarMatch

/-! ## 1. Trees -/

namespace Capture

/-- A capture lies in the text, what it holds lies inside it, and of two captures that it holds
    the earlier one ends where the later one starts, or before. -/
structure Ordered (t : Text) (c : Capture) : Prop where
  span : t.Span c.label.start c.label.stop
  inside : ∀ d ∈ c.children, c.label.start ≤ d.label.start ∧ d.label.stop ≤ c.label.stop
  apart : c.children.Pairwise fun d e => d.label.stop ≤ e.label.start

/-- All captures of a tree are in order. -/
def WellNested (t : Text) (c : Capture) : Prop := ∀ d ∈ c.walk, d.Ordered t

/-- A well nested tree covers a part of the text. -/
structure Covers (t : Text) (start stop : Int) (c : Capture) : Prop where
  nested : c.WellNested t
  start : c.label.start = start
  stop : c.label.stop = stop

variable {t : Text} {c : Capture}

theorem mem_walkAll {l : List (CaptureKey × Capture)} {d : Capture} :
    d ∈ walkAll l ↔ ∃ e ∈ l, d ∈ e.2.walk := by
  induction l with
  | nil => simp [walkAll]
  | cons e l ih =>
    rw [walkAll, List.mem_append, ih]
    simp

/-- A tree is well nested if its root is in order and the trees inside are well nested. -/
theorem wellNested_node {label : Label} {entries : List (CaptureKey × Capture)} :
    (node label entries).WellNested t ↔
      (node label entries).Ordered t ∧ ∀ e ∈ entries, e.2.WellNested t := by
  unfold WellNested
  rw [walk, List.forall_mem_cons]
  refine and_congr_right fun _ => ⟨fun h e he d hd => ?_, fun h d hd => ?_⟩
  · exact h d (mem_walkAll.mpr ⟨e, he, hd⟩)
  · obtain ⟨e, he, hd⟩ := mem_walkAll.mp hd
    exact h e he d hd

theorem WellNested.ordered (h : c.WellNested t) : c.Ordered t := by
  cases c with
  | node label entries => exact (wellNested_node.mp h).1

/-- A value that is attached changes nothing. -/
theorem WellNested.make (h : c.WellNested t) (value : Datum) : (c.make value).WellNested t := by
  cases c with
  | node label entries =>
    obtain ⟨ordered, inside⟩ := wellNested_node.mp h
    exact wellNested_node.mpr ⟨⟨ordered.span, ordered.inside, ordered.apart⟩, inside⟩

end Capture

namespace Match

/-! ## 2. Scopes -/

/-- What was captured between two positions, the latest first: each capture behind the one before,
    and all of them well nested. -/
inductive Within (t : Text) (start : Int) : Int → Captured → Prop
  | nil {stop : Int} (h : t.Span start stop) : Within t start stop []
  | cons {key : CaptureKey} {c : Capture} {outer : Captured} {stop : Int}
      (nested : c.WellNested t) (before : Within t start c.label.start outer)
      (le : c.label.stop ≤ stop) (inside : stop ≤ t.stop) : Within t start stop ((key, c) :: outer)

variable {t : Text} {start pos stop : Int} {captured outer : Captured} {c : Capture}

theorem Within.span (h : Within t start stop captured) : t.Span start stop := by
  induction h with
  | nil h => exact h
  | cons nested _ le inside ih =>
    have width := nested.ordered.span.le
    exact ⟨ih.nonneg, Int.le_trans ih.le (Int.le_trans width le), inside⟩

theorem Within.onward (h : Within t start pos captured) (le : pos ≤ stop) (inside : stop ≤ t.stop) :
    Within t start stop captured := by
  cases h with
  | nil h => exact .nil ⟨h.nonneg, Int.le_trans h.le le, inside⟩
  | cons nested before le' _ => exact .cons nested before (Int.le_trans le' le) inside

theorem Within.mem (h : Within t start stop captured) {e : CaptureKey × Capture}
    (he : e ∈ captured) :
    e.2.WellNested t ∧ start ≤ e.2.label.start ∧ e.2.label.stop ≤ stop := by
  induction h with
  | nil _ => cases he
  | cons nested before le _ ih =>
    rcases List.mem_cons.mp he with rfl | he
    · exact ⟨nested, before.span.le, le⟩
    · obtain ⟨nested', first, last⟩ := ih he
      have width := nested.ordered.span.le
      exact ⟨nested', first, Int.le_trans last (Int.le_trans width le)⟩

theorem Within.apart (h : Within t start stop captured) :
    captured.Pairwise fun e d => d.2.label.stop ≤ e.2.label.start := by
  induction h with
  | nil _ => exact .nil
  | cons _ before _ _ ih => exact .cons (fun d hd => (before.mem hd).2.2) ih

/-- **A tree that is built from a scope is well nested.** -/
theorem Within.build (h : Within t start stop captured) (name : Option CaptureKey)
    (plural : List CaptureKey) (rule : Option String) :
    (Capture.build name start stop plural rule captured).WellNested t := by
  refine Capture.wellNested_node.mpr ⟨⟨h.span, fun d hd => ?_, ?_⟩, fun e he => ?_⟩
  · obtain ⟨e, he, rfl⟩ := List.mem_map.mp hd
    exact (h.mem (List.mem_reverse.mp he)).2
  · exact List.pairwise_map.mpr (List.pairwise_reverse.mpr h.apart)
  · exact (h.mem (List.mem_reverse.mp he)).1

/-! ## 3. Scopes that begin in the text -/

/-- What was captured in a scope, if the scope begins in the text. -/
def InScope (t : Text) (start stop : Int) (captured : Captured) : Prop :=
  t.Span 0 start → Within t start stop captured

/-- A capture covers the part of the text between two positions, if that begins in the text. -/
def Spans (t : Text) (start stop : Int) (c : Capture) : Prop :=
  t.Span 0 start → c.Covers t start stop

/-- A scope that begins is empty. -/
theorem inScope_nil (t : Text) (start : Int) : InScope t start start [] :=
  fun h => .nil (Text.span_self h.le h.le_stop)

/-- Nothing is said of a scope that does not begin in the text. -/
theorem inScope_outside (negative : start < 0) : InScope t start stop captured :=
  fun h => absurd h.le (Int.not_le.mpr negative)

/-- A step in the text, from wherever it starts. -/
def Steps (t : Text) (pos stop : Int) : Prop := t.Span 0 pos → t.Span pos stop

/-- A scope that begins in the text goes on in it. -/
theorem InScope.here (h : InScope t start pos captured) (inside : t.Span 0 start) :
    t.Span 0 pos :=
  ⟨Int.le_refl 0, Int.le_trans inside.le (h inside).span.le, (h inside).span.le_stop⟩

theorem InScope.onward (h : InScope t start pos captured) (step : Steps t pos stop) :
    InScope t start stop captured := by
  intro inside
  have on := step (h.here inside)
  exact (h inside).onward on.le on.le_stop

/-- One more capture. -/
theorem InScope.cons (h : InScope t start pos outer) (hc : Spans t pos stop c) (key : CaptureKey) :
    InScope t start stop ((key, c) :: outer) := by
  intro inside
  obtain ⟨nested, rfl, rfl⟩ := hc (h.here inside)
  exact .cons nested (h inside) (Int.le_refl _) nested.ordered.span.le_stop

theorem Spans.steps (hc : Spans t pos stop c) : Steps t pos stop := by
  intro here
  obtain ⟨nested, rfl, rfl⟩ := hc here
  exact nested.ordered.span

theorem InScope.capturedUnder (h : InScope t start pos outer) (hc : Spans t pos stop c)
    (key : Option CaptureKey) : InScope t start stop (capturedUnder key c outer) := by
  cases key with
  | none => exact h.onward hc.steps
  | some key => exact h.cons hc key

theorem InScope.build (h : InScope t start stop captured) (name : Option CaptureKey)
    (plural : List CaptureKey) (rule : Option String) :
    Spans t start stop (.build name start stop plural rule captured) :=
  fun inside => ⟨(h inside).build name plural rule, rfl, rfl⟩

theorem Spans.make (hc : Spans t start stop c) (value : Datum) :
    Spans t start stop (c.make value) := by
  intro inside
  obtain ⟨nested, hstart, hstop⟩ := hc inside
  cases c with
  | node label entries => exact ⟨nested.make value, hstart, hstop⟩

end Match

end GrammarMatch
