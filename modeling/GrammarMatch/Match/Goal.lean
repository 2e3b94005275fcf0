/-
  File:      GrammarMatch/Match/Goal.lean
  Subject:   What is left to do in a match, and why it comes to an end.

  A match that may still succeed is a thread: a position, what was captured
  up to it, and the goals that are left. All threads together, the preferred
  one first, are the agenda; going back to the last choice means going on
  with the next thread.

  Working off a goal puts smaller goals in its place. A part of a pattern is
  replaced by parts one level deeper, and there is room for so many levels
  only; the next round of a repetition starts nearer to the end of the text;
  a look behind has one starting point fewer to try.
-/
import GrammarMatch.Match.State
import GrammarMatch.Match.Order

namespace GrammarMatch.Match

/-! ## 1. Goals -/

/-- Something left to do at the position that is reached. -/
inductive Goal where
  /-- Match a part of a pattern. -/
  | part (p : Pattern) (depth : Nat)
  /-- Match a rule and capture it under a key, if there is one. -/
  | call (name : String) (key : Option CaptureKey) (depth : Nat)
  /-- Go on after a round of a repetition that began at `start`, with `count`
      rounds before it. -/
  | round (q : Quantity) (body : Pattern) (count : Nat) (start : Int) (depth : Nat)
  /-- Close a group that was opened at `start`, when `outer` was captured. -/
  | close (key : CaptureKey) (plural : List CaptureKey) (start : Int) (outer : Captured)
  /-- Finish a rule that was called at `start`, when `outer` was captured. -/
  | finish (rule : Rule) (key : Option CaptureKey) (start : Int) (outer : Captured)
  /-- Match a body here or at one of the positions before, `left` in all. -/
  | retreat (body : Pattern) (left : Nat) (depth : Nat)

/-- A match that may still succeed. -/
structure Thread where
  goals : List Goal
  pos : Int
  captured : Captured

/-- The threads that are left, the preferred one first. -/
abbrev Agenda := List Thread

/-- Where a match ends and what it captured, the latest first. -/
structure Solution where
  stop : Int
  captured : Captured

/-! ## 2. The descent -/

/-- What the descent depends on: the room for nesting and the end of the
    text. -/
structure Bounds where
  room : Nat
  stop : Int

/-- The bounds of a match. -/
def Env.bounds (env : Env) : Bounds := ⟨env.settings.room, env.text.stop⟩

namespace Goal

/-- The levels below a depth for which there is room. -/
def levels (b : Bounds) (depth : Nat) : Nat := b.room + 1 - depth

/-- The size of a goal. -/
def size (b : Bounds) : Goal → Nat × Nat
  | .part _ depth => (2 * levels b depth + 1, 0)
  | .call _ _ depth => (2 * levels b depth, 0)
  | .round _ _ _ start depth => (2 * levels b depth, (b.stop - start).toNat)
  | .close .. => (0, 0)
  | .finish .. => (0, 0)
  | .retreat _ left depth => (2 * levels b depth, left)

/-- A goal of a size below the given one. -/
def Under (b : Bounds) (m : Nat × Nat) (g : Goal) : Prop := Prod.Lex (· < ·) (· < ·) (g.size b) m

/-- Goals by size. -/
def Below (b : Bounds) (g h : Goal) : Prop := g.Under b (h.size b)

/-- There is no endless descent among goals. -/
theorem below_wf (b : Bounds) : WellFounded (Below b) :=
  InvImage.wf (Goal.size b) (Prod.lex ⟨(· < ·), Nat.lt_wfRel.wf⟩ ⟨(· < ·), Nat.lt_wfRel.wf⟩).wf

/-- The first measure decides if it is less. -/
theorem under_of_fst {b : Bounds} {m : Nat × Nat} {g : Goal} (lt : (g.size b).1 < m.1) :
    g.Under b m := Prod.lex_def.mpr (Or.inl lt)

/-- At equal first measures the second decides. -/
theorem under_of_snd {b : Bounds} {m : Nat × Nat} {g : Goal} (eq : (g.size b).1 = m.1)
    (lt : (g.size b).2 < m.2) : g.Under b m := Prod.lex_def.mpr (Or.inr ⟨eq, lt⟩)

/-- The size of every part at a depth. -/
def partSize (b : Bounds) (depth : Nat) : Nat × Nat := (2 * levels b depth + 1, 0)

/-- The size of every call at a depth. -/
def callSize (b : Bounds) (depth : Nat) : Nat × Nat := (2 * levels b depth, 0)

/-- A part one level deeper is smaller than a part. -/
theorem part_under_part {b : Bounds} {depth : Nat} (h : depth ≤ b.room) (p : Pattern) :
    (part p (depth + 1)).Under b (partSize b depth) :=
  under_of_fst (by simp only [size, levels, partSize]; omega)

/-- A part one level deeper is smaller than anything of a size at the depth
    itself. -/
theorem part_under {b : Bounds} {depth : Nat} (h : depth ≤ b.room) (p : Pattern) (n : Nat) :
    (part p (depth + 1)).Under b (2 * levels b depth, n) :=
  under_of_fst (by simp only [size, levels]; omega)

/-- A call is smaller than a part of its depth. -/
theorem call_under_part {b : Bounds} (name : String) (key : Option CaptureKey) (depth : Nat) :
    (call name key depth).Under b (partSize b depth) :=
  under_of_fst (by simp only [size, partSize]; omega)

/-- A round is smaller than a part of its depth. -/
theorem round_under_part {b : Bounds} (q : Quantity) (body : Pattern) (count : Nat) (start : Int)
    (depth : Nat) : (round q body count start depth).Under b (partSize b depth) :=
  under_of_fst (by simp only [size, partSize]; omega)

/-- A look behind is smaller than a part of its depth. -/
theorem retreat_under_part {b : Bounds} (body : Pattern) (left depth : Nat) :
    (retreat body left depth).Under b (partSize b depth) :=
  under_of_fst (by simp only [size, partSize]; omega)

/-- Closing a group is smaller than a part. -/
theorem close_under_part {b : Bounds} (key : CaptureKey) (plural : List CaptureKey) (start : Int)
    (outer : Captured) (depth : Nat) :
    (close key plural start outer).Under b (partSize b depth) :=
  under_of_fst (by simp only [size, partSize]; omega)

/-- Finishing a rule is smaller than calling it. -/
theorem finish_under_call {b : Bounds} {depth : Nat} (h : depth ≤ b.room) (rule : Rule)
    (key : Option CaptureKey) (start : Int) (outer : Captured) :
    (finish rule key start outer).Under b (callSize b depth) :=
  under_of_fst (by simp only [size, levels, callSize]; omega)

/-- The next round is smaller if it starts nearer to the end of the text. -/
theorem round_under_round {b : Bounds} {start pos : Int} (h : start < pos) (hs : start < b.stop)
    (q : Quantity) (body : Pattern) (count count' : Nat) (depth : Nat) :
    (round q body count' pos depth).Under b ((round q body count start depth).size b) :=
  under_of_snd rfl (by simp only [size]; omega)

/-- A look behind is smaller with one starting point fewer. -/
theorem retreat_under_retreat {b : Bounds} (body : Pattern) (left depth : Nat) :
    (retreat body left depth).Under b (2 * levels b depth, left + 1) :=
  under_of_snd rfl (Nat.lt_succ_self left)

end Goal

namespace Thread

/-- Threads by their goals. -/
def Below (b : Bounds) (t u : Thread) : Prop := Shrinks (Goal.Below b) t.goals u.goals

/-- There is no endless descent among threads. -/
theorem below_wf (b : Bounds) : WellFounded (Below b) :=
  InvImage.wf Thread.goals (Shrinks.wf (Goal.below_wf b))

end Thread

/-- An agenda under given bounds, as something that descends. -/
structure Job (b : Bounds) where
  agenda : Agenda

instance (b : Bounds) : WellFoundedRelation (Job b) where
  rel j k := Shrinks (Thread.Below b) j.agenda k.agenda
  wf := InvImage.wf Job.agenda (Shrinks.wf (Thread.below_wf b))

/-! ## 3. Branches -/

/-- One way to work off a goal of a size: smaller goals to do instead, from a
    position on and with what is captured then. -/
structure Branch (b : Bounds) (m : Nat × Nat) where
  goals : List Goal
  pos : Int
  captured : Captured
  below : ∀ h ∈ goals, h.Under b m

namespace Branch

variable {b : Bounds} {m : Nat × Nat}

/-- The way on which nothing is left to do. -/
def done (pos : Int) (captured : Captured) : Branch b m := ⟨[], pos, captured, by simp⟩

/-- The way on which one smaller goal is left. -/
def single (h : Goal) (below : h.Under b m) (pos : Int) (captured : Captured) : Branch b m :=
  ⟨[h], pos, captured, by simpa using below⟩

/-- The way on which two smaller goals are left. -/
def both (h k : Goal) (hb : h.Under b m) (kb : k.Under b m) (pos : Int) (captured : Captured) :
    Branch b m :=
  ⟨[h, k], pos, captured, by
    intro g hg
    rcases List.mem_cons.mp hg with rfl | hg
    · exact hb
    · rw [List.mem_singleton.mp hg]; exact kb⟩

/-- The thread that takes this way and then does what else was left. -/
def thread (goals : List Goal) (w : Branch b m) : Thread :=
  ⟨w.goals ++ goals, w.pos, w.captured⟩

end Branch

/-- How a goal of a size may be worked off by matching something smaller
    first: the first solution of a thread of smaller goals, if only solutions
    that end at a given position count, while some calls are active. -/
abbrev Solver (b : Bounds) (m : Nat × Nat) :=
  (active : List (String × Int)) → (target : Option Int) → (t : Thread) →
    (∀ h ∈ t.goals, h.Under b m) → Run (Option Solution)

end GrammarMatch.Match
