/-
  File:      GrammarMatch/Proofs/Assembly.lean
  Subject:   What the compiler assembles.

  The compiler walks over a tree and puts parts together in a few ways: tokens, quantifiers, groups,
  rows and branches. What is said of trees and parts, and is kept up at each step of the walk, holds
  of the tree of a text (`Walk.compile`). Where the tree does not matter, it is enough to look at
  the ways in which parts come about (`Assembly.compile`), and where the numbers and names of a part
  do not matter either, at those in which patterns are built (`Closed.compile`).
-/
import GrammarMatch.Pattern.Compile

namespace GrammarMatch.Pattern

open Syntax

/-- A result that was made from another one. -/
theorem ok_of_map {ε α β : Type} {v : Except ε α} {f : α → β} {b : β} (h : v.map f = .ok b) :
    ∃ a, v = .ok a ∧ f a = b := by
  cases v with
  | error e => cases h
  | ok a => exact ⟨a, rfl, Except.ok.inj h⟩

/-- A result that was made from another one, which could still be refused. -/
theorem ok_of_bind {ε α β : Type} {v : Except ε α} {f : α → Except ε β} {b : β}
    (h : v.bind f = .ok b) : ∃ a, v = .ok a ∧ f a = .ok b := by
  cases v with
  | error e => cases h
  | ok a => exact ⟨a, rfl, h⟩

/-! ## 1. Tokens -/

/-- What a single token stands for. -/
inductive Single : Pattern → Prop
  | literal {chars : List Char} {ignoreCase : Bool} : Single (.literal chars ignoreCase)
  | charClass {items : List ClassItem} {negated ignoreCase : Bool} :
      Single (.charClass items negated ignoreCase)
  | anchor {kind : AnchorKind} : Single (.anchor kind)
  | noBoundary : Single (.look .notAhead (.anchor .wordBoundary))
  | ruleRef {r : Reference} : Single (.ruleRef r)
  | empty : Single .empty

theorem single_escape {ignoreCase : Bool} {t : Token} {p : Pattern}
    (h : escapePattern ignoreCase t = .ok p) : p.Single := by
  unfold escapePattern at h
  repeat' split at h
  · cases h
    exact .literal
  · cases h
    exact .charClass
  · cases h
    exact .literal
  · cases h
    exact .anchor
  · cases h
    exact .noBoundary
  · cases h
    exact .anchor
  · cases h
    exact .anchor
  · obtain ⟨item, _, rfl⟩ := ok_of_map h
    exact .charClass
  · cases h
  · cases h
    exact .literal

theorem single_class {ignoreCase : Bool} {t : Token} {p : Pattern}
    (h : classPattern ignoreCase t = .ok p) : p.Single := by
  unfold classPattern at h
  split at h
  · obtain ⟨items, _, rfl⟩ := ok_of_map h
    exact .charClass
  · obtain ⟨items, _, rfl⟩ := ok_of_map h
    exact .charClass

theorem single_token {d : Dialect} {t : Token} {p : Pattern} (h : ofToken d t = .ok p) :
    p.Single := by
  unfold ofToken at h
  split at h
  · cases h
    exact .literal
  · cases h
    exact .literal
  · exact single_class h
  · exact single_escape h
  · cases h
    exact .charClass
  · cases h
    exact .anchor
  · cases h
    exact .anchor
  · cases h
    exact .ruleRef
  · cases h
    exact .empty

/-! ## 2. Rows -/

/-- Parts one after the other, each of them with the number that is free where it begins. -/
inductive Follow (P : Nat → Part → Prop) : Nat → List Part → Nat → Prop
  | nil {next : Nat} : Follow P next [] next
  | cons {next after : Nat} {part : Part} {parts : List Part} (first : P next part)
      (rest : Follow P part.next parts after) : Follow P next (part :: parts) after

/-- What holds of each part of a row, wherever it begins. -/
theorem Follow.forall_mem {P : Nat → Part → Prop} {Q : Part → Prop} {next after : Nat}
    {parts : List Part} (h : Follow P next parts after) (imp : ∀ next part, P next part → Q part) :
    ∀ a ∈ parts, Q a := by
  induction h with
  | nil => exact List.forall_mem_nil _
  | cons first _ ih => exact List.forall_mem_cons.mpr ⟨imp _ _ first, ih⟩

/-! ## 3. The walk -/

/-- What is said of the atoms, the rows and the alternatives that the compiler walks over, where the
    next free number is given, and of what it makes of them. -/
structure Walk (d : Dialect) (A : Nat → Atom → Option Token → Part → Prop)
    (I : Nat → Items → List Part → Nat → Prop) (B : Nat → Alternatives → List Part → Prop) :
    Prop where
  leaf {t : Token} {p : Pattern} (token : ofToken d t = .ok p) {next : Nat}
    {quantifier : Option Token} {part : Part}
    (h : quantified d (.leaf t) ⟨p, next, []⟩ quantifier = .ok part) :
    A next (.leaf t) quantifier part
  group {opener closer : Token} {body : Alternatives} {next : Nat} {branches : List Part}
    (inside : B (firstInside (groupKindOf opener) next) body branches) {quantifier : Option Token}
    {part : Part} (h : quantified d (.group opener body closer) (enclose (groupKindOf opener)
      opener.offset next (joinBranches d (firstInside (groupKindOf opener) next) branches))
      quantifier = .ok part) : A next (.group opener body closer) quantifier part
  nil (next : Nat) : I next .nil [] next
  cons {next after : Nat} {atom : Atom} {quantifier : Option Token} {rest : Items} {part : Part}
    {parts : List Part} (first : A next atom quantifier part)
    (later : I part.next rest parts after) : I next (.cons atom quantifier rest) (part :: parts) after
  one {next after : Nat} {row : Items} {parts : List Part} (h : I next row parts after)
    {branch : Part} (joined : joinRow d after parts = .ok branch) : B next (.one row) [branch]
  more {next after : Nat} {row : Items} {parts : List Part} (h : I next row parts after)
    {branch : Part} (joined : joinRow d after parts = .ok branch) {rest : Alternatives}
    {branches : List Part} (others : B next rest branches) (bar : Token) :
    B next (.more row bar rest) (branch :: branches)

namespace Walk

variable {d : Dialect} {A : Nat → Atom → Option Token → Part → Prop}
  {I : Nat → Items → List Part → Nat → Prop} {B : Nat → Alternatives → List Part → Prop}

mutual

/-- An atom with its quantifier. -/
theorem atom (W : Walk d A I B) {next : Nat} (atom : Atom) {part part' : Part}
    {quantifier : Option Token} (h : ofAtom d next atom = .ok part)
    (hq : quantified d atom part quantifier = .ok part') : A next atom quantifier part' := by
  cases atom with
  | leaf t =>
    unfold ofAtom at h
    obtain ⟨p, token, rfl⟩ := ok_of_map h
    exact W.leaf token hq
  | group opener body closer =>
    unfold ofAtom at h
    simp only at h
    split at h
    · cases h
    · rename_i branches inside
      cases h
      exact W.group (W.alternatives body inside) hq

/-- The branches of alternatives. -/
theorem alternatives (W : Walk d A I B) {next : Nat} (tree : Alternatives) {branches : List Part}
    (h : branchesOf d next tree = .ok branches) : B next tree branches := by
  cases tree with
  | one row =>
    unfold branchesOf at h
    split at h
    · cases h
    · rename_i parts after hparts
      obtain ⟨branch, joined, rfl⟩ := ok_of_map h
      obtain ⟨_, rfl, made⟩ := W.items row hparts
      exact W.one made joined
  | more row bar rest =>
    unfold branchesOf at h
    split at h
    · cases h
    · rename_i parts after hparts
      split at h
      · cases h
      · rename_i branch joined
        obtain ⟨others, later, rfl⟩ := ok_of_map h
        obtain ⟨_, rfl, made⟩ := W.items row hparts
        exact W.more made joined (W.alternatives rest later) bar

/-- The parts of a row, after those that were assembled before it. -/
theorem items (W : Walk d A I B) {next : Nat} {done : List Part} (row : Items)
    {parts : List Part} {after : Nat} (h : partsOf d next done row = .ok (parts, after)) :
    ∃ new, parts = done.reverse ++ new ∧ I next row new after := by
  cases row with
  | nil =>
    unfold partsOf at h
    cases h
    exact ⟨[], (List.append_nil _).symm, W.nil next⟩
  | cons first quantifier rest =>
    unfold partsOf at h
    split at h
    · cases h
    · rename_i part hpart
      split at h
      · cases h
      · rename_i part' hpart'
        obtain ⟨new, rfl, made⟩ := W.items rest h
        refine ⟨part' :: new, ?_, W.cons (W.atom first hpart hpart') made⟩
        rw [List.reverse_cons, List.append_assoc]
        rfl

end

/-- **What is said of the trees of tokens holds of the tree of a text and its branches.** -/
theorem compile {flags : Flags} {kind : RuleKind} (W : Walk (Dialect.of flags kind) A I B)
    {source : List Char} {p : Pattern} (h : compile source flags kind = .ok p) :
    ∃ tree branches, Alternatives.parse source = .ok tree ∧ B 0 tree branches ∧
      (joinBranches (Dialect.of flags kind) 0 branches).pattern = p := by
  unfold Pattern.compile compileIn at h
  cases parsed : Alternatives.parse source with
  | error f =>
    rw [parsed] at h
    cases h
  | ok tree =>
    rw [parsed] at h
    simp only at h
    cases assembled : ofTree (Dialect.of flags kind) tree with
    | error f =>
      rw [assembled] at h
      cases h
    | ok p' =>
      rw [assembled] at h
      cases h
      obtain ⟨branches, hbranches, rfl⟩ := ok_of_map assembled
      exact ⟨tree, branches, rfl, W.alternatives tree hbranches, rfl⟩

end Walk

/-- The part of an atom with its quantifier is put in front of the parts behind it. -/
theorem partsOf_cons {d : Dialect} {next : Nat} {done : List Part} {atom : Atom}
    {quantifier : Option Token} {rest : Items} {part : Part}
    (h : (ofAtom d next atom).bind (quantified d atom · quantifier) = .ok part) :
    partsOf d next done (.cons atom quantifier rest) = partsOf d part.next (part :: done) rest := by
  rw [partsOf]
  cases first : ofAtom d next atom with
  | error f =>
    rw [first] at h
    cases h
  | ok alone =>
    rw [first] at h
    have repeats : quantified d atom alone quantifier = .ok part := h
    simp only [repeats]

/-! ## 4. Assembly -/

/-- What is demanded of a part, where the next free number is given, in each of the ways in which
    parts come about. -/
structure Assembly (d : Dialect) (P : Nat → Part → Prop) : Prop where
  token {t : Token} {p : Pattern} (h : ofToken d t = .ok p) (next : Nat) : P next ⟨p, next, []⟩
  repetition {next : Nat} {part : Part} (h : P next part) {t : Token} {q : Quantity}
    (bounds : quantityOf t = .ok q) : P next { part with pattern := .repetition q part.pattern }
  /-- A run of which only the last character is repeated. -/
  run (front : List Char) (last : Char) {t : Token} {q : Quantity} (bounds : quantityOf t = .ok q)
    (next : Nat) : P next ⟨.sequence [.literal front d.ignoreCase,
      .repetition q (.literal [last] d.ignoreCase)], next, []⟩
  enclose {kind : GroupKind} {next : Nat} {inner : Part} (h : P (firstInside kind next) inner)
    (place : Nat) : P next (enclose kind place next inner)
  row {next after : Nat} {parts : List Part} (h : Follow P next parts after) {part : Part}
    (joined : joinRow d after parts = .ok part) : P next part
  branches {next : Nat} {parts : List Part} (some : parts ≠ []) (h : ∀ a ∈ parts, P next a) :
    P next (joinBranches d next parts)

namespace Assembly

variable {P : Nat → Part → Prop}

variable {d : Dialect}

/-- A run with its quantifier is a token with it, or its last character has it alone. -/
theorem repeated_run (A : Assembly d P) {t : Token} (run : t.kind = .chars) (next : Nat)
    {quantifier : Option Token} {p : Pattern} (hp : repeatedRun d t.text quantifier = .ok p) :
    P next ⟨p, next, []⟩ := by
  have token : ofToken d t = .ok (.literal t.text d.ignoreCase) := by simp only [ofToken, run]
  cases quantifier with
  | none =>
    cases hp
    exact A.token token next
  | some t' =>
    obtain ⟨q, bounds, rfl⟩ := ok_of_map hp
    have whole := A.repetition (A.token token next) bounds
    split
    · split
      · exact A.run t.text.dropLast _ bounds next
      · exact whole
    · exact whole

/-- A part with its quantifier. -/
theorem quantified_part (A : Assembly d P) {next : Nat} {part part' : Part} (h : P next part)
    {quantifier : Option Token}
    (hp : (repeated part.pattern quantifier).map (fun p => { part with pattern := p }) =
      .ok part') : P next part' := by
  cases quantifier with
  | none =>
    cases hp
    exact h
  | some t =>
    obtain ⟨_, hp', rfl⟩ := ok_of_map hp
    obtain ⟨q, bounds, rfl⟩ := ok_of_map hp'
    exact A.repetition h bounds

/-- What is demanded of parts is kept up along the walk. -/
theorem walk (A : Assembly d P) : Walk d (fun next _ _ part => P next part)
    (fun next _ parts after => Follow P next parts after)
    (fun next _ branches => branches ≠ [] ∧ ∀ a ∈ branches, P next a) where
  leaf {t p} token next quantifier part h := by
    simp only [quantified] at h
    by_cases run : t.kind = .chars
    · rw [if_pos run] at h
      obtain ⟨p', hp', rfl⟩ := ok_of_map h
      exact A.repeated_run run next hp'
    · rw [if_neg run] at h
      exact A.quantified_part (A.token token next) h
  group {opener _ _ _ _} inside _ _ h :=
    A.quantified_part (A.enclose (A.branches inside.1 inside.2) opener.offset) h
  nil _ := .nil
  cons := .cons
  one h _ joined := ⟨List.cons_ne_nil _ _, List.forall_mem_singleton.mpr (A.row h joined)⟩
  more h _ joined _ _ others _ :=
    ⟨List.cons_ne_nil _ _, List.forall_mem_cons.mpr ⟨A.row h joined, others.2⟩⟩

/-- **What is demanded holds of the part that is assembled for a text.** -/
theorem compile {flags : Flags} {kind : RuleKind}
    (A : Assembly (Dialect.of flags kind) P) {source : List Char} {p : Pattern}
    (h : compile source flags kind = .ok p) :
    ∃ part, P 0 part ∧ part.pattern = p := by
  obtain ⟨_, branches, _, ⟨some, each⟩, whole⟩ := A.walk.compile h
  exact ⟨_, A.branches some each, whole⟩

end Assembly

/-! ## 5. Patterns -/

/-- What is demanded of a pattern in each of the ways in which the compiler builds one. -/
structure Closed (d : Dialect) (Q : Pattern → Prop) : Prop where
  token {t : Token} {p : Pattern} (h : ofToken d t = .ok p) : Q p
  literal (chars : List Char) : Q (.literal chars d.ignoreCase)
  whitespace : Q .whitespace
  sequence {parts : List Pattern} (h : ∀ p ∈ parts, Q p) : Q (.sequence parts)
  alternation {branches : List Pattern} (h : ∀ p ∈ branches, Q p) : Q (.alternation d.mode branches)
  repetition {t : Token} {q : Quantity} (bounds : quantityOf t = .ok q) {body : Pattern}
    (h : Q body) : Q (.repetition q body)
  group (key : CaptureKey) {body : Pattern} (h : Q body) :
    Q (.group (some key) body.pluralKeys body)
  look (kind : LookKind) {body : Pattern} (h : Q body) : Q (.look kind body)

namespace Closed

variable {d : Dialect} {Q : Pattern → Prop} (C : Closed d Q)

include C

theorem interspersed {ps : List Pattern} (h : ∀ p ∈ ps, Q p) : ∀ p ∈ interspersed ps, Q p := by
  induction ps with
  | nil => exact h
  | cons p ps ih =>
    obtain ⟨first, later⟩ := List.forall_mem_cons.mp h
    cases ps with
    | nil => exact h
    | cons q ps =>
      exact List.forall_mem_cons.mpr ⟨first, List.forall_mem_cons.mpr ⟨C.whitespace, ih later⟩⟩

theorem row {ps : List Pattern} (h : ∀ p ∈ ps, Q p) : Q (row d ps) := by
  match ps with
  | [] => exact C.sequence (List.forall_mem_nil _)
  | [p] => exact h p List.mem_cons_self
  | p :: q :: ps =>
    show Q (.sequence (if d.sigspace then _ else _))
    split
    · exact C.sequence (C.interspersed h)
    · exact C.sequence h

theorem joinRow {next : Nat} {parts : List Part} (h : ∀ a ∈ parts, Q a.pattern) {part : Part}
    (joined : joinRow d next parts = .ok part) : Q part.pattern := by
  unfold Pattern.joinRow at joined
  simp only at joined
  split at joined
  · cases joined
  · cases joined
    refine C.row fun p hp => ?_
    obtain ⟨a, ha, rfl⟩ := List.mem_map.mp hp
    exact h a ha

theorem joinBranches {next : Nat} {branches : List Part} (h : ∀ a ∈ branches, Q a.pattern) :
    Q (joinBranches d next branches).pattern := by
  unfold Pattern.joinBranches
  split
  · exact h _ List.mem_cons_self
  · refine C.alternation fun p hp => ?_
    obtain ⟨a, ha, rfl⟩ := List.mem_map.mp hp
    exact h a ha

theorem enclose {kind : GroupKind} {place next : Nat} {inner : Part} (h : Q inner.pattern) :
    Q (enclose kind place next inner).pattern := by
  cases kind with
  | numbered => exact C.group _ h
  | plain => exact h
  | look test => exact C.look test h
  | named name => exact C.group _ h

/-- What is kept up by every way to build a pattern is kept up by every way to make up a part. -/
theorem assembly : Assembly d fun _ part => Q part.pattern where
  token h _ := C.token h
  repetition h _ _ bounds := C.repetition bounds h
  run front last _ _ bounds _ := C.sequence (List.forall_mem_cons.mpr ⟨C.literal front,
    List.forall_mem_singleton.mpr (C.repetition bounds (C.literal [last]))⟩)
  enclose h _ := C.enclose h
  row h _ joined := C.joinRow (h.forall_mem fun _ _ h => h) joined
  branches _ h := C.joinBranches h

end Closed

/-- **What is kept up by every way to build a pattern holds of whatever is compiled.** -/
theorem Closed.compile {flags : Flags} {kind : RuleKind} {Q : Pattern → Prop}
    (C : Closed (Dialect.of flags kind) Q) {source : List Char} {p : Pattern}
    (h : compile source flags kind = .ok p) : Q p := by
  obtain ⟨part, built, rfl⟩ := C.assembly.compile h
  exact built

end GrammarMatch.Pattern
