/-
  File:      GrammarMatch/Proofs/Refusal.lean
  Subject:   What the compiler refuses in a text that has the form of a pattern.

  The compiler walks over a tree in the order of its tokens, whatever is nested in what. So it stops
  at the first token that means nothing by itself, unless it came to the end of a row before in which
  a name is captured twice (`branchesOf_reports`).
-/
import GrammarMatch.Proofs.Assembly
import GrammarMatch.Proofs.Meanings
import GrammarMatch.Proofs.Standing

namespace GrammarMatch

namespace Syntax

/-! ## 1. Reports -/

/-- What comes of tokens if each is looked at in turn: a result only if none of them is faulty by
    itself, and no fault but that of the first one that is, or one that concerns more than a
    token. -/
structure Reports {α : Type} (ts : List Token) (other : Fault → Prop) (v : Except Fault α) : Prop where
  sound : ∀ a, v = .ok a → ts.findSome? Token.fault? = none
  first : ∀ f, v = .error f → ts.findSome? Token.fault? = some f ∨ other f

namespace Reports

variable {α β : Type} {ts us : List Token} {other : Fault → Prop} {v : Except Fault α}

theorem of_fault (h : faultOf v = ts.findSome? Token.fault?) : Reports ts other v where
  sound a ok := by rw [← h, ok, faultOf]
  first f error := .inl (by rw [← h, error, faultOf])

theorem map (h : Reports ts other v) (g : α → β) : Reports ts other (v.map g) where
  sound b ok := by
    obtain ⟨a, ok, _⟩ := Pattern.ok_of_map ok
    exact h.sound a ok
  first f error := h.first f (faultOf_eq_some.mp (faultOf_map v g ▸ faultOf_eq_some.mpr error))

theorem bind (h : Reports ts other v) {g : α → Except Fault β}
    (next : ∀ a, v = .ok a → Reports us other (g a)) : Reports (ts ++ us) other (v.bind g) := by
  cases result : v with
  | error f =>
    refine ⟨nofun, fun _ same => ?_⟩
    cases same
    rcases h.first f result with fault | more
    · exact .inl (by rw [List.findSome?_append, fault]; rfl)
    · exact .inr more
  | ok a =>
    have clean := h.sound a result
    obtain ⟨sound, first⟩ := next a result
    refine ⟨fun b ok => ?_, fun f error => ?_⟩
    · rw [List.findSome?_append, clean, Option.none_or]
      exact sound b ok
    · rw [List.findSome?_append, clean, Option.none_or]
      exact first f error

theorem mono {other' : Fault → Prop} (h : Reports ts other v) (imp : ∀ f, other f → other' f) :
    Reports ts other' v := ⟨h.sound, fun f error => (h.first f error).imp_right (imp f)⟩

end Reports

end Syntax

namespace Pattern

open Syntax

/-! ## 2. The walk, step by step -/

section Steps

variable (d : Dialect) (next : Nat)

theorem ofAtom_group (opener closer : Token) (body : Alternatives) :
    ofAtom d next (.group opener body closer) =
      (branchesOf d (firstInside (groupKindOf opener) next) body).map fun branches =>
        enclose (groupKindOf opener) opener.offset next
          (joinBranches d (firstInside (groupKindOf opener) next) branches) := by
  rw [ofAtom]
  cases branchesOf d (firstInside (groupKindOf opener) next) body <;> rfl

theorem branchesOf_row (row : Items) :
    branchesOf d next (.one row) =
      (partsOf d next [] row).bind fun r => (joinRow d r.2 r.1).map fun branch => [branch] := by
  rw [branchesOf]
  cases partsOf d next [] row <;> rfl

theorem branchesOf_bar (row : Items) (bar : Token) (rest : Alternatives) :
    branchesOf d next (.more row bar rest) =
      (partsOf d next [] row).bind fun r => (joinRow d r.2 r.1).bind fun branch =>
        (branchesOf d next rest).map (branch :: ·) := by
  rw [branchesOf]
  cases partsOf d next [] row with
  | error f => rfl
  | ok r =>
    simp only [Except.bind]
    cases joinRow d r.2 r.1 <;> rfl

theorem partsOf_next (done : List Part) (atom : Atom) (quantifier : Option Token) (rest : Items) :
    partsOf d next done (.cons atom quantifier rest) =
      (ofAtom d next atom).bind fun part => (quantified d atom part quantifier).bind fun part =>
        partsOf d part.next (part :: done) rest := by
  rw [partsOf]
  cases ofAtom d next atom with
  | error f => rfl
  | ok part =>
    simp only [Except.bind]
    cases quantified d atom part quantifier <;> rfl

end Steps

/-- Each atom of a row that was compiled was compiled. -/
theorem compiled_element {d : Dialect} {next : Nat} {done : List Part} {row : Items} {atom : Atom}
    {r : List Part × Nat} (h : partsOf d next done row = .ok r) (element : atom ∈ row.atoms) :
    ∃ next part, ofAtom d next atom = .ok part := by
  match row with
  | .nil => cases element
  | .cons first quantifier rest =>
    rw [partsOf_next] at h
    obtain ⟨part, made, h⟩ := ok_of_bind h
    obtain ⟨_, _, h⟩ := ok_of_bind h
    rcases List.mem_cons.mp element with rfl | element
    · exact ⟨next, part, made⟩
    · exact compiled_element h element

/-- Each row of alternatives that were compiled was compiled. -/
theorem compiled_row {d : Dialect} {next : Nat} {tree : Alternatives} {branches : List Part}
    {row : Items} (h : branchesOf d next tree = .ok branches) (branch : row ∈ tree.rows) :
    ∃ r, partsOf d next [] row = .ok r := by
  match tree with
  | .one row =>
    rw [branchesOf_row] at h
    obtain ⟨r, made, _⟩ := ok_of_bind h
    exact ⟨r, List.mem_singleton.mp branch ▸ made⟩
  | .more first bar rest =>
    rw [branchesOf_bar] at h
    obtain ⟨r, made, h⟩ := ok_of_bind h
    obtain ⟨_, _, h⟩ := ok_of_bind h
    obtain ⟨_, others, _⟩ := ok_of_map h
    rcases List.mem_cons.mp branch with rfl | branch
    · exact ⟨r, made⟩
    · exact compiled_row others branch

/-- Each group that stands in alternatives that were compiled was compiled. -/
theorem compiled_stands {d : Dialect} {tree : Alternatives} {place : List Step} {atom : Atom}
    (stands : tree.Stands place atom) {next : Nat} {branches : List Part}
    (h : branchesOf d next tree = .ok branches) : ∃ next part, ofAtom d next atom = .ok part := by
  have one {tree : Alternatives} {s : Step} {atom : Atom} {next : Nat} {branches : List Part}
      (at_ : tree.atom? s = some atom) (h : branchesOf d next tree = .ok branches) :
      ∃ next part, ofAtom d next atom = .ok part := by
    obtain ⟨row, branch, element⟩ := Alternatives.atom?_iff.mp at_
    obtain ⟨r, made⟩ := compiled_row h (List.mem_of_getElem? branch)
    exact compiled_element made (List.mem_of_getElem? element)
  induction stands generalizing next branches with
  | here at_ => exact one at_ h
  | inside at_ _ _ ih =>
    obtain ⟨next, part, made⟩ := one at_ h
    rw [ofAtom_group] at made
    obtain ⟨branches, made, _⟩ := ok_of_map made
    exact ih made

/-- Each scope of alternatives that were compiled was compiled. -/
theorem compiled_scope {d : Dialect} {tree s : Alternatives} (scope : tree.Scope s) {next : Nat}
    {branches : List Part} (h : branchesOf d next tree = .ok branches) :
    ∃ next branches, branchesOf d next s = .ok branches := by
  induction scope with
  | root => exact ⟨next, branches, h⟩
  | group _ stands _ ih =>
    obtain ⟨_, _, made⟩ := ih
    obtain ⟨_, _, made⟩ := compiled_stands stands made
    rw [ofAtom_group] at made
    obtain ⟨branches, made, _⟩ := ok_of_map made
    exact ⟨_, branches, made⟩

/-! ## 3. Faults -/

/-- A row somewhere in a tree is refused because a name is captured twice in it. -/
inductive Recaptures (d : Dialect) : Alternatives → Fault → Prop
  | row {tree : Alternatives} {row : Items} (branch : row ∈ tree.rows) {next after : Nat}
      {parts : List Part} (made : partsOf d next [] row = .ok (parts, after)) {f : Fault}
      (twice : joinRow d after parts = .error f) : Recaptures d tree f
  | inside {tree body : Alternatives} {row : Items} {opener closer : Token} {f : Fault}
      (branch : row ∈ tree.rows) (element : Atom.group opener body closer ∈ row.atoms)
      (deeper : Recaptures d body f) : Recaptures d tree f

/-- In an atom. -/
def RecapturesAtom (d : Dialect) : Atom → Fault → Prop
  | .leaf _, _ => False
  | .group _ body _, f => Recaptures d body f

/-- In an atom of a row. -/
def RecapturesBelow (d : Dialect) (row : Items) (f : Fault) : Prop := ∃ atom ∈ row.atoms, RecapturesAtom d atom f

theorem RecapturesBelow.recaptures {d : Dialect} {tree : Alternatives} {row : Items} {f : Fault}
    (branch : row ∈ tree.rows) (h : RecapturesBelow d row f) : Recaptures d tree f := by
  obtain ⟨atom, element, deeper⟩ := h
  cases atom with
  | leaf t => exact deeper.elim
  | group opener body closer => exact .inside branch element deeper

/-- In the alternatives behind a bar. -/
theorem Recaptures.more {d : Dialect} (row : Items) (bar : Token) {rest : Alternatives} {f : Fault}
    (h : Recaptures d rest f) : Recaptures d (.more row bar rest) f := by
  cases h with
  | row branch made twice => exact .row (List.mem_cons_of_mem _ branch) made twice
  | inside branch element deeper => exact .inside (List.mem_cons_of_mem _ branch) element deeper

theorem joinRow_error {d : Dialect} {next : Nat} {parts : List Part} {f : Fault}
    (h : joinRow d next parts = .error f) :
    ∃ n, repeatedName? [] (parts.flatMap Part.names) = some n ∧ f = ⟨.repeatedName n.1, n.2, []⟩ := by
  unfold joinRow at h
  simp only at h
  split at h
  next name place twice =>
    cases h
    exact ⟨(name, place), twice, rfl⟩
  next => cases h

theorem Recaptures.complaint {d : Dialect} {tree : Alternatives} {f : Fault} (h : Recaptures d tree f) :
    ∃ name, f.complaint = .repeatedName name := by
  induction h with
  | row _ _ twice =>
    obtain ⟨n, _, rfl⟩ := joinRow_error twice
    exact ⟨n.1, rfl⟩
  | inside _ _ _ ih => exact ih

section Reporting

variable (d : Dialect) {next after : Nat} {other : Fault → Prop}

theorem ofToken_reports {t : Token} (leaf : t.kind.isLeaf = true) :
    Reports [t] other (ofToken d t) :=
  .of_fault ((ofToken_fault d leaf).trans (by rw [List.findSome?_singleton]))

theorem quantityOf_reports {t : Token} (mark : t.kind = .quantifier) :
    Reports [t] other (quantityOf t) :=
  .of_fault ((quantityOf_fault mark).trans (by rw [List.findSome?_singleton]))

theorem silent_reports {α : Type} (a : α) : Reports [] other (.ok a : Except Fault α) :=
  ⟨fun _ _ => rfl, nofun⟩

/-- Of a quantifier only its bounds can be at fault. -/
theorem quantified_reports (atom : Atom) (part : Part) {quantifier : Option Token}
    (marks : ∀ t ∈ quantifier, t.kind = .quantifier) :
    Reports quantifier.toList other (quantified d atom part quantifier) := by
  have one (p : Pattern) : Reports quantifier.toList other (repeated p quantifier) := by
    cases quantifier with
    | none => exact silent_reports p
    | some t => exact (quantityOf_reports (marks t rfl)).map _
  have run (chars : List Char) : Reports quantifier.toList other (repeatedRun d chars quantifier) := by
    cases quantifier with
    | none => exact silent_reports _
    | some t => exact (quantityOf_reports (marks t rfl)).map _
  cases atom with
  | leaf t =>
    simp only [quantified]
    split
    · exact (run t.text).map _
    · exact (one part.pattern).map _
  | group opener body closer => exact (one part.pattern).map _

/-- A row that was assembled can be refused for its names only. -/
theorem joinRow_reports {tree : Alternatives} {row : Items} {parts : List Part}
    (branch : row ∈ tree.rows) (made : partsOf d next [] row = .ok (parts, after)) :
    Reports [] (Recaptures d tree) (joinRow d after parts) :=
  ⟨fun _ _ => rfl, fun _ twice => .inr (.row branch made twice)⟩

mutual

theorem ofAtom_reports (next : Nat) {atom : Atom} (formed : atom.Formed) :
    Reports atom.tokens (RecapturesAtom d atom) (ofAtom d next atom) := by
  match atom with
  | .leaf t =>
    rw [ofAtom]
    exact (ofToken_reports d formed).map _
  | .group opener body closer =>
    obtain ⟨opens, inside, closes⟩ := formed
    have quiet {t : Token} (silent : t.fault? = none) (ts : List Token) :
        (t :: ts).findSome? Token.fault? = ts.findSome? Token.fault? := by
      rw [List.findSome?_cons, silent]
    have bare : (Atom.group opener body closer).tokens.findSome? Token.fault? =
        body.tokens.findSome? Token.fault? := by
      rw [Atom.tokens, quiet (by rw [Token.fault?, opens]), List.findSome?_append,
        quiet (by rw [Token.fault?, closes]), List.findSome?_nil, Option.or_none]
    obtain ⟨sound, first⟩ := (branchesOf_reports (firstInside (groupKindOf opener) next) inside).map
      fun branches => enclose (groupKindOf opener) opener.offset next
        (joinBranches d (firstInside (groupKindOf opener) next) branches)
    rw [ofAtom_group]
    exact ⟨bare ▸ sound, bare ▸ first⟩

/-- **A tree is refused for its first token that means nothing by itself**, unless a name is captured
    twice in a row. -/
theorem branchesOf_reports (next : Nat) {tree : Alternatives} (formed : tree.Formed) :
    Reports tree.tokens (Recaptures d tree) (branchesOf d next tree) := by
  match tree with
  | .one row =>
    have here : row ∈ (Alternatives.one row).rows := List.mem_singleton_self row
    have parts := (partsOf_reports next [] formed).mono fun _ => RecapturesBelow.recaptures here
    rw [branchesOf_row, Alternatives.tokens, ← List.append_nil row.tokens]
    exact parts.bind fun r made => (joinRow_reports d here made).map _
  | .more row bar rest =>
    obtain ⟨first, bars, later⟩ := formed
    have here : row ∈ (Alternatives.more row bar rest).rows := List.mem_cons_self
    have parts := (partsOf_reports next [] first).mono fun _ => RecapturesBelow.recaptures here
    have others := (branchesOf_reports next later).mono fun _ => Recaptures.more row bar
    have barred : (bar :: rest.tokens).findSome? Token.fault? =
        rest.tokens.findSome? Token.fault? := by
      rw [List.findSome?_cons, Token.fault?, bars]
    have behind : Reports (bar :: rest.tokens) (Recaptures d (.more row bar rest))
        (branchesOf d next rest) := ⟨barred ▸ others.sound, barred ▸ others.first⟩
    rw [branchesOf_bar, Alternatives.tokens]
    exact parts.bind fun r made => (joinRow_reports d here made).bind fun branch _ => behind.map _

theorem partsOf_reports (next : Nat) (done : List Part) {row : Items} (formed : row.Formed) :
    Reports row.tokens (RecapturesBelow d row) (partsOf d next done row) := by
  match row with
  | .nil =>
    rw [partsOf]
    exact silent_reports _
  | .cons atom quantifier rest =>
    obtain ⟨first, marks, later⟩ := formed
    have own := (ofAtom_reports next first).mono fun f deeper =>
      (⟨atom, List.mem_cons_self, deeper⟩ : RecapturesBelow d (.cons atom quantifier rest) f)
    rw [partsOf_next, Items.tokens]
    refine own.bind fun part _ => (quantified_reports d atom part marks).bind fun part' _ => ?_
    exact (partsOf_reports part'.next (part' :: done) later).mono fun f ⟨inner, mem, deeper⟩ =>
      ⟨inner, List.mem_cons_of_mem _ mem, deeper⟩

end

end Reporting

/-- A text that has the form of a pattern is refused for what its tree means. -/
theorem compileIn_refused {d : Dialect} {source : List Char} {tree : Alternatives}
    (parsed : Alternatives.parse source = .ok tree) {f : Fault} (failed : branchesOf d 0 tree = .error f) :
    compileIn d source = .error (.meaning f) := by
  rw [compileIn, parsed]
  simp only [ofTree, failed]
  rfl

theorem refused_iff {source : List Char} {flags : Flags} {kind : RuleKind} {tree : Alternatives}
    (parsed : Alternatives.parse source = .ok tree) {e : SyntaxError} :
    compile source flags kind = .error e ↔
      ∃ f, branchesOf (Dialect.of flags kind) 0 tree = .error f ∧ e = f.inSource source.toArray := by
  constructor
  · intro refused
    cases failed : branchesOf (Dialect.of flags kind) 0 tree with
    | error f =>
      rw [compile, compileIn_refused parsed failed] at refused
      cases refused
      exact ⟨f, rfl, rfl⟩
    | ok branches =>
      rw [compile, compileIn, parsed] at refused
      simp only [ofTree, failed] at refused
      cases refused
  · rintro ⟨f, failed, rfl⟩
    rw [compile, compileIn_refused parsed failed]
    rfl

end Pattern

end GrammarMatch
