/-
  File:      GrammarMatch/Proofs/Relocation.lean
  Subject:   Layout between tokens means nothing.

  A tree whose tokens are moved has the same shape, and what it compiles to is the same but for the
  places of the names that it captures (`branchesOf_moved`), which no pattern holds. A gap between
  the tokens of a text moves those behind it, and no more. So a text means what it means without the
  gap, whatever the flags and the kind of the pattern are (`compile_gap`).
-/
import GrammarMatch.Proofs.Assembly
import GrammarMatch.Proofs.Gaps
import Mathlib

namespace GrammarMatch

/-! ## 1. Trees -/

namespace Syntax

variable (f : Nat → Nat)

mutual

/-- An atom whose tokens are moved. -/
def Atom.moved : Atom → Atom
  | .leaf t => .leaf (t.moved f)
  | .group opener body closer => .group (opener.moved f) body.moved (closer.moved f)

/-- Alternatives whose tokens are moved. -/
def Alternatives.moved : Alternatives → Alternatives
  | .one row => .one row.moved
  | .more row bar rest => .more row.moved (bar.moved f) rest.moved

/-- A row whose tokens are moved. -/
def Items.moved : Items → Items
  | .nil => .nil
  | .cons atom quantifier rest => .cons atom.moved (quantifier.map (Token.moved f)) rest.moved

end

mutual

theorem Atom.tokens_moved (atom : Atom) : (atom.moved f).tokens = atom.tokens.map (Token.moved f) := by
  match atom with
  | .leaf t => rfl
  | .group opener body closer =>
    rw [Atom.moved, Atom.tokens, Atom.tokens, body.tokens_moved, List.map_cons, List.map_append]
    rfl

theorem Alternatives.tokens_moved (tree : Alternatives) :
    (tree.moved f).tokens = tree.tokens.map (Token.moved f) := by
  match tree with
  | .one row => exact row.tokens_moved
  | .more row bar rest =>
    rw [Alternatives.moved, Alternatives.tokens, Alternatives.tokens, row.tokens_moved,
      rest.tokens_moved, List.map_append, List.map_cons]

theorem Items.tokens_moved (row : Items) : (row.moved f).tokens = row.tokens.map (Token.moved f) := by
  match row with
  | .nil => rfl
  | .cons atom quantifier rest =>
    have marks : (quantifier.map (Token.moved f)).toList =
        quantifier.toList.map (Token.moved f) := by
      cases quantifier <;> rfl
    rw [Items.moved, Items.tokens, Items.tokens, atom.tokens_moved, rest.tokens_moved, marks,
      List.map_append, List.map_append]

end

mutual

theorem Atom.formed_moved {atom : Atom} (h : atom.Formed) : (atom.moved f).Formed := by
  match atom with
  | .leaf t => exact h
  | .group opener body closer =>
    obtain ⟨opens, inside, closes⟩ := h
    exact ⟨opens, Alternatives.formed_moved inside, closes⟩

theorem Alternatives.formed_moved {tree : Alternatives} (h : tree.Formed) :
    (tree.moved f).Formed := by
  match tree with
  | .one row => exact Items.formed_moved h
  | .more row bar rest =>
    obtain ⟨first, bars, later⟩ := h
    exact ⟨Items.formed_moved first, bars, Alternatives.formed_moved later⟩

theorem Items.formed_moved {row : Items} (h : row.Formed) : (row.moved f).Formed := by
  match row with
  | .nil => trivial
  | .cons atom quantifier rest =>
    obtain ⟨first, repeats, later⟩ := h
    refine ⟨Atom.formed_moved first, fun t ht => ?_, Items.formed_moved later⟩
    obtain ⟨t, mark, rfl⟩ := Option.map_eq_some_iff.mp ht
    exact repeats t mark

end

end Syntax

/-! ## 2. Parts -/

open Syntax

/-- A name that is captured at another place. -/
def Named.moved (f : Nat → Nat) (n : Named) : Named := (n.1, f n.2)

/-- A part whose names are captured at other places. -/
def Part.moved (f : Nat → Nat) (part : Part) : Part := { part with names := part.names.map (Named.moved f) }

namespace Pattern

variable (f : Nat → Nat) {d : Dialect}

theorem repeatedName?_moved (seen : List String) (names : List Named) :
    repeatedName? seen (names.map (Named.moved f)) =
      (repeatedName? seen names).map (Named.moved f) := by
  induction names generalizing seen with
  | nil => rfl
  | cons n names ih =>
    rw [List.map_cons, repeatedName?, repeatedName?, ih]
    exact (apply_ite (Option.map (Named.moved f)) _ (some n) _).symm

theorem distinctNames_moved (names : List Named) :
    distinctNames (names.map (Named.moved f)) = (distinctNames names).map (Named.moved f) := by
  induction names with
  | nil => rfl
  | cons n names ih =>
    rw [List.map_cons, distinctNames, distinctNames, ih, List.filter_map, List.map_cons]
    rfl

theorem names_moved (parts : List Part) :
    (parts.map (Part.moved f)).flatMap Part.names =
      (parts.flatMap Part.names).map (Named.moved f) := by
  rw [List.flatMap_map, List.map_flatMap]
  rfl

theorem patterns_moved (parts : List Part) :
    (parts.map (Part.moved f)).map Part.pattern = parts.map Part.pattern := List.map_map

theorem joinRow_moved {next : Nat} {parts : List Part} {branch : Part}
    (h : joinRow d next parts = .ok branch) :
    joinRow d next (parts.map (Part.moved f)) = .ok (branch.moved f) := by
  unfold joinRow at h ⊢
  simp only [names_moved, patterns_moved, repeatedName?_moved] at h ⊢
  cases twice : repeatedName? [] (parts.flatMap Part.names) with
  | some n =>
    rw [twice] at h
    cases h
  | none =>
    rw [twice] at h
    cases h
    rfl

theorem joinBranches_moved (next : Nat) (parts : List Part) :
    joinBranches d next (parts.map (Part.moved f)) = (joinBranches d next parts).moved f := by
  have several (parts : List Part) :
      (⟨.alternation d.mode ((parts.map (Part.moved f)).map Part.pattern),
        ((parts.map (Part.moved f)).map Part.next).foldl Nat.max next,
        distinctNames ((parts.map (Part.moved f)).flatMap Part.names)⟩ : Part) =
      Part.moved f ⟨.alternation d.mode (parts.map Part.pattern),
        (parts.map Part.next).foldl Nat.max next, distinctNames (parts.flatMap Part.names)⟩ := by
    have nexts : (parts.map (Part.moved f)).map Part.next = parts.map Part.next := List.map_map
    rw [names_moved, patterns_moved, nexts, distinctNames_moved]
    rfl
  match parts with
  | [part] => rfl
  | [] => exact several []
  | a :: b :: rest => exact several (a :: b :: rest)

theorem enclose_moved (kind : GroupKind) (place next : Nat) (inner : Part) :
    enclose kind (f place) next (inner.moved f) = (enclose kind place next inner).moved f := by
  cases kind <;> rfl

/-- A quantifier repeats as it does elsewhere. -/
theorem repeated_moved {p p' : Pattern} {quantifier : Option Token}
    (h : repeated p quantifier = .ok p') :
    repeated p (quantifier.map (Token.moved f)) = .ok p' := by
  cases quantifier with
  | none => exact h
  | some t =>
    obtain ⟨q, bounds, rfl⟩ := ok_of_map h
    rw [Option.map_some, repeated, quantityOf_placed.anywhere bounds f]
    rfl

theorem repeatedRun_moved {run : List Char} {p : Pattern} {quantifier : Option Token}
    (h : repeatedRun d run quantifier = .ok p) :
    repeatedRun d run (quantifier.map (Token.moved f)) = .ok p := by
  cases quantifier with
  | none => exact h
  | some t =>
    obtain ⟨q, bounds, rfl⟩ := ok_of_map h
    rw [Option.map_some, repeatedRun, quantityOf_placed.anywhere bounds f]
    rfl

theorem quantified_moved {atom : Atom} {part part' : Part} {quantifier : Option Token}
    (h : quantified d atom part quantifier = .ok part') :
    quantified d (atom.moved f) (part.moved f) (quantifier.map (Token.moved f)) =
      .ok (part'.moved f) := by
  cases atom with
  | leaf t =>
    simp only [quantified, Atom.moved, Token.moved] at h ⊢
    split at h
    next run =>
      obtain ⟨p, hp, rfl⟩ := ok_of_map h
      rw [if_pos run, repeatedRun_moved f hp]
      rfl
    next other =>
      obtain ⟨p, hp, rfl⟩ := ok_of_map h
      have hp' := repeated_moved f hp
      rw [if_neg other]
      exact congrArg (Except.map _) hp'
  | group opener body closer =>
    obtain ⟨p, hp, rfl⟩ := ok_of_map h
    exact congrArg (Except.map _) (repeated_moved f hp)

/-- What is assembled for a tree is assembled for it elsewhere, but for the places of names. -/
theorem walk_moved (d : Dialect) : Walk d
    (fun next atom quantifier part =>
      (ofAtom d next (atom.moved f)).bind
        (quantified d (atom.moved f) · (quantifier.map (Token.moved f))) = .ok (part.moved f))
    (fun next row parts after => ∀ done, partsOf d next done (row.moved f) =
      .ok (done.reverse ++ parts.map (Part.moved f), after))
    (fun next tree branches =>
      branchesOf d next (tree.moved f) = .ok (branches.map (Part.moved f))) where
  leaf {t p} token next quantifier part h := by
    rw [Atom.moved, ofAtom, (ofToken_placed d).anywhere token f]
    exact quantified_moved f h
  group {opener closer body next branches} inside quantifier part h := by
    have kind : groupKindOf (opener.moved f) = groupKindOf opener := rfl
    have body : ofAtom d next ((Atom.group opener body closer).moved f) =
        .ok ((enclose (groupKindOf opener) opener.offset next
          (joinBranches d (firstInside (groupKindOf opener) next) branches)).moved f) := by
      rw [Atom.moved, ofAtom]
      simp only [kind, inside, joinBranches_moved]
      exact congrArg Except.ok (enclose_moved f _ opener.offset next _)
    rw [body]
    exact quantified_moved f h
  nil next done := by
    rw [Items.moved, partsOf, List.map_nil, List.append_nil]
  cons {_ _ _ _ _ part _} first later done := by
    have whole := later (part.moved f :: done)
    rw [List.reverse_cons, List.append_assoc] at whole
    rw [Items.moved, partsOf_cons first]
    exact whole
  one h branch joined := by
    rw [Alternatives.moved, branchesOf, h]
    simp only [List.reverse_nil, List.nil_append, joinRow_moved f joined]
    rfl
  more h branch joined rest branches others bar := by
    rw [Alternatives.moved, branchesOf, h]
    simp only [List.reverse_nil, List.nil_append, joinRow_moved f joined, others]
    rfl

/-! ## 3. Texts -/

variable {f} {w gap z : List Char} {flags : Flags} {kind : RuleKind} {p : Pattern}
  {tree : Alternatives}

/-- **Layout between tokens means nothing**: where a text is cut at an edge of a token, or at one of
    its own ends, any blanks, ends of lines and closed comments can be put there, and what the text
    compiles to is the same, whatever the flags and the kind of the pattern are. -/
theorem compile_gap (compiled : compile (w ++ z) flags kind = .ok p)
    (parsed : Alternatives.parse (w ++ z) = .ok tree) (edge : Edge 0 w z tree.tokens)
    (between : Gap gap) : compile (w ++ (gap ++ z)) flags kind = .ok p := by
  let f := pushedBack (0 + w.length) gap.length
  have derivation := parse_iff.mp parsed
  have parsed' : Alternatives.parse (w ++ (gap ++ z)) = .ok (tree.moved f) := by
    refine parse_iff.mpr ⟨Alternatives.formed_moved f derivation.formed, ?_⟩
    rw [Alternatives.tokens_moved]
    exact derivation.splits.insert between rfl edge
  obtain ⟨tree', branches, again, assembled, rfl⟩ :=
    (walk_moved f (Dialect.of flags kind)).compile compiled
  obtain rfl : tree = tree' := Except.ok.inj (parsed.symm.trans again)
  have whole : ofTree (Dialect.of flags kind) (tree.moved f) =
      .ok (joinBranches (Dialect.of flags kind) 0 branches).pattern := by
    rw [ofTree, assembled]
    show Except.ok (joinBranches _ 0 (branches.map (Part.moved f))).pattern = _
    rw [joinBranches_moved]
    rfl
  rw [compile, compileIn, parsed']
  simp only [whole]
  rfl

/-- A run with a quantifier, and a group. -/
def markedRun : Alternatives :=
  .one (.cons (.leaf ⟨.chars, ['a', 'b'], 0⟩) (some ⟨.quantifier, ['+'], 2⟩)
    (.cons (.group ⟨.opener, ['('], 4⟩ (.one (.cons (.leaf ⟨.chars, ['c'], 5⟩) none .nil))
      ⟨.closer, [')'], 6⟩) none .nil))

/-- A comment in front of the quantifier of a run, in a rule, where white space counts. -/
theorem compile_gap_markedRun :
    ∃ p, compile (['a', 'b'] ++ "+ (c)".toList) .none .rule = .ok p ∧
      Alternatives.parse (['a', 'b'] ++ "+ (c)".toList) = .ok markedRun ∧
      Edge 0 ['a', 'b'] "+ (c)".toList markedRun.tokens ∧ Gap " #x\n\t".toList ∧
      compile (['a', 'b'] ++ (" #x\n\t".toList ++ "+ (c)".toList)) .none .rule = .ok p := by
  have parsed : Alternatives.parse (['a', 'b'] ++ "+ (c)".toList) = .ok markedRun := by cbv
  have compiled : compile (['a', 'b'] ++ "+ (c)".toList) .none .rule =
      .ok (.sequence [.sequence [.literal ['a'] false,
        .repetition ⟨1, none, true⟩ (.literal ['b'] false)], .whitespace,
        .group (some (.index 0)) [] (.literal ['c'] false)]) := by cbv
  have edge : Edge 0 ['a', 'b'] "+ (c)".toList markedRun.tokens :=
    .inr (.inr ⟨⟨.quantifier, ['+'], 2⟩, by decide, .inl rfl⟩)
  have line : ∀ c ∈ ['x'], c ≠ '\n' := List.forall_mem_singleton.mpr (by decide)
  have between : Gap " #x\n\t".toList := .blank rfl (.comment line (.blank rfl .nil))
  exact ⟨_, compiled, parsed, edge, between, compile_gap compiled parsed edge between⟩

end Pattern

end GrammarMatch
