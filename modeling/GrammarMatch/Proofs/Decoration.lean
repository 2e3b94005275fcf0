/-
  File:      GrammarMatch/Proofs/Decoration.lean
  Subject:   What the flags and the kind of a pattern add to it.

  Flags and kinds decide which text a pattern matches, but not what it is built of: they mark
  literals and classes, choose the anchors and the way alternatives compete, and put white space
  between the parts of a row. Without these decorations a pattern is what its text compiles to
  without flags, and a text that is refused is refused all the same. White space comes between the
  elements of a row of the text, and nowhere else (`Pattern.decorated_compile`).
-/
import GrammarMatch.Proofs.Assembly
import GrammarMatch.Proofs.Inside
import Mathlib

namespace GrammarMatch

open Syntax

/-! ## 1. Bare patterns -/

/-- The dialect of a pattern without flags that is no rule of a grammar. -/
def Dialect.plain : Dialect := ⟨false, false, false, .ordered⟩

/-- The anchor at the text that goes with an anchor at its lines. -/
def AnchorKind.bare : AnchorKind → AnchorKind
  | .startOfLine => .startOfString
  | .endOfLine => .endOfString
  | kind => kind

namespace Pattern

mutual

/-- A pattern without what flags and kinds add to it. -/
def bare : Pattern → Pattern
  | .literal chars _ => .literal chars false
  | .charClass items negated _ => .charClass items negated false
  | .sequence parts => .sequence (bareParts parts)
  | .alternation _ branches => .alternation .ordered (bareBranches branches)
  | .repetition q body => .repetition q (bare body)
  | .group key plural body => .group key plural (bare body)
  | .look kind body => .look kind (bare body)
  | .anchor kind => .anchor kind.bare
  | .ruleRef r => .ruleRef r
  | .whitespace => .whitespace

/-- The parts of a row without the white space between them. -/
def bareParts : List Pattern → List Pattern
  | [] => []
  | .whitespace :: rest => bareParts rest
  | p :: rest => bare p :: bareParts rest

/-- Each branch without what was added to it. -/
def bareBranches : List Pattern → List Pattern
  | [] => []
  | p :: rest => bare p :: bareBranches rest

end

theorem bareBranches_eq (ps : List Pattern) : bareBranches ps = ps.map bare := by
  induction ps with
  | nil => rfl
  | cons p ps ih => exact congrArg (bare p :: ·) ih

theorem bareParts_cons {p : Pattern} (solid : p ≠ .whitespace) (ps : List Pattern) :
    bareParts (p :: ps) = bare p :: bareParts ps := by
  cases p with
  | whitespace => exact absurd rfl solid
  | _ => rfl

theorem bareParts_eq {ps : List Pattern} (solid : ∀ p ∈ ps, p ≠ .whitespace) :
    bareParts ps = ps.map bare := by
  induction ps with
  | nil => rfl
  | cons p ps ih =>
    obtain ⟨here, later⟩ := List.forall_mem_cons.mp solid
    rw [bareParts_cons here, ih later, List.map_cons]

/-- Without the white space between them, the parts of a row are as they were. -/
theorem bareParts_interspersed {ps : List Pattern} (solid : ∀ p ∈ ps, p ≠ .whitespace) :
    bareParts (interspersed ps) = ps.map bare := by
  induction ps with
  | nil => rfl
  | cons p ps ih =>
    obtain ⟨here, later⟩ := List.forall_mem_cons.mp solid
    cases ps with
    | nil => exact bareParts_cons here []
    | cons q ps =>
      show bareParts (p :: .whitespace :: interspersed (q :: ps)) = _
      rw [bareParts_cons here, bareParts, ih later]
      rfl

theorem bare_row (d : Dialect) {ps : List Pattern} (solid : ∀ p ∈ ps, p ≠ .whitespace) :
    (row d ps).bare = row .plain (ps.map bare) := by
  match ps with
  | [] | [p] => rfl
  | p :: q :: ps =>
    show (Pattern.sequence (if d.sigspace then _ else _)).bare = _
    split
    · exact congrArg Pattern.sequence (bareParts_interspersed solid)
    · exact congrArg Pattern.sequence (bareParts_eq solid)

/-! ## 2. Keys -/

theorem add_nil_left (c : Counts) : Counts.add [] c = c := by
  show List.filter (fun _ => true) c = c
  exact List.filter_eq_self.mpr fun _ _ => rfl

mutual

/-- What was added to a pattern captures nothing. -/
theorem captureCounts_bare (p : Pattern) : p.bare.captureCounts = p.captureCounts := by
  match p with
  | .literal .. | .charClass .. | .look .. | .anchor _ | .ruleRef _ | .whitespace => rfl
  | .sequence parts => exact captureCounts_bareParts parts
  | .alternation _ branches => exact captureCounts_bareBranches branches
  | .repetition q body =>
    have inside := captureCounts_bare body
    simp only [bare, captureCounts, inside]
  | .group (some _) _ _ => rfl
  | .group none _ body => exact captureCounts_bare body

theorem captureCounts_bareParts (parts : List Pattern) :
    captureCountsOfParts (bareParts parts) = captureCountsOfParts parts := by
  match parts with
  | [] => rfl
  | p :: rest =>
    have later := captureCounts_bareParts rest
    by_cases h : p = .whitespace
    · subst h
      exact later.trans (add_nil_left _).symm
    · rw [bareParts_cons h, captureCountsOfParts, captureCountsOfParts, captureCounts_bare p, later]

theorem captureCounts_bareBranches (branches : List Pattern) :
    captureCountsOfBranches (bareBranches branches) = captureCountsOfBranches branches := by
  match branches with
  | [] => rfl
  | p :: rest =>
    rw [bareBranches, captureCountsOfBranches, captureCountsOfBranches, captureCounts_bare p,
      captureCounts_bareBranches rest]

end

theorem pluralKeys_bare (p : Pattern) : p.bare.pluralKeys = p.pluralKeys := by
  unfold pluralKeys
  rw [captureCounts_bare]

/-! ## 3. Tokens -/

variable (d : Dialect)

theorem bare_class (ignoreCase : Bool) (t : Token) :
    (classPattern ignoreCase t).map bare = classPattern false t := by
  unfold classPattern
  split
  · cases readMembers (t.offset + 2) _ <;> rfl
  · cases readMembers (t.offset + 1) _ <;> rfl

theorem bare_escape (ignoreCase : Bool) (t : Token) :
    (escapePattern ignoreCase t).map bare = escapePattern false t := by
  unfold escapePattern
  cases t.text.drop 1 with
  | nil => rfl
  | cons c body =>
    simp only
    cases control? c with
    | some e => split_ifs <;> rfl
    | none =>
      split_ifs
      all_goals first | rfl | skip
      cases propertyItem (inside body) (c == 'P') t.offset <;> rfl

theorem bare_token (t : Token) : (ofToken d t).map bare = ofToken .plain t := by
  unfold ofToken
  cases t.kind with
  | charClass => exact bare_class d.ignoreCase t
  | escape => exact bare_escape d.ignoreCase t
  | caret | dollar =>
    simp only
    split <;> rfl
  | _ => rfl

/-! ## 4. Assembly -/

/-- A part without what was added to its pattern. -/
def barePart (part : Part) : Part := { part with pattern := part.pattern.bare }

theorem solid_row {ps : List Pattern} (h : ∀ p ∈ ps, p ≠ .whitespace) : row d ps ≠ .whitespace := by
  match ps with
  | [] => exact nofun
  | [p] => exact h p List.mem_cons_self
  | _ :: _ :: _ => exact nofun

theorem solid_joinRow {next : Nat} {parts : List Part} (h : ∀ a ∈ parts, a.pattern ≠ .whitespace)
    {branch : Part} (joined : joinRow d next parts = .ok branch) :
    branch.pattern ≠ .whitespace := by
  unfold joinRow at joined
  simp only at joined
  split at joined
  · cases joined
  · cases joined
    exact solid_row d (List.forall_mem_map.mpr h)

theorem solid_joinBranches {next : Nat} {branches : List Part} (some : branches ≠ [])
    (h : ∀ a ∈ branches, a.pattern ≠ .whitespace) :
    (joinBranches d next branches).pattern ≠ .whitespace := by
  match branches, some with
  | [part], _ => exact h part List.mem_cons_self
  | _ :: _ :: _, _ => exact nofun

theorem solid_enclose {kind : GroupKind} {place next : Nat} {inner : Part}
    (h : inner.pattern ≠ .whitespace) : (enclose kind place next inner).pattern ≠ .whitespace := by
  cases kind with
  | plain => exact h
  | _ => exact nofun

theorem solid_repeated {p p' : Pattern} (h : p ≠ .whitespace) {quantifier : Option Token}
    (hp : repeated p quantifier = .ok p') : p' ≠ .whitespace := by
  cases quantifier with
  | none =>
    cases hp
    exact h
  | some t =>
    obtain ⟨q, _, rfl⟩ := ok_of_map hp
    exact nofun

/-- No part is white space of its own. -/
theorem assembly_solid : Assembly d fun _ part => part.pattern ≠ .whitespace where
  token h _ := by
    cases single_token h with
    | _ => exact nofun
  repetition _ _ _ _ := nofun
  run _ _ _ _ _ _ := nofun
  enclose h _ := solid_enclose h
  row h _ joined := solid_joinRow d (h.forall_mem fun _ _ solid => solid) joined
  branches some h := solid_joinBranches d some h

theorem solid_parts {next after : Nat} {row : Items} {parts : List Part}
    (h : partsOf d next [] row = .ok (parts, after)) : ∀ a ∈ parts, a.pattern ≠ .whitespace := by
  obtain ⟨_, rfl, follow⟩ := (assembly_solid d).walk.items row h
  exact follow.forall_mem fun _ _ solid => solid

theorem bare_repeated (p : Pattern) (quantifier : Option Token) :
    (repeated p quantifier).map bare = repeated p.bare quantifier := by
  cases quantifier with
  | none => rfl
  | some t =>
    simp only [repeated]
    cases quantityOf t <;> rfl

theorem bare_repeatedRun (run : List Char) (quantifier : Option Token) :
    (repeatedRun d run quantifier).map bare = repeatedRun .plain run quantifier := by
  cases quantifier with
  | none => rfl
  | some t =>
    simp only [repeatedRun]
    cases quantityOf t with
    | error f => rfl
    | ok q =>
      cases run.getLast? with
      | none => rfl
      | some last =>
        by_cases several : 1 < run.length
        · simp only [Except.map, if_pos several]
          rfl
        · simp only [Except.map, if_neg several]
          rfl

theorem bare_quantified (atom : Atom) (part : Part) (quantifier : Option Token) :
    (quantified d atom part quantifier).map barePart =
      quantified .plain atom (barePart part) quantifier := by
  have pattern {v w : Except Fault Pattern} (h : v.map bare = w) :
      (v.map fun p => { part with pattern := p }).map barePart =
        w.map fun p => { barePart part with pattern := p } := by
    subst h
    cases v <;> rfl
  cases atom with
  | leaf t =>
    simp only [quantified]
    split
    · exact pattern (bare_repeatedRun d t.text quantifier)
    · exact pattern (bare_repeated part.pattern quantifier)
  | group => exact pattern (bare_repeated part.pattern quantifier)

theorem bare_enclose (kind : GroupKind) (place next : Nat) (inner : Part) :
    barePart (enclose kind place next inner) = enclose kind place next (barePart inner) := by
  have keys : (barePart inner).pattern.pluralKeys = inner.pattern.pluralKeys :=
    pluralKeys_bare inner.pattern
  cases kind with
  | plain | look => rfl
  | numbered | named =>
    unfold enclose
    rw [keys]
    rfl

theorem bare_patterns (parts : List Part) :
    (parts.map barePart).map Part.pattern = (parts.map Part.pattern).map bare := by
  rw [List.map_map, List.map_map]
  rfl

theorem bare_names (parts : List Part) :
    (parts.map barePart).flatMap Part.names = parts.flatMap Part.names := by
  rw [List.flatMap_map]
  rfl

theorem bare_joinRow {parts : List Part} (solid : ∀ a ∈ parts, a.pattern ≠ .whitespace)
    (next : Nat) :
    (joinRow d next parts).map barePart = joinRow .plain next (parts.map barePart) := by
  have row := bare_row d (List.forall_mem_map.mpr solid)
  unfold joinRow
  simp only [bare_names, bare_patterns, ← row]
  split <;> rfl

theorem bare_joinBranches (parts : List Part) (next : Nat) :
    barePart (joinBranches d next parts) = joinBranches .plain next (parts.map barePart) := by
  have several (parts : List Part) :
      barePart ⟨.alternation d.mode (parts.map Part.pattern),
        (parts.map Part.next).foldl Nat.max next, distinctNames (parts.flatMap Part.names)⟩ =
      ⟨.alternation .ordered ((parts.map barePart).map Part.pattern),
        ((parts.map barePart).map Part.next).foldl Nat.max next,
        distinctNames ((parts.map barePart).flatMap Part.names)⟩ := by
    have nexts : (parts.map barePart).map Part.next = parts.map Part.next := List.map_map
    rw [bare_names, bare_patterns, nexts, ← bareBranches_eq]
    rfl
  match parts with
  | [part] => rfl
  | [] => exact several []
  | a :: b :: rest => exact several (a :: b :: rest)

mutual

theorem bare_atom (next : Nat) (atom : Atom) :
    (ofAtom d next atom).map barePart = ofAtom .plain next atom := by
  cases atom with
  | leaf t =>
    rw [ofAtom, ofAtom, ← bare_token d t]
    cases ofToken d t <;> rfl
  | group opener body closer =>
    have inside := bare_branches (firstInside (groupKindOf opener) next) body
    simp only [ofAtom, ← inside]
    cases branchesOf d (firstInside (groupKindOf opener) next) body with
    | error f => rfl
    | ok branches =>
      simp only [Except.map]
      rw [bare_enclose, bare_joinBranches]

theorem bare_branches (next : Nat) (tree : Alternatives) :
    (branchesOf d next tree).map (List.map barePart) = branchesOf .plain next tree := by
  cases tree with
  | one row =>
    have whole := bare_items next [] row
    rw [List.map_nil] at whole
    rw [branchesOf, branchesOf, ← whole]
    cases made : partsOf d next [] row with
    | error f => rfl
    | ok r =>
      obtain ⟨parts, after⟩ := r
      simp only [Except.map]
      rw [← bare_joinRow d (solid_parts d made) after]
      cases joinRow d after parts <;> rfl
  | more row bar rest =>
    have whole := bare_items next [] row
    rw [List.map_nil] at whole
    rw [branchesOf, branchesOf, ← whole]
    cases made : partsOf d next [] row with
    | error f => rfl
    | ok r =>
      obtain ⟨parts, after⟩ := r
      simp only [Except.map]
      rw [← bare_joinRow d (solid_parts d made) after, ← bare_branches next rest]
      cases joinRow d after parts with
      | error f => rfl
      | ok branch => cases branchesOf d next rest <;> rfl

/-- The parts of a row, as they would be without flags. -/
theorem bare_items (next : Nat) (done : List Part) (row : Items) :
    (partsOf d next done row).map (fun r => (r.1.map barePart, r.2)) =
      partsOf .plain next (done.map barePart) row := by
  cases row with
  | nil =>
    rw [partsOf, partsOf, ← List.map_reverse]
    rfl
  | cons first quantifier rest =>
    rw [partsOf, partsOf, ← bare_atom next first]
    cases ofAtom d next first with
    | error f => rfl
    | ok part =>
      simp only [Except.map]
      rw [← bare_quantified d first part quantifier]
      cases quantified d first part quantifier with
      | error f => rfl
      | ok part' => exact bare_items part'.next (part' :: done) rest

end

theorem bare_tree (tree : Alternatives) : (ofTree d tree).map bare = ofTree .plain tree := by
  unfold ofTree
  rw [← bare_branches d 0 tree]
  cases branchesOf d 0 tree with
  | error f => rfl
  | ok branches => exact congrArg Except.ok (congrArg Part.pattern (bare_joinBranches d branches 0))

/-- **Flags and kinds only decorate a pattern**: without what they add it is what its text compiles
    to without flags, and a text is refused for the same fault at the same place. -/
theorem bare_compile (source : List Char) (flags : Flags) (kind : RuleKind) :
    (compile source flags kind).map bare = compile source .none .regex := by
  unfold compile compileIn
  cases Alternatives.parse source with
  | error f => rfl
  | ok tree =>
    have plain := bare_tree (Dialect.of flags kind) tree
    show Except.map bare (((ofTree (Dialect.of flags kind) tree).mapError _).mapError _) =
      ((ofTree .plain tree).mapError _).mapError _
    rw [← plain]
    cases ofTree (Dialect.of flags kind) tree <;> rfl

end Pattern

/-! ## 5. Spacing -/

namespace Pattern

/-- There is no white space anywhere in a pattern. -/
inductive Spaceless : Pattern → Prop
  | intro {p : Pattern} (own : p ≠ .whitespace) (below : ∀ c ∈ p.children, Spaceless c) :
      Spaceless p

/-- Elements of a source as one pattern, with white space between neighbours or without it. -/
def spaced (sig : Bool) : List Pattern → Pattern
  | [] => .sequence []
  | [p] => p
  | ps => .sequence (if sig then ps.intersperse .whitespace else ps)

/-- Branches as one pattern. -/
def Chooses (branches : List Pattern) (p : Pattern) : Prop :=
  branches = [p] ∨ ∃ mode, 2 ≤ branches.length ∧ p = .alternation mode branches

/-- A pattern in a group of a kind. -/
inductive Encloses : GroupKind → Pattern → Pattern → Prop
  | plain {p : Pattern} : Encloses .plain p p
  | numbered {k : Int} {plural : List CaptureKey} {p : Pattern} :
      Encloses .numbered p (.group (some (.index k)) plural p)
  | named {name : String} {plural : List CaptureKey} {p : Pattern} :
      Encloses (.named name) p (.group (some (.name name)) plural p)
  | look {test : LookKind} {p : Pattern} : Encloses (.look test) p (.look test p)

/-- A pattern with its quantifier, if it has one. -/
def Quantifies : Option Token → Pattern → Pattern → Prop
  | none, p, whole => whole = p
  | some t, p, whole => ∃ q, quantityOf t = .ok q ∧ whole = .repetition q p

end Pattern

namespace Syntax

open Pattern

mutual

/-- A pattern for an element of a source with its quantifier, where a token has no white space in it
    and groups are spaced inside. -/
def Atom.Spaced (sig : Bool) : Atom → Option Token → Pattern → Prop
  | .leaf _, _, p => p.Spaceless
  | .group opener body _, quantifier, p => ∃ branches inside whole, body.Branches sig branches ∧
      Chooses branches inside ∧ Encloses (groupKindOf opener) inside whole ∧
      Quantifies quantifier whole p

/-- Patterns for the branches of a source, each of them a row of elements that is spaced. -/
def Alternatives.Branches (sig : Bool) : Alternatives → List Pattern → Prop
  | .one row, branches => ∃ elements, row.Elements sig elements ∧ branches = [spaced sig elements]
  | .more row _ rest, branches => ∃ elements others, row.Elements sig elements ∧
      rest.Branches sig others ∧ branches = spaced sig elements :: others

/-- Patterns for the elements of a row, none of them white space. -/
def Items.Elements (sig : Bool) : Items → List Pattern → Prop
  | .nil, elements => elements = []
  | .cons atom quantifier rest, elements => ∃ p others, atom.Spaced sig quantifier p ∧
      p ≠ .whitespace ∧ rest.Elements sig others ∧ elements = p :: others

end

/-- A pattern for a whole source: with white space between the elements of each row and nowhere
    else, or with none at all. -/
def Alternatives.Spaced (sig : Bool) (tree : Alternatives) (p : Pattern) : Prop :=
  ∃ branches, tree.Branches sig branches ∧ Chooses branches p

end Syntax

namespace Pattern

theorem Single.spaceless {p : Pattern} (h : p.Single) : p.Spaceless := by
  cases h with
  | noBoundary =>
    exact .intro nofun (List.forall_mem_singleton.mpr (.intro nofun (List.forall_mem_nil _)))
  | literal | charClass | anchor | ruleRef | empty => exact .intro nofun (List.forall_mem_nil _)

theorem Spaceless.repetition {p : Pattern} (h : p.Spaceless) (q : Quantity) :
    (Pattern.repetition q p).Spaceless :=
  .intro nofun (List.forall_mem_singleton.mpr h)

theorem spaceless_repeated {p p' : Pattern} (h : p.Spaceless) {quantifier : Option Token}
    (hp : repeated p quantifier = .ok p') : p'.Spaceless := by
  cases quantifier with
  | none =>
    cases hp
    exact h
  | some t =>
    obtain ⟨q, _, rfl⟩ := ok_of_map hp
    exact h.repetition q

/-- A run stays without white space where a quantifier splits it. -/
theorem spaceless_repeatedRun {d : Dialect} {run : List Char} {p : Pattern}
    {quantifier : Option Token} (hp : repeatedRun d run quantifier = .ok p) : p.Spaceless := by
  have literal (chars : List Char) : (Pattern.literal chars d.ignoreCase).Spaceless :=
    Single.literal.spaceless
  cases quantifier with
  | none =>
    cases hp
    exact literal run
  | some t =>
    obtain ⟨q, _, rfl⟩ := ok_of_map hp
    split
    · split
      · exact .intro nofun (List.forall_mem_cons.mpr
          ⟨literal _, List.forall_mem_singleton.mpr ((literal _).repetition q)⟩)
      · exact (literal run).repetition q
    · exact (literal run).repetition q

theorem interspersed_eq (ps : List Pattern) : interspersed ps = ps.intersperse .whitespace := by
  induction ps with
  | nil => rfl
  | cons p ps ih =>
    cases ps with
    | nil => rfl
    | cons q ps => exact congrArg (p :: .whitespace :: ·) ih

theorem row_eq_spaced (d : Dialect) (ps : List Pattern) : row d ps = spaced d.sigspace ps := by
  match ps with
  | [] | [_] => rfl
  | p :: q :: ps =>
    show Pattern.sequence (if d.sigspace then interspersed (p :: q :: ps) else _) = _
    rw [interspersed_eq]
    rfl

theorem spaced_joinRow {d : Dialect} {next : Nat} {parts : List Part} {branch : Part}
    (joined : joinRow d next parts = .ok branch) :
    branch.pattern = spaced d.sigspace (parts.map Part.pattern) := by
  unfold joinRow at joined
  simp only at joined
  split at joined
  · cases joined
  · cases joined
    exact row_eq_spaced d _

theorem chooses_joinBranches (d : Dialect) (next : Nat) {parts : List Part} (some : parts ≠ []) :
    Chooses (parts.map Part.pattern) (joinBranches d next parts).pattern := by
  match parts, some with
  | [part], _ => exact .inl rfl
  | _ :: _ :: _, _ => exact .inr ⟨d.mode, Nat.le_add_left 2 _, rfl⟩

theorem encloses_enclose (kind : GroupKind) (place next : Nat) (inner : Part) :
    Encloses kind inner.pattern (enclose kind place next inner).pattern := by
  cases kind with
  | numbered => exact .numbered
  | plain => exact .plain
  | look => exact .look
  | named => exact .named

theorem quantifies_repeated {p p' : Pattern} {quantifier : Option Token}
    (h : repeated p quantifier = .ok p') : Quantifies quantifier p p' := by
  cases quantifier with
  | none =>
    cases h
    rfl
  | some t =>
    obtain ⟨q, bounds, rfl⟩ := ok_of_map h
    exact ⟨q, bounds, rfl⟩

/-- The walk puts white space between the elements of each row, and nowhere else. -/
theorem walk_spaced (d : Dialect) : Walk d
    (fun _ atom quantifier part => atom.Spaced d.sigspace quantifier part.pattern ∧
      part.pattern ≠ .whitespace)
    (fun _ row parts _ => row.Elements d.sigspace (parts.map Part.pattern) ∧
      ∀ a ∈ parts, a.pattern ≠ .whitespace)
    (fun _ tree branches => tree.Branches d.sigspace (branches.map Part.pattern) ∧
      branches ≠ [] ∧ ∀ a ∈ branches, a.pattern ≠ .whitespace) where
  leaf {t p} token next quantifier part h := by
    have spaceless : part.pattern.Spaceless := by
      simp only [quantified] at h
      split at h
      · obtain ⟨p', hp', rfl⟩ := ok_of_map h
        exact spaceless_repeatedRun hp'
      · obtain ⟨p', hp', rfl⟩ := ok_of_map h
        exact spaceless_repeated (single_token token).spaceless hp'
    refine ⟨spaceless, ?_⟩
    cases spaceless with
    | intro own _ => exact own
  group {opener _ _ next branches} inside quantifier part h := by
    obtain ⟨spaced, some, solid⟩ := inside
    obtain ⟨p', hp', rfl⟩ := ok_of_map h
    refine ⟨⟨_, _, _, spaced, chooses_joinBranches d _ some, encloses_enclose _ _ _ _,
      quantifies_repeated hp'⟩, ?_⟩
    exact solid_repeated (solid_enclose (solid_joinBranches d some solid)) hp'
  nil _ := ⟨rfl, List.forall_mem_nil _⟩
  cons first later := ⟨⟨_, _, first.1, first.2, later.1, rfl⟩,
    List.forall_mem_cons.mpr ⟨first.2, later.2⟩⟩
  one h _ joined := ⟨⟨_, h.1, congrArg ([·]) (spaced_joinRow joined)⟩, List.cons_ne_nil _ _,
    List.forall_mem_singleton.mpr (solid_joinRow d h.2 joined)⟩
  more h _ joined _ _ others _ :=
    ⟨⟨_, _, h.1, others.1, congrArg (· :: _) (spaced_joinRow joined)⟩, List.cons_ne_nil _ _,
      List.forall_mem_cons.mpr ⟨solid_joinRow d h.2 joined, others.2.2⟩⟩

/-- **White space stands between the elements of each row of a source, and nowhere else**, where
    flags or kind ask for it, and nowhere at all where they do not. -/
theorem spaced_compile {source : List Char} {flags : Flags} {kind : RuleKind} {p : Pattern}
    (h : compile source flags kind = .ok p) : ∃ tree, Alternatives.parse source = .ok tree ∧
      tree.Spaced (flags.sigspace || kind.sigspace) p := by
  obtain ⟨tree, branches, parsed, ⟨spaced, some, _⟩, rfl⟩ :=
    (walk_spaced (Dialect.of flags kind)).compile h
  exact ⟨tree, parsed, _, spaced, chooses_joinBranches _ 0 some⟩

/-- **Flags and kinds only decorate a pattern.** Without its decorations a pattern is what its text
    compiles to without flags, and the text is refused for the same fault otherwise; the white space
    that is asked for stands between the elements of each row and nowhere else; and whether all
    matches are wanted changes nothing. -/
theorem decorated_compile (source : List Char) (flags : Flags) (kind : RuleKind) :
    (compile source flags kind).map bare = compile source .none .regex ∧
      (∀ p, compile source flags kind = .ok p → ∃ tree, Alternatives.parse source = .ok tree ∧
        tree.Spaced (flags.sigspace || kind.sigspace) p) ∧
      ∀ all, compile source { flags with global := all } kind = compile source flags kind :=
  ⟨bare_compile source flags kind, fun _ h => spaced_compile h, fun _ => rfl⟩

/-- Between the three elements of a rule there is white space, and none in the run `cd`. -/
example : compile "a 'b' cd*".toList .none .rule =
    .ok (.sequence [.literal ['a'] false, .whitespace, .literal ['b'] false, .whitespace,
      .sequence [.literal ['c'] false, .repetition ⟨0, none, true⟩ (.literal ['d'] false)]]) := by
  cbv

end Pattern

end GrammarMatch
