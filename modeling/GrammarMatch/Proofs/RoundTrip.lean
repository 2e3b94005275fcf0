/-
  File:      GrammarMatch/Proofs/RoundTrip.lean
  Subject:   A pattern is compiled from what is written for it.

  Whatever is writable in a dialect without white space between parts comes back from its text,
  with the numbers and the notes on plural keys that follow from the places of its groups
  (`Pattern.compile_written`); where it had these before it comes back as it was
  (`Pattern.compile_render`). The induction is on how the pattern can be written, and says of each
  part which tree of tokens its text is, wherever it stands, and which part of a pattern that tree
  means, whatever number is free before it. What is enclosed in plain brackets or stands alone is
  one atom, so that a row, a choice and a repetition only put atoms together.
-/
import GrammarMatch.Proofs.Numbering
import GrammarMatch.Proofs.Parsing
import GrammarMatch.Proofs.WrittenMarks

namespace GrammarMatch

open Syntax

/-! ## 1. Texts of several tokens -/

namespace Syntax

theorem spelled_append (ts us : List Token) : spelled (ts ++ us) = spelled ts ++ spelled us :=
  List.flatMap_append

theorem consecutive_append {offset : Nat} {ts us : List Token} (h : Consecutive offset ts)
    (h' : Consecutive (offset + (spelled ts).length) us) : Consecutive offset (ts ++ us) := by
  induction ts generalizing offset with
  | nil => exact h'
  | cons t ts ih =>
    have length : (spelled (t :: ts)).length = t.text.length + (spelled ts).length :=
      List.length_append
    rw [length, ← Nat.add_assoc] at h'
    exact ⟨h.1, ih h.2 h'⟩

/-- Characters from a place on are read as tokens. -/
structure ReadAs (offset : Nat) (cs : List Char) (ts : List Token) : Prop where
  lexical : ∀ t ∈ ts, Lexical t.kind t.text
  placed : Consecutive offset ts
  spells : spelled ts = cs

theorem ReadAs.nil (offset : Nat) : ReadAs offset [] [] := ⟨nofun, trivial, rfl⟩

theorem ReadAs.one {kind : TokenKind} {text : List Char} (h : Lexical kind text) (offset : Nat) :
    ReadAs offset text [⟨kind, text, offset⟩] :=
  ⟨List.forall_mem_singleton.mpr h, ⟨rfl, trivial⟩, List.append_nil text⟩

theorem ReadAs.append {offset : Nat} {cs cs' : List Char} {ts ts' : List Token}
    (h : ReadAs offset cs ts) (h' : ReadAs (offset + cs.length) cs' ts') :
    ReadAs offset (cs ++ cs') (ts ++ ts') where
  lexical := List.forall_mem_append.mpr ⟨h.lexical, h'.lexical⟩
  placed := consecutive_append h.placed (by rw [h.spells]; exact h'.placed)
  spells := by rw [spelled_append, h.spells, h'.spells]

end Syntax

namespace Pattern

/-! ## 2. Trees and atoms for what was written -/

section Reading

variable {full : Bool} {d : Dialect}

/-- A part is what a pattern says, where the next free number is given. -/
structure Means (next : Nat) (p : Pattern) (part : Part) : Prop where
  pattern : part.pattern = p.renumbered next
  next : part.next = p.freeAfter next
  captures : Captures p part

/-- Characters are read as a tree, and the tree means a pattern, where the next free number and the
    place of the characters are given. -/
structure TreeFor (d : Dialect) (cs : List Char) (p : Pattern) (next offset : Nat)
    (tree : Alternatives) (part : Part) : Prop where
  formed : tree.Formed
  read : ReadAs offset cs tree.tokens
  meaning : (branchesOf d next tree).map (joinBranches d next) = .ok part
  means : Means next p part

/-- Characters are read as an atom with its quantifier, and these mean a pattern. -/
structure ItemFor (d : Dialect) (cs : List Char) (p : Pattern) (next offset : Nat)
    (atom : Atom) (quantifier : Option Token) (part : Part) : Prop where
  formed : atom.Formed
  repeats : ∀ t ∈ quantifier, t.kind = .quantifier
  read : ReadAs offset cs (atom.tokens ++ quantifier.toList)
  meaning : (ofAtom d next atom).bind (quantified d atom · quantifier) = .ok part
  means : Means next p part

/-- What is written for a pattern is read as a tree that means it, whatever number is free and
    wherever it stands. -/
def Legible (full : Bool) (d : Dialect) (p : Pattern) : Prop :=
  ∀ next offset, ∃ tree part, TreeFor d (p.render full) p next offset tree part

/-- Characters are read as one item that means a pattern. -/
def IsItem (d : Dialect) (cs : List Char) (p : Pattern) : Prop :=
  ∀ next offset, ∃ atom quantifier part, ItemFor d cs p next offset atom quantifier part

/-- Characters are read as one group that means a pattern. -/
def IsGroup (d : Dialect) (cs : List Char) (p : Pattern) : Prop :=
  ∀ next offset, ∃ first tree last part,
    ItemFor d cs p next offset (.group first tree last) none part

theorem IsGroup.item {cs : List Char} {p : Pattern} (h : IsGroup d cs p) : IsItem d cs p := by
  intro next offset
  obtain ⟨first, tree, last, part, item⟩ := h next offset
  exact ⟨_, _, _, item⟩

/-- A row of one item has that item as its only part. -/
theorem partsOf_one {next : Nat} {atom : Atom} {quantifier : Option Token} {part : Part}
    (h : (ofAtom d next atom).bind (quantified d atom · quantifier) = .ok part) :
    partsOf d next [] (.cons atom quantifier .nil) = .ok ([part], part.next) := by
  rw [partsOf_cons h, partsOf]
  rfl

/-- A row that captures each name once is what its parts are. -/
theorem joinRow_once {next : Nat} {parts : List Part} (once : (capturedByAll parts).Nodup) :
    joinRow d next parts =
      .ok ⟨row d (parts.map Part.pattern), next, parts.flatMap Part.names⟩ := by
  have none_twice := repeatedName_none once fun _ _ => List.not_mem_nil
  simp only [joinRow, none_twice]

theorem joinRow_one {part : Part} (once : part.captured.Nodup) :
    joinRow d part.next [part] = .ok part := by
  have names : [part].flatMap Part.names = part.names := List.append_nil _
  rw [joinRow_once (by rw [capturedByAll, names]; exact once), names]
  rfl

/-- A single branch of one part is that part. -/
theorem branchesOf_one {next : Nat} {items : Items} {part : Part}
    (h : partsOf d next [] items = .ok ([part], part.next)) (once : part.captured.Nodup) :
    branchesOf d next (.one items) = .ok [part] := by
  rw [branchesOf]
  simp only [h, joinRow_one once]
  rfl

/-- A branch of one part comes before the other branches. -/
theorem branchesOf_more {next : Nat} {items : Items} {part : Part}
    (h : partsOf d next [] items = .ok ([part], part.next)) (once : part.captured.Nodup)
    {bar : Token} {rest : Alternatives} {parts : List Part}
    (others : branchesOf d next rest = .ok parts) :
    branchesOf d next (.more items bar rest) = .ok (part :: parts) := by
  rw [branchesOf]
  simp only [h, joinRow_one once, others]
  rfl

theorem tokens_item (atom : Atom) (quantifier : Option Token) :
    (Items.cons atom quantifier .nil).tokens = atom.tokens ++ quantifier.toList := by
  rw [Items.tokens, Items.tokens, List.append_nil]

/-- What is one item is legible. -/
theorem IsItem.legible {p : Pattern} (h : IsItem d (p.render full) p) : Legible full d p := by
  intro next offset
  obtain ⟨atom, quantifier, part, item⟩ := h next offset
  refine ⟨.one (.cons atom quantifier .nil), part, ⟨item.formed, item.repeats, trivial⟩, ?_, ?_,
    item.means⟩
  · rw [Alternatives.tokens, tokens_item]
    exact item.read
  · rw [branchesOf_one (partsOf_one item.meaning) item.means.captures.once]
    rfl

/-- A single token is an item. -/
theorem item_leaf {p : Pattern} (kind : TokenKind) {text : List Char} (leaf : kind.isLeaf = true)
    (no_run : kind ≠ .chars) (lexical : Lexical kind text)
    (meaning : ∀ offset, ofToken d ⟨kind, text, offset⟩ = .ok p)
    (numberless : ∀ next, p.renumbered next = p ∧ p.freeAfter next = next)
    (nameless : p.names = []) : IsItem d text p := by
  intro next offset
  obtain ⟨pattern, free⟩ := numberless next
  refine ⟨.leaf ⟨kind, text, offset⟩, none, ⟨p, next, []⟩, leaf, nofun, ReadAs.one lexical offset,
    ?_, pattern.symm, free.symm, List.nodup_nil, fun s => ?_⟩
  · rw [ofAtom, meaning]
    show (if kind = .chars then _ else _ : Except Fault Pattern).map _ = _
    rw [if_neg no_run]
    rfl
  · rw [nameless]
    rfl

/-- A group means a pattern if that is what its kind makes of what it encloses. -/
theorem group_enclosed {p body : Pattern} (h : Legible full d body) {kind : GroupKind}
    {opener : List Char} (lexical : Lexical .opener opener)
    (opens : ∀ offset, groupKindOf ⟨.opener, opener, offset⟩ = kind)
    (encloses : ∀ next offset inner, Means (firstInside kind next) body inner →
      Means next p (enclose kind offset next inner)) :
    IsGroup d (opener ++ (body.render full ++ [')'])) p := by
  intro next offset
  -- only plain brackets go on counting: anything else encloses a scope of its own
  obtain ⟨tree, inner, inside⟩ := h (firstInside kind next) (offset + opener.length)
  let first : Token := ⟨.opener, opener, offset⟩
  let last : Token := ⟨.closer, [')'], offset + opener.length + (body.render full).length⟩
  refine ⟨first, tree, last, enclose kind offset next inner, ⟨rfl, inside.formed, rfl⟩, nofun, ?_,
    ?_, encloses next offset inner inside.means⟩
  · rw [Option.toList_none, List.append_nil, Atom.tokens]
    exact (ReadAs.one lexical offset).append (inside.read.append (ReadAs.one lexical_closer _))
  · have meaning := inside.meaning
    rw [ofAtom, opens]
    cases branches : branchesOf d (firstInside kind next) tree with
    | error f =>
      rw [branches] at meaning
      cases meaning
    | ok branches =>
      rw [branches] at meaning
      cases meaning
      rfl

/-- **What stands in plain brackets is a group**, and means what it means without them. -/
theorem group_wrapped {p : Pattern} (h : Legible full d p) :
    IsGroup d (wrapped (p.render full)) p :=
  group_enclosed h lexical_plain groupKindOf_plain fun _ _ _ means => means

theorem group_numbered {k : Int} {plural : List CaptureKey} {body : Pattern}
    (h : Legible full d body) :
    IsGroup d ((group (some (.index k)) plural body).render full)
      (.group (some (.index k)) plural body) := by
  refine group_enclosed h (lexical_numbered k) (groupKindOf_numbered k) ?_
  intro next offset inner means
  refine ⟨?_, rfl, List.nodup_nil, fun s => Iff.rfl⟩
  have inside : inner.pattern = body.renumbered 0 := means.pattern
  rw [renumbered, ← inside]
  rfl

theorem group_named {s : String} {plural : List CaptureKey} {body : Pattern}
    (name : NameOf Unicode.isWord s) (h : Legible full d body) :
    IsGroup d ((group (some (.name s)) plural body).render full)
      (.group (some (.name s)) plural body) := by
  refine group_enclosed h (lexical_named name) (groupKindOf_named name) ?_
  intro next offset inner means
  refine ⟨?_, rfl, List.pairwise_singleton _ s, fun s => Iff.rfl⟩
  have inside : inner.pattern = body.renumbered 0 := means.pattern
  rw [renumbered, ← inside]
  rfl

theorem group_look {kind : LookKind} {body : Pattern} (h : Legible full d body) :
    IsGroup d ((look kind body).render full) (.look kind body) := by
  refine group_enclosed h (lexical_look kind) (groupKindOf_look kind) ?_
  intro next offset inner means
  refine ⟨?_, rfl, List.nodup_nil, fun s => Iff.rfl⟩
  have inside : inner.pattern = body.renumbered 0 := means.pattern
  rw [renumbered, ← inside]
  rfl

/-- What is repeated is a group, and an item together with its quantifier. -/
theorem item_repetition {q : Quantity} {body : Pattern} (bounds : q.Writable)
    (h : Legible full d body) :
    IsItem d ((repetition q body).render full) (.repetition q body) := by
  intro next offset
  obtain ⟨first, tree, last, inner, once⟩ := group_wrapped h next offset
  let mark : Token := ⟨.quantifier, q.render, offset + (wrapped (body.render full)).length⟩
  have captures : Captures (.repetition q body)
      { inner with pattern := .repetition q inner.pattern } :=
    ⟨once.means.captures.once, once.means.captures.names⟩
  refine ⟨.group first tree last, some mark, { inner with pattern := .repetition q inner.pattern },
    once.formed, ?_, ?_, ?_, ?_, once.means.next, captures⟩
  · rintro t ⟨⟩
    rfl
  · have read := once.read
    rw [Option.toList_none, List.append_nil] at read
    exact read.append (ReadAs.one (lexical_bounds q) _)
  · have meaning := once.meaning
    cases alone : ofAtom d next (.group first tree last) with
    | error f =>
      rw [alone] at meaning
      cases meaning
    | ok part =>
      rw [alone] at meaning
      cases meaning
      show ((quantityOf mark).map _).map _ = _
      rw [quantityOf_bounds bounds]
      rfl
  · rw [renumbered, ← once.means.pattern]

/-! ## 3. Rows and branches -/

/-- What is written for the parts of a row is read as a row that means them. -/
theorem row_read {ps : List Pattern} (h : ∀ p ∈ ps, Legible full d p) (next offset : Nat)
    (done : List Part) :
    ∃ items parts, items.Formed ∧ ReadAs offset (renderRow full ps) items.tokens ∧
      partsOf d next done items = .ok (done.reverse ++ parts, freeAfterRow next ps) ∧
      parts.map Part.pattern = renumberedRow next ps ∧ List.Forall₂ Captures ps parts := by
  induction ps generalizing next offset done with
  | nil =>
    refine ⟨.nil, [], trivial, ?_, ?_, rfl, .nil⟩
    · rw [Items.tokens]
      exact ReadAs.nil offset
    · rw [partsOf, List.append_nil]
      rfl
  | cons p ps ih =>
    obtain ⟨here, later⟩ := List.forall_mem_cons.mp h
    obtain ⟨first, tree, last, part, item⟩ := group_wrapped here next offset
    -- the others stand behind this part, and count on from the number that it leaves free
    obtain ⟨items, parts, formed, read, meaning, patterns, captures⟩ :=
      ih later part.next (offset + (wrapped (p.render full)).length) (part :: done)
    refine ⟨.cons (.group first tree last) none items, part :: parts,
      ⟨item.formed, item.repeats, formed⟩, ?_, ?_, ?_, .cons item.means.captures captures⟩
    · rw [Items.tokens, ← List.append_assoc]
      exact item.read.append read
    · rw [partsOf_cons item.meaning, meaning, List.reverse_cons, List.append_assoc,
        item.means.next]
      rfl
    · rw [List.map_cons, patterns, item.means.pattern, item.means.next, renumberedRow]

/-- A row of some other number of parts than one is legible if its parts are. -/
theorem legible_sequence (spaceless : d.sigspace = false) {ps : List Pattern}
    (several : ps.length ≠ 1) (h : ∀ p ∈ ps, Legible full d p)
    (apart : ps.Pairwise fun p q => ∀ s ∈ p.names, s ∉ q.names) : Legible full d (.sequence ps) := by
  intro next offset
  obtain ⟨items, parts, formed, read, meaning, patterns, captures⟩ := row_read h next offset []
  have once := nodup_capturedByAll captures apart
  have whole : row d (renumberedRow next ps) = .sequence (renumberedRow next ps) :=
    row_several spaceless (by rwa [length_renumberedRow])
  refine ⟨.one items, ⟨.sequence (renumberedRow next ps), freeAfterRow next ps,
    parts.flatMap Part.names⟩, formed, read, ?_, rfl, rfl, once, mem_capturedByAll captures⟩
  rw [branchesOf, meaning]
  show ((joinRow d _ parts).map _).map _ = _
  rw [joinRow_once once, patterns, whole]
  rfl

/-- What stands in plain brackets is read as a row of one part. -/
theorem branch_read {p : Pattern} (h : Legible full d p) (next offset : Nat) :
    ∃ items part, items.Formed ∧ ReadAs offset (wrapped (p.render full)) items.tokens ∧
      partsOf d next [] items = .ok ([part], part.next) ∧ Means next p part := by
  obtain ⟨first, tree, last, part, item⟩ := group_wrapped h next offset
  refine ⟨.cons (.group first tree last) none .nil, part, ⟨item.formed, item.repeats, trivial⟩, ?_,
    partsOf_one item.meaning, item.means⟩
  rw [tokens_item]
  exact item.read

/-- What is written for branches is read as alternatives that mean them. -/
theorem branches_read {p : Pattern} {ps : List Pattern} (h : ∀ q ∈ p :: ps, Legible full d q)
    (next offset : Nat) :
    ∃ tree parts, tree.Formed ∧ ReadAs offset (renderBranches full (p :: ps)) tree.tokens ∧
      branchesOf d next tree = .ok parts ∧ List.Forall₂ (Means next) (p :: ps) parts := by
  induction ps generalizing p offset with
  | nil =>
    obtain ⟨items, part, formed, read, meaning, means⟩ :=
      branch_read (h p List.mem_cons_self) next offset
    refine ⟨.one items, [part], formed, ?_, branchesOf_one meaning means.captures.once,
      .cons means .nil⟩
    rw [Alternatives.tokens]
    exact read
  | cons q ps ih =>
    obtain ⟨here, later⟩ := List.forall_mem_cons.mp h
    obtain ⟨items, part, formed, read, meaning, means⟩ := branch_read here next offset
    -- the other branches stand behind the bar, but count from the same number
    let place := offset + (wrapped (p.render full)).length
    obtain ⟨tree, parts, formed', read', meaning', means'⟩ := ih later (place + 1)
    refine ⟨.more items ⟨.bar, ['|'], place⟩ tree, part :: parts, ⟨formed, rfl, formed'⟩, ?_,
      branchesOf_more meaning means.captures.once meaning', .cons means means'⟩
    rw [Alternatives.tokens]
    exact read.append ((ReadAs.one lexical_bar place).append read')

theorem patterns_of_means {next : Nat} {ps : List Pattern} {parts : List Part}
    (h : List.Forall₂ (Means next) ps parts) :
    parts.map Part.pattern = renumberedBranches next ps ∧
      parts.map Part.next = ps.map (freeAfter next) := by
  induction h with
  | nil => exact ⟨rfl, rfl⟩
  | cons first _ ih =>
    rw [List.map_cons, List.map_cons, List.map_cons, first.pattern, first.next, ih.1, ih.2]
    exact ⟨rfl, rfl⟩

/-- Two branches or more are legible if each of them is. -/
theorem legible_alternation {p q : Pattern} {ps : List Pattern}
    (h : ∀ p' ∈ p :: q :: ps, Legible full d p') :
    Legible full d (.alternation d.mode (p :: q :: ps)) := by
  intro next offset
  obtain ⟨tree, parts, formed, read, meaning, means⟩ := branches_read h next offset
  obtain ⟨patterns, after⟩ := patterns_of_means means
  have captures : List.Forall₂ Captures (p :: q :: ps) parts := means.imp fun _ _ h => h.captures
  have several : parts.length ≠ 1 := by
    rw [← means.length_eq]
    exact Nat.succ_succ_ne_one _
  refine ⟨tree, joinBranches d next parts, formed, read, ?_, ?_⟩
  · rw [meaning]
    rfl
  · rw [joinBranches_several several, patterns, after, foldl_freeAfter _ (Nat.le_refl next)]
    refine ⟨rfl, Nat.max_eq_right (le_freeAfterBranches next _), nodup_distinctNames _, fun s => ?_⟩
    exact mem_distinctNames.trans (mem_capturedByAll captures s)

end Reading

/-! ## 4. Every writable pattern -/

/-- **What is written for a writable pattern is legible.** -/
theorem Writable.legible {d : Dialect} (spaceless : d.sigspace = false) (full : Bool) {p : Pattern}
    (h : p.Writable d) : Legible full d p := by
  induction h with
  | @literal chars =>
    refine (item_leaf .quoted rfl nofun (lexical_literal chars) (fun offset => ?_)
      (fun _ => ⟨rfl, rfl⟩) rfl).legible
    show Except.ok (Pattern.literal (unescape (inside (renderLiteral chars))) _) = _
    unfold renderLiteral
    rw [inside_between, unescape_quoted]
  | anyChar =>
    exact (item_leaf .dot rfl nofun lexical_dot (fun _ => rfl) (fun _ => ⟨rfl, rfl⟩) rfl).legible
  | charClass some h =>
    exact (item_leaf .charClass rfl nofun (lexical_class full some h)
      (classPattern_class full d.ignoreCase some h) (fun _ => ⟨rfl, rfl⟩) rfl).legible
  | sequence several _ apart ih => exact legible_sequence spaceless several ih apart
  | @alternation branches several _ ih =>
    match branches, several with
    | _ :: _ :: _, _ => exact legible_alternation ih
  | repetition bounds _ ih => exact (item_repetition bounds ih).legible
  | numbered _ ih => exact (group_numbered ih).item.legible
  | named name _ ih => exact (group_named name ih).item.legible
  | look _ ih => exact (group_look ih).item.legible
  | @anchor kind lines =>
    refine (item_leaf kind.tokenKind ?_ ?_ (lexical_anchor kind) (ofToken_anchor lines)
      (fun _ => ⟨rfl, rfl⟩) rfl).legible
    · cases kind <;> rfl
    · cases kind <;> nofun
  | ruleRef h =>
    refine (item_leaf .reference rfl nofun (lexical_reference h) (fun offset => ?_)
      (fun _ => ⟨rfl, rfl⟩) rfl).legible
    show Except.ok (Pattern.ruleRef (referenceOf _)) = _
    rw [referenceOf_reference h]

/-- **A writable pattern is compiled from its text**, with the numbers and the notes that follow
    from the places of its groups. -/
theorem compile_written (full : Bool) (flags : Flags) (kind : RuleKind) {p : Pattern}
    (spaceless : (Dialect.of flags kind).sigspace = false)
    (writable : p.Writable (Dialect.of flags kind)) :
    Pattern.compile (p.render full) flags kind = .ok (p.renumbered 0) := by
  obtain ⟨tree, part, written⟩ := writable.legible spaceless full 0 0
  have parsed := parse_tree written.formed written.read.lexical written.read.placed
  rw [written.read.spells] at parsed
  have meaning := written.meaning
  unfold compile compileIn ofTree
  simp only [parsed]
  cases branches : branchesOf (Dialect.of flags kind) 0 tree with
  | error f =>
    rw [branches] at meaning
    cases meaning
  | ok parts =>
    rw [branches] at meaning
    cases meaning
    rw [← written.means.pattern]
    rfl

/-- **Where its groups have the numbers of their places, a pattern comes back as the same tree**, and
    with the same notes if the right keys were noted as plural. -/
theorem compile_render (full : Bool) (flags : Flags) (kind : RuleKind) {p : Pattern}
    (spaceless : (Dialect.of flags kind).sigspace = false)
    (writable : p.Writable (Dialect.of flags kind)) (numbered : p.Numbered 0) :
    ∃ q, Pattern.compile (p.render full) flags kind = .ok q ∧ q.same p = true ∧
      (p.Marked → q = p) :=
  ⟨p.renumbered 0, compile_written full flags kind spaceless writable, same_renumbered p numbered,
    renumbered_eq p numbered⟩

/-- A quoted word and up to twelve characters that are neither digits nor white space, or else a
    line that begins with a letter, which is captured under two names. -/
def wordOrLine : Pattern :=
  .alternation .ordered
    [.sequence [.literal ['i', 't', '\'', 's'] false,
        .repetition ⟨0, some 12, false⟩
          (.charClass [.range ['0'] ['9'], .range ['-'] ['-'], .shorthand "s"] true false)],
      .group (some (.index 0)) []
        (.sequence [.anchor .startOfLine,
          .group (some (.name "first")) [] (.ruleRef ⟨"letter", some "l", true⟩)])]

theorem compile_render_wordOrLine :
    (Dialect.of { multiline := true } .regex).sigspace = false ∧
      wordOrLine.Writable (Dialect.of { multiline := true } .regex) ∧ wordOrLine.Numbered 0 ∧
      ∃ q, Pattern.compile (wordOrLine.render false) { multiline := true } .regex = .ok q ∧
        q.same wordOrLine = true ∧ (wordOrLine.Marked → q = wordOrLine) := by
  let d := Dialect.of { multiline := true } .regex
  have members : ∀ item ∈ [ClassItem.range ['0'] ['9'], .range ['-'] ['-'], .shorthand "s"],
      item.Writable := by
    refine List.forall_mem_cons.mpr ⟨.range (by decide), List.forall_mem_cons.mpr
      ⟨.range (by decide), List.forall_mem_singleton.mpr (.shorthand (by decide : isShorthand 's' = true))⟩⟩
  have bounds : Quantity.Writable ⟨0, some 12, false⟩ :=
    ⟨by decide, by decide, by decide, by decide⟩
  have letter : Reference.Writable ⟨"letter", some "l", true⟩ := by
    refine ⟨⟨'l', ['e', 't', 't', 'e', 'r'], rfl, rfl, List.all_eq_true.mp (by decide)⟩, ?_⟩
    rintro a ⟨⟩
    exact ⟨⟨'l', [], rfl, rfl, nofun⟩, rfl⟩
  have first : NameOf Unicode.isWord "first" := ⟨'f', ['i', 'r', 's', 't'], rfl, rfl,
    List.all_eq_true.mp (by decide)⟩
  have writable : wordOrLine.Writable d := by
    refine .alternation (by decide) (List.forall_mem_cons.mpr
      ⟨?_, List.forall_mem_singleton.mpr (.numbered ?_)⟩)
    · refine .sequence (by decide) (List.forall_mem_cons.mpr ⟨.literal, List.forall_mem_singleton.mpr
        (.repetition bounds (.charClass (by decide) members))⟩) (by decide)
    · refine .sequence (by decide) (List.forall_mem_cons.mpr ⟨.anchor fun _ => rfl,
        List.forall_mem_singleton.mpr (.named first (.ruleRef letter))⟩) (by decide)
  have numbered : wordOrLine.Numbered 0 :=
    ⟨⟨trivial, trivial, trivial⟩, ⟨rfl, trivial, trivial, trivial⟩, trivial⟩
  exact ⟨rfl, writable, numbered, compile_render false _ _ rfl writable numbered⟩

example : wordOrLine.render false =
    "(?:(?:'it\\'s')(?:(?:[^0-9\\-\\s])\x7b0,12\x7d?))|(?:((?:^)(?:(?<first><l=letter>))))".toList := by
  decide

end Pattern

end GrammarMatch
