/-
  File:      GrammarMatch/Proofs/Spelling.lean
  Subject:   Trees of tokens and their characters.

  The tokens of a tree are read as the tree (`ofTokens_tokens`), and no place in a tree refuses
  what stands there (`Alternatives.admitted`). The characters of a tree follow each other token
  by token (`spelled`, `Consecutive`), where every token is one that is read as it stands
  (`Lexical`).
-/
import GrammarMatch.Syntax.Tree

namespace GrammarMatch.Syntax

/-! ## 1. Trees and tokens of the right kinds -/

/-- A token that is an atom of its own. -/
def TokenKind.isLeaf : TokenKind → Bool
  | .opener | .closer | .bar | .quantifier => false
  | _ => true

mutual

/-- Each token of an atom has the kind that its place asks for. -/
def Atom.Formed : Atom → Prop
  | .leaf t => t.kind.isLeaf = true
  | .group opener body closer => opener.kind = .opener ∧ body.Formed ∧ closer.kind = .closer

/-- Each token of alternatives has the kind that its place asks for. -/
def Alternatives.Formed : Alternatives → Prop
  | .one items => items.Formed
  | .more items bar rest => items.Formed ∧ bar.kind = .bar ∧ rest.Formed

/-- Each token of a row has the kind that its place asks for. -/
def Items.Formed : Items → Prop
  | .nil => True
  | .cons atom quantifier rest =>
    atom.Formed ∧ (∀ t ∈ quantifier, t.kind = .quantifier) ∧ rest.Formed

end

/-! ## 2. From tokens to the tree -/

/-- Tokens in front of what was read already. -/
def pushAll (ts : List Token) (p : Partial) : Option Partial := ts.reverse.foldlM Partial.push? p

theorem pushAll_append (ts us : List Token) (p : Partial) :
    pushAll (ts ++ us) p = (pushAll us p).bind (pushAll ts) := by
  unfold pushAll
  rw [List.reverse_append, List.foldlM_append]
  rfl

theorem pushAll_one (t : Token) (p : Partial) : pushAll [t] p = p.push? t := by
  unfold pushAll
  rw [List.reverse_singleton, List.foldlM_cons]
  cases p.push? t <;> rfl

theorem pushAll_cons (t : Token) (ts : List Token) (p : Partial) :
    pushAll (t :: ts) p = (pushAll ts p).bind (·.push? t) := by
  have split := pushAll_append [t] ts p
  rw [List.singleton_append] at split
  rw [split]
  congr 1
  funext q
  exact pushAll_one t q

theorem push_leaf {t : Token} (leaf : t.kind.isLeaf = true) (level : Level)
    (outer : List (Token × Level)) :
    Partial.push? ⟨level, outer⟩ t = some ⟨level.push (.leaf t), outer⟩ := by
  unfold Partial.push?
  cases h : t.kind <;> rw [h] at leaf <;> first | rfl | cases leaf

mutual

/-- An atom goes in front of its level, with the quantifier that waits. -/
theorem Atom.pushAll_tokens (atom : Atom) (formed : atom.Formed) (level : Level)
    (outer : List (Token × Level)) :
    pushAll atom.tokens ⟨level, outer⟩ = some ⟨level.push atom, outer⟩ := by
  match atom with
  | .leaf t =>
    rw [Atom.tokens, pushAll_one]
    exact push_leaf formed level outer
  | .group opener body closer =>
    obtain ⟨opens, inside, closes⟩ := formed
    obtain ⟨read, body_read, closed⟩ := body.pushAll_tokens inside ((closer, level) :: outer)
    have close : Partial.push? ⟨level, outer⟩ closer =
        some ⟨Level.empty, (closer, level) :: outer⟩ := by
      unfold Partial.push?
      rw [closes]
    have opened : Partial.push? ⟨read, (closer, level) :: outer⟩ opener =
        some ⟨level.push (.group opener body closer), outer⟩ := by
      unfold Partial.push?
      rw [opens]
      simp only [closed]
    rw [Atom.tokens, pushAll_cons, pushAll_append, pushAll_one, close, Option.bind_some, body_read,
      Option.bind_some, opened]

/-- Alternatives are what was read of their level. -/
theorem Alternatives.pushAll_tokens (alts : Alternatives) (formed : alts.Formed)
    (outer : List (Token × Level)) :
    ∃ level, pushAll alts.tokens ⟨Level.empty, outer⟩ = some ⟨level, outer⟩ ∧
      level.close? = some alts := by
  match alts with
  | .one items =>
    refine ⟨⟨none, items, none⟩, ?_, rfl⟩
    exact items.pushAll_tokens formed none outer
  | .more items bar rest =>
    obtain ⟨first, bars, later⟩ := formed
    obtain ⟨level, rest_read, closed⟩ := rest.pushAll_tokens later outer
    have barred : Partial.push? ⟨level, outer⟩ bar = some ⟨⟨none, .nil, some (bar, rest)⟩, outer⟩ := by
      unfold Partial.push?
      rw [bars]
      simp only [closed]
    refine ⟨⟨none, items, some (bar, rest)⟩, ?_, rfl⟩
    rw [Alternatives.tokens, pushAll_append, pushAll_cons, rest_read, Option.bind_some, barred]
    exact items.pushAll_tokens first (some (bar, rest)) outer

/-- A row is what was read of a level that had nothing in it. -/
theorem Items.pushAll_tokens (items : Items) (formed : items.Formed)
    (later : Option (Token × Alternatives)) (outer : List (Token × Level)) :
    pushAll items.tokens ⟨⟨none, .nil, later⟩, outer⟩ = some ⟨⟨none, items, later⟩, outer⟩ := by
  match items with
  | .nil => rfl
  | .cons atom quantifier rest =>
    obtain ⟨first, repeats, others⟩ := formed
    have waits : pushAll quantifier.toList ⟨⟨none, rest, later⟩, outer⟩ =
        some ⟨⟨quantifier, rest, later⟩, outer⟩ := by
      cases quantifier with
      | none => rfl
      | some t =>
        rw [Option.toList_some, pushAll_one]
        unfold Partial.push?
        rw [repeats t rfl]
    rw [Items.tokens, pushAll_append, pushAll_append, rest.pushAll_tokens others, Option.bind_some,
      waits, Option.bind_some, atom.pushAll_tokens first]
    rfl

end

/-- **The tokens of a tree are read as that tree.** -/
theorem ofTokens_tokens {tree : Alternatives} (formed : tree.Formed) :
    Alternatives.ofTokens? tree.tokens = some tree := by
  obtain ⟨level, read, closed⟩ := tree.pushAll_tokens formed []
  have all : tree.tokens.reverse.foldlM Partial.push? Partial.empty = some ⟨level, []⟩ := read
  unfold Alternatives.ofTokens?
  rw [all]
  exact closed

/-! ## 3. From characters to tokens -/

/-- A run of characters ends before the first one that does not belong to it. -/
theorem takeWhile_run {p : Char → Bool} {s : List Char} (h : ∀ c ∈ s, p c = true) {d : Char}
    (hd : p d = false) (rest : List Char) : (s ++ d :: rest).takeWhile p = s := by
  rw [List.takeWhile_append_of_pos h, List.takeWhile_cons_of_neg (by simp [hd]), List.append_nil]

/-- Characters that are read as one token of a kind, whatever follows them but a question mark. -/
def Lexical (kind : TokenKind) : List Char → Prop
  | [] => False
  | c :: cs => c ≠ '?' ∧ isLayout c = false ∧ c ≠ '#' ∧
    ∀ rest : List Char, rest.head? ≠ some '?' →
      tokenReach c (cs ++ rest) = some (kind, cs.length)

/-- Each token begins where the one before ends. -/
def Consecutive : Nat → List Token → Prop
  | _, [] => True
  | offset, t :: ts => t.offset = offset ∧ Consecutive (offset + t.text.length) ts

/-- The characters of tokens. -/
def spelled (ts : List Token) : List Char := ts.flatMap Token.text

/-- Every token is admitted at its place, and every group is closed once. -/
def Admitted (place : Place) (opened : Nat) : List Token → Prop
  | [] => opened = 0
  | t :: ts => place.admits t.kind = true ∧ (t.kind = .closer → opened ≠ 0) ∧
    Admitted (Place.after t.kind) (openAfter opened t.kind) ts

/-- Characters that are tokens do not begin with a question mark. -/
theorem spelled_head {ts : List Token} (lexical : ∀ t ∈ ts, Lexical t.kind t.text) :
    (spelled ts).head? ≠ some '?' := by
  cases ts with
  | nil => nofun
  | cons t ts =>
    have first := lexical t List.mem_cons_self
    cases h : t.text with
    | nil =>
      rw [h] at first
      exact first.elim
    | cons c cs =>
      rw [h] at first
      intro question
      refine first.1 (Option.some.inj ?_)
      rw [← question]
      unfold spelled
      rw [List.flatMap_cons, h]
      rfl

/-! ## 4. No place in a tree refuses what stands there -/

mutual

theorem Atom.admitted (atom : Atom) (formed : atom.Formed) (place : Place) (opened : Nat)
    {ts : List Token} (after : Admitted .element opened ts) :
    Admitted place opened (atom.tokens ++ ts) := by
  match atom with
  | .leaf t =>
    have leaf : t.kind.isLeaf = true := formed
    refine ⟨?_, ?_, ?_⟩
    · cases place <;> cases h : t.kind <;> rw [h] at leaf <;> first | rfl | cases leaf
    · intro closes
      rw [closes] at leaf
      cases leaf
    · cases h : t.kind <;> rw [h] at leaf <;> first | exact after | cases leaf
  | .group opener body closer =>
    obtain ⟨opens, inside, closes⟩ := formed
    rw [Atom.tokens, List.cons_append, List.append_assoc, List.singleton_append]
    refine ⟨?_, ?_, ?_⟩
    · rw [opens]
      cases place <;> rfl
    · rw [opens]
      nofun
    · rw [opens]
      refine body.admitted inside .fresh (opened + 1) fun place' moved => ?_
      refine ⟨?_, fun _ => Nat.succ_ne_zero opened, ?_⟩
      · rw [closes]
        cases place' with
        | start => exact absurd rfl (moved nofun)
        | fresh => rfl
        | element => rfl
      · rw [closes]
        exact after

/-- After alternatives a place is not the start, unless it was before. -/
theorem Alternatives.admitted (alts : Alternatives) (formed : alts.Formed) (place : Place)
    (opened : Nat) {ts : List Token}
    (after : ∀ place', (place ≠ .start → place' ≠ .start) → Admitted place' opened ts) :
    Admitted place opened (alts.tokens ++ ts) := by
  match alts with
  | .one items => exact items.admitted formed place opened after
  | .more items bar rest =>
    obtain ⟨first, bars, later⟩ := formed
    rw [Alternatives.tokens, List.append_assoc]
    refine items.admitted first place opened fun place' _ => ?_
    refine ⟨?_, ?_, ?_⟩
    · rw [bars]
      cases place' <;> rfl
    · rw [bars]
      nofun
    · rw [bars]
      exact rest.admitted later .fresh opened fun place'' moved => after place'' fun _ => moved nofun

theorem Items.admitted (items : Items) (formed : items.Formed) (place : Place) (opened : Nat)
    {ts : List Token}
    (after : ∀ place', (place ≠ .start → place' ≠ .start) → Admitted place' opened ts) :
    Admitted place opened (items.tokens ++ ts) := by
  match items with
  | .nil => exact after place id
  | .cons atom quantifier rest =>
    obtain ⟨first, repeats, others⟩ := formed
    rw [Items.tokens, List.append_assoc, List.append_assoc]
    refine atom.admitted first place opened ?_
    have rest_admitted (place' : Place) (moved : place' ≠ .start) :
        Admitted place' opened (rest.tokens ++ ts) :=
      rest.admitted others place' opened fun place'' onward => after place'' fun _ => onward moved
    cases quantifier with
    | none => exact rest_admitted .element nofun
    | some t =>
      refine ⟨rfl, ?_, ?_⟩
      · rw [repeats t rfl]
        nofun
      · rw [repeats t rfl]
        exact rest_admitted .fresh nofun

end

end GrammarMatch.Syntax
