/-
  File:      GrammarMatch/Proofs/Parsing.lean
  Subject:   The parser accepts exactly the grammar of patterns.

  A text splits into tokens from left to right: each token is the longest word of its kind, and
  between tokens the longest runs of blanks and the longest comments are left out (`Splits`). A
  derivation of a text is a tree of the grammar whose tokens are those of the text
  (`Derivation`). What is read is what the text splits into, as long as every token is admitted
  at its place (`readTokens_iff`), and tokens are admitted exactly if they are those of a tree
  (`admitted_iff`). So the parser finds the derivation of a text if it has one, there is no
  other, and without one it finds a fault (`parse_exact`).
-/
import GrammarMatch.Pattern.Compile
import GrammarMatch.Proofs.Lexeme
import GrammarMatch.Proofs.Spelling

namespace GrammarMatch.Syntax

open Computability

/-! ## 1. Derivations -/

/-- Blanks and the ends of lines. -/
def blanks : Language Char := charsOf isLayout * (charsOf isLayout)∗

/-- Characters that do not end a line. -/
def isInLine (c : Char) : Bool := c != '\n'

/-- A comment, without the end of its line. -/
def comment : Language Char := charOf '#' * (charsOf isInLine)∗

/-- A text from an offset on splits into tokens from left to right. -/
inductive Splits : Nat → List Char → List Token → Prop
  | done {offset : Nat} : Splits offset [] []
  | skip {offset : Nat} {layout : Language Char} {gap rest : List Char} {ts : List Token}
      (ignored : layout = blanks ∨ layout = comment) (longest : Longest layout gap rest)
      (others : Splits (offset + gap.length) rest ts) : Splits offset (gap ++ rest) ts
  | token {offset : Nat} {kind : TokenKind} {text rest : List Char} {ts : List Token}
      (longest : Longest kind.lexemes text rest)
      (others : Splits (offset + text.length) rest ts) :
      Splits offset (text ++ rest) (⟨kind, text, offset⟩ :: ts)

/-- A tree of the grammar derives a text if its tokens are those of the text. -/
structure Derivation (source : List Char) (tree : Alternatives) : Prop where
  formed : tree.Formed
  splits : Splits 0 source tree.tokens

/-! ## 2. What is left out -/

section Layout

variable {c : Char} {cs : List Char} {n : Nat}

/-- A blank is skipped. -/
theorem skipLayout_blank (h : isLayout c = true) :
    skipLayout false n (c :: cs) = skipLayout false (n + 1) cs := by
  have plain : (c == '#') = false := by
    cases hash : c == '#' with
    | false => rfl
    | true =>
      rw [beq_iff_eq.mp hash] at h
      cases h
  simp only [skipLayout, h, plain, Bool.true_or, Bool.false_eq_true, if_true, if_false]

/-- A run of blanks is skipped. -/
theorem skipLayout_blanks (n : Nat) (cs : List Char) :
    skipLayout false n cs =
      skipLayout false (n + (cs.takeWhile isLayout).length)
        (cs.drop (cs.takeWhile isLayout).length) := by
  induction cs generalizing n with
  | nil => rfl
  | cons c rest ih =>
    by_cases blank : isLayout c = true
    · rw [skipLayout_blank blank, ih (n + 1), List.takeWhile_cons_of_pos blank, List.length_cons,
        List.drop_succ_cons, Nat.add_assoc, Nat.add_comm 1]
    · rw [List.takeWhile_cons_of_neg blank]
      rfl

/-- A comment is skipped up to the end of its line. -/
theorem skipLayout_comment (n : Nat) (cs : List Char) :
    skipLayout true n cs =
      skipLayout false (n + (cs.takeWhile isInLine).length)
        (cs.drop (cs.takeWhile isInLine).length) := by
  induction cs generalizing n with
  | nil => rfl
  | cons c rest ih =>
    by_cases inside : isInLine c = true
    · have step : skipLayout true n (c :: rest) = skipLayout (isInLine c) (n + 1) rest := rfl
      rw [step, inside, ih (n + 1), List.takeWhile_cons_of_pos inside, List.length_cons,
        List.drop_succ_cons, Nat.add_assoc, Nat.add_comm 1]
    · obtain rfl : c = '\n' := by simpa [isInLine] using inside
      rfl

/-- How much layout follows a first character of layout. -/
def layoutReach (c : Char) (cs : List Char) : Option Nat :=
  if isLayout c = true then some (cs.takeWhile isLayout).length
  else if c = '#' then some (cs.takeWhile isInLine).length else none

/-- Layout is skipped. -/
theorem skipLayout_layout {k : Nat} (h : layoutReach c cs = some n) :
    skipLayout false k (c :: cs) = skipLayout false (k + (n + 1)) (cs.drop n) := by
  unfold layoutReach at h
  split at h
  next blank =>
    obtain rfl := Option.some.inj h
    have run := skipLayout_blanks k (c :: cs)
    rwa [List.takeWhile_cons_of_pos blank, List.length_cons, List.drop_succ_cons] at run
  next =>
    split at h
    next hash =>
      obtain rfl := Option.some.inj h
      subst hash
      have run := skipLayout_comment (k + 1) cs
      rwa [Nat.add_assoc, Nat.add_comm 1] at run
    next => cases h

/-- Where no layout begins, nothing is skipped. -/
theorem skipLayout_visible {k : Nat} (h : layoutReach c cs = none) :
    skipLayout false k (c :: cs) = (c :: cs, k) := by
  unfold layoutReach at h
  split at h
  next => cases h
  next visible =>
    split at h
    next => cases h
    next plain => simp [skipLayout, visible, plain]

/-- Layout begins no token. -/
theorem kindOf?_layout (h : layoutReach c cs = some n) : kindOf? c = none := by
  unfold layoutReach at h
  split at h
  next blank =>
    simp only [isLayout, Bool.or_eq_true, beq_iff_eq] at blank
    rcases blank with (((rfl | rfl) | rfl) | rfl) | rfl <;> decide
  next =>
    split at h
    next hash =>
      subst hash
      decide
    next => cases h

theorem nil_notMem_layout {layout : Language Char} (ignored : layout = blanks ∨ layout = comment) :
    [] ∉ layout := by
  rcases ignored with rfl | rfl <;> simp [blanks, comment]

/-- Layout reaches as far as the longest run of blanks or the longest comment. -/
theorem layoutReach_iff :
    layoutReach c cs = some n ↔
      ∃ layout, (layout = blanks ∨ layout = comment) ∧ Extent layout (c :: cs) (some (n + 1)) := by
  have blank_extent : Extent blanks (c :: cs) _ := extent_charsOf_mul extent_run
  have comment_extent : Extent comment (c :: cs) _ := extent_charsOf_mul extent_run
  unfold layoutReach
  constructor
  · intro h
    split at h
    next blank =>
      obtain rfl := Option.some.inj h
      rw [if_pos blank] at blank_extent
      exact ⟨blanks, Or.inl rfl, blank_extent⟩
    next =>
      split at h
      next hash =>
        obtain rfl := Option.some.inj h
        rw [if_pos (beq_iff_eq.mpr hash)] at comment_extent
        exact ⟨comment, Or.inr rfl, comment_extent⟩
      next => cases h
  · rintro ⟨layout, rfl | rfl, extent⟩
    · have same := blank_extent.unique extent
      split at same
      next blank =>
        rw [if_pos blank]
        exact congrArg some (Nat.succ.inj (Option.some.inj same))
      next => cases same
    · have same := comment_extent.unique extent
      split at same
      next hash =>
        obtain rfl : c = '#' := beq_iff_eq.mp hash
        exact congrArg some (Nat.succ.inj (Option.some.inj same))
      next => cases same

/-- What splits from a first character on begins with layout or with a token. -/
theorem splits_cons {offset : Nat} {ts : List Token} :
    Splits offset (c :: cs) ts ↔
      (∃ n, layoutReach c cs = some n ∧ Splits (offset + (n + 1)) (cs.drop n) ts) ∨
      (∃ kind n us, tokenReach c cs = some (kind, n) ∧ ts = ⟨kind, c :: cs.take n, offset⟩ :: us ∧
        Splits (offset + (c :: cs.take n).length) (cs.drop n) us) := by
  have length {n : Nat} (le : n + 1 ≤ (c :: cs).length) : (c :: cs.take n).length = n + 1 := by
    rw [List.length_cons, List.length_take_of_le (Nat.le_of_succ_le_succ le)]
  constructor
  · intro h
    generalize whole : c :: cs = text at h
    cases h with
    | done => cases whole
    | skip ignored longest others =>
      obtain ⟨n, extent, rfl, rfl⟩ := longest.cons (nil_notMem_layout ignored) whole.symm
      refine Or.inl ⟨n, layoutReach_iff.mpr ⟨_, ignored, extent⟩, ?_⟩
      rwa [length extent.1] at others
    | token longest others =>
      obtain ⟨n, extent, rfl, rfl⟩ := longest.cons (nil_notMem_lexemes _) whole.symm
      exact Or.inr ⟨_, n, _, tokenReach_iff.mpr extent, rfl, others⟩
  · have whole (n : Nat) : c :: cs = (c :: cs.take n) ++ cs.drop n := by
      rw [List.cons_append, List.take_append_drop]
    rintro (⟨n, reach, others⟩ | ⟨kind, n, us, reach, rfl, others⟩)
    · obtain ⟨layout, ignored, extent⟩ := layoutReach_iff.mp reach
      have longest := (extent_iff_longest.mp extent).2
      rw [whole n]
      refine Splits.skip ignored longest ?_
      rwa [length extent.1]
    · have longest := (extent_iff_longest.mp (tokenReach_iff.mp reach)).2
      rw [whole n]
      exact Splits.token longest others

theorem splits_nil {offset : Nat} {ts : List Token} : Splits offset [] ts ↔ ts = [] := by
  constructor
  · intro h
    generalize whole : ([] : List Char) = text at h
    cases h with
    | done => rfl
    | skip ignored longest _ =>
      obtain ⟨rfl, _⟩ := List.append_eq_nil_iff.mp whole.symm
      exact absurd longest.1 (nil_notMem_layout ignored)
    | token longest _ =>
      obtain ⟨rfl, _⟩ := List.append_eq_nil_iff.mp whole.symm
      exact absurd longest.1 (nil_notMem_lexemes _)
  · rintro rfl
    exact Splits.done

/-- A text splits as it does after the layout at its beginning. -/
theorem splits_skipLayout (offset : Nat) (cs : List Char) (ts : List Token) :
    Splits offset cs ts ↔
      Splits (skipLayout false offset cs).2 (skipLayout false offset cs).1 ts := by
  induction h : cs.length using Nat.strong_induction_on generalizing offset cs with
  | _ length ih =>
    subst h
    cases cs with
    | nil => rfl
    | cons c cs =>
      cases reach : layoutReach c cs with
      | none => rw [skipLayout_visible reach]
      | some n =>
        have shorter : (cs.drop n).length < (c :: cs).length := by
          rw [List.length_drop, List.length_cons]
          omega
        have begins : tokenReach c cs = none := by
          rw [tokenReach_eq, kindOf?_layout reach, Option.bind_none]
        rw [skipLayout_layout reach, ← ih _ shorter (offset + (n + 1)) (cs.drop n) rfl, splits_cons]
        constructor
        · rintro (⟨m, again, others⟩ | ⟨kind, m, us, token, _⟩)
          · obtain rfl := Option.some.inj (reach.symm.trans again)
            exact others
          · rw [begins] at token
            cases token
        · exact fun others => Or.inl ⟨n, reach, others⟩

/-- What is left after layout begins with none. -/
theorem layoutReach_skipLayout {inComment : Bool} {k here : Nat} {text : List Char}
    (h : skipLayout inComment k text = (c :: cs, here)) : layoutReach c cs = none := by
  induction text generalizing inComment k with
  | nil => cases h
  | cons d rest ih =>
    simp only [skipLayout] at h
    split at h
    next => exact ih h
    next =>
      split at h
      next => exact ih h
      next visible =>
        obtain ⟨rfl, rfl⟩ := List.cons.inj (Prod.mk.inj h).1
        simp only [Bool.or_eq_true, beq_iff_eq, not_or] at visible
        unfold layoutReach
        rw [if_neg visible.1, if_neg visible.2]

/-- After layout a text splits into a token and the tokens of what follows it. -/
theorem splits_visible {offset here : Nat} {text : List Char} {ts : List Token}
    (h : skipLayout false offset text = (c :: cs, here)) :
    Splits offset text ts ↔
      ∃ kind n us, tokenReach c cs = some (kind, n) ∧ ts = ⟨kind, c :: cs.take n, here⟩ :: us ∧
        Splits (here + (c :: cs.take n).length) (cs.drop n) us := by
  have visible := layoutReach_skipLayout h
  rw [splits_skipLayout, h, splits_cons]
  constructor
  · rintro (⟨n, layout, _⟩ | token)
    · rw [visible] at layout
      cases layout
    · exact token
  · exact Or.inr

end Layout

/-! ## 3. Tokens -/

/-- **Reading finds the tokens into which a text splits**, if each is admitted at its place. -/
theorem readTokens_iff (seen : List Token) (opened offset : Nat) (cs : List Char)
    (ts : List Token) :
    readTokens seen opened offset cs = .ok ts ↔
      ∃ us, ts = seen.reverse ++ us ∧ Splits offset cs us ∧
        Admitted (Place.ofRead seen) opened us := by
  fun_induction readTokens seen opened offset cs with
  | case1 seen offset cs here skipped =>
    constructor
    · intro h
      obtain rfl := Except.ok.inj h
      refine ⟨[], (List.append_nil _).symm, ?_, rfl⟩
      rw [splits_skipLayout, skipped]
      exact Splits.done
    · rintro ⟨us, rfl, splits, _⟩
      rw [splits_skipLayout, skipped, splits_nil] at splits
      rw [splits, List.append_nil]
  | case2 seen opened offset cs here skipped unclosed =>
    constructor
    · nofun
    · rintro ⟨us, rfl, splits, admitted⟩
      rw [splits_skipLayout, skipped, splits_nil] at splits
      subst splits
      exact absurd admitted unclosed
  | case3 seen opened offset cs c rest here skipped place stray =>
    constructor
    · nofun
    · rintro ⟨us, rfl, splits, _⟩
      obtain ⟨kind, n, us, token, _⟩ := (splits_visible skipped).mp splits
      rw [stray] at token
      cases token
  | case4 seen opened offset cs c rest here skipped place kind reach read token refused =>
    constructor
    · nofun
    · rintro ⟨us, rfl, splits, admitted⟩
      obtain ⟨kind', n, us, read', rfl, _⟩ := (splits_visible skipped).mp splits
      obtain ⟨rfl, rfl⟩ := Prod.mk.inj (Option.some.inj (read.symm.trans read'))
      rw [Bool.not_eq_true'] at refused
      cases refused.symm.trans admitted.1
  | case5 seen opened offset cs c rest here skipped place kind reach read token allowed closes =>
    constructor
    · nofun
    · rintro ⟨us, rfl, splits, admitted⟩
      obtain ⟨kind', n, us, read', rfl, _⟩ := (splits_visible skipped).mp splits
      obtain ⟨rfl, rfl⟩ := Prod.mk.inj (Option.some.inj (read.symm.trans read'))
      exact absurd closes.2 (admitted.2.1 closes.1)
  | case6 seen opened offset cs c rest here skipped place kind reach read token allowed closes ih =>
    rw [ih]
    have whole (us : List Token) : (token :: seen).reverse ++ us = seen.reverse ++ token :: us := by
      rw [List.reverse_cons, List.append_assoc, List.singleton_append]
    constructor
    · rintro ⟨us, rfl, splits, admitted⟩
      refine ⟨token :: us, whole us, ?_, ?_, fun closer opened => closes ⟨closer, opened⟩, admitted⟩
      · exact (splits_visible skipped).mpr ⟨kind, reach, us, read, rfl, splits⟩
      · simpa using allowed
    · rintro ⟨us, rfl, splits, admitted⟩
      obtain ⟨kind', n, us, read', rfl, others⟩ := (splits_visible skipped).mp splits
      obtain ⟨rfl, rfl⟩ := Prod.mk.inj (Option.some.inj (read.symm.trans read'))
      exact ⟨us, (whole us).symm, others, admitted.2.2⟩

/-! ## 4. Trees -/

namespace Level

/-- Each token of a level has the kind that its place asks for. -/
def Formed (l : Level) : Prop :=
  (∀ t ∈ l.quantifier, t.kind = .quantifier) ∧ l.items.Formed ∧
    ∀ after ∈ l.later, after.1.kind = .bar ∧ after.2.Formed

/-- The tokens of a level. -/
def tokens (l : Level) : List Token :=
  l.quantifier.toList ++ l.items.tokens ++
    match l.later with
    | none => []
    | some (bar, rest) => bar :: rest.tokens

end Level

namespace Partial

/-- Each token that was read has the kind that its place asks for. -/
def Formed (p : Partial) : Prop :=
  p.level.Formed ∧ ∀ around ∈ p.outer, around.1.kind = .closer ∧ around.2.Formed

/-- The tokens that were read. -/
def tokens (p : Partial) : List Token :=
  p.level.tokens ++ p.outer.flatMap fun around => around.1 :: around.2.tokens

end Partial

/-- A level at whose beginning no quantifier waits holds its alternatives. -/
theorem close?_spec {l : Level} (formed : l.Formed) (settled : l.quantifier = none) :
    ∃ alts, l.close? = some alts ∧ alts.Formed ∧ alts.tokens = l.tokens := by
  obtain ⟨quantifier, items, later⟩ := l
  obtain rfl : quantifier = none := settled
  obtain ⟨_, row, after⟩ := formed
  cases later with
  | none => exact ⟨.one items, rfl, row, by simp [Level.tokens, Alternatives.tokens]⟩
  | some later =>
    obtain ⟨bar, rest⟩ := later
    obtain ⟨bars, others⟩ := after (bar, rest) rfl
    exact ⟨.more items bar rest, rfl, ⟨row, bars, others⟩,
      by simp [Level.tokens, Alternatives.tokens]⟩

/-- An atom in front of a level. -/
theorem push_spec {l : Level} {a : Atom} (formed : l.Formed) (whole : a.Formed) :
    (l.push a).Formed ∧ (l.push a).tokens = a.tokens ++ l.tokens := by
  obtain ⟨repeats, row, after⟩ := formed
  refine ⟨⟨nofun, ⟨whole, repeats, row⟩, after⟩, ?_⟩
  simp [Level.tokens, Level.push, Items.tokens]

/-- **A token that is admitted in front of what was read is taken up.** -/
theorem push?_admitted {p : Partial} {opened : Nat} {t : Token} (formed : p.Formed)
    (settled : Place.after t.kind ≠ .element → p.level.quantifier = none)
    (depth : p.outer.length = openAfter opened t.kind)
    (closes : t.kind = .closer → opened ≠ 0) :
    ∃ q, p.push? t = some q ∧ q.Formed ∧ q.tokens = t :: p.tokens ∧ q.outer.length = opened ∧
      (t.kind ≠ .quantifier → q.level.quantifier = none) := by
  obtain ⟨level, outer⟩ := p
  obtain ⟨inner, around⟩ := formed
  by_cases leaf : t.kind.isLeaf = true
  · have same : openAfter opened t.kind = opened := by
      cases kind : t.kind <;> rw [kind] at leaf <;> first | rfl | cases leaf
    obtain ⟨pushed, tokens⟩ := push_spec inner (a := .leaf t) leaf
    refine ⟨_, push_leaf leaf level outer, ⟨pushed, around⟩, ?_, depth.trans same, fun _ => rfl⟩
    simp only [Partial.tokens, tokens, Atom.tokens, List.cons_append, List.nil_append]
  · unfold Partial.push?
    cases kind : t.kind with
    | quoted | chars | charClass | escape | dot | caret | dollar | reference =>
      rw [kind] at leaf
      exact absurd rfl leaf
    | closer =>
      rw [kind] at depth
      have positive := closes kind
      refine ⟨_, rfl, ⟨⟨nofun, trivial, nofun⟩, ?_⟩, ?_, ?_, fun _ => rfl⟩
      · exact List.forall_mem_cons.mpr ⟨⟨kind, inner⟩, around⟩
      · simp [Partial.tokens, Level.tokens, Level.empty, Items.tokens]
      · simp only [List.length_cons, depth, openAfter]
        omega
    | opener =>
      rw [kind] at depth settled
      cases outer with
      | nil => cases depth
      | cons enclosing outer =>
        obtain ⟨closer, enclosing⟩ := enclosing
        obtain ⟨⟨closing, outside⟩, around⟩ := List.forall_mem_cons.mp around
        obtain ⟨body, closed, formed, tokens⟩ := close?_spec inner (settled nofun)
        obtain ⟨pushed, front⟩ := push_spec outside (a := .group t body closer)
          ⟨kind, formed, closing⟩
        refine ⟨⟨enclosing.push (.group t body closer), outer⟩, ?_, ⟨pushed, around⟩, ?_, ?_,
          fun _ => rfl⟩
        · simp only [closed]
        · simp [Partial.tokens, front, Atom.tokens, tokens]
        · exact Nat.succ.inj depth
    | quantifier =>
      rw [kind] at depth settled
      obtain ⟨quantifier, items, later⟩ := level
      obtain rfl : quantifier = none := settled nofun
      refine ⟨_, rfl, ⟨⟨?_, inner.2⟩, around⟩, ?_, depth, nofun⟩
      · rintro _ ⟨⟩
        exact kind
      · simp [Partial.tokens, Level.tokens]
    | bar =>
      rw [kind] at depth settled
      obtain ⟨rest, closed, formed, tokens⟩ := close?_spec inner (settled nofun)
      refine ⟨⟨⟨none, .nil, some (t, rest)⟩, outer⟩, ?_, ⟨⟨nofun, trivial, ?_⟩, around⟩, ?_, depth,
        fun _ => rfl⟩
      · simp only [closed]
      · rintro _ ⟨⟩
        exact ⟨kind, formed⟩
      · simp [Partial.tokens, Level.tokens, Items.tokens, tokens]

/-- Tokens that are admitted from a place on are all taken up. -/
theorem pushAll_admitted {place : Place} {opened : Nat} {ts : List Token}
    (admitted : Admitted place opened ts) :
    ∃ p, pushAll ts Partial.empty = some p ∧ p.Formed ∧ p.tokens = ts ∧ p.outer.length = opened ∧
      (place ≠ .element → p.level.quantifier = none) := by
  induction ts generalizing place opened with
  | nil =>
    obtain rfl : opened = 0 := admitted
    exact ⟨Partial.empty, rfl, ⟨⟨nofun, trivial, nofun⟩, nofun⟩, rfl, rfl, fun _ => rfl⟩
  | cons t ts ih =>
    obtain ⟨admits, closes, others⟩ := admitted
    obtain ⟨p, read, formed, tokens, depth, settled⟩ := ih others
    obtain ⟨q, pushed, formed', tokens', depth', waits⟩ :=
      push?_admitted formed settled depth closes
    refine ⟨q, ?_, formed', by rw [tokens', tokens], depth', fun moved => waits fun repeats => ?_⟩
    · rw [pushAll_cons, read, Option.bind_some, pushed]
    · rw [repeats] at admits
      cases place with
      | element => exact moved rfl
      | start => cases admits
      | fresh => cases admits

/-- **Tokens are admitted from the start exactly if they are those of a tree.** -/
theorem admitted_iff {ts : List Token} :
    Admitted .start 0 ts ↔ ∃ tree : Alternatives, tree.Formed ∧ tree.tokens = ts := by
  constructor
  · intro admitted
    obtain ⟨⟨level, outer⟩, _, formed, tokens, depth, settled⟩ := pushAll_admitted admitted
    obtain rfl : outer = [] := List.eq_nil_of_length_eq_zero depth
    obtain ⟨tree, _, whole, same⟩ := close?_spec formed.1 (settled nofun)
    refine ⟨tree, whole, ?_⟩
    rw [same, ← tokens]
    simp [Partial.tokens]
  · rintro ⟨tree, formed, rfl⟩
    have admitted : Admitted .start 0 (tree.tokens ++ []) :=
      tree.admitted formed .start 0 fun _ _ => rfl
    rwa [List.append_nil] at admitted

/-! ## 5. The parser -/

/-- **The parser finds the derivation of a text.** -/
theorem parse_iff {source : List Char} {tree : Alternatives} :
    Alternatives.parse source = .ok tree ↔ Derivation source tree := by
  have read (ts : List Token) :
      Syntax.tokens source = .ok ts ↔ Splits 0 source ts ∧ Admitted .start 0 ts := by
    unfold Syntax.tokens
    rw [readTokens_iff]
    constructor
    · rintro ⟨us, rfl, splits, admitted⟩
      exact ⟨splits, admitted⟩
    · intro ⟨splits, admitted⟩
      exact ⟨ts, rfl, splits, admitted⟩
  unfold Alternatives.parse
  constructor
  · intro h
    cases tokens : Syntax.tokens source with
    | error f =>
      rw [tokens] at h
      cases h
    | ok ts =>
      obtain ⟨splits, admitted⟩ := (read ts).mp tokens
      obtain ⟨tree', formed, rfl⟩ := admitted_iff.mp admitted
      simp only [tokens, ofTokens_tokens formed] at h
      obtain rfl := Except.ok.inj h
      exact ⟨formed, splits⟩
  · intro ⟨formed, splits⟩
    have tokens := (read tree.tokens).mpr ⟨splits, admitted_iff.mpr ⟨tree, formed, rfl⟩⟩
    simp only [tokens, ofTokens_tokens formed]

/-- Tokens that are read as they stand are those into which their characters split. -/
theorem splits_spelled {offset : Nat} {ts : List Token}
    (lexical : ∀ t ∈ ts, Lexical t.kind t.text) (placed : Consecutive offset ts) :
    Splits offset (spelled ts) ts := by
  induction ts generalizing offset with
  | nil => exact Splits.done
  | cons t ts ih =>
    obtain ⟨here, placed⟩ := placed
    obtain ⟨first, others⟩ := List.forall_mem_cons.mp lexical
    obtain ⟨kind, text, place⟩ := t
    obtain rfl : place = offset := here
    refine Splits.token ?_ (ih others placed)
    cases text with
    | nil => exact first.elim
    | cons c cs =>
      obtain ⟨_, _, _, reads⟩ := first
      have reach := reads (spelled ts) (spelled_head others)
      exact extent_append.mp (tokenReach_iff.mp reach)

/-- **A tree is read back from its characters.** -/
theorem parse_tree {tree : Alternatives} (formed : tree.Formed)
    (lexical : ∀ t ∈ tree.tokens, Lexical t.kind t.text) (placed : Consecutive 0 tree.tokens) :
    Alternatives.parse (spelled tree.tokens) = .ok tree :=
  parse_iff.mpr ⟨formed, splits_spelled lexical placed⟩

end GrammarMatch.Syntax

namespace GrammarMatch

open Syntax

/-- **The parser accepts exactly its grammar**: for every text, the tree it finds is a derivation
    of the text and every derivation is found; there is at most one; the tree that is compiled is
    that derivation, and the text is refused for its form exactly if it has none. -/
theorem parse_exact (source : List Char) :
    (∀ tree, Alternatives.parse source = .ok tree ↔ Derivation source tree) ∧
    (∀ tree tree', Derivation source tree → Derivation source tree' → tree = tree') ∧
    (∀ d tree, Derivation source tree →
      Pattern.compileIn d source = (Pattern.ofTree d tree).mapError .meaning) ∧
    (∀ d, (∃ fault, Pattern.compileIn d source = .error (.form fault)) ↔
      ¬∃ tree, Derivation source tree) := by
  refine ⟨fun tree => parse_iff, fun tree tree' h h' => ?_, fun d tree h => ?_, fun d => ?_⟩
  · have first := parse_iff.mpr h
    exact Except.ok.inj (first.symm.trans (parse_iff.mpr h'))
  · unfold Pattern.compileIn
    rw [parse_iff.mpr h]
  · unfold Pattern.compileIn
    constructor
    · rintro ⟨fault, refused⟩ ⟨tree, h⟩
      rw [parse_iff.mpr h] at refused
      cases meaning : Pattern.ofTree d tree with
      | error f =>
        simp only [meaning] at refused
        cases refused
      | ok p =>
        simp only [meaning] at refused
        cases refused
    · intro none
      cases parsed : Alternatives.parse source with
      | error fault => exact ⟨fault, rfl⟩
      | ok tree => exact absurd ⟨tree, parse_iff.mp parsed⟩ none

end GrammarMatch
