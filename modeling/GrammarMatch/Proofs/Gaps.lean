/-
  File:      GrammarMatch/Proofs/Gaps.lean
  Subject:   What stands between tokens.

  Blanks and comments that are closed make up gaps (`Gap`). A gap says nothing, wherever a text is
  cut between its tokens: the text splits into the same tokens when a gap is put there, but for
  their places (`Splits.insert`). What splits into some tokens also does so in front of the end of
  a line, whatever comes after it (`splits_newline`).
-/
import GrammarMatch.Proofs.Endings
import GrammarMatch.Proofs.Meanings
import GrammarMatch.Proofs.Parsing

namespace GrammarMatch.Syntax

open Computability

/-! ## 1. Gaps -/

/-- Blanks, ends of lines and comments up to the ends of their lines, in any order. -/
inductive Gap : List Char → Prop
  | nil : Gap []
  | blank {c : Char} {rest : List Char} (h : isLayout c = true) (more : Gap rest) : Gap (c :: rest)
  | comment {body rest : List Char} (h : ∀ c ∈ body, c ≠ '\n') (more : Gap rest) :
      Gap ('#' :: (body ++ '\n' :: rest))

/-- No token begins with the first character of a gap. -/
theorem Gap.head {gap : List Char} (h : Gap gap) : ∀ c ∈ gap.head?, isVisible c = false := by
  cases h with
  | nil => nofun
  | blank blank _ =>
    rintro _ ⟨⟩
    simp [isVisible, blank]
  | comment =>
    rintro _ ⟨⟩
    rfl

theorem gap_newline : Gap ['\n'] := .blank rfl .nil

section Skipping

variable {gap body rest : List Char} {n : Nat}

/-- Inside a comment everything is skipped that does not end the line. -/
theorem skipLayout_body (h : ∀ c ∈ body, c ≠ '\n') (rest : List Char) :
    skipLayout true n (body ++ rest) = skipLayout true (n + body.length) rest := by
  induction body generalizing n with
  | nil => rfl
  | cons c body ih =>
    obtain ⟨here, later⟩ := List.forall_mem_cons.mp h
    have inside : (c != '\n') = true := bne_iff_ne.mpr here
    rw [List.cons_append, skipLayout, if_pos rfl, inside, ih later, List.length_cons,
      Nat.add_assoc, Nat.add_comm 1]

/-- At the end of a line, or of the text, it does not matter whether a comment was open. -/
theorem skipLayout_closed (h : ∀ c ∈ rest.head?, c = '\n') :
    skipLayout true n rest = skipLayout false n rest := by
  cases rest with
  | nil => rfl
  | cons c rest =>
    obtain rfl := h c rfl
    rfl

/-- A gap is skipped. -/
theorem skipLayout_gap (h : Gap gap) (n : Nat) (rest : List Char) :
    skipLayout false n (gap ++ rest) = skipLayout false (n + gap.length) rest := by
  induction h generalizing n with
  | nil => rfl
  | @blank c _ blank _ ih =>
    rw [List.cons_append, skipLayout_blank blank, ih, List.length_cons, Nat.add_assoc,
      Nat.add_comm 1]
  | @comment body more inside _ ih =>
    have whole : '#' :: (body ++ '\n' :: more) ++ rest = '#' :: (body ++ '\n' :: (more ++ rest)) := by
      simp
    have length : n + ('#' :: (body ++ '\n' :: more)).length = n + 1 + body.length + 1 + more.length := by
      simp only [List.length_cons, List.length_append]
      omega
    calc skipLayout false n ('#' :: (body ++ '\n' :: more) ++ rest)
        = skipLayout true (n + 1) (body ++ '\n' :: (more ++ rest)) := by rw [whole]; rfl
      _ = skipLayout true (n + 1 + body.length) ('\n' :: (more ++ rest)) := skipLayout_body inside _
      _ = skipLayout false (n + 1 + body.length + 1) (more ++ rest) := rfl
      _ = _ := by rw [ih, length]

/-- In an open comment a gap is skipped as well, if the line or the text ends after it. -/
theorem skipLayout_gap_open (h : Gap gap) (n : Nat) (last : ∀ c ∈ rest.head?, c = '\n') :
    skipLayout true n (gap ++ rest) = skipLayout false (n + gap.length) rest := by
  induction h generalizing n with
  | nil => exact skipLayout_closed last
  | @blank c more blank closed ih =>
    by_cases ends : c = '\n'
    · subst ends
      exact skipLayout_gap (.blank blank closed) n rest
    · have inside : (c != '\n') = true := bne_iff_ne.mpr ends
      rw [List.cons_append, skipLayout, if_pos rfl, inside, ih, List.length_cons, Nat.add_assoc,
        Nat.add_comm 1]
  | @comment body more inside closed _ =>
    -- the mark of the comment is a character like any other there
    have line : ∀ c ∈ '#' :: body, c ≠ '\n' := List.forall_mem_cons.mpr ⟨by decide, inside⟩
    have whole : '#' :: (body ++ '\n' :: more) ++ rest = ('#' :: body) ++ ('\n' :: more ++ rest) := by
      simp
    have length : n + ('#' :: (body ++ '\n' :: more)).length =
        n + ('#' :: body).length + ('\n' :: more).length := by
      simp only [List.length_cons, List.length_append]
      omega
    calc skipLayout true n ('#' :: (body ++ '\n' :: more) ++ rest)
        = skipLayout true (n + ('#' :: body).length) ('\n' :: more ++ rest) := by
          rw [whole, skipLayout_body line]
      _ = skipLayout false (n + ('#' :: body).length) ('\n' :: more ++ rest) :=
          skipLayout_closed (by rintro _ ⟨⟩; rfl)
      _ = _ := by rw [skipLayout_gap (.blank rfl closed), length]

end Skipping

/-! ## 2. Splitting -/

section Splitting

variable {offset : Nat} {gap w z text rest source : List Char} {kind : TokenKind} {ts us : List Token}

/-- A text splits as it does after a gap at its beginning. -/
theorem splits_gap (h : Gap gap) :
    Splits offset (gap ++ rest) ts ↔ Splits (offset + gap.length) rest ts := by
  rw [splits_skipLayout, skipLayout_gap h, ← splits_skipLayout]

/-- Blanks are a gap. -/
theorem gap_of_blanks (h : gap ∈ blanks) : Gap gap := by
  have each : ∀ c ∈ gap, isLayout c = true :=
    Over.mul (over_charsOf fun _ h => h) (over_charsOf fun _ h => h).kstar gap h
  clear h
  induction gap with
  | nil => exact .nil
  | cons c gap ih =>
    obtain ⟨blank, others⟩ := List.forall_mem_cons.mp each
    exact .blank blank (ih others)

/-- The longest comment ends with its line. -/
theorem longest_comment (h : Longest comment gap rest) : ∀ c ∈ rest.head?, c = '\n' := by
  intro c hc
  by_contra other
  obtain ⟨more, rfl⟩ := List.head?_eq_some_iff.mp hc
  have longer : gap ++ [c] ∈ comment := by
    obtain ⟨mark, hmark, body, hbody, rfl⟩ := Language.mem_mul.mp h.1
    have one : [c] ∈ charsOf isInLine := ⟨c, bne_iff_ne.mpr other, rfl⟩
    have more : (charsOf isInLine)∗ * charsOf isInLine ≤ (charsOf isInLine)∗ := kstar_mul_le_kstar
    rw [List.append_assoc]
    exact Language.append_mem_mul hmark (more (Language.append_mem_mul hbody one))
  have begins : gap ++ [c] <+: gap ++ c :: more := ⟨more, by rw [List.append_assoc]; rfl⟩
  have short := h.2 _ longer begins
  rw [List.length_append, List.length_singleton] at short
  omega

/-- After a comment a text splits as if none were open, where it makes no difference. -/
theorem splits_comment (h : gap ∈ comment)
    (closed : ∀ n, skipLayout true n rest = skipLayout false n rest) :
    Splits offset (gap ++ rest) ts ↔ Splits (offset + gap.length) rest ts := by
  obtain ⟨_, ⟨c, hash, rfl⟩, body, hbody, rfl⟩ := Language.mem_mul.mp h
  obtain rfl : c = '#' := beq_iff_eq.mp hash
  have inside : ∀ c ∈ body, c ≠ '\n' := fun c hc =>
    bne_iff_ne.mp ((over_charsOf fun _ h => h).kstar body hbody c hc)
  have length : offset + ([('#' : Char)] ++ body).length = offset + 1 + body.length := by
    rw [List.length_append, List.length_singleton, Nat.add_assoc]
  have skipped : skipLayout false offset ([('#' : Char)] ++ body ++ rest) =
      skipLayout false (offset + ([('#' : Char)] ++ body).length) rest := by
    calc skipLayout false offset ([('#' : Char)] ++ body ++ rest)
        = skipLayout true (offset + 1) (body ++ rest) := rfl
      _ = skipLayout true (offset + 1 + body.length) rest := skipLayout_body inside rest
      _ = _ := by rw [closed, length]
  rw [splits_skipLayout, skipped, ← splits_skipLayout]

/-- A text that begins with a token splits into it and the tokens of what follows. -/
theorem splits_token (longest : Longest kind.lexemes text rest) :
    Splits offset (text ++ rest) ts ↔
      ∃ us, ts = ⟨kind, text, offset⟩ :: us ∧ Splits (offset + text.length) rest us := by
  constructor
  · intro h
    cases text with
    | nil => exact absurd longest.1 (nil_notMem_lexemes kind)
    | cons c cs =>
      have read : tokenReach c (cs ++ rest) = some (kind, cs.length) :=
        tokenReach_iff.mpr (extent_append.mpr longest)
      rw [List.cons_append] at h
      rcases splits_cons.mp h with ⟨n, layout, _⟩ | ⟨kind', n, us, token, rfl, others⟩
      · rw [tokenReach_eq, kindOf?_layout layout] at read
        cases read
      · obtain ⟨rfl, rfl⟩ := Prod.mk.inj (Option.some.inj (read.symm.trans token))
        rw [List.take_left] at others ⊢
        rw [List.drop_left] at others
        exact ⟨us, rfl, others⟩
  · rintro ⟨us, rfl, others⟩
    exact Splits.token longest others

/-- In front of the end of a line a text splits as it does alone, whatever comes after that. -/
theorem splits_newline (h : Splits offset w us) :
    Splits offset (w ++ '\n' :: z) ts ↔
      ∃ vs, ts = us ++ vs ∧ Splits (offset + w.length + 1) z vs := by
  induction h generalizing ts with
  | done =>
    rw [List.nil_append, ← List.singleton_append, splits_gap gap_newline]
    exact ⟨fun h => ⟨ts, rfl, h⟩, fun ⟨_, same, h⟩ => same ▸ h⟩
  | @skip offset layout gap rest us ignored longest others ih =>
    have length : offset + (gap ++ rest).length = offset + gap.length + rest.length := by
      rw [List.length_append, Nat.add_assoc]
    rw [List.append_assoc, length, ← ih]
    rcases ignored with rfl | rfl
    · exact splits_gap (gap_of_blanks longest.1)
    · refine splits_comment longest.1 fun n => skipLayout_closed fun c hc => ?_
      cases rest with
      | nil => exact (Option.some.inj hc).symm
      | cons d rest => exact longest_comment longest c hc
  | @token offset kind text rest us longest others ih =>
    have length : offset + (text ++ rest).length = offset + text.length + rest.length := by
      rw [List.length_append, Nat.add_assoc]
    have before : Longest kind.lexemes text (rest ++ '\n' :: z) := longest.before (by rintro _ ⟨⟩; rfl)
    rw [List.append_assoc, length, splits_token before]
    constructor
    · rintro ⟨vs, rfl, later⟩
      obtain ⟨vs, rfl, last⟩ := ih.mp later
      exact ⟨vs, rfl, last⟩
    · rintro ⟨vs, rfl, later⟩
      exact ⟨_, rfl, ih.mpr ⟨vs, rfl, later⟩⟩

end Splitting

/-! ## 3. Places -/

/-- Places from one on are pushed back by some number of characters. -/
def pushedBack (place n : Nat) (offset : Nat) : Nat := if place ≤ offset then offset + n else offset

/-- A text is cut at the beginning or at the end of a token, or of the text. -/
def Edge (offset : Nat) (w z : List Char) (ts : List Token) : Prop :=
  w = [] ∨ z = [] ∨
    ∃ t ∈ ts, offset + w.length = t.offset ∨ offset + w.length = t.offset + t.text.length

section Places

variable {offset : Nat} {gap w z source : List Char} {ts : List Token}

theorem Splits.le_offset (h : Splits offset source ts) : ∀ t ∈ ts, offset ≤ t.offset := by
  induction h with
  | done => exact List.forall_mem_nil _
  | skip _ _ _ ih => exact fun t ht => Nat.le_trans (Nat.le_add_right _ _) (ih t ht)
  | token _ _ ih =>
    exact List.forall_mem_cons.mpr ⟨Nat.le_refl _, fun t ht =>
      Nat.le_trans (Nat.le_add_right _ _) (ih t ht)⟩

/-- A token stands where it was read, and is a word of its kind. -/
theorem Splits.mem {t : Token} (h : Splits offset source ts) (ht : t ∈ ts) :
    ∃ w z, source = w ++ (t.text ++ z) ∧ t.offset = offset + w.length ∧ t.text ∈ t.kind.lexemes := by
  induction h with
  | done => cases ht
  | @skip offset _ gap rest ts _ _ _ ih =>
    obtain ⟨w, z, rfl, place, word⟩ := ih ht
    refine ⟨gap ++ w, z, (List.append_assoc _ _ _).symm, ?_, word⟩
    rw [place, List.length_append, Nat.add_assoc]
  | @token offset kind text rest ts longest _ ih =>
    rcases List.mem_cons.mp ht with rfl | ht
    · exact ⟨[], rest, rfl, rfl, longest.1⟩
    · obtain ⟨w, z, rfl, place, word⟩ := ih ht
      refine ⟨text ++ w, z, (List.append_assoc _ _ _).symm, ?_, word⟩
      rw [place, List.length_append, Nat.add_assoc]

/-- Tokens stand one behind the other. -/
theorem Splits.pairwise (h : Splits offset source ts) :
    ts.Pairwise fun t u => t.offset + t.text.length ≤ u.offset := by
  induction h with
  | done => exact .nil
  | skip _ _ _ ih => exact ih
  | token _ others ih => exact .cons others.le_offset ih

/-- What stands further behind has its tokens further behind. -/
theorem Splits.shift (h : Splits offset source ts) (n : Nat) :
    Splits (offset + n) source (ts.map (Token.moved (· + n))) := by
  induction h with
  | done => exact .done
  | skip ignored longest _ ih =>
    rw [Nat.add_right_comm] at ih
    exact .skip ignored longest ih
  | token longest _ ih =>
    rw [Nat.add_right_comm] at ih
    exact .token longest ih

/-- A gap in front of a text pushes its tokens back. -/
theorem Splits.behind (h : Splits offset source ts) (between : Gap gap) :
    Splits offset (gap ++ source) (ts.map (Token.moved (pushedBack offset gap.length))) := by
  have same : ts.map (Token.moved (pushedBack offset gap.length)) =
      ts.map (Token.moved (· + gap.length)) :=
    List.map_congr_left fun t ht => by
      rw [Token.moved, Token.moved, pushedBack, if_pos (h.le_offset t ht)]
  rw [splits_gap between, same]
  exact h.shift gap.length

/-- What comes before the edge is a part of what is cut there. -/
theorem edge_after {first rest : List Char} (some : w ≠ [])
    (edge : Edge offset w z ts) (whole : first ++ rest = w ++ z)
    (behind : ∀ t ∈ ts, offset + first.length ≤ t.offset ∨
      t.offset = offset ∧ t.text.length = first.length) :
    ∃ w', w = first ++ w' ∧ rest = w' ++ z := by
  have length : first.length + rest.length = w.length + z.length := by
    rw [← List.length_append, whole, List.length_append]
  have positive : 0 < w.length := List.length_pos_iff.mpr some
  have short : first.length ≤ w.length := by
    rcases edge with none | last | ⟨t, ht, place⟩
    · exact absurd none some
    · rw [last, List.length_nil] at length
      omega
    · have := behind t ht
      omega
  have begins : first <+: w :=
    List.prefix_of_prefix_length_le ⟨rest, rfl⟩ (whole ▸ List.prefix_append w z) short
  obtain ⟨w', rfl⟩ := begins
  rw [List.append_assoc] at whole
  exact ⟨w', rfl, List.append_cancel_left whole⟩

/-- A gap after a comment leaves no comment open, if the line or the text ends with the comment. -/
theorem closed_insert {mark : List Char} (between : Gap gap) (longest : Longest comment mark (w ++ z))
    (n : Nat) : skipLayout true n (w ++ (gap ++ z)) = skipLayout false n (w ++ (gap ++ z)) := by
  have last := longest_comment longest
  cases w with
  | nil =>
    rw [List.nil_append] at last ⊢
    rw [skipLayout_gap_open between n last, skipLayout_gap between]
  | cons c w => exact skipLayout_closed last

/-- A token stays the longest word where a gap is put somewhere behind it. -/
theorem longest_insert {kind : TokenKind} {text : List Char} (between : Gap gap)
    (longest : Longest kind.lexemes text (w ++ z)) :
    Longest kind.lexemes text (w ++ (gap ++ z)) := by
  have head := between.head
  cases gap with
  | nil => exact longest
  | cons c gap => exact longest.shorten.before head

/-- Behind a token the edge is one of what is left. -/
theorem Edge.behind_token {kind : TokenKind} {text : List Char}
    (edge : Edge offset (text ++ w) z (⟨kind, text, offset⟩ :: ts)) (some : text ++ w ≠ []) :
    Edge (offset + text.length) w z ts := by
  have place : offset + (text ++ w).length = offset + text.length + w.length := by
    rw [List.length_append, Nat.add_assoc]
  rcases edge with empty | last | ⟨t, ht, here⟩
  · exact absurd empty some
  · exact .inr (.inl last)
  · rw [place] at here
    rcases List.mem_cons.mp ht with rfl | ht
    · -- the edge is at the end of the token itself
      have own : offset + text.length + w.length = offset ∨
          offset + text.length + w.length = offset + text.length := here
      have positive := List.length_pos_iff.mpr some
      rw [List.length_append] at positive
      exact .inl (List.eq_nil_of_length_eq_zero (by omega))
    · exact .inr (.inr ⟨t, ht, here⟩)

/-- What stands in front of a place is not pushed back from there on. -/
theorem moved_before {t : Token} {place : Nat} (before : t.offset < place) (n : Nat) :
    t.moved (pushedBack place n) = t := by
  rw [Token.moved, pushedBack, if_neg (Nat.not_le.mpr before)]

/-- **A gap at an edge only pushes the tokens behind it back.** -/
theorem Splits.insert (h : Splits offset source ts) (between : Gap gap) (whole : source = w ++ z)
    (edge : Edge offset w z ts) :
    Splits offset (w ++ (gap ++ z))
      (ts.map (Token.moved (pushedBack (offset + w.length) gap.length))) := by
  induction h generalizing w with
  | done =>
    obtain ⟨rfl, rfl⟩ := List.append_eq_nil_iff.mp whole.symm
    exact Splits.done.behind between
  | @skip offset layout gap' rest ts ignored longest others ih =>
    by_cases none : w = []
    · subst none
      rw [List.nil_append] at whole
      rw [List.nil_append, ← whole]
      exact (Splits.skip ignored longest others).behind between
    · have behind : ∀ t ∈ ts, offset + gap'.length ≤ t.offset ∨
          t.offset = offset ∧ t.text.length = gap'.length := fun t ht => .inl (others.le_offset t ht)
      obtain ⟨w', rfl, rfl⟩ := edge_after none edge whole behind
      have place : offset + (gap' ++ w').length = offset + gap'.length + w'.length := by
        rw [List.length_append, Nat.add_assoc]
      have inner : Edge (offset + gap'.length) w' z ts := by
        rw [Edge, place] at edge
        exact edge.imp_left fun empty => absurd empty none
      have moved := ih rfl inner
      rw [place, List.append_assoc]
      rcases ignored with rfl | rfl
      · exact (splits_gap (gap_of_blanks longest.1)).mpr moved
      · exact (splits_comment longest.1 fun n => closed_insert between longest n).mpr moved
  | @token offset kind text rest ts longest others ih =>
    by_cases none : w = []
    · subst none
      rw [List.nil_append] at whole
      rw [List.nil_append, ← whole]
      exact (Splits.token longest others).behind between
    · have behind : ∀ t ∈ (⟨kind, text, offset⟩ : Token) :: ts, offset + text.length ≤ t.offset ∨
          t.offset = offset ∧ t.text.length = text.length :=
        List.forall_mem_cons.mpr ⟨.inr ⟨rfl, rfl⟩, fun t ht => .inl (others.le_offset t ht)⟩
      obtain ⟨w', rfl, rfl⟩ := edge_after none edge whole behind
      have place : offset + (text ++ w').length = offset + text.length + w'.length := by
        rw [List.length_append, Nat.add_assoc]
      have before : offset < offset + (text ++ w').length :=
        Nat.lt_add_of_pos_right (List.length_pos_iff.mpr none)
      rw [List.map_cons, moved_before before, place, List.append_assoc]
      exact Splits.token (longest_insert between longest) (ih rfl (edge.behind_token none))

end Places

end GrammarMatch.Syntax
