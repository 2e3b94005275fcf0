/-
  File:      GrammarMatch/Proofs/Viable.lean
  Subject:   Where the syntax of a pattern is at fault.

  Reading stops at the first token that cannot stand where it does, or where no token begins, or at
  the end of the text in an open group (`readTokens_stops`). What was read before that leads to a
  place from which closers alone complete it (`Leads.completed`), and what may follow depends on that
  place and on nothing else (`Leads.admitted`). So a fault of the syntax stands right behind the
  longest part of the text that can still become a pattern (`syntax_fault_place`).
-/
import GrammarMatch.Proofs.Gaps
import Mathlib

namespace GrammarMatch.Syntax

/-! ## 1. Places -/

/-- Tokens lead from one place to another: each is admitted, and groups are closed only where they
    were opened. -/
inductive Leads : Place → Nat → List Token → Place → Nat → Prop
  | nil {place : Place} {opened : Nat} : Leads place opened [] place opened
  | cons {place place' : Place} {opened opened' : Nat} {t : Token} {ts : List Token}
      (admits : place.admits t.kind = true) (closes : t.kind = .closer → opened ≠ 0)
      (rest : Leads (Place.after t.kind) (openAfter opened t.kind) ts place' opened') :
      Leads place opened (t :: ts) place' opened'

section Leads

variable {place place' : Place} {opened opened' n : Nat} {ts us vs : List Token}

/-- What may follow is up to the place that was reached. -/
theorem Leads.admitted (h : Leads place opened us place' opened') :
    Admitted place opened (us ++ vs) ↔ Admitted place' opened' vs := by
  induction h with
  | nil => exact Iff.rfl
  | cons admits closes _ ih => exact ⟨fun h => ih.mp h.2.2, fun h => ⟨admits, closes, ih.mpr h⟩⟩

/-- Tokens of the same kinds lead to the same place. -/
theorem Leads.of_kinds (h : Leads place opened us place' opened')
    (same : vs.map Token.kind = us.map Token.kind) : Leads place opened vs place' opened' := by
  induction h generalizing vs with
  | nil =>
    obtain rfl := List.map_eq_nil_iff.mp same
    exact .nil
  | cons admits closes _ ih =>
    obtain ⟨t', vs, rfl, kind, others⟩ := List.map_eq_cons_iff.mp same
    rw [← kind] at admits closes ih
    exact .cons admits closes (ih others)

/-- As many groups are open as were opened and not closed. -/
theorem Leads.count (h : Leads place opened us place' opened') :
    opened' + us.countP (·.kind == .closer) = opened + us.countP (·.kind == .opener) := by
  induction h with
  | nil => rfl
  | @cons place place' opened opened' t ts _ closes _ ih =>
    rw [List.countP_cons, List.countP_cons]
    cases kind : t.kind <;> rw [kind] at ih closes
    case opener =>
      simp only [openAfter] at ih
      simp
      omega
    case closer =>
      have positive := closes rfl
      simp only [openAfter] at ih
      simp
      omega
    all_goals
      simp only [openAfter] at ih
      simpa using ih

theorem after_ne_start (kind : TokenKind) : Place.after kind ≠ .start := by
  cases kind <;> simp [Place.after]

/-- At the start no group is open. -/
theorem Leads.start (h : Leads place opened us place' opened') (closed : place = .start → opened = 0) :
    place' = .start → opened' = 0 := by
  induction h with
  | nil => exact closed
  | cons _ _ _ ih => exact ih fun back => absurd back (after_ne_start _)

/-- Open groups can be closed at once. -/
theorem closers_admitted {n : Nat} (place : Place) (moved : place = .start → n = 0) (offset : Nat) :
    ∃ ts, Splits offset (List.replicate n ')') ts ∧ Admitted place n ts := by
  induction n generalizing place offset with
  | zero => exact ⟨[], .done, rfl⟩
  | succ n ih =>
    obtain ⟨ts, splits, admitted⟩ := ih .element (fun back => by cases back) (offset + 1)
    have longest : Longest TokenKind.closer.lexemes [')'] (List.replicate n ')') := by
      refine ⟨⟨')', rfl, rfl⟩, ?_⟩
      rintro _ ⟨c, _, rfl⟩ _
      exact Nat.le_refl 1
    refine ⟨_, Splits.token longest splits, ?_, fun _ => Nat.succ_ne_zero n, admitted⟩
    cases place with
    | start => cases moved rfl
    | fresh | element => rfl

/-- **What was read can be completed** by the end of the line and the closers of its groups. -/
theorem Leads.completed (h : Leads .start 0 us place n) {text : List Char}
    (splits : Splits 0 text us) :
    ∃ tree, Alternatives.parse (text ++ '\n' :: List.replicate n ')') = .ok tree ∧
      us <+: tree.tokens := by
  have moved : place = .start → n = 0 := h.start fun _ => rfl
  obtain ⟨closers, closing, admitted⟩ := closers_admitted place moved (0 + text.length + 1)
  obtain ⟨tree, formed, tokens⟩ := admitted_iff.mp (h.admitted.mpr admitted)
  refine ⟨tree, parse_iff.mpr ⟨formed, ?_⟩, closers, tokens.symm⟩
  rw [tokens]
  exact (splits_newline splits).mpr ⟨closers, rfl, closing⟩

end Leads

/-! ## 2. Where reading stops -/

/-- Reading cannot go on at a place with so many open groups, for the reason that is complained
    about. -/
inductive Stuck (place : Place) (opened : Nat) : List Char → Complaint → Prop
  | unclosed (inside : opened ≠ 0) : Stuck place opened [] .unclosedGroup
  | stray {c : Char} {rest : List Char} (none : tokenReach c rest = none) :
      Stuck place opened (c :: rest) (.strayCharacter c)
  | misplaced {c : Char} {rest : List Char} {kind : TokenKind} {n : Nat}
      (token : tokenReach c rest = some (kind, n))
      (refused : ¬(place.admits kind = true ∧ (kind = .closer → opened ≠ 0))) :
      Stuck place opened (c :: rest) (.misplaced (c :: rest.take n))

/-- Layout is skipped up to what stands behind it, whatever that goes on with. -/
theorem skipLayout_cut {inComment : Bool} {n here : Nat} {cs z : List Char}
    (h : skipLayout inComment n cs = (z, here)) :
    ∃ gap, cs = gap ++ z ∧ here = n + gap.length ∧
      ∀ y : List Char, (∀ c ∈ y.head?, c ∈ z.head?) → skipLayout inComment n (gap ++ y) = (y, here) := by
  induction cs generalizing inComment n with
  | nil =>
    cases h
    refine ⟨[], rfl, rfl, fun y begins => ?_⟩
    cases y with
    | nil => rfl
    | cons c y => exact absurd (begins c rfl) nofun
  | cons c cs ih =>
    have skip {b : Bool} (step : ∀ rest, skipLayout inComment n (c :: rest) = skipLayout b (n + 1) rest)
        (h : skipLayout b (n + 1) cs = (z, here)) : ∃ gap, c :: cs = gap ++ z ∧ here = n + gap.length ∧
          ∀ y : List Char, (∀ d ∈ y.head?, d ∈ z.head?) →
            skipLayout inComment n (gap ++ y) = (y, here) := by
      obtain ⟨gap, rfl, rfl, again⟩ := ih h
      refine ⟨c :: gap, rfl, by rw [List.length_cons]; omega, fun y begins => ?_⟩
      rw [List.cons_append, step]
      exact again y begins
    simp only [skipLayout] at h
    split at h
    next inside =>
      exact skip (fun rest => by rw [skipLayout, if_pos inside]) h
    next outside =>
      split at h
      next layout =>
        exact skip (fun rest => by rw [skipLayout, if_neg outside, if_pos layout]) h
      next visible =>
        cases h
        refine ⟨[], rfl, rfl, fun y begins => ?_⟩
        cases y with
        | nil => rfl
        | cons d y =>
          obtain rfl := Option.some.inj (begins d rfl)
          rw [List.nil_append, skipLayout, if_neg outside, if_neg visible]

/-- Reading comes to tokens that lead to a place where it is stuck. -/
def Stops (place : Place) (opened offset : Nat) (cs : List Char) (f : Fault) : Prop :=
  ∃ w z us place' groups, cs = w ++ z ∧ f.place = offset + w.length ∧ Splits offset w us ∧
    Leads place opened us place' groups ∧ Stuck place' groups z f.complaint

/-- Reading that is stuck behind layout has come to no token. -/
theorem stops_here {place : Place} {opened offset here : Nat} {cs z : List Char} {f : Fault}
    (skipped : skipLayout false offset cs = (z, here)) (there : f.place = here)
    (stuck : Stuck place opened z f.complaint) : Stops place opened offset cs f := by
  obtain ⟨gap, rfl, rfl, again⟩ := skipLayout_cut skipped
  have alone : Splits offset gap [] := by
    have whole := again [] nofun
    rw [List.append_nil] at whole
    rw [splits_skipLayout, whole]
    exact .done
  exact ⟨gap, z, [], place, opened, rfl, there, alone, .nil, stuck⟩

/-- **Reading stops behind tokens that lead to a place where it is stuck.** -/
theorem readTokens_stops {seen : List Token} {opened offset : Nat} {cs : List Char} {f : Fault}
    (h : readTokens seen opened offset cs = .error f) : Stops (Place.ofRead seen) opened offset cs f := by
  fun_induction readTokens seen opened offset cs with
  | case1 => cases h
  | case2 seen opened offset cs here skipped unclosed =>
    cases h
    exact stops_here skipped rfl (.unclosed unclosed)
  | case3 seen opened offset cs c rest here skipped place stray =>
    cases h
    exact stops_here skipped rfl (.stray stray)
  | case4 seen opened offset cs c rest here skipped place kind reach read token refused =>
    cases h
    refine stops_here skipped rfl (.misplaced read fun admits => ?_)
    rw [Bool.not_eq_true'] at refused
    cases refused.symm.trans admits.1
  | case5 seen opened offset cs c rest here skipped place kind reach read token allowed closes =>
    cases h
    exact stops_here skipped rfl (.misplaced read fun admits => admits.2 closes.1 closes.2)
  | case6 seen opened offset cs c rest here skipped place kind reach read token allowed closes ih =>
    obtain ⟨w, z, us, place', groups, left, there, splits, leads, stuck⟩ := ih h
    obtain ⟨gap, rfl, rfl, again⟩ := skipLayout_cut skipped
    have longest := (extent_iff_longest.mp (tokenReach_iff.mp read)).2
    rw [List.take_succ_cons, List.drop_succ_cons, left] at longest
    have whole : c :: rest = token.text ++ (w ++ z) := by
      rw [← left]
      exact (congrArg (c :: ·) (List.take_append_drop reach rest)).symm
    refine ⟨gap ++ (token.text ++ w), z, token :: us, place', groups, ?_, ?_, ?_, ?_, stuck⟩
    · rw [whole, List.append_assoc, List.append_assoc]
    · rw [there, List.length_append, List.length_append]
      omega
    · rw [splits_skipLayout, again _ (by rintro _ ⟨⟩; rfl)]
      exact Splits.token longest.shorten splits
    · refine .cons (by simpa using allowed) (fun closer opened => closes ⟨closer, opened⟩) leads

/-- A text whose tokens cannot be read has no form. -/
theorem parse_error {source : List Char} {f : Fault} (h : Alternatives.parse source = .error f) :
    Syntax.tokens source = .error f := by
  cases tokens : Syntax.tokens source with
  | error g =>
    simp only [Alternatives.parse, tokens] at h
    exact congrArg Except.error (Except.error.inj h)
  | ok ts =>
    obtain ⟨us, rfl, splits, admitted⟩ := (readTokens_iff [] 0 0 source ts).mp tokens
    obtain ⟨tree, formed, rfl⟩ := admitted_iff.mp admitted
    rw [parse_iff.mpr ⟨formed, splits⟩] at h
    cases h

/-- Where no token is found, no word of any kind begins. -/
theorem no_word {c : Char} {cs : List Char} (none : tokenReach c cs = none) {kind : TokenKind}
    {word : List Char} (mem : word ∈ kind.lexemes) : ¬word <+: c :: cs := by
  intro begins
  cases word with
  | nil => exact nil_notMem_lexemes kind mem
  | cons d word =>
    obtain ⟨rfl, _⟩ := List.cons_prefix_cons.mp begins
    have first := kindOf?_of_mem mem
    have extent := reach_extent (w := cs) first
    rw [tokenReach_eq, first, Option.bind_some, Option.map_eq_none_iff] at none
    rw [none] at extent
    refine extent _ begins.length_le ?_
    rwa [← List.prefix_iff_eq_take.mp begins]

/-! ## 3. Faults of the syntax -/

/-- A text can be completed after the tokens into which it splits: with the end of a line and some
    number of closers it is the text of a pattern that begins with these tokens. -/
structure Viable (text : List Char) (before : List Token) : Prop where
  splits : Splits 0 text before
  completed : ∃ n tree, Alternatives.parse (text ++ '\n' :: List.replicate n ')') = .ok tree ∧
    before <+: tree.tokens

/-- No text of a pattern begins with tokens of these kinds. -/
def Hopeless (kinds : List TokenKind) : Prop :=
  ∀ text tree, Alternatives.parse text = .ok tree → ¬kinds <+: tree.tokens.map Token.kind

theorem Leads.hopeless {place : Place} {opened : Nat} {us : List Token} {kind : TokenKind}
    (h : Leads .start 0 us place opened)
    (refused : ¬(place.admits kind = true ∧ (kind = .closer → opened ≠ 0))) :
    Hopeless (us.map Token.kind ++ [kind]) := by
  rintro text tree parsed ⟨kinds, whole⟩
  rw [List.append_assoc, List.singleton_append] at whole
  obtain ⟨vs, ws, tokens, same, rest⟩ := List.map_eq_append_iff.mp whole.symm
  obtain ⟨t, ws, rfl, rfl, _⟩ := List.map_eq_cons_iff.mp rest
  have admitted := admitted_iff.mpr ⟨tree, (parse_iff.mp parsed).formed, tokens⟩
  obtain ⟨admits, closes, _⟩ := (h.of_kinds same).admitted.mp admitted
  exact refused ⟨admits, closes⟩

/-- On a new line, what begins with a token of a kind goes on with a token of that kind. -/
theorem Hopeless.newline {text word : List Char} {before : List Token} {kind : TokenKind}
    (h : Hopeless (before.map Token.kind ++ [kind])) (splits : Splits 0 text before)
    (mem : word ∈ kind.lexemes) (more : List Char) (tree : Alternatives) :
    Alternatives.parse (text ++ '\n' :: (word ++ more)) ≠ .ok tree := by
  intro parsed
  obtain ⟨vs, tokens, others⟩ := (splits_newline splits).mp (parse_iff.mp parsed).splits
  cases word with
  | nil => exact nil_notMem_lexemes kind mem
  | cons c word =>
    have first := kindOf?_of_mem mem
    rcases splits_cons.mp others with ⟨n, layout, _⟩ | ⟨kind', n, us, read, rfl, _⟩
    · cases first.symm.trans (kindOf?_layout layout)
    · rw [tokenReach_eq, first, Option.bind_some] at read
      obtain ⟨_, _, same⟩ := Option.map_eq_some_iff.mp read
      obtain ⟨rfl, _⟩ := Prod.mk.inj same
      refine h _ _ parsed ⟨us.map Token.kind, ?_⟩
      rw [tokens, List.map_append, List.map_cons, List.append_assoc]
      rfl

end GrammarMatch.Syntax

namespace GrammarMatch.Pattern

open Syntax

/-- **A fault of the syntax stands behind the longest viable part of the text.** What is before it
    can be completed. The text ends there in an open group, or no token begins there, or the token
    that begins there cannot follow what was read: no text of a pattern has tokens of such kinds at
    its beginning, nor does one come about in any way that goes on with the token. -/
theorem syntax_fault_place {source : List Char} {f : Fault}
    (h : Alternatives.parse source = .error f) :
    (∀ flags kind, ∃ e, compile source flags kind = .error e ∧ e.offset = f.place) ∧
    f.place ≤ source.length ∧ ∃ before, Viable (source.take f.place) before ∧
      ((f.place = source.length ∧ f.complaint = .unclosedGroup ∧
          before.countP (·.kind == .closer) < before.countP (·.kind == .opener)) ∨
        (f.place < source.length ∧
          ∀ kind : TokenKind, ∀ word ∈ kind.lexemes, ¬word <+: source.drop f.place) ∨
        ∃ (kind : TokenKind) (text rest : List Char), source.drop f.place = text ++ rest ∧
          Longest kind.lexemes text rest ∧ Hopeless (before.map Token.kind ++ [kind]) ∧
          ∀ more tree,
            Alternatives.parse (source.take f.place ++ '\n' :: (text ++ more)) ≠ .ok tree) := by
  obtain ⟨w, z, before, place, opened, rfl, there, splits, leads, stuck⟩ :=
    readTokens_stops (parse_error h)
  rw [Nat.zero_add] at there
  have inside : f.place ≤ (w ++ z).length := by
    rw [there, List.length_append]
    exact Nat.le_add_right _ _
  refine ⟨fun flags kind => ⟨f.inSource (w ++ z).toArray, ?_, offset_inSource inside⟩, inside, before,
    ?_, ?_⟩
  · simp only [compile, compileIn, h]
    rfl
  · rw [there, List.take_left]
    exact ⟨splits, opened, leads.completed splits⟩
  · rw [there, List.take_left, List.drop_left]
    generalize f.complaint = complaint at stuck ⊢
    cases stuck with
    | unclosed groups =>
      have count := leads.count
      exact .inl ⟨by rw [List.append_nil], rfl, by omega⟩
    | @stray c rest none =>
      exact .inr (.inl ⟨by simp, fun kind word mem => no_word none mem⟩)
    | @misplaced c rest kind n token refused =>
      have longest := (extent_iff_longest.mp (tokenReach_iff.mp token)).2
      have hopeless := leads.hopeless refused
      exact .inr (.inr ⟨kind, _, _, (List.take_append_drop (n + 1) (c :: rest)).symm, longest,
        hopeless, hopeless.newline splits longest.1⟩)

/-- An opener whose name has no end is no more than a bracket, and no quantifier may follow it. -/
theorem syntax_fault_place_halfNamed :
    Alternatives.parse "a(?<n b)".toList =
        .error ⟨.misplaced ['?'], 2, Place.expected .fresh⟩ ∧
      (∃ e, compile "a(?<n b)".toList .none .rule = .error e ∧ e.offset = 2) ∧
      ∃ before, Viable ['a', '('] before := by
  have parsed : Alternatives.parse "a(?<n b)".toList =
      .error ⟨.misplaced ['?'], 2, Place.expected .fresh⟩ := by cbv
  obtain ⟨reported, _, before, viable, _⟩ := syntax_fault_place parsed
  exact ⟨parsed, reported .none .rule, before, viable⟩

end GrammarMatch.Pattern
