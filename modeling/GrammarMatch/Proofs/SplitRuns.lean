/-
  File:      GrammarMatch/Proofs/SplitRuns.lean
  Subject:   A run of characters that a quantifier splits.

  A quantifier after a run of bare characters repeats the last of them. What stands for the run is
  split: a literal for the beginning, and one for its end. Without regard to case a literal compares
  the folding of as many characters as it has, and a character may fold to several. So the two
  halves match where the whole does only if the characters that face the end of the run fold to as
  many characters as it does (`literalStop?_append`); then it does not matter whether the run is
  split, and otherwise the halves match nowhere (`split_run`).
-/
import GrammarMatch.Proofs.Greed
import GrammarMatch.Proofs.RoundTrip

namespace GrammarMatch

open Match Syntax

/-! ## 1. Literals -/

namespace Match

/-- The characters of a text that face a literal at a position fold to another number of characters
    than it does. -/
def uneven (t : Text) (chars : List Char) (pos : Int) : Bool :=
  (Unicode.fold (t.slice pos (pos + chars.length))).length != (Unicode.fold chars).length

section Literals

variable {t : Text} {pos stop : Int} {chars a b : List Char} {ignoreCase : Bool}

/-- A literal ends where its characters stand between the position and its end. -/
theorem literalStop?_eq_some_iff (here : t.Span 0 pos) :
    literalStop? t chars ignoreCase pos = some stop ↔ stop = pos + chars.length ∧
      t.Span pos stop ∧ Alike ignoreCase (t.slice pos stop) chars := by
  rw [literalStop_eq_some, literalStands_iff here.le here.le_stop]
  constructor
  · rintro ⟨⟨inside, same⟩, rfl⟩
    exact ⟨rfl, ⟨here.le, by omega, inside⟩, same⟩
  · rintro ⟨rfl, span, same⟩
    exact ⟨⟨span.le_stop, same⟩, rfl⟩

/-- Texts one after the other are the same as two others if both of them are, where the second
    ones fold to as many characters. -/
theorem alike_append {u v : List Char} (long : v.length = b.length)
    (even : ignoreCase = true → (Unicode.fold v).length = (Unicode.fold b).length) :
    Alike ignoreCase (u ++ v) (a ++ b) ↔ Alike ignoreCase u a ∧ Alike ignoreCase v b := by
  cases ignoreCase with
  | false =>
    show u ++ v = a ++ b ↔ u = a ∧ v = b
    constructor
    · exact fun same => List.append_inj' same long
    · rintro ⟨rfl, rfl⟩
      rfl
  | true =>
    show Unicode.fold (u ++ v) = Unicode.fold (a ++ b) ↔
      Unicode.fold u = Unicode.fold a ∧ Unicode.fold v = Unicode.fold b
    rw [Unicode.fold_append, Unicode.fold_append]
    constructor
    · exact fun same => List.append_inj' same (even rfl)
    · rintro ⟨first, second⟩
      rw [first, second]

/-- **A literal in two halves**: they match where the whole does, unless the characters that face
    the second one are uneven. Then they do not match. -/
theorem literalStop?_append (here : t.Span 0 pos) :
    (literalStop? t a ignoreCase pos).bind (literalStop? t b ignoreCase) =
      if ignoreCase && uneven t b (pos + a.length) then none
      else literalStop? t (a ++ b) ignoreCase pos := by
  have halves (stop : Int) :
      (literalStop? t a ignoreCase pos).bind (literalStop? t b ignoreCase) = some stop ↔
        stop = pos + a.length + b.length ∧ t.Span pos (pos + a.length) ∧
          t.Span (pos + a.length) stop ∧ Alike ignoreCase (t.slice pos (pos + a.length)) a ∧
          Alike ignoreCase (t.slice (pos + a.length) stop) b := by
    rw [Option.bind_eq_some_iff]
    constructor
    · rintro ⟨mid, first, second⟩
      obtain ⟨rfl, span, same⟩ := (literalStop?_eq_some_iff here).mp first
      have there : t.Span 0 (pos + a.length) :=
        ⟨Int.le_refl 0, Int.le_trans here.le span.le, span.le_stop⟩
      obtain ⟨rfl, span', same'⟩ := (literalStop?_eq_some_iff there).mp second
      exact ⟨rfl, span, span', same, same'⟩
    · rintro ⟨rfl, span, span', same, same'⟩
      have there : t.Span 0 (pos + a.length) :=
        ⟨Int.le_refl 0, Int.le_trans here.le span.le, span.le_stop⟩
      exact ⟨_, (literalStop?_eq_some_iff here).mpr ⟨rfl, span, same⟩,
        (literalStop?_eq_some_iff there).mpr ⟨rfl, span', same'⟩⟩
  refine Option.ext fun stop => ?_
  rw [halves]
  split
  case isTrue odd =>
    refine iff_of_false (fun ⟨place, _, _, _, same⟩ => ?_) (fun h => by cases h)
    obtain ⟨rfl, other⟩ := Bool.and_eq_true_iff.mp odd
    subst place
    have same : Unicode.fold _ = Unicode.fold b := same
    rw [uneven, same, bne_self_eq_false] at other
    cases other
  case isFalse even =>
    have length : pos + (a ++ b).length = pos + a.length + b.length := by
      rw [List.length_append]
      omega
    rw [literalStop?_eq_some_iff here, length]
    refine and_congr_right fun place => ?_
    subst place
    have folds (span : t.Span (pos + a.length) (pos + a.length + b.length)) :
        Alike ignoreCase (t.slice pos (pos + a.length) ++
          t.slice (pos + a.length) (pos + a.length + b.length)) (a ++ b) ↔ _ :=
      alike_append (by have := Text.length_slice span; omega) fun ignores => by
        rw [ignores, Bool.true_and] at even
        simpa [uneven] using even
    constructor
    · rintro ⟨first, second, same, same'⟩
      refine ⟨⟨here.le, Int.le_trans first.le second.le, second.le_stop⟩, ?_⟩
      rw [← Text.slice_append first second]
      exact (folds second).mpr ⟨same, same'⟩
    · rintro ⟨whole, same⟩
      have inside := whole.le_stop
      have first : t.Span pos (pos + a.length) := ⟨here.le, by omega, by omega⟩
      have second : t.Span (pos + a.length) (pos + a.length + b.length) :=
        ⟨Int.le_trans here.le first.le, by omega, inside⟩
      rw [← Text.slice_append first second] at same
      exact ⟨first, second, (folds second).mp same⟩

end Literals

/-! ## 2. Rows of two literals -/

/-- What a literal answers that ends at a place, or does not match. -/
def reached (captured : Captured) : Option Int → Answers Solution
  | some stop => .just ⟨stop, captured⟩
  | none => .done

theorem reached_bind (captured : Captured) (o : Option Int) (k : Int → Option Int) :
    ((reached captured o).bind fun s => reached s.captured (k s.stop)) =
      reached captured (o.bind k) := by
  cases o with
  | none => rfl
  | some stop => exact Answers.just_bind _ _

section Rows

variable {w : Basis} {active : Active} {depth : Nat} {s : Solution} {a b : List Char}
  {ignoreCase : Bool}

theorem solutions_allowed (allows : w.env.settings.Allows depth) (p : Pattern) :
    w.solutions depth active p s = w.part (w.solutions (depth + 1)) active s p := by
  rw [solutions_eq, entry_allowed allows, Answers.attempt_ok, if_pos allows.room]

theorem solutions_literal (allows : w.env.settings.Allows depth) :
    w.solutions depth active (.literal a ignoreCase) s =
      reached s.captured (literalStop? w.env.text a ignoreCase s.stop) := by
  rw [solutions_allowed allows, Basis.part]
  cases literalStop? w.env.text a ignoreCase s.stop <;> rfl

/-- A row of two has the solutions of the second that go on from those of the first. -/
theorem solutions_two (allows : w.env.settings.Allows depth) (p q : Pattern) :
    w.solutions depth active (.sequence [p, q]) s =
      (w.solutions (depth + 1) active p s).bind (w.solutions (depth + 1) active q) := by
  rw [solutions_allowed allows, Basis.part]
  show (w.solutions (depth + 1) active p s).bind
    (fun t => (w.solutions (depth + 1) active q t).bind .just) = _
  simp only [Answers.bind_just]

/-- A literal of some characters that is repeated once is that literal. -/
theorem solutions_once (allows : w.env.settings.Allows (depth + 1)) (filled : a ≠ [])
    (here : w.env.text.Span 0 s.stop) :
    w.solutions depth active (.repetition ⟨1, some 1, true⟩ (.literal a ignoreCase)) s =
      reached s.captured (literalStop? w.env.text a ignoreCase s.stop) := by
  rw [solutions_allowed (allows.mono (Nat.le_succ depth)), Basis.part, Basis.roundsLeft, rounds,
    solutions_literal allows]
  cases ends : literalStop? w.env.text a ignoreCase s.stop with
  | none => rfl
  | some stop =>
    obtain ⟨rfl, span, -⟩ := (literalStop?_eq_some_iff here).mp ends
    have long : 0 < a.length := List.length_pos_of_ne_nil filled
    have wide : s.stop + a.length ≠ s.stop := by omega
    have more : (w.env.text.stop - s.stop).toNat ≠ 0 := by
      have := span.le_stop
      omega
    obtain ⟨left, hleft⟩ := Nat.exists_eq_succ_of_ne_zero more
    rw [hleft]
    show (Answers.just _).bind _ ++ _ = _
    rw [Answers.just_bind, if_neg wide]
    rfl

/-- **Two literals in a row** have the solutions of one, unless the characters that face the second
    one are uneven. Then they have none. -/
theorem solutions_halves (allows : w.env.settings.Allows (depth + 1))
    (here : w.env.text.Span 0 s.stop) :
    w.solutions depth active (.sequence [.literal a ignoreCase, .literal b ignoreCase]) s =
      if ignoreCase && uneven w.env.text b (s.stop + a.length) then .done
      else w.solutions depth active (.literal (a ++ b) ignoreCase) s := by
  have lower := allows.mono (Nat.le_succ depth)
  rw [solutions_two lower, solutions_literal allows, solutions_literal lower]
  have second : w.solutions (depth + 1) active (.literal b ignoreCase) =
      fun t => reached t.captured (literalStop? w.env.text b ignoreCase t.stop) := by
    funext t
    exact solutions_literal allows
  rw [second, reached_bind, literalStop?_append here]
  split <;> rfl

/-- It does not matter if the second one is repeated once. -/
theorem solutions_repeated (allows : w.env.settings.Allows (depth + 2)) (filled : b ≠ [])
    (here : w.env.text.Span 0 s.stop) :
    w.solutions depth active (.sequence [.literal a ignoreCase,
        .repetition ⟨1, some 1, true⟩ (.literal b ignoreCase)]) s =
      w.solutions depth active (.sequence [.literal a ignoreCase, .literal b ignoreCase]) s := by
  have middle := allows.mono (Nat.le_succ (depth + 1))
  have lower := middle.mono (Nat.le_succ depth)
  rw [solutions_two lower, solutions_two lower]
  refine Answers.bind_congr fun t ht => ?_
  rw [solutions_literal middle] at ht
  cases ends : literalStop? w.env.text a ignoreCase s.stop with
  | none =>
    rw [ends] at ht
    exact absurd ht (Answers.not_mem_done t)
  | some stop =>
    rw [ends] at ht
    obtain rfl := Answers.mem_just.mp ht
    obtain ⟨rfl, span, -⟩ := (literalStop?_eq_some_iff here).mp ends
    have there : w.env.text.Span 0 (s.stop + a.length) :=
      ⟨Int.le_refl 0, Int.le_trans here.le span.le, span.le_stop⟩
    rw [solutions_once allows filled there, solutions_literal middle]

end Rows

end Match

/-! ## 3. Runs -/

namespace Pattern

/-- The quantifier that repeats once. -/
def onceMark : List Char := "\x7b1\x7d".toList

section Compile

variable {source : List Char} {flags : Flags} {kind : RuleKind}

/-- A text of one item means what the item means. -/
theorem compile_item {atom : Atom} {quantifier : Option Token} {part : Part}
    (parsed : Alternatives.parse source = .ok (.one (.cons atom quantifier .nil)))
    (means : (ofAtom (Dialect.of flags kind) 0 atom).bind
      (quantified (Dialect.of flags kind) atom · quantifier) = .ok part)
    (once : part.captured.Nodup) : compile source flags kind = .ok part.pattern := by
  unfold compile compileIn ofTree
  simp only [parsed, branchesOf_one (partsOf_one means) once]
  rfl

/-- A run of bare characters is one token, up to a character that is not bare. -/
theorem splits_run {c : Char} {cs rest : List Char} {ts : List Token}
    (bare : ∀ d ∈ c :: cs, isBare d = true) (ends : ∀ d ∈ rest.head?, isBare d = false)
    (others : Splits (c :: cs).length rest ts) :
    Splits 0 (c :: (cs ++ rest)) (⟨.chars, c :: cs, 0⟩ :: ts) := by
  obtain ⟨first, more⟩ := List.forall_mem_cons.mp bare
  have length : (cs ++ rest).takeWhile isBare = cs := by
    cases rest with
    | nil => rw [List.append_nil, List.takeWhile_eq_self_iff.mpr more]
    | cons d rest => exact takeWhile_run more (ends d rfl) rest
  have read : tokenReach c (cs ++ rest) = some (.chars, cs.length) := by
    rw [tokenReach_eq, kindOf?_bare first]
    show (TokenKind.chars.reach c (cs ++ rest)).map _ = _
    rw [TokenKind.reach, length]
    rfl
  refine splits_cons.mpr (.inr ⟨.chars, cs.length, ts, read, ?_, ?_⟩)
  · rw [List.take_left]
  · rw [List.take_left, List.drop_left, Nat.zero_add]
    exact others

variable {head : List Char} {last : Char} (bare : ∀ c ∈ head ++ [last], isBare c = true)
include bare

/-- A run is a literal. -/
theorem compile_run :
    compile (head ++ [last]) flags kind = .ok (.literal (head ++ [last]) flags.ignoreCase) := by
  obtain ⟨c, cs, run⟩ := List.exists_cons_of_ne_nil (List.append_ne_nil_of_right_ne_nil head
    (List.cons_ne_nil last []))
  rw [run] at bare ⊢
  have splits : Splits 0 (c :: (cs ++ [])) [⟨.chars, c :: cs, 0⟩] :=
    splits_run bare (fun _ h => by cases h) .done
  rw [List.append_nil] at splits
  have parsed : Alternatives.parse (c :: cs) =
      .ok (.one (.cons (.leaf ⟨.chars, c :: cs, 0⟩) none .nil)) :=
    parse_iff.mpr ⟨⟨rfl, fun _ h => (by cases h), trivial⟩, splits⟩
  exact compile_item parsed rfl List.nodup_nil

/-- With a quantifier it is a row of two literals, of which the second one is repeated. -/
theorem compile_repeated (several : head ≠ []) :
    compile (head ++ [last] ++ onceMark) flags kind =
      .ok (.sequence [.literal head flags.ignoreCase,
        .repetition ⟨1, some 1, true⟩ (.literal [last] flags.ignoreCase)]) := by
  have mark : Splits (head ++ [last]).length onceMark
      [⟨.quantifier, onceMark, (head ++ [last]).length⟩] :=
    splits_cons.mpr (.inr ⟨.quantifier, 2, [], rfl, rfl, .done⟩)
  have ends : (head ++ [last]).getLast? = some last := List.getLast?_concat
  have start : (head ++ [last]).dropLast = head := List.dropLast_concat
  have long : 1 < (head ++ [last]).length := by
    have := List.length_pos_of_ne_nil several
    rw [List.length_append, List.length_singleton]
    omega
  obtain ⟨c, cs, run⟩ := List.exists_cons_of_ne_nil (List.append_ne_nil_of_right_ne_nil head
    (List.cons_ne_nil last []))
  rw [run] at bare mark ends start long ⊢
  have splits := splits_run bare (by rintro d ⟨⟩; decide) mark
  have parsed : Alternatives.parse (c :: cs ++ onceMark) =
      .ok (.one (.cons (.leaf ⟨.chars, c :: cs, 0⟩)
        (some ⟨.quantifier, onceMark, (c :: cs).length⟩) .nil)) :=
    parse_iff.mpr ⟨⟨rfl, fun t h => Option.some.inj h ▸ rfl, trivial⟩, splits⟩
  have amount (offset : Nat) :
      quantityOf ⟨.quantifier, onceMark, offset⟩ = .ok ⟨1, some 1, true⟩ := rfl
  have means : repeatedRun (Dialect.of flags kind) (c :: cs)
      (some ⟨.quantifier, onceMark, (c :: cs).length⟩) =
        .ok (.sequence [.literal head flags.ignoreCase,
          .repetition ⟨1, some 1, true⟩ (.literal [last] flags.ignoreCase)]) := by
    rw [repeatedRun, amount, ends, start]
    show Except.ok (if 1 < (c :: cs).length then _ else _ : Pattern) = _
    rw [if_pos long]
    rfl
  have whole : (ofAtom (Dialect.of flags kind) 0 (.leaf ⟨.chars, c :: cs, 0⟩)).bind
      (quantified (Dialect.of flags kind) (.leaf ⟨.chars, c :: cs, 0⟩) ·
        (some ⟨.quantifier, onceMark, (c :: cs).length⟩)) =
      (repeatedRun (Dialect.of flags kind) (c :: cs)
        (some ⟨.quantifier, onceMark, (c :: cs).length⟩)).map (Part.mk · 0 []) := rfl
  rw [means] at whole
  exact compile_item parsed whole List.nodup_nil

end Compile

/-- What is seen of a literal, of its halves, and of its halves if the second one is repeated. -/
theorem enumerates_halves {a b : List Char} (filled : b ≠ []) (ignoreCase : Bool) (env : Env)
    (active : Active) (depth : Nat) (pos : Int) (captured : Captured) (s : State)
    (y : Answers Solution) (here : env.text.Span 0 pos) (allows : env.settings.Allows (depth + 2)) :
    let solution := reached captured (literalStop? env.text (a ++ b) ignoreCase pos)
    let parted := if ignoreCase && uneven env.text b (pos + a.length) then .done else solution
    (Enumerates env active [⟨[.part (.literal (a ++ b) ignoreCase) depth], pos, captured⟩] s y ↔
        y = solution) ∧
      (Enumerates env active [⟨[.part (.sequence [.literal a ignoreCase,
        .repetition ⟨1, some 1, true⟩ (.literal b ignoreCase)]) depth], pos, captured⟩] s y ↔
        y = parted) ∧
      (Enumerates env active [⟨[.part (.sequence [.literal a ignoreCase,
        .literal b ignoreCase]) depth], pos, captured⟩] s y ↔ y = parted) := by
  have middle := allows.mono (Nat.le_succ (depth + 1))
  have lower := middle.mono (Nat.le_succ depth)
  have alone (chars : List Char) : (literal chars ignoreCase).Standalone s.lexicon.space := .literal
  have rows {p : Pattern} (h : p.Standalone s.lexicon.space) :
      (sequence [.literal a ignoreCase, p]).Standalone s.lexicon.space :=
    .sequence (List.forall_mem_cons.mpr ⟨alone a, List.forall_mem_singleton.mpr h⟩)
  have halves : (Basis.plain env s.lexicon).solutions depth active (.sequence
      [.literal a ignoreCase, .literal b ignoreCase]) ⟨pos, captured⟩ = _ :=
    solutions_halves middle here
  rw [solutions_literal lower] at halves
  refine ⟨?_, ?_, ?_⟩
  · rw [enumerates_plain (.inr (alone _)) rfl, solutions_literal lower]
    rfl
  · rw [enumerates_plain (.inr (rows (.repetition (alone _)))) rfl,
      solutions_repeated allows filled here, halves]
    rfl
  · rw [enumerates_plain (.inr (rows (alone _))) rfl, halves]
    rfl

/-- **A quantifier that repeats once may follow a run of bare characters.** The run has one solution
    where it matches and otherwise none. With the quantifier, or with its last character as a
    literal of its own, it has the same ones, unless case is ignored and the character that faces
    its last one folds to another number of characters. Then it has none. -/
theorem split_run {head : List Char} {last : Char} (several : head ≠ [])
    (bare : ∀ c ∈ head ++ [last], isBare c = true) (flags : Flags) (kind : RuleKind) :
    ∃ whole split, compile (head ++ [last]) flags kind = .ok whole ∧
      compile (head ++ [last] ++ onceMark) flags kind = .ok split ∧
      ∀ (env : Env) (active : Active) (depth : Nat) (pos : Int) (captured : Captured) (s : State)
        (y : Answers Solution), env.text.Span 0 pos → env.settings.Allows (depth + 2) →
        let solution := reached captured
          (literalStop? env.text (head ++ [last]) flags.ignoreCase pos)
        let parted := if flags.ignoreCase && uneven env.text [last] (pos + head.length) then .done
          else solution
        (Enumerates env active [⟨[.part whole depth], pos, captured⟩] s y ↔ y = solution) ∧
          (Enumerates env active [⟨[.part split depth], pos, captured⟩] s y ↔ y = parted) ∧
          (Enumerates env active [⟨[.part (.sequence [.literal head flags.ignoreCase,
            .literal [last] flags.ignoreCase]) depth], pos, captured⟩] s y ↔ y = parted) :=
  ⟨_, _, compile_run bare, compile_repeated bare several,
    enumerates_halves (List.cons_ne_nil _ _) flags.ignoreCase⟩

/-- Two letters with a quantifier match their capitals without regard to case. -/
theorem split_run_letters : ['a'] ≠ [] ∧ (∀ c ∈ ['a'] ++ ['b'], isBare c = true) ∧
    ∃ split, compile (['a'] ++ ['b'] ++ onceMark) { ignoreCase := true } .token = .ok split ∧
      ∀ s y, Enumerates ⟨Text.ofString "AB", {}, {}⟩ [] [⟨[.part split 1], 0, []⟩] s y ↔
        y = .just ⟨2, []⟩ := by
  have bare : ∀ c ∈ ['a'] ++ ['b'], isBare c = true := List.all_eq_true.mp (by decide)
  have here : (Text.ofString "AB").Span 0 0 := ⟨Int.le_refl 0, Int.le_refl 0, by decide⟩
  have allows : Settings.Allows {} 3 := ⟨by decide, fun _ h => by cases h⟩
  obtain ⟨matched, even⟩ : literalStop? (Text.ofString "AB") (['a'] ++ ['b']) true 0 = some 2 ∧
      (true && uneven (Text.ofString "AB") ['b'] (0 + (['a'].length : Nat))) = false := by
    decide +kernel
  obtain ⟨whole, split, -, compiled, solved⟩ :=
    split_run (List.cons_ne_nil 'a' []) bare { ignoreCase := true } .token
  refine ⟨List.cons_ne_nil _ _, bare, split, compiled, fun s y => ?_⟩
  have seen := (solved ⟨Text.ofString "AB", {}, {}⟩ [] 1 0 [] s y here allows).2.1
  dsimp only at seen
  rwa [matched, even, if_neg Bool.false_ne_true] at seen

/-- **The sharp `ß` folds to two characters.** The run `ßs` matches `sß`, and it does not any more
    if its last character is repeated once. -/
theorem enumerates_sharp :
    ∃ whole split, compile (['ß'] ++ ['s']) { ignoreCase := true } .token = .ok whole ∧
      compile (['ß'] ++ ['s'] ++ onceMark) { ignoreCase := true } .token = .ok split ∧
      ∀ s y, (Enumerates ⟨Text.ofString "sß", {}, {}⟩ [] [⟨[.part whole 1], 0, []⟩] s y ↔
          y = .just ⟨2, []⟩) ∧
        (Enumerates ⟨Text.ofString "sß", {}, {}⟩ [] [⟨[.part split 1], 0, []⟩] s y ↔
          y = .done) := by
  have bare : ∀ c ∈ ['ß'] ++ ['s'], isBare c = true := List.all_eq_true.mp (by decide)
  have here : (Text.ofString "sß").Span 0 0 := ⟨Int.le_refl 0, Int.le_refl 0, by decide⟩
  have allows : Settings.Allows {} 3 := ⟨by decide, fun _ h => by cases h⟩
  obtain ⟨matched, odd⟩ : literalStop? (Text.ofString "sß") (['ß'] ++ ['s']) true 0 = some 2 ∧
      (true && uneven (Text.ofString "sß") ['s'] (0 + (['ß'].length : Nat))) = true := by
    decide +kernel
  refine ⟨_, _, compile_run bare, compile_repeated bare (List.cons_ne_nil _ _), fun s y => ?_⟩
  obtain ⟨own, parted, -⟩ := enumerates_halves (a := ['ß']) (List.cons_ne_nil 's' []) true
    ⟨Text.ofString "sß", {}, {}⟩ [] 1 0 [] s y here allows
  rw [matched] at own
  rw [odd, if_pos rfl] at parted
  exact ⟨own, parted⟩

end Pattern

end GrammarMatch
