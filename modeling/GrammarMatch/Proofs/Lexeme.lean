/-
  File:      GrammarMatch/Proofs/Lexeme.lean
  Subject:   The kinds of tokens as languages.

  Each kind of token is a regular expression (`TokenKind.lexemes`). Repetitions in it are greedy,
  and where one alternative begins with another the longer comes first, so that what it takes is
  the longest of its words. Every function that says how far a token reaches finds the longest
  word, and the token at a place is the longest word of the one kind that the first character
  allows (`tokenReach_iff`).
-/
import GrammarMatch.Syntax.Token
import GrammarMatch.Proofs.Longest

namespace GrammarMatch.Syntax

open Computability

/-! ## 1. Lexemes -/

/-- What is no stop: a backslash with any character, or another character. -/
def piece (stop : Char) : Language Char :=
  charOf '\\' * anyChar + charsOf fun c => c != stop && c != '\\'

/-- Pieces and the stop after them. -/
def upTo (stop : Char) : Language Char := (piece stop)∗ * charOf stop

/-- The letters of properties. -/
def isPropertyLetter (c : Char) : Bool := c == 'p' || c == 'P'

/-- The name of a property. -/
def propertyName : Language Char := charsOf isNameStart * (charsOf isNameStart)∗

/-- The name of a rule. -/
def ruleName : Language Char := charsOf isNameStart * (charsOf isNameChar)∗

/-- The name of a group and the bracket after it. -/
def groupName : Language Char := charsOf isNameStart * ((charsOf Unicode.isWord)∗ * charOf '>')

/-- What a question mark after the opening bracket says about a group. -/
def groupMark : Language Char :=
  charOf ':' + charOf '=' + charOf '!' + charOf '<' * (charOf '=' + charOf '!' + groupName)

/-- Bounds between braces. -/
def bounds : Language Char := charOf '\x7b' * (charsOf (· != '\x7d'))∗ * charOf '\x7d'

/-- The tokens of a kind. -/
def TokenKind.lexemes : TokenKind → Language Char
  | .quoted => charOf '\'' * upTo '\'' + charOf '"' * upTo '"'
  | .chars => charsOf isBare * (charsOf isBare)∗
  | .charClass => charOf '[' * (1 + charOf '^') * piece ']' * upTo ']'
  | .escape =>
    charOf '\\' *
      (anyChar + charsOf isPropertyLetter * (charOf '\x7b' * (propertyName * charOf '\x7d')))
  | .dot => charOf '.'
  | .caret => charOf '^'
  | .dollar => charOf '$'
  | .reference =>
    charOf '<' * (1 + ruleName * charOf '=') * (1 + charOf '.') * ruleName * charOf '>'
  | .opener => charOf '(' * (1 + charOf '?' * groupMark)
  | .quantifier => (charsOf (fun c => c == '*' || c == '+' || c == '?') + bounds) * (1 + charOf '?')
  | .bar => charOf '|'
  | .closer => charOf ')'

/-! ## 2. Up to a stop -/

section UpTo

variable {stop c : Char}

theorem nil_notMem_piece : [] ∉ piece stop := by
  unfold piece
  simp [-add_eq_sup]

theorem nil_notMem_upTo : [] ∉ upTo stop := by
  unfold upTo
  simp

/-- A backslash takes the character after it. -/
theorem following_piece :
    following c (piece stop) = if c = '\\' then anyChar else if c = stop then 0 else 1 := by
  unfold piece
  rw [following_add, following_mul nil_notMem_charOf, following_charOf, following_charsOf]
  by_cases slash : c = '\\'
  · simp [slash]
  · by_cases stops : c = stop <;> simp [slash, stops]

theorem following_upTo (plain : stop ≠ '\\') :
    following c (upTo stop) =
      if c = '\\' then anyChar * upTo stop else if c = stop then 1 else upTo stop := by
  unfold upTo
  rw [following_kstar_mul nil_notMem_piece, following_piece, following_charOf]
  by_cases slash : c = '\\'
  · rw [if_pos slash, if_pos slash, if_neg (slash.trans_ne plain.symm), add_zero]
  · rw [if_neg slash, if_neg slash]
    by_cases stops : c = stop
    · rw [if_pos stops, if_pos stops, if_pos stops, zero_mul, zero_add]
    · rw [if_neg stops, if_neg stops, if_neg stops, one_mul, add_zero]

/-- A backslash and any character are taken together. -/
theorem Extent.escaped {L M : Language Char} {d : Char} {cs : List Char} {r : Option Nat}
    (visible : [] ∉ L) (slash : following '\\' L = anyChar * M) (h : Extent M cs r) :
    Extent L ('\\' :: d :: cs) (r.map (· + 2)) := by
  have after : Extent (anyChar * M) (d :: cs) (r.map (· + 1)) := by
    refine Extent.cons (by simp) ?_
    rwa [following_mul nil_notMem_anyChar, following_anyChar, one_mul]
  rw [← slash] at after
  have whole := after.cons visible
  rw [Option.map_map] at whole
  exact whole

/-- A lone backslash takes nothing. -/
theorem Extent.lone {L M : Language Char} (visible : [] ∉ L)
    (slash : following '\\' L = anyChar * M) : Extent L ['\\'] none := by
  refine Extent.cons_none visible ?_
  rw [slash]
  exact extent_nil (by simp)

end UpTo

/-! ## 3. How far each kind reaches -/

/-- Up to the closing quote. -/
theorem quotedReach_extent {quote : Char} (plain : quote ≠ '\\') (cs : List Char) :
    Extent (upTo quote) cs (quotedReach quote cs) := by
  have slash : following '\\' (upTo quote) = anyChar * upTo quote := by
    rw [following_upTo plain, if_pos rfl]
  fun_induction quotedReach quote cs with
  | case1 => exact extent_nil nil_notMem_upTo
  | case2 => exact Extent.lone nil_notMem_upTo slash
  | case3 d rest ih => exact Extent.escaped nil_notMem_upTo slash ih
  | case4 c rest _ _ closes =>
    obtain rfl : c = quote := by simpa using closes
    refine Extent.cons_some (n := 0) ?_
    rw [following_upTo plain, if_neg plain, if_pos rfl]
    exact extent_one
  | case5 c rest last inner other ih =>
    have slashless : c ≠ '\\' := by
      rintro rfl
      cases rest with
      | nil => exact last rfl rfl
      | cons d rest => exact inner d rest rfl rfl
    have unquoted : c ≠ quote := by simpa using other
    refine Extent.cons nil_notMem_upTo ?_
    rwa [following_upTo plain, if_neg slashless, if_neg unquoted]

/-- Up to the closing bracket, with one member at least. -/
theorem classReach_extent (hasMember : Bool) (cs : List Char) :
    Extent (if hasMember = true then upTo ']' else piece ']' * upTo ']') cs
      (classReach hasMember cs) := by
  have bracket : ']' ≠ '\\' := by decide
  have visible (hasMember : Bool) :
      [] ∉ (if hasMember = true then upTo ']' else piece ']' * upTo ']') := by
    cases hasMember with
    | true => exact nil_notMem_upTo
    | false => simp [nil_notMem_upTo]
  have slash (hasMember : Bool) :
      following '\\' (if hasMember = true then upTo ']' else piece ']' * upTo ']') =
        anyChar * upTo ']' := by
    cases hasMember with
    | true => rw [if_pos rfl, following_upTo bracket, if_pos rfl]
    | false =>
      rw [if_neg Bool.false_ne_true, following_mul nil_notMem_piece, following_piece, if_pos rfl]
  fun_induction classReach hasMember cs with
  | case1 hasMember => exact extent_nil (visible hasMember)
  | case2 hasMember => exact Extent.lone (visible hasMember) (slash hasMember)
  | case3 hasMember d rest ih => exact Extent.escaped (visible hasMember) (slash hasMember) ih
  | case4 c rest _ _ closes =>
    obtain rfl : c = ']' := by simpa using closes
    rw [if_pos rfl]
    refine Extent.cons_some (n := 0) ?_
    rw [following_upTo bracket, if_neg bracket, if_pos rfl]
    exact extent_one
  | case5 hasMember c rest _ _ closes empty =>
    obtain rfl : c = ']' := by simpa using closes
    rw [if_neg empty]
    refine extent_stuck nil_notMem_piece ?_
    rw [following_piece, if_neg bracket, if_pos rfl]
  | case6 hasMember c rest last inner other ih =>
    have slashless : c ≠ '\\' := by
      rintro rfl
      cases rest with
      | nil => exact last rfl rfl
      | cons d rest => exact inner d rest rfl rfl
    have inside : c ≠ ']' := by simpa using other
    refine Extent.cons (visible hasMember) ?_
    cases hasMember with
    | true =>
      rw [if_pos rfl, following_upTo bracket, if_neg slashless, if_neg inside]
      exact ih
    | false =>
      rw [if_neg Bool.false_ne_true, following_mul nil_notMem_piece, following_piece,
        if_neg slashless, if_neg inside, one_mul]
      exact ih

/-- Before one given character a run of characters that pass a test stops. -/
theorem apart_of {p : Char → Bool} {e : Char} (h : p e = false) (L : Language Char)
    (d : Char) (hd : p d = true) : following d (charOf e * L) = 0 := by
  rw [following_mul nil_notMem_charOf, following_charOf, if_neg, zero_mul]
  rintro rfl
  rw [h] at hd
  cases hd

/-- A run of characters and the character after it. -/
theorem runReach_extent {p : Char → Bool} {e : Char} (apart : p e = false)
    (cs : List Char) :
    Extent ((charsOf p)∗ * charOf e) cs
      (if (cs.drop (cs.takeWhile p).length).head? = some e
        then some ((cs.takeWhile p).length + 1) else none) := by
  have other := apart_of apart 1
  rw [mul_one] at other
  have run := Extent.run other (extent_charOf (w := cs.drop (cs.takeWhile p).length))
  split at run
  next h =>
    rw [if_pos h, Nat.add_comm]
    exact run
  next h =>
    rw [if_neg h]
    exact run

/-- A first letter, a run of characters and what comes after them. -/
theorem wordReach_extent {p : Char → Bool} {L : Language Char} {c : Char} {l : List Char}
    {r : Option Nat} (apart : ∀ d, p d = true → following d L = 0)
    (h : Extent L (l.drop (l.takeWhile p).length) r) :
    Extent (charsOf isNameStart * ((charsOf p)∗ * L)) (c :: l)
      (if isNameStart c = true then r.map (· + ((l.takeWhile p).length + 1)) else none) := by
  have whole := extent_charsOf_mul (p := isNameStart) (c := c) (Extent.run apart h)
  rw [Option.map_map] at whole
  exact whole

/-- The name of a rule and what comes after it, which no character of a name begins. -/
theorem nameReach_extent {L : Language Char} {w : List Char} {r : Option Nat}
    (apart : ∀ d, isNameChar d = true → following d L = 0)
    (h : ∀ n, nameReach w = some n → Extent L (w.drop n) r) :
    Extent (ruleName * L) w ((nameReach w).bind fun n => r.map (· + n)) := by
  unfold ruleName
  rw [mul_assoc]
  cases w with
  | nil => exact extent_nil (by simp)
  | cons c rest =>
    have read : nameReach (c :: rest) =
        if isNameStart c = true then some ((rest.takeWhile isNameChar).length + 1) else none := rfl
    by_cases start : isNameStart c = true
    · rw [if_pos start] at read
      have whole := wordReach_extent (c := c) (l := rest) apart (h _ read)
      rw [if_pos start] at whole
      rw [read]
      exact whole
    · rw [if_neg start] at read
      rw [read]
      refine extent_stuck nil_notMem_charsOf ?_
      rw [following_charsOf, if_neg start]

/-- How far the name of a rule and the bracket after it reach. -/
def bracketReach (cs : List Char) : Option Nat :=
  (nameReach cs).bind fun n => if (cs.drop n).head? = some '>' then some (n + 1) else none

theorem bracketReach_extent (cs : List Char) :
    Extent (ruleName * charOf '>') cs (bracketReach cs) := by
  have apart := apart_of (p := isNameChar) (e := '>') (by decide) 1
  rw [mul_one] at apart
  unfold bracketReach
  cases read : nameReach cs with
  | none =>
    have stuck := nameReach_extent (w := cs) (r := none) apart (by rw [read]; nofun)
    rwa [read] at stuck
  | some n =>
    have whole := nameReach_extent (w := cs) apart
      (by rw [read]; rintro _ ⟨⟩; exact extent_charOf)
    rw [read, Option.bind_some] at whole
    rw [Option.bind_some]
    split at whole
    next h =>
      rw [if_pos h, Nat.add_comm]
      exact whole
    next h =>
      rw [if_neg h]
      exact whole

/-- How far a target reaches, by its point. -/
theorem targetReach_eq (cs : List Char) :
    targetReach cs =
      if cs.head? = some '.' then (bracketReach cs.tail).map (· + 1) else bracketReach cs := by
  unfold targetReach bracketReach
  by_cases pointed : cs.head? = some '.'
  · obtain ⟨rest, rfl⟩ := List.head?_eq_some_iff.mp pointed
    rw [if_pos pointed, List.tail_cons]
    have name : ('.' :: rest).drop 1 = rest := rfl
    simp only [List.head?_cons, beq_self_eq_true, if_true, name]
    cases nameReach rest with
    | none => rfl
    | some n =>
      simp only [Option.bind_some, Nat.add_comm 1 n, List.drop_succ_cons, beq_iff_eq]
      split <;> rfl
  · rw [if_neg pointed]
    have plain : (cs.head? == some '.') = false := by simpa using pointed
    simp only [plain, Bool.false_eq_true, if_false, List.drop_zero, Nat.zero_add]
    cases nameReach cs with
    | none => rfl
    | some n => simp only [Option.bind_some, beq_iff_eq]

/-- An optional point, the name of a rule and the bracket after it. -/
def referenceTarget : Language Char := (1 + charOf '.') * (ruleName * charOf '>')

theorem targetReach_extent (cs : List Char) : Extent referenceTarget cs (targetReach cs) := by
  have split : referenceTarget = ruleName * charOf '>' + charOf '.' * (ruleName * charOf '>') := by
    unfold referenceTarget
    rw [add_mul, one_mul]
  have point := extent_charOf_mul (c := '.') (w := cs) fun _ => bracketReach_extent cs.tail
  rw [split, targetReach_eq]
  by_cases pointed : cs.head? = some '.'
  · rw [if_pos pointed] at point ⊢
    refine Extent.none_add ?_ point
    obtain ⟨rest, rfl⟩ := List.head?_eq_some_iff.mp pointed
    refine extent_stuck (by simp [ruleName]) ?_
    unfold ruleName
    rw [following_mul nil_notMem_charsOf, following_charsOf, if_neg (by decide), zero_mul]
  · rw [if_neg pointed] at point ⊢
    exact (bracketReach_extent cs).add_none point

/-- How far a reference with a name in front reaches, by the equals sign. -/
theorem referenceReach_name {cs : List Char} {n : Nat} (read : nameReach cs = some n) :
    referenceReach cs =
      if (cs.drop n).head? = some '=' then (targetReach (cs.drop (n + 1))).map (· + (n + 1))
      else targetReach cs := by
  unfold referenceReach
  rw [read]
  simp only [beq_iff_eq]

/-- An alias with an equals sign may stand before the target. -/
theorem referenceReach_extent (cs : List Char) :
    Extent ((1 + ruleName * charOf '=') * referenceTarget) cs (referenceReach cs) := by
  have split : (1 + ruleName * charOf '=') * referenceTarget =
      referenceTarget + ruleName * (charOf '=' * referenceTarget) := by
    rw [add_mul, one_mul, mul_assoc]
  have apart := apart_of (p := isNameChar) (e := '=') (by decide) referenceTarget
  rw [split]
  cases read : nameReach cs with
  | none =>
    have stuck := nameReach_extent (w := cs) (r := none) apart (by rw [read]; nofun)
    rw [read] at stuck
    unfold referenceReach
    rw [read]
    exact (targetReach_extent cs).add_none stuck
  | some n =>
    have target := targetReach_extent (cs.drop n).tail
    have aliased := nameReach_extent (w := cs) apart
      (by rw [read]; rintro _ ⟨⟩; exact extent_charOf_mul fun _ => target)
    rw [List.tail_drop, read, Option.bind_some] at aliased
    rw [referenceReach_name read]
    by_cases equals : (cs.drop n).head? = some '='
    · have unaliased : targetReach cs = none := by
        have unpointed : cs.head? ≠ some '.' := by
          intro pointed
          obtain ⟨rest, rfl⟩ := List.head?_eq_some_iff.mp pointed
          cases read
        have unbracketed : (cs.drop n).head? ≠ some '>' := by
          rw [equals]
          decide
        rw [targetReach_eq, if_neg unpointed]
        unfold bracketReach
        rw [read, Option.bind_some, if_neg unbracketed]
      have whole := (unaliased ▸ targetReach_extent cs).none_add aliased
      rw [if_pos equals, Option.map_map] at whole
      rw [if_pos equals]
      convert whole using 2
      funext k
      exact (Nat.add_right_comm k 1 n).symm
    · rw [if_neg equals] at aliased ⊢
      exact (targetReach_extent cs).add_none aliased

/-- The mark that makes a quantifier lazy. -/
theorem lazyReach_extent (cs : List Char) :
    Extent (1 + charOf '?') cs (some (lazyReach cs)) := by
  have mark := (extent_charOf (c := '?') (w := cs)).optional
  have reach : lazyReach cs = (if cs.head? = some '?' then some 1 else none).getD 0 := by
    cases cs with
    | nil => rfl
    | cons c rest =>
      by_cases hc : c = '?'
      · subst hc
        rfl
      · rw [List.head?_cons, if_neg (by simpa using hc)]
        unfold lazyReach
        split
        next h => exact absurd (List.cons.inj h).1 hc
        next => rfl
  rwa [reach]

/-- A run stops at a character that does not pass the test. -/
theorem head?_drop_takeWhile {p : Char → Bool} (cs : List Char) :
    ∀ d ∈ (cs.drop (cs.takeWhile p).length).head?, p d = false := by
  induction cs with
  | nil => nofun
  | cons c rest ih =>
    by_cases hc : p c = true
    · rw [List.takeWhile_cons_of_pos hc]
      exact ih
    · rw [List.takeWhile_cons_of_neg hc]
      rintro _ ⟨⟩
      simpa using hc

/-- Bounds up to the closing brace, and the mark. -/
theorem boundsReach_extent (cs : List Char) :
    Extent ((charsOf (· != '\x7d'))∗ * (charOf '\x7d' * (1 + charOf '?'))) cs (boundsReach cs) := by
  have apart := apart_of (p := (· != '\x7d')) (e := '\x7d') rfl (1 + charOf '?')
  have close := extent_charOf_mul (c := '\x7d') (w := cs.drop (cs.takeWhile (· != '\x7d')).length)
    fun _ => lazyReach_extent _
  have whole := Extent.run apart close
  convert whole using 2
  have first := head?_drop_takeWhile (p := (· != '\x7d')) cs
  unfold boundsReach
  cases rest : cs.drop (cs.takeWhile (· != '\x7d')).length with
  | nil => simp only [rest, List.head?_nil, reduceCtorEq, if_false, Option.map_none]
  | cons d rest' =>
    rw [rest] at first
    obtain rfl : d = '\x7d' := by simpa using first d rfl
    simp only [rest, List.head?_cons, if_true, Option.map_some, List.tail_cons]
    congr 1
    omega

theorem nil_notMem_groupMark : [] ∉ groupMark := by
  unfold groupMark
  simp [-add_eq_sup]

/-- What may follow the first character of a mark. -/
theorem following_groupMark (c : Char) :
    following c groupMark =
      if c = '<' then charOf '=' + charOf '!' + groupName
      else if c = ':' ∨ c = '=' ∨ c = '!' then 1 else 0 := by
  unfold groupMark
  rw [following_add, following_add, following_add, following_mul nil_notMem_charOf,
    following_charOf, following_charOf, following_charOf, following_charOf]
  by_cases named : c = '<'
  · subst named
    simp [-add_eq_sup]
  · rw [if_neg named, if_neg named, zero_mul, add_zero]
    by_cases h1 : c = ':'
    · subst h1
      simp
    · by_cases h2 : c = '='
      · subst h2
        simp
      · by_cases h3 : c = '!' <;> simp [h1, h2, h3]

/-- What may follow the first character after `<`. -/
theorem following_groupName (c : Char) :
    following c (charOf '=' + charOf '!' + groupName) =
      if c = '=' ∨ c = '!' then 1
      else if isNameStart c = true then (charsOf Unicode.isWord)∗ * charOf '>' else 0 := by
  unfold groupName
  rw [following_add, following_add, following_mul nil_notMem_charsOf, following_charsOf,
    following_charOf, following_charOf]
  by_cases h1 : c = '='
  · subst h1
    simp [isNameStart]
  · by_cases h2 : c = '!'
    · subst h2
      simp [isNameStart]
    · by_cases h3 : isNameStart c = true <;> simp [h1, h2, h3]

/-- How far a mark reaches after `<`: a look behind, or a name up to the closing bracket. -/
def angleReach : List Char → Option Nat
  | [] => none
  | c :: rest =>
    if c = '=' ∨ c = '!' then some 1
    else if isNameStart c &&
        (rest.drop (rest.takeWhile Unicode.isWord).length).head? == some '>'
      then some ((rest.takeWhile Unicode.isWord).length + 2) else none

theorem angleReach_extent (cs : List Char) :
    Extent (charOf '=' + charOf '!' + groupName) cs (angleReach cs) := by
  have visible : [] ∉ charOf '=' + charOf '!' + groupName := by simp [groupName, -add_eq_sup]
  cases cs with
  | nil => exact extent_nil visible
  | cons c rest =>
    have follows := following_groupName c
    simp only [angleReach]
    by_cases look : c = '=' ∨ c = '!'
    · rw [if_pos look] at follows ⊢
      exact Extent.cons_some (follows ▸ extent_one)
    · rw [if_neg look] at follows ⊢
      have run := runReach_extent (p := Unicode.isWord) (e := '>') (by decide) rest
      by_cases start : isNameStart c = true
      · rw [if_pos start] at follows
        have whole := Extent.cons visible (follows ▸ run)
        simp only [start, Bool.true_and, beq_iff_eq]
        split at whole
        next h =>
          rw [if_pos h]
          exact whole
        next h =>
          rw [if_neg h]
          exact whole
      · rw [if_neg start] at follows
        simp only [start, Bool.false_and, Bool.false_eq_true, if_false]
        exact Extent.cons_none visible (follows ▸ extent_zero)

/-- How far the mark of a group reaches, by its first character. -/
def markReach : List Char → Option Nat
  | [] => none
  | c :: rest =>
    if c = '<' then (angleReach rest).map (· + 1)
    else if c = ':' ∨ c = '=' ∨ c = '!' then some 1 else none

theorem markReach_extent (cs : List Char) : Extent groupMark cs (markReach cs) := by
  cases cs with
  | nil => exact extent_nil nil_notMem_groupMark
  | cons c rest =>
    have follows := following_groupMark c
    simp only [markReach]
    by_cases angle : c = '<'
    · rw [if_pos angle] at follows ⊢
      exact Extent.cons nil_notMem_groupMark (follows ▸ angleReach_extent rest)
    · rw [if_neg angle] at follows ⊢
      by_cases single : c = ':' ∨ c = '=' ∨ c = '!'
      · rw [if_pos single] at follows ⊢
        exact Extent.cons_some (follows ▸ extent_one)
      · rw [if_neg single] at follows ⊢
        exact Extent.cons_none nil_notMem_groupMark (follows ▸ extent_zero)

/-- A group has a mark only after a question mark. -/
theorem openerReach_eq (cs : List Char) :
    openerReach cs =
      (if cs.head? = some '?' then (markReach cs.tail).map (· + 1) else none).getD 0 := by
  fun_cases openerReach cs with
  | case1 | case2 | case3 | case4 | case5 => rfl
  | case6 c rest equals bang name closed =>
    have other : ¬(c = '=' ∨ c = '!') := by simpa using ⟨equals, bang⟩
    simp only [List.head?_cons, List.tail_cons, markReach, angleReach, if_true, if_neg other]
    rw [if_pos closed]
    rfl
  | case7 c rest equals bang name unclosed =>
    have other : ¬(c = '=' ∨ c = '!') := by simpa using ⟨equals, bang⟩
    simp only [List.head?_cons, List.tail_cons, markReach, angleReach, if_true, if_neg other]
    rw [if_neg unclosed]
    rfl
  | case8 _ colon equals bang behind notBehind name =>
    by_cases question : cs.head? = some '?'
    · obtain ⟨rest, rfl⟩ := List.head?_eq_some_iff.mp question
      have unmarked : markReach rest = none := by
        cases rest with
        | nil => rfl
        | cons d rest =>
          simp only [markReach]
          by_cases angle : d = '<'
          · subst angle
            cases rest with
            | nil => rfl
            | cons e rest => exact absurd rfl (name e rest)
          · rw [if_neg angle, if_neg]
            rintro (rfl | rfl | rfl)
            · exact colon rest rfl
            · exact equals rest rfl
            · exact bang rest rfl
      rw [if_pos question, List.tail_cons, unmarked]
      rfl
    · rw [if_neg question]
      rfl

/-- A mark of the kind of a group, or its name. -/
theorem openerReach_extent (cs : List Char) :
    Extent (1 + charOf '?' * groupMark) cs (some (openerReach cs)) := by
  have mark := extent_charOf_mul (c := '?') (w := cs) fun _ => markReach_extent cs.tail
  rw [openerReach_eq]
  exact mark.optional

/-- How far the name of a property and the brace after it reach. -/
def propertyReach (cs : List Char) : Option Nat :=
  if !(cs.takeWhile isNameStart).isEmpty &&
      (cs.drop (cs.takeWhile isNameStart).length).head? == some '\x7d'
    then some ((cs.takeWhile isNameStart).length + 1) else none

theorem propertyReach_extent (cs : List Char) :
    Extent (propertyName * charOf '\x7d') cs (propertyReach cs) := by
  have apart := apart_of (p := isNameStart) (e := '\x7d') (by decide) 1
  rw [mul_one] at apart
  unfold propertyName propertyReach
  rw [mul_assoc]
  cases cs with
  | nil => exact extent_nil (by simp)
  | cons c rest =>
    have whole := wordReach_extent (c := c) (l := rest) apart extent_charOf
    by_cases start : isNameStart c = true
    · rw [if_pos start] at whole
      rw [List.takeWhile_cons_of_pos start, List.length_cons, List.drop_succ_cons]
      simp only [List.isEmpty_cons, Bool.not_false, Bool.true_and, beq_iff_eq]
      split at whole
      next h =>
        rw [if_pos h]
        rw [Option.map_some, Nat.add_comm] at whole
        exact whole
      next h =>
        rw [if_neg h]
        exact whole
    · rw [if_neg start] at whole
      rw [List.takeWhile_cons_of_neg start]
      exact whole

/-- How far an escape reaches, by its letter and the brace after it. -/
theorem escapeReach_eq (c : Char) (rest : List Char) :
    escapeReach (c :: rest) =
      some ((if isPropertyLetter c = true then
        (if rest.head? = some '\x7b' then (propertyReach rest.tail).map (· + 1) else none).getD 0
        else 0) + 1) := by
  by_cases brace : rest.head? = some '\x7b'
  · obtain ⟨body, rfl⟩ := List.head?_eq_some_iff.mp brace
    rw [if_pos brace, List.tail_cons, escapeReach.eq_2]
    show _ = some ((if (c == 'p' || c == 'P') = true then _ else 0) + 1)
    by_cases letter : (c == 'p' || c == 'P') = true
    · unfold propertyReach
      simp only [letter, Bool.true_and, if_true]
      split <;> rfl
    · rw [if_neg letter, if_neg]
      intro all
      simp only [Bool.and_eq_true] at all
      exact letter all.1.1
  · have plain : ∀ body, rest = '\x7b' :: body → False := by
      rintro body rfl
      exact brace rfl
    rw [if_neg brace, escapeReach.eq_3 c rest plain]
    split <;> rfl

/-- What a backslash escapes: the braces after a letter of a property, else one character. -/
theorem escapeReach_extent (cs : List Char) :
    Extent (anyChar + charsOf isPropertyLetter * (charOf '\x7b' * (propertyName * charOf '\x7d')))
      cs (escapeReach cs) := by
  cases cs with
  | nil => exact extent_nil (by simp [-add_eq_sup])
  | cons c rest =>
    rw [escapeReach_eq]
    refine Extent.cons_some ?_
    rw [following_add, following_anyChar, following_mul nil_notMem_charsOf, following_charsOf]
    by_cases letter : isPropertyLetter c = true
    · rw [if_pos letter, if_pos letter, one_mul]
      exact (extent_charOf_mul fun _ => propertyReach_extent rest.tail).optional
    · rw [if_neg letter, if_neg letter, zero_mul, add_zero]
      exact extent_one

/-! ## 4. Tokens -/

/-- The kind of the token that begins with a character. -/
def kindOf? (c : Char) : Option TokenKind :=
  match c with
  | '(' => some .opener
  | ')' => some .closer
  | '|' => some .bar
  | '*' | '+' | '?' | '\x7b' => some .quantifier
  | '.' => some .dot
  | '^' => some .caret
  | '$' => some .dollar
  | '<' => some .reference
  | '\'' | '"' => some .quoted
  | '\\' => some .escape
  | '[' => some .charClass
  | _ => if isBare c then some .chars else none

/-- How many characters after the first one belong to a token of a kind. -/
def TokenKind.reach (c : Char) (cs : List Char) : TokenKind → Option Nat
  | .quoted => quotedReach c cs
  | .chars => some (cs.takeWhile isBare).length
  | .charClass => classReach false cs
  | .escape => escapeReach cs
  | .reference => referenceReach cs
  | .opener => some (openerReach cs)
  | .quantifier => if c = '\x7b' then boundsReach cs else some (lazyReach cs)
  | .dot | .caret | .dollar | .bar | .closer => some 0

/-- The first character decides the kind of a token, and the kind how far it reaches. -/
theorem tokenReach_eq (c : Char) (cs : List Char) :
    tokenReach c cs = (kindOf? c).bind fun kind => (kind.reach c cs).map fun n => (kind, n) := by
  unfold tokenReach
  split
  case h_16 =>
    have other : kindOf? c = if isBare c = true then some .chars else none := by
      unfold kindOf?
      split
      case h_16 => rfl
      all_goals contradiction
    rw [other]
    split <;> rfl
  all_goals rfl

theorem kindOf?_bare {c : Char} (bare : isBare c = true) : kindOf? c = some .chars := by
  unfold kindOf?
  split
  case h_16 => exact if_pos bare
  all_goals exact absurd bare (by decide)

/-- **The first character of a word decides its kind.** -/
theorem kindOf?_of_mem {kind : TokenKind} {c : Char} {w : List Char} (h : c :: w ∈ kind.lexemes) :
    kindOf? c = some kind := by
  cases kind with
  | quoted =>
    rcases (Language.mem_add _ _ _).mp h with single | double
    · obtain ⟨rfl, _⟩ := mem_charOf_mul.mp single
      rfl
    · obtain ⟨rfl, _⟩ := mem_charOf_mul.mp double
      rfl
  | chars => exact kindOf?_bare (mem_charsOf_mul.mp h).1
  | charClass =>
    simp only [TokenKind.lexemes, mul_assoc] at h
    obtain ⟨rfl, _⟩ := mem_charOf_mul.mp h
    rfl
  | escape =>
    obtain ⟨rfl, _⟩ := mem_charOf_mul.mp h
    rfl
  | reference =>
    simp only [TokenKind.lexemes, mul_assoc] at h
    obtain ⟨rfl, _⟩ := mem_charOf_mul.mp h
    rfl
  | opener =>
    obtain ⟨rfl, _⟩ := mem_charOf_mul.mp h
    rfl
  | quantifier =>
    simp only [TokenKind.lexemes, bounds, add_mul, mul_assoc] at h
    rcases (Language.mem_add _ _ _).mp h with mark | braces
    · have first := (mem_charsOf_mul.mp mark).1
      simp only [Bool.or_eq_true, beq_iff_eq] at first
      rcases first with (rfl | rfl) | rfl <;> rfl
    · obtain ⟨rfl, _⟩ := mem_charOf_mul.mp braces
      rfl
  | dot | caret | dollar | bar | closer =>
    obtain ⟨rfl, _⟩ := mem_charOf.mp h
    rfl

theorem nil_notMem_lexemes (kind : TokenKind) : [] ∉ kind.lexemes := by
  cases kind <;> simp [TokenKind.lexemes, bounds, -add_eq_sup]

/-- Characters that begin no token of a kind hold no longest one. -/
theorem extent_of_other {kind : TokenKind} {c : Char} {cs : List Char}
    (h : kindOf? c ≠ some kind) : Extent kind.lexemes (c :: cs) none := by
  intro n hn
  cases n with
  | zero => exact nil_notMem_lexemes kind
  | succ n => exact fun mem => h (kindOf?_of_mem mem)

/-- The characters with which tokens of a kind begin. -/
def TokenKind.Begins (c : Char) : TokenKind → Prop
  | .quoted => c = '\'' ∨ c = '"'
  | .chars => isBare c = true
  | .charClass => c = '['
  | .escape => c = '\\'
  | .dot => c = '.'
  | .caret => c = '^'
  | .dollar => c = '$'
  | .reference => c = '<'
  | .opener => c = '('
  | .quantifier => c = '*' ∨ c = '+' ∨ c = '?' ∨ c = '\x7b'
  | .bar => c = '|'
  | .closer => c = ')'

theorem begins_of_kindOf? {kind : TokenKind} {c : Char} (h : kindOf? c = some kind) :
    kind.Begins c := by
  unfold kindOf? at h
  split at h
  case h_16 =>
    split at h
    next bare =>
      obtain rfl := Option.some.inj h
      exact bare
    next => cases h
  all_goals
    obtain rfl := Option.some.inj h
    simp [TokenKind.Begins]

/-- A caret after the opening bracket may as well be a member. -/
theorem caret_absorbed : (1 + charOf '^') * (piece ']' * upTo ']') = piece ']' * upTo ']' := by
  have member : charOf '^' ≤ piece ']' := by
    rintro w ⟨c, hc, rfl⟩
    obtain rfl : c = '^' := by simpa using hc
    exact (Language.mem_add _ _ _).mpr (Or.inr ⟨'^', by decide, rfl⟩)
  have more : piece ']' * upTo ']' ≤ upTo ']' := by
    conv_rhs => rw [upTo, kstar_mul]
    exact le_self_add
  rw [add_mul, one_mul, add_eq_left_iff_le]
  exact mul_le_mul' member more

/-- A token reaches as far as the longest word of its kind. -/
theorem reach_extent {kind : TokenKind} {c : Char} {w : List Char} (h : kindOf? c = some kind) :
    Extent kind.lexemes (c :: w) ((kind.reach c w).map (· + 1)) := by
  have begins := begins_of_kindOf? h
  refine Extent.cons (nil_notMem_lexemes kind) ?_
  cases kind with
  | quoted =>
    show Extent (following c (charOf '\'' * upTo '\'' + charOf '"' * upTo '"')) w
      (quotedReach c w)
    rw [following_add, following_mul nil_notMem_charOf, following_mul nil_notMem_charOf,
      following_charOf, following_charOf]
    rcases begins with rfl | rfl
    · rw [if_pos rfl, if_neg (by decide), one_mul, zero_mul, add_zero]
      exact quotedReach_extent (by decide) w
    · rw [if_pos rfl, if_neg (by decide), one_mul, zero_mul, zero_add]
      exact quotedReach_extent (by decide) w
  | chars =>
    have bare : isBare c = true := begins
    show Extent (following c (charsOf isBare * (charsOf isBare)∗)) w _
    rw [following_mul nil_notMem_charsOf, following_charsOf, if_pos bare, one_mul]
    exact extent_run
  | charClass =>
    obtain rfl : c = '[' := begins
    have first : following '[' TokenKind.charClass.lexemes = piece ']' * upTo ']' := by
      rw [TokenKind.lexemes, mul_assoc, mul_assoc, following_mul nil_notMem_charOf,
        following_charOf, if_pos rfl, one_mul, caret_absorbed]
    rw [first]
    exact classReach_extent false w
  | escape =>
    obtain rfl : c = '\\' := begins
    show Extent (following '\\' (charOf '\\' * _)) w (escapeReach w)
    rw [following_mul nil_notMem_charOf, following_charOf, if_pos rfl, one_mul]
    exact escapeReach_extent w
  | reference =>
    obtain rfl : c = '<' := begins
    have first : following '<' (TokenKind.reference.lexemes) =
        (1 + ruleName * charOf '=') * referenceTarget := by
      simp only [TokenKind.lexemes, referenceTarget, mul_assoc]
      rw [following_mul nil_notMem_charOf, following_charOf, if_pos rfl, one_mul]
    rw [first]
    exact referenceReach_extent w
  | opener =>
    obtain rfl : c = '(' := begins
    show Extent (following '(' (charOf '(' * _)) w (some (openerReach w))
    rw [following_mul nil_notMem_charOf, following_charOf, if_pos rfl, one_mul]
    exact openerReach_extent w
  | quantifier =>
    have first : following c TokenKind.quantifier.lexemes =
        if c = '\x7b' then (charsOf (· != '\x7d'))∗ * (charOf '\x7d' * (1 + charOf '?'))
        else 1 + charOf '?' := by
      simp only [TokenKind.lexemes, bounds, add_mul, mul_assoc]
      rw [following_add, following_mul nil_notMem_charsOf, following_mul nil_notMem_charOf,
        following_charsOf, following_charOf]
      rcases begins with rfl | rfl | rfl | rfl <;> simp
    rw [first]
    show Extent _ w (if c = '\x7b' then boundsReach w else some (lazyReach w))
    split
    next => exact boundsReach_extent w
    next => exact lazyReach_extent w
  | dot | caret | dollar | bar | closer =>
    have first : following c (charOf c) = 1 := by rw [following_charOf, if_pos rfl]
    obtain rfl := begins
    exact first ▸ extent_one

/-- **A token is the longest word of its kind with which the characters begin**, and of no other
    kind do they begin with a word. -/
theorem tokenReach_iff {c : Char} {cs : List Char} {kind : TokenKind} {n : Nat} :
    tokenReach c cs = some (kind, n) ↔ Extent kind.lexemes (c :: cs) (some (n + 1)) := by
  rw [tokenReach_eq]
  constructor
  · intro h
    obtain ⟨found, begins, reached⟩ := Option.bind_eq_some_iff.mp h
    obtain ⟨k, reaches, same⟩ := Option.map_eq_some_iff.mp reached
    obtain ⟨rfl, rfl⟩ := Prod.mk.inj same
    have extent := reach_extent (w := cs) begins
    rwa [reaches] at extent
  · intro h
    have begins : kindOf? c = some kind := by
      by_contra other
      cases h.unique (extent_of_other other)
    have reaches := (reach_extent (w := cs) begins).unique h
    obtain ⟨k, hk, same⟩ := Option.map_eq_some_iff.mp reaches
    obtain rfl := Nat.succ.inj same
    rw [begins, Option.bind_some, hk, Option.map_some]

end GrammarMatch.Syntax
