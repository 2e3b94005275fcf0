/-
  File:      GrammarMatch/Proofs/WrittenMarks.lean
  Subject:   References, bounds, openers and anchors are read back from what is written for them.

  As for classes there are two facts for each: what is written is read as one token, and the token
  means what was written.
-/
import GrammarMatch.Proofs.WrittenClasses

namespace GrammarMatch

open Syntax

/-! ## 1. References -/

section References

variable {s : String}

theorem isNameChar_of_start {c : Char} (h : isNameStart c = true) : isNameChar c = true := by
  unfold isNameStart at h
  unfold isNameChar Unicode.isWord Unicode.isAlphanumeric
  rcases Bool.or_eq_true_iff.mp h with letter | underscore
  · have small : c.toNat < 0x80 := by
      unfold Char.isAlpha Char.isUpper Char.isLower at letter
      simp only [Bool.or_eq_true, decide_eq_true_eq, ge_iff_le, Bool.and_eq_true] at letter
      rcases letter with ⟨_, le⟩ | ⟨_, le⟩
      · exact Nat.lt_of_le_of_lt (UInt32.le_iff_toNat_le.mp le) (by decide)
      · exact Nat.lt_of_le_of_lt (UInt32.le_iff_toNat_le.mp le) (by decide)
    rw [if_pos small]
    unfold Char.isAlphanum
    rw [letter]
    simp
  · rw [underscore]
    rfl

theorem NameOf.chars (h : NameOf isNameChar s) : ∀ d ∈ s.toList, isNameChar d = true := by
  obtain ⟨c, cs, chars, start, rest⟩ := h
  rw [chars]
  exact List.forall_mem_cons.mpr ⟨isNameChar_of_start start, rest⟩

theorem NameOf.ne {d : Char} (h : NameOf isNameChar s) (hd : isNameChar d = false) :
    ∀ c ∈ s.toList, c ≠ d := by
  rintro c hc rfl
  rw [h.chars c hc] at hd
  cases hd

/-- A name does not begin with what begins no name. -/
theorem NameOf.head_ne {allowed : Char → Bool} (h : NameOf allowed s) {d : Char}
    (hd : isNameStart d = false) (rest : List Char) : (s.toList ++ rest).head? ≠ some d := by
  obtain ⟨c, cs, chars, start, _⟩ := h
  rw [chars]
  intro same
  exact ne_of_nameStart start hd (Option.some.inj same)

/-- A name is read up to a character that is none of a name. -/
theorem nameReach_name (h : NameOf isNameChar s) {d : Char} (hd : isNameChar d = false)
    (rest : List Char) : nameReach (s.toList ++ d :: rest) = some s.toList.length := by
  obtain ⟨c, cs, chars, start, others⟩ := h
  rw [chars, List.cons_append, nameReach, if_pos start, takeWhile_run others hd]
  rfl

theorem targetReach_name (h : NameOf isNameChar s) (rest : List Char) :
    targetReach (s.toList ++ '>' :: rest) = some (s.toList.length + 1) := by
  have point : ((s.toList ++ '>' :: rest).head? == some '.') = false :=
    beq_false_of_ne (h.head_ne rfl _)
  simp only [targetReach, point, Bool.false_eq_true, if_false, List.drop_zero,
    nameReach_name h (d := '>') rfl rest, Nat.zero_add, List.drop_left, List.head?_cons,
    beq_self_eq_true, if_true]

theorem targetReach_point (h : NameOf isNameChar s) (rest : List Char) :
    targetReach ('.' :: (s.toList ++ '>' :: rest)) = some (s.toList.length + 2) := by
  have read := nameReach_name h (d := '>') rfl rest
  have behind : ('.' :: (s.toList ++ '>' :: rest)).drop (1 + s.toList.length) = '>' :: rest := by
    rw [Nat.add_comm, List.drop_succ_cons, List.drop_left]
  simp only [targetReach, List.head?_cons, beq_self_eq_true, if_true, List.drop_succ_cons,
    List.drop_zero, read, behind]
  congr 1
  omega

theorem lexical_reference {r : Reference} (h : r.Writable) : Lexical .reference r.render := by
  refine ⟨by decide, by decide, by decide, fun rest _ => ?_⟩
  show (referenceReach _).map _ = _
  rw [List.append_assoc, List.singleton_append, List.length_append]
  cases alternative : r.alias? with
  | some a =>
    obtain ⟨name, _⟩ := h.alternative a alternative
    simp only [List.append_assoc, List.cons_append, referenceReach,
      nameReach_name name (d := '=') rfl, List.drop_left, List.head?_cons, beq_self_eq_true, if_true]
    have behind : (a.toList ++ '=' :: (r.name.toList ++ '>' :: rest)).drop (a.toList.length + 1) =
        r.name.toList ++ '>' :: rest := by
      rw [← List.drop_drop, List.drop_left]
      rfl
    rw [behind, targetReach_name h.name]
    simp only [Option.map_some, List.length_append, List.length_cons, List.length_nil]
    congr 2
    omega
  | none =>
    cases captured : r.capture with
    | true =>
      simp only [if_true, referenceReach, nameReach_name h.name (d := '>') rfl, List.drop_left,
        List.head?_cons]
      rw [if_neg (by decide), targetReach_name h.name]
      rfl
    | false =>
      have pointless : nameReach ('.' :: (r.name.toList ++ '>' :: rest)) = none := rfl
      simp only [Bool.false_eq_true, if_false, List.cons_append, referenceReach, pointless,
        targetReach_point h.name]
      rfl

theorem dropPoints_name (h : NameOf isNameChar s) :
    s.toList.dropWhile (· == '.') = s.toList := by
  obtain ⟨c, cs, chars, start, _⟩ := h
  rw [chars, List.dropWhile_cons_of_neg (by simpa using ne_of_nameStart start rfl)]

/-- A name is all that stands before an equals sign. -/
theorem takeWhile_name (h : NameOf isNameChar s) (rest : List Char) :
    (s.toList ++ rest).takeWhile (· != '=') = s.toList ++ rest.takeWhile (· != '=') :=
  List.takeWhile_append_of_pos fun c hc => by simpa using h.ne (d := '=') rfl c hc

/-- **A reference is read back from what is written for it.** -/
theorem referenceOf_reference {r : Reference} (h : r.Writable) (offset : Nat) :
    referenceOf ⟨.reference, r.render, offset⟩ = r := by
  obtain ⟨name, alternative, capture⟩ := r
  have plain : name.toList.takeWhile (· != '=') = name.toList := by
    simpa using takeWhile_name h.name []
  simp only [referenceOf, Reference.render, inside_between]
  cases alternative with
  | some a =>
    obtain ⟨alias_name, captured⟩ := h.alternative a rfl
    obtain rfl : capture = true := captured
    have left : (a.toList ++ '=' :: name.toList).takeWhile (· != '=') = a.toList := by
      rw [takeWhile_name alias_name, List.takeWhile_cons_of_neg (by decide), List.append_nil]
    have assigned : (a.toList.length == (a.toList ++ '=' :: name.toList).length) = false := by
      refine beq_false_of_ne ?_
      rw [List.length_append, List.length_cons]
      omega
    have behind : (a.toList ++ '=' :: name.toList).drop (a.toList.length + 1) = name.toList := by
      rw [← List.drop_drop, List.drop_left]
      rfl
    simp only [left, assigned, behind, dropPoints_name h.name, String.ofList_toList,
      Bool.false_eq_true, if_false]
  | none =>
    cases capture with
    | true =>
      have start : (name.toList.head? != some '.') = true := by
        simpa using h.name.head_ne (d := '.') rfl []
      simp only [if_true, plain, beq_self_eq_true, dropPoints_name h.name, String.ofList_toList,
        start]
    | false =>
      have left : ('.' :: name.toList).takeWhile (· != '=') = '.' :: name.toList := by
        rw [List.takeWhile_cons_of_pos (by decide), plain]
      have point : ('.' :: name.toList).dropWhile (· == '.') = name.toList := by
        rw [List.dropWhile_cons_of_pos (by decide), dropPoints_name h.name]
      simp only [Bool.false_eq_true, if_false, left, beq_self_eq_true, if_true, point,
        String.ofList_toList, List.head?_cons, bne_self_eq_false]

end References

/-! ## 2. Bounds -/

section Digits

/-- A decimal digit: it has a value, and means nothing else. -/
structure IsDigit (c : Char) : Prop where
  value : (Integer.digit? c).isSome = true
  padding : Integer.isPadding c = false
  sign : c ≠ '+' ∧ c ≠ '-'
  mark : c ≠ ' ' ∧ c ≠ ',' ∧ c ≠ '\x7d'

theorem digitChar_spec {d : Nat} (h : d < 10) :
    Integer.digit? d.digitChar = some d ∧ IsDigit d.digitChar := by
  have all : ∀ d < 10, Integer.digit? d.digitChar = some d ∧
      Integer.isPadding d.digitChar = false ∧ (d.digitChar ≠ '+' ∧ d.digitChar ≠ '-') ∧
        d.digitChar ≠ ' ' ∧ d.digitChar ≠ ',' ∧ d.digitChar ≠ '\x7d' := by decide
  obtain ⟨value, padding, sign, mark⟩ := all d h
  exact ⟨value, by rw [value]; rfl, padding, sign, mark⟩

/-- The number that digits stand for, after a number that was read before. -/
def valueOf (before : Nat) (cs : List Char) : Nat :=
  cs.foldl (fun value c => value * 10 + (Integer.digit? c).getD 0) before

theorem toDigits_spec (n : Nat) :
    (∀ c ∈ Nat.toDigits 10 n, IsDigit c) ∧ valueOf 0 (Nat.toDigits 10 n) = n := by
  induction n using Nat.strongRecOn with
  | ind n ih =>
    rw [Nat.toDigits_eq_if (by decide)]
    split
    · rename_i small
      obtain ⟨value, isDigit⟩ := digitChar_spec small
      refine ⟨List.forall_mem_singleton.mpr isDigit, ?_⟩
      show 0 * 10 + (Integer.digit? n.digitChar).getD 0 = n
      rw [value]
      exact Nat.zero_add n
    · obtain ⟨value, isDigit⟩ := digitChar_spec (Nat.mod_lt n (y := 10) (by decide))
      obtain ⟨digits, before⟩ := ih (n / 10) (by omega)
      refine ⟨List.forall_mem_append.mpr ⟨digits, List.forall_mem_singleton.mpr isDigit⟩, ?_⟩
      unfold valueOf at before ⊢
      rw [List.foldl_append, before]
      show n / 10 * 10 + (Integer.digit? (n % 10).digitChar).getD 0 = n
      rw [value]
      exact Nat.div_add_mod' n 10

/-- Digits are read as their number, if they are not too many. -/
theorem readDigits_digits {cs : List Char} (digits : ∀ c ∈ cs, IsDigit c) (value count : Nat)
    (short : count + cs.length ≤ Integer.maxDigits) :
    Integer.readDigits value count cs = some (valueOf value cs, count + cs.length, []) := by
  induction cs generalizing value count with
  | nil => rfl
  | cons c cs ih =>
    obtain ⟨isDigit, digits⟩ := List.forall_mem_cons.mp digits
    obtain ⟨d, hd⟩ := Option.isSome_iff_exists.mp isDigit.value
    rw [List.length_cons] at short
    have next : Integer.withDigit value (count + 1) d = value * 10 + d := if_pos (by omega)
    unfold Integer.readDigits
    simp only [hd, next]
    rw [ih digits _ _ (by omega)]
    unfold valueOf
    rw [List.foldl_cons, hd, List.length_cons, Option.getD_some, Nat.add_right_comm]
    rfl

/-- **An integer is read back from its digits**, if they are not too many. -/
theorem read_digits {n : Int} (least : 0 ≤ n) (short : (digits n).length ≤ Integer.maxDigits) :
    Integer.read (digits n) = .ok n := by
  obtain ⟨isDigit, value⟩ := toDigits_spec n.toNat
  unfold digits at short ⊢
  have read := readDigits_digits isDigit 0 0 (by omega)
  rw [value] at read
  cases h : Nat.toDigits 10 n.toNat with
  | nil => exact absurd h Nat.toDigits_ne_nil
  | cons c cs =>
    rw [h] at read isDigit short
    have first := isDigit c List.mem_cons_self
    have unpadded : (c :: cs).dropWhile Integer.isPadding = c :: cs :=
      List.dropWhile_cons_of_neg (by simp [first.padding])
    have unsigned : Integer.splitSign (c :: cs) = (false, c :: cs) := by
      unfold Integer.splitSign
      split
      · rename_i h
        exact absurd (List.head_eq_of_cons_eq h) first.sign.1
      · rename_i h
        exact absurd (List.head_eq_of_cons_eq h) first.sign.2
      · rfl
    have known : (Integer.digit? c).isNone = false := by simpa using first.value
    have few : ¬Integer.maxDigits < 0 + (c :: cs).length := by omega
    simp only [Integer.read, unpadded, unsigned, known, read, if_neg few, Bool.false_eq_true,
      if_false, List.all_nil, if_true, Int.toNat_of_nonneg least]

end Digits

/-- The bounds of a repetition between their braces. -/
def Quantity.inner (q : Quantity) : List Char :=
  digits q.min ++ ',' :: upperDigits q.max

theorem Quantity.render_eq (q : Quantity) :
    q.render = '\x7b' :: (q.inner ++ '\x7d' :: if q.greedy then [] else ['?']) := by
  unfold Quantity.render Quantity.inner
  rw [List.append_assoc]
  rfl

theorem Quantity.mem_inner {q : Quantity} {c : Char} (h : c ∈ q.inner) :
    c ≠ ' ' ∧ c ≠ '\x7d' := by
  have digit (n : Int) (hc : c ∈ digits n) : c ≠ ' ' ∧ c ≠ '\x7d' := by
    have mark := ((toDigits_spec n.toNat).1 c hc).mark
    exact ⟨mark.1, mark.2.2⟩
  rcases List.mem_append.mp h with h | h
  · exact digit _ h
  · rcases List.mem_cons.mp h with rfl | h
    · exact ⟨by decide, by decide⟩
    · cases max : q.max with
      | some high =>
        rw [max] at h
        exact digit high h
      | none =>
        rw [max] at h
        cases h

theorem lexical_bounds (q : Quantity) : Lexical .quantifier q.render := by
  rw [q.render_eq]
  refine ⟨by decide, by decide, by decide, fun rest plain => ?_⟩
  show (boundsReach _).map _ = _
  rw [List.append_assoc, List.cons_append]
  have taken (rest : List Char) :
      (q.inner ++ '\x7d' :: rest).takeWhile (· != '\x7d') = q.inner :=
    takeWhile_run (fun c hc => by simpa using (Quantity.mem_inner hc).2) rfl rest
  have lazy_mark : lazyReach ((if q.greedy then [] else ['?']) ++ rest) =
      (if q.greedy then [] else ['?'] : List Char).length := by
    cases q.greedy with
    | true =>
      show lazyReach rest = 0
      unfold lazyReach
      split
      · exact absurd rfl plain
      · rfl
    | false => rfl
  simp only [boundsReach, taken, List.drop_left, lazy_mark, Option.map_some, List.length_append,
    List.length_cons]
  congr 2
  omega

theorem readBound_digits {n : Int} (least : 0 ≤ n)
    (short : (digits n).length ≤ Integer.maxDigits) (absent : Option Int) :
    readBound absent (digits n) = some (some n) := by
  have some_digit : (digits n).isEmpty = false :=
    List.isEmpty_eq_false_iff.mpr Nat.toDigits_ne_nil
  simp only [readBound, some_digit, read_digits least short, Bool.false_eq_true, if_false]

theorem readBound_upper {q : Quantity} (h : q.Writable) :
    readBound none (upperDigits q.max) = some q.max := by
  cases upper : q.max with
  | none => rfl
  | some max =>
    exact readBound_digits (Int.le_trans h.least (h.ordered max upper)) (h.shortMax max upper) none

theorem readBounds_inner {q : Quantity} (h : q.Writable) (t : Token) :
    readBounds t q.greedy q.inner = .ok q := by
  have low : q.inner.takeWhile (· != ',') = digits q.min :=
    takeWhile_run (fun c hc => by simpa using ((toDigits_spec q.min.toNat).1 c hc).mark.2.1) rfl _
  have behind : q.inner.drop (digits q.min).length = ',' :: upperDigits q.max := List.drop_left
  simp only [readBounds, low, behind, readBound_digits h.least h.short, readBound_upper h]
  have ordered := h.ordered
  obtain ⟨min, max, greedy⟩ := q
  cases max with
  | none => rfl
  | some max => exact if_neg (Int.not_lt.mpr (ordered max rfl))

/-- **Bounds are read back from what is written for them.** -/
theorem quantityOf_bounds {q : Quantity} (h : q.Writable) (offset : Nat) :
    quantityOf ⟨.quantifier, q.render, offset⟩ = .ok q := by
  let braces : List Char := '\x7b' :: (q.inner ++ ['\x7d'])
  have text : q.render = braces ++ if q.greedy then [] else ['?'] := by
    rw [q.render_eq]
    show _ = '\x7b' :: ((q.inner ++ ['\x7d']) ++ _)
    rw [List.append_assoc]
    rfl
  have marked : (1 < q.render.length && q.render.getLast? == some '?') = !q.greedy := by
    rw [text]
    cases q.greedy with
    | true =>
      have last : (braces ++ []).getLast? = some '\x7d' := by
        rw [List.append_nil]
        exact List.getLast?_concat (l := '\x7b' :: q.inner)
      rw [if_pos rfl, last]
      simp
    | false =>
      rw [if_neg nofun, List.getLast?_concat, List.length_append]
      simp [braces]
  have stripped : (if (!q.greedy) = true then q.render.dropLast else q.render) = braces := by
    rw [text]
    cases q.greedy with
    | true => exact List.append_nil braces
    | false => exact List.dropLast_concat
  have inner : (inside braces).filter (· != ' ') = q.inner := by
    rw [inside_between]
    exact List.filter_eq_self.mpr fun c hc => by simpa using (Quantity.mem_inner hc).1
  unfold quantityOf
  simp only [marked, stripped, inner, Bool.not_not]
  exact readBounds_inner h _

/-! ## 3. Openers -/

theorem lexical_plain : Lexical .opener ['(', '?', ':'] :=
  ⟨by decide, by decide, by decide, fun _ _ => rfl⟩

theorem groupKindOf_plain (offset : Nat) : groupKindOf ⟨.opener, ['(', '?', ':'], offset⟩ = .plain :=
  rfl

theorem lexical_look (kind : LookKind) : Lexical .opener kind.opener := by
  cases kind <;> exact ⟨by decide, by decide, by decide, fun _ _ => rfl⟩

theorem groupKindOf_look (kind : LookKind) (offset : Nat) :
    groupKindOf ⟨.opener, kind.opener, offset⟩ = .look kind := by
  cases kind <;> rfl

theorem lexical_numbered (k : Int) : Lexical .opener (CaptureKey.index k).opener := by
  refine ⟨by decide, by decide, by decide, fun rest plain => ?_⟩
  show some (TokenKind.opener, openerReach rest) = _
  have reach : openerReach rest = 0 := by
    unfold openerReach
    split <;> first | exact absurd rfl plain | rfl
  rw [reach]
  rfl

theorem groupKindOf_numbered (k : Int) (offset : Nat) :
    groupKindOf ⟨.opener, (CaptureKey.index k).opener, offset⟩ = .numbered := rfl

theorem lexical_named {s : String} (h : NameOf Unicode.isWord s) :
    Lexical .opener (CaptureKey.name s).opener := by
  obtain ⟨c, cs, chars, start, others⟩ := h
  refine ⟨by decide, by decide, by decide, fun rest _ => ?_⟩
  rw [chars]
  show some (TokenKind.opener,
    openerReach ('?' :: '<' :: c :: (cs ++ ['>'] ++ rest))) = _
  have taken : (cs ++ ['>'] ++ rest).takeWhile Unicode.isWord = cs := by
    rw [List.append_assoc]
    exact takeWhile_run others rfl rest
  have behind : (cs ++ ['>'] ++ rest).drop cs.length = '>' :: rest := by
    rw [List.append_assoc, List.drop_left]
    rfl
  have reach : openerReach ('?' :: '<' :: c :: (cs ++ ['>'] ++ rest)) = cs.length + 4 := by
    -- a name begins with neither of the marks that would make the group a look
    rw [openerReach.eq_6 _ _ (ne_of_nameStart start rfl) (ne_of_nameStart start rfl)]
    simp only [taken, start, behind, List.head?_cons, beq_self_eq_true, Bool.and_self, if_true]
  rw [reach]
  simp

theorem groupKindOf_named {s : String} (h : NameOf Unicode.isWord s) (offset : Nat) :
    groupKindOf ⟨.opener, (CaptureKey.name s).opener, offset⟩ = .named s := by
  obtain ⟨c, cs, chars, start, others⟩ := h
  have text : (CaptureKey.name s).opener = '(' :: '?' :: '<' :: c :: (cs ++ ['>']) := by
    show '(' :: '?' :: '<' :: (s.toList ++ ['>']) = _
    rw [chars]
    rfl
  have name : String.ofList (c :: (cs ++ ['>'])).dropLast = s := by
    rw [← List.cons_append, List.dropLast_concat, ← chars, String.ofList_toList]
  have rest_ne {d : Char} (hd : isNameStart d = false) : c :: (cs ++ ['>']) ≠ [d] :=
    fun same => ne_of_nameStart start hd (List.head_eq_of_cons_eq same)
  unfold groupKindOf
  simp only [text]
  split
  iterate 3
    · rename_i h
      cases h
  iterate 2
    · rename_i h
      exact absurd (congrArg (List.drop 3) h) (rest_ne rfl)
  · rename_i h
    cases h
    rw [name]
  · rename_i other
    exact (other _ rfl).elim

/-! ## 4. Signs -/

theorem lexical_closer : Lexical .closer [')'] := ⟨by decide, by decide, by decide, fun _ _ => rfl⟩

theorem lexical_bar : Lexical .bar ['|'] := ⟨by decide, by decide, by decide, fun _ _ => rfl⟩

theorem lexical_dot : Lexical .dot ['.'] := ⟨by decide, by decide, by decide, fun _ _ => rfl⟩

/-- The kind of token that is written for an anchor. -/
def AnchorKind.tokenKind : AnchorKind → TokenKind
  | .startOfLine => .caret
  | .endOfLine => .dollar
  | _ => .escape

/-- After a backslash any letter but that of a property stands alone. -/
theorem escapeReach_letter {c : Char} (h : (c == 'p' || c == 'P') = false) (rest : List Char) :
    escapeReach (c :: rest) = some 1 := by
  unfold escapeReach
  simp only [h, Bool.false_and, Bool.false_eq_true, if_false]
  split <;> rfl

theorem lexical_anchor (kind : AnchorKind) : Lexical kind.tokenKind kind.render := by
  cases kind with
  | startOfString | endOfString | wordBoundary =>
    refine ⟨by decide, by decide, by decide, fun rest _ => ?_⟩
    show (escapeReach (_ :: rest)).map _ = _
    rw [escapeReach_letter (by decide)]
    rfl
  | startOfLine => exact ⟨by decide, by decide, by decide, fun _ _ => rfl⟩
  | endOfLine => exact ⟨by decide, by decide, by decide, fun _ _ => rfl⟩

theorem ofToken_anchor {d : Dialect} {kind : AnchorKind}
    (lines : kind = .startOfLine ∨ kind = .endOfLine → d.multiline = true) (offset : Nat) :
    Pattern.ofToken d ⟨kind.tokenKind, kind.render, offset⟩ = .ok (.anchor kind) := by
  cases kind with
  | startOfString | endOfString | wordBoundary => rfl
  | startOfLine =>
    show Except.ok (Pattern.anchor (if d.multiline then _ else _)) = _
    rw [if_pos (lines (.inl rfl))]
  | endOfLine =>
    show Except.ok (Pattern.anchor (if d.multiline then _ else _)) = _
    rw [if_pos (lines (.inr rfl))]

end GrammarMatch
