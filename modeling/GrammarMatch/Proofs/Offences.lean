/-
  File:      GrammarMatch/Proofs/Offences.lean
  Subject:   Which piece of a token is at fault.

  A quantifier is at fault as a whole, an escape at its backslash, a class behind whole items of it.
  So a text that has the form of a pattern is refused, but for names that are captured twice, for its
  first token that means nothing by itself, at the offending piece of that token
  (`meaning_fault_place`). That no escape lacks its character, in a class or outside of one, is
  seen from the tokens alone (`parsed_escapes`).
-/
import GrammarMatch.Proofs.ClassBodies
import Mathlib

namespace GrammarMatch.Syntax

/-! ## 1. Quantifiers -/

/-- Characters that are no integer. -/
def NoInteger (cs : List Char) : Prop := cs ≠ [] ∧ ∀ n, Integer.read cs ≠ .ok n

/-- What is wrong with the bounds of a quantifier, where its blanks are left out. -/
inductive BoundsFault (quantifier : List Char) : Complaint → List Char → Prop
  | empty : BoundsFault quantifier (.noBounds quantifier) []
  | low {low rest : List Char} (first : ',' ∉ low) (ends : ∀ c ∈ rest.head?, c = ',')
      (bad : NoInteger low) : BoundsFault quantifier (.badBounds quantifier) (low ++ rest)
  | high {low high : List Char} (first : ',' ∉ low) (bad : NoInteger high) :
      BoundsFault quantifier (.badBounds quantifier) (low ++ ',' :: high)
  | reversed {low high : List Char} {min max : Int} (first : ',' ∉ low)
      (least : low = [] ∧ min = 0 ∨ Integer.read low = .ok min) (some : high ≠ [])
      (greatest : Integer.read high = .ok max) (order : max < min) :
      BoundsFault quantifier (.reversedBounds min max) (low ++ ',' :: high)

/-- Bounds between braces are at fault, whether they are lazy or not. -/
def QuantifierFault (x : Complaint) (text : List Char) : Prop :=
  ∃ inner mark, text = '\x7b' :: (inner ++ '\x7d' :: mark) ∧ '\x7d' ∉ inner ∧
    (mark = [] ∨ mark = ['?']) ∧ BoundsFault text x (inner.filter (· != ' '))

theorem readBound_cases (absent : Option Int) (cs : List Char) :
    (cs = [] ∧ readBound absent cs = some absent) ∨
    (cs ≠ [] ∧ ∃ n, Integer.read cs = .ok n ∧ readBound absent cs = some (some n)) ∨
    (NoInteger cs ∧ readBound absent cs = none) := by
  cases cs with
  | nil => exact .inl ⟨rfl, rfl⟩
  | cons c cs =>
    unfold readBound
    cases read : Integer.read (c :: cs) with
    | ok n => exact .inr (.inl ⟨List.cons_ne_nil c cs, n, rfl, rfl⟩)
    | error e =>
      refine .inr (.inr ⟨⟨List.cons_ne_nil c cs, fun n ok => ?_⟩, rfl⟩)
      rw [read] at ok
      cases ok

/-- The lower bound is missing, an integer, or at fault. -/
theorem lowerBound_cases (low : List Char) :
    (∃ min, (low = [] ∧ min = 0 ∨ Integer.read low = .ok min) ∧
      readBound (some 0) low = some (some min)) ∨
    NoInteger low ∧ readBound (some 0) low = none := by
  rcases readBound_cases (some 0) low with ⟨none, bound⟩ | ⟨_, min, least, bound⟩ | bad
  · exact .inl ⟨0, .inl ⟨none, rfl⟩, bound⟩
  · exact .inl ⟨min, .inr least, bound⟩
  · exact .inr bad

/-- The lower bound ends in front of the first comma. -/
theorem lowerBound_ends (inner : List Char) :
    ∃ low rest, inner.takeWhile (· != ',') = low ∧ inner.drop low.length = rest ∧
      inner = low ++ rest ∧ ',' ∉ low ∧ ∀ c ∈ rest.head?, c = ',' := by
  refine ⟨_, _, rfl, rfl, (List.prefix_iff_eq_append.mp (List.takeWhile_prefix _)).symm,
    fun comma => ?_, fun c hc => ?_⟩
  · have passed := List.mem_takeWhile_imp comma
    cases passed
  · simpa using head?_drop_takeWhile (p := (· != ',')) inner c hc

theorem readBounds_fault {t : Token} {greedy : Bool} {inner : List Char} {f : Fault}
    (h : readBounds t greedy inner = .error f) :
    ∃ x, BoundsFault t.text x inner ∧ f = ⟨x, t.offset, []⟩ := by
  obtain ⟨low, rest, taken, left, whole, first, comma⟩ := lowerBound_ends inner
  unfold readBounds at h
  simp only [taken, left] at h
  rw [whole]
  rcases lowerBound_cases low with ⟨min, least, bound⟩ | ⟨bad, bound⟩
  · simp only [bound] at h
    cases rest with
    | nil =>
      simp only at h
      split at h
      next none =>
        cases h
        rw [List.isEmpty_iff.mp none]
        exact ⟨_, .empty, rfl⟩
      next => cases h
    | cons c high =>
      obtain rfl := comma c rfl
      simp only at h
      rcases readBound_cases none high with ⟨_, bound⟩ | ⟨some, max, greatest, bound⟩ | ⟨bad, bound⟩
      · rw [bound] at h
        cases h
      · rw [bound] at h
        simp only at h
        split at h
        next order =>
          cases h
          exact ⟨_, .reversed first least some greatest order, rfl⟩
        next => cases h
      · rw [bound] at h
        cases h
        exact ⟨_, .high first bad, rfl⟩
  · simp only [bound] at h
    cases h
    exact ⟨_, .low first comma bad, rfl⟩

/-- The bounds between braces are read without their blanks. -/
theorem quantityOf_braces {t : Token} {inner mark : List Char}
    (text : t.text = '\x7b' :: (inner ++ '\x7d' :: mark)) (marked : mark = [] ∨ mark = ['?']) :
    ∃ greedy, quantityOf t = readBounds t greedy (inner.filter (· != ' ')) := by
  have between : inside ('\x7b' :: (inner ++ ['\x7d'])) = inner := inside_between _ _ inner
  rcases marked with rfl | rfl
  · have last : t.text.getLast? = some '\x7d' := by rw [text, ← List.cons_append, List.getLast?_concat]
    have plain : (decide (1 < t.text.length) && t.text.getLast? == some '?') = false := by
      rw [last]
      exact Bool.and_false _
    refine ⟨true, ?_⟩
    unfold quantityOf
    simp only [plain, Bool.false_eq_true, if_false]
    rw [text]
    exact congrArg (fun b => readBounds t true (b.filter (· != ' '))) between
  · have last : t.text.getLast? = some '?' := by
      rw [text, List.append_cons, ← List.cons_append, List.getLast?_concat]
    have long : 1 < t.text.length := by
      rw [text, List.length_cons, List.length_append, List.length_cons]
      omega
    have marked : (decide (1 < t.text.length) && t.text.getLast? == some '?') = true := by
      rw [last, decide_eq_true long]
      rfl
    have front : t.text.dropLast = '\x7b' :: (inner ++ ['\x7d']) := by
      rw [text, List.append_cons, ← List.cons_append, List.dropLast_concat]
    refine ⟨false, ?_⟩
    unfold quantityOf
    simp only [marked, if_true]
    rw [front]
    exact congrArg (fun b => readBounds t false (b.filter (· != ' '))) between

/-- Words of a quantifier are one sign or bounds, and a mark that makes them lazy. -/
theorem quantifier_cases {text : List Char} (word : text ∈ TokenKind.quantifier.lexemes) :
    (∃ c mark, (c = '*' ∨ c = '+' ∨ c = '?') ∧ text = c :: mark ∧ (mark = [] ∨ mark = ['?'])) ∨
    ∃ inner mark, text = '\x7b' :: (inner ++ '\x7d' :: mark) ∧ '\x7d' ∉ inner ∧
      (mark = [] ∨ mark = ['?']) := by
  obtain ⟨a, ha, mark, hmark, rfl⟩ := Language.mem_mul.mp word
  have marked : mark = [] ∨ mark = ['?'] := by
    rcases (Language.mem_add _ _ _).mp hmark with none | ⟨c, question, rfl⟩
    · exact .inl ((Language.mem_one mark).mp none)
    · exact .inr (by rw [beq_iff_eq.mp question])
  rcases (Language.mem_add _ _ _).mp ha with ⟨c, sign, rfl⟩ | braces
  · refine .inl ⟨c, mark, ?_, rfl, marked⟩
    simpa [or_assoc] using sign
  · obtain ⟨_, hb, _, ⟨d, close, rfl⟩, rfl⟩ := Language.mem_mul.mp braces
    obtain ⟨_, ⟨b, brace, rfl⟩, inner, hinner, rfl⟩ := Language.mem_mul.mp hb
    obtain rfl : d = '\x7d' := beq_iff_eq.mp close
    obtain rfl : b = '\x7b' := beq_iff_eq.mp brace
    refine .inr ⟨inner, mark, by simp, fun closed => ?_, marked⟩
    have other := (over_charsOf fun _ h => h).kstar inner hinner _ closed
    cases other

theorem quantityOf_fault_cases {t : Token} (word : t.text ∈ TokenKind.quantifier.lexemes) {f : Fault}
    (h : quantityOf t = .error f) : ∃ x, QuantifierFault x t.text ∧ f = ⟨x, t.offset, []⟩ := by
  rcases quantifier_cases word with ⟨c, mark, sign, text, marked⟩ | ⟨inner, mark, text, whole, marked⟩
  · -- a sign alone is never at fault
    have fine : ∃ q, quantityOf t = .ok q := by
      unfold quantityOf
      rw [text]
      rcases sign with rfl | rfl | rfl <;> rcases marked with rfl | rfl <;> exact ⟨_, rfl⟩
    obtain ⟨q, fine⟩ := fine
    rw [fine] at h
    cases h
  · obtain ⟨greedy, read⟩ := quantityOf_braces text marked
    rw [read] at h
    obtain ⟨x, fault, rfl⟩ := readBounds_fault h
    exact ⟨x, ⟨inner, mark, text, whole, marked, fault⟩, rfl⟩

/-! ## 2. Escapes -/

/-- What begins with a backslash outside of classes and means nothing. -/
inductive EscapeFault : Complaint → List Char → Prop
  | escape {c : Char} (letter : Unicode.isAlphanumeric c = true)
      (shorthand : isShorthand c = false) (control : control? c = none)
      (anchor : c ∉ ['b', 'B', 'A', 'z']) : EscapeFault (.unknownEscape c) ['\\', c]
  | property {c : Char} {name : List Char} (letter : isPropertyLetter c = true)
      (unknown : Property.known (String.ofList name) = false) :
      EscapeFault (.unknownProperty (String.ofList name)) ('\\' :: c :: '\x7b' :: (name ++ ['\x7d']))

theorem escape_cases {text : List Char} (word : text ∈ TokenKind.escape.lexemes) :
    (∃ c, text = ['\\', c]) ∨ ∃ c name, isPropertyLetter c = true ∧
      text = '\\' :: c :: '\x7b' :: (name ++ ['\x7d']) := by
  obtain ⟨_, ⟨b, slash, rfl⟩, u, hu, rfl⟩ := Language.mem_mul.mp word
  obtain rfl : b = '\\' := beq_iff_eq.mp slash
  rcases (Language.mem_add _ _ _).mp hu with ⟨c, _, rfl⟩ | braces
  · exact .inl ⟨c, rfl⟩
  · obtain ⟨_, ⟨c, letter, rfl⟩, _, hrest, rfl⟩ := Language.mem_mul.mp braces
    obtain ⟨_, ⟨d, opens, rfl⟩, _, hname, rfl⟩ := Language.mem_mul.mp hrest
    obtain ⟨name, _, _, ⟨e, closes, rfl⟩, rfl⟩ := Language.mem_mul.mp hname
    obtain rfl : d = '\x7b' := beq_iff_eq.mp opens
    obtain rfl : e = '\x7d' := beq_iff_eq.mp closes
    exact .inr ⟨c, name, letter, rfl⟩

/-- **An escape has a character behind its backslash.** -/
theorem escape_second {text : List Char} (word : text ∈ TokenKind.escape.lexemes) :
    ∃ c rest, text = '\\' :: c :: rest := by
  rcases escape_cases word with ⟨c, text⟩ | ⟨c, name, _, text⟩
  · exact ⟨c, [], text⟩
  · exact ⟨c, _, text⟩

/-- What comes of an escape that is no shorthand, no control character and no anchor. -/
theorem escapePattern_other {t : Token} {c : Char} {body : List Char} (text : t.text = '\\' :: c :: body)
    (shorthand : isShorthand c = false) (control : control? c = none)
    (anchor : c ∉ ['b', 'B', 'A', 'z']) :
    escapePattern false t =
      if isPropertyLetter c && !body.isEmpty then
        (propertyItem (inside body) (c == 'P') t.offset).map fun item => .charClass [item] false false
      else if Unicode.isAlphanumeric c then .error ⟨.unknownEscape c, t.offset, []⟩
      else .ok (.literal [c] false) := by
  simp only [List.mem_cons, List.not_mem_nil, or_false, not_or] at anchor
  obtain ⟨b, b', a, z⟩ := anchor
  have other {d : Char} (h : c ≠ d) : (c == d) = false := beq_false_of_ne h
  simp only [escapePattern, text, List.drop_one, List.tail_cons, shorthand, control, other b, other b',
    other a, other z]
  rfl

/-- An escape that is at fault is none of those that mean something. -/
theorem escape_unknown {t : Token} {c : Char} {body : List Char} (text : t.text = '\\' :: c :: body)
    {f : Fault} (h : escapePattern false t = .error f) :
    isShorthand c = false ∧ control? c = none ∧ c ∉ ['b', 'B', 'A', 'z'] := by
  have shorthand : isShorthand c = false := by
    cases known : isShorthand c with
    | false => rfl
    | true =>
      simp only [escapePattern, text, List.drop_one, List.tail_cons, known] at h
      cases h
  have control : control? c = none := by
    by_contra known
    obtain ⟨d, known⟩ := Option.ne_none_iff_exists'.mp known
    simp only [escapePattern, text, List.drop_one, List.tail_cons, shorthand, known] at h
    cases h
  refine ⟨shorthand, control, fun known => ?_⟩
  simp only [List.mem_cons, List.not_mem_nil, or_false] at known
  rcases known with rfl | rfl | rfl | rfl
  all_goals
    simp only [escapePattern, text, List.drop_one, List.tail_cons, shorthand, control] at h
    cases h

/-- **An escape is at fault if it means nothing**, or if its property is unknown. -/
theorem escapePattern_fault_cases {t : Token} (word : t.text ∈ TokenKind.escape.lexemes) {f : Fault}
    (h : escapePattern false t = .error f) : ∃ x, EscapeFault x t.text ∧ f = ⟨x, t.offset, []⟩ := by
  have split : ∃ c body, t.text = '\\' :: c :: body ∧ (body = [] ∨ isPropertyLetter c = true ∧
      ∃ name, body = '\x7b' :: (name ++ ['\x7d'])) := by
    rcases escape_cases word with ⟨c, text⟩ | ⟨c, name, letter, text⟩
    · exact ⟨c, [], text, .inl rfl⟩
    · exact ⟨c, _, text, .inr ⟨letter, name, rfl⟩⟩
  obtain ⟨c, body, text, braces⟩ := split
  obtain ⟨shorthand, control, anchor⟩ := escape_unknown text h
  rw [escapePattern_other text shorthand control anchor] at h
  rw [text]
  rcases braces with rfl | ⟨letter, name, rfl⟩
  · rw [List.isEmpty_nil, Bool.not_true, Bool.and_false, if_neg Bool.false_ne_true] at h
    split at h
    next letter =>
      cases h
      exact ⟨_, .escape letter shorthand control anchor, rfl⟩
    next => cases h
  · rw [letter, inside_between] at h
    rcases propertyItem_cases name (c == 'P') t.offset with ⟨_, item⟩ | ⟨unknown, fault⟩
    · simp only [item] at h
      cases h
    · simp only [fault] at h
      cases h
      exact ⟨_, .property letter unknown, rfl⟩

/-! ## 3. Tokens -/

/-- The offending piece of a token: what stands before it, and the token from there on. -/
inductive Offends : TokenKind → Complaint → List Char → List Char → Prop
  | quantifier {x : Complaint} {text : List Char} (fault : QuantifierFault x text) :
      Offends .quantifier x [] text
  | escape {x : Complaint} {text : List Char} (fault : EscapeFault x text) : Offends .escape x [] text
  | charClass {x : Complaint} {sign before here : List Char}
      (signed : sign = ['^'] ∨ sign = [] ∧ (before ++ here).head? ≠ some '^')
      (fault : ClassFault x before here) :
      Offends .charClass x ('[' :: (sign ++ before)) (here ++ [']'])

/-- The places in a class are counted from its bracket, past the sign that negates it. -/
theorem classPattern_fault_cases {t : Token} (word : t.text ∈ TokenKind.charClass.lexemes) {f : Fault}
    (h : classPattern false t = .error f) :
    ∃ x before here, t.text = before ++ here ∧ Offends .charClass x before here ∧ here ≠ [] ∧
      f = ⟨x, t.offset + before.length, []⟩ := by
  obtain ⟨members, text, pieces⟩ := class_cases word
  have fault (sign : List Char) {rest : List Char} (whole : members = sign ++ rest)
      (signed : sign = ['^'] ∨ sign = [] ∧ rest.head? ≠ some '^') (pieces : Pieces rest)
      (h : readMembers (t.offset + (sign.length + 1)) rest = .error f) :
      ∃ x before here, t.text = before ++ here ∧ Offends .charClass x before here ∧ here ≠ [] ∧
        f = ⟨x, t.offset + before.length, []⟩ := by
    obtain ⟨x, before, here, rfl, fault, rfl⟩ := readMembers_fault pieces h
    have there : t.offset + (sign.length + 1) + before.length =
        t.offset + ('[' :: (sign ++ before)).length := by
      rw [List.length_cons, List.length_append]
      omega
    exact ⟨x, '[' :: (sign ++ before), here ++ [']'], by rw [text, whole]; simp,
      .charClass signed fault, by simp, by rw [there]⟩
  unfold classPattern at h
  rw [text, inside_between] at h
  split at h
  next rest =>
    exact fault ['^'] rfl (.inl rfl) (pieces.plain (by decide)) (faultOf_eq_some.mp (faultOf_map _ _ ▸
      faultOf_eq_some.mpr h))
  next plain =>
    refine fault [] rfl (.inr ⟨rfl, fun caret => ?_⟩) pieces (faultOf_eq_some.mp (faultOf_map _ _ ▸
      faultOf_eq_some.mpr h))
    obtain ⟨rest, rfl⟩ := List.head?_eq_some_iff.mp caret
    exact plain rest rfl

/-- **The fault of a token is the place of its offending piece.** -/
theorem fault_offends {t : Token} (word : t.text ∈ t.kind.lexemes) {f : Fault} (h : t.fault? = some f) :
    ∃ before here, t.text = before ++ here ∧ Offends t.kind f.complaint before here ∧ here ≠ [] ∧
      f.place = t.offset + before.length := by
  have some : t.text ≠ [] := fun empty => nil_notMem_lexemes t.kind (empty ▸ word)
  unfold Token.fault? at h
  cases kind : t.kind with
  | quantifier =>
    rw [kind] at h word
    obtain ⟨x, fault, rfl⟩ := quantityOf_fault_cases word (faultOf_eq_some.mp h)
    exact ⟨[], t.text, rfl, .quantifier fault, some, rfl⟩
  | escape =>
    rw [kind] at h word
    obtain ⟨x, fault, rfl⟩ := escapePattern_fault_cases word (faultOf_eq_some.mp h)
    exact ⟨[], t.text, rfl, .escape fault, some, rfl⟩
  | charClass =>
    rw [kind] at h word
    obtain ⟨x, before, here, text, offends, some, rfl⟩ :=
      classPattern_fault_cases word (faultOf_eq_some.mp h)
    exact ⟨before, here, text, offends, some, rfl⟩
  | _ =>
    rw [kind] at h
    cases h

end GrammarMatch.Syntax

namespace GrammarMatch.Pattern

open Syntax

/-! ## 4. Texts -/

/-- **No token of a text that has the form of a pattern holds a backslash without its character**:
    not an escape, and not a class where a member of it begins. -/
theorem parsed_escapes {source : List Char} {tree : Alternatives}
    (parsed : Alternatives.parse source = .ok tree) {t : Token} (mem : t ∈ tree.tokens) :
    (t.kind = .escape → ∃ c rest, t.text = '\\' :: c :: rest) ∧
    (t.kind = .charClass → ∀ members, inside t.text = members ∨ inside t.text = '^' :: members →
      ∀ rest, ComesTo members ('\\' :: rest) → rest ≠ []) := by
  obtain ⟨_, _, _, _, word⟩ := (parse_iff.mp parsed).splits.mem mem
  refine ⟨fun kind => escape_second (kind ▸ word), fun kind members whole rest comes => ?_⟩
  obtain ⟨pieces, negated⟩ := class_pieces (kind ▸ word)
  rcases whole with whole | whole
  · exact comes.escapes (whole ▸ pieces)
  · exact comes.escapes (negated members whole)

/-- **A text that has the form of a pattern is refused for its first token that means nothing by
    itself, at the offending piece of that token**, unless it is refused for a name that is captured
    twice. -/
theorem meaning_fault_place {source : List Char} {flags : Flags} {kind : RuleKind} {tree : Alternatives}
    (parsed : Alternatives.parse source = .ok tree) {e : SyntaxError}
    (refused : compile source flags kind = .error e) :
    ∃ f, compileIn (Dialect.of flags kind) source = .error (.meaning f) ∧
      e = f.inSource source.toArray ∧
      ((∃ name, f.complaint = .repeatedName name) ∨
        ∃ earlier t later, tree.tokens = earlier ++ t :: later ∧
          (∀ u ∈ earlier, u.fault? = none) ∧ t.fault? = some f ∧
          ∃ before here rest, t.text = before ++ here ∧ here ≠ [] ∧
            e.offset = t.offset + before.length ∧ source.drop e.offset = here ++ rest ∧
            Offends t.kind f.complaint before here) := by
  obtain ⟨f, failed, rfl⟩ := (refused_iff parsed).mp refused
  have derivation := parse_iff.mp parsed
  refine ⟨f, compileIn_refused parsed failed, rfl, ?_⟩
  rcases (branchesOf_reports (Dialect.of flags kind) 0 derivation.formed).first f failed with first | twice
  · obtain ⟨earlier, t, later, tokens, fault, clean⟩ := List.findSome?_eq_some_iff.mp first
    have mem : t ∈ tree.tokens := tokens ▸ List.mem_append_cons_self
    obtain ⟨w, z, rfl, place, word⟩ := derivation.splits.mem mem
    obtain ⟨before, here, text, offends, some, there⟩ := fault_offends word fault
    rw [Nat.zero_add] at place
    have split : w ++ (t.text ++ z) = (w ++ before) ++ (here ++ z) := by
      rw [text]
      simp
    have length : f.place = (w ++ before).length := by rw [there, place, List.length_append]
    have offset : (f.inSource (w ++ (t.text ++ z)).toArray).offset = f.place :=
      offset_inSource (by rw [split, length]; exact (List.prefix_append _ _).length_le)
    refine .inr ⟨earlier, t, later, tokens, clean, fault, before, here, z, text, some,
      offset.trans there, ?_, offends⟩
    rw [offset, split, length, List.drop_left]
  · exact .inl twice.complaint

/-- A group that ends with a class and is repeated. -/
def repeatedClass : Alternatives :=
  .one (.cons (.group ⟨.opener, ['('], 0⟩
    (.one (.cons (.leaf ⟨.escape, ['\\', 's'], 1⟩) none
      (.cons (.leaf ⟨.charClass, "[^\\dx-\\w]".toList, 3⟩) none .nil)))
    ⟨.closer, [')'], 12⟩) (some ⟨.quantifier, "\x7b2,1\x7d".toList, 13⟩) .nil)

/-- A shorthand ends no range. The bounds behind it are out of order, but they come later. -/
theorem meaning_fault_place_repeatedClass :
    Alternatives.parse "(\\s[^\\dx-\\w])\x7b2,1\x7d".toList = .ok repeatedClass ∧
      compile "(\\s[^\\dx-\\w])\x7b2,1\x7d".toList .none .regex =
        .error ((⟨.badRangeEnd, 9, []⟩ : Fault).inSource "(\\s[^\\dx-\\w])\x7b2,1\x7d".toList.toArray) ∧
      ∃ earlier t later, repeatedClass.tokens = earlier ++ t :: later ∧
        (∀ u ∈ earlier, u.fault? = none) ∧ t.fault? = some ⟨.badRangeEnd, 9, []⟩ := by
  have parsed : Alternatives.parse "(\\s[^\\dx-\\w])\x7b2,1\x7d".toList = .ok repeatedClass := by cbv
  have failed : compileIn (Dialect.of .none .regex) "(\\s[^\\dx-\\w])\x7b2,1\x7d".toList =
      .error (.meaning ⟨.badRangeEnd, 9, []⟩) := by cbv
  have refused : compile "(\\s[^\\dx-\\w])\x7b2,1\x7d".toList .none .regex = .error
      ((⟨.badRangeEnd, 9, []⟩ : Fault).inSource "(\\s[^\\dx-\\w])\x7b2,1\x7d".toList.toArray) := by
    rw [compile, failed]
    rfl
  obtain ⟨f, meaning, _, ⟨name, twice⟩ | ⟨earlier, t, later, tokens, clean, fault, _⟩⟩ :=
    meaning_fault_place parsed refused
  · cases failed.symm.trans meaning
    cases twice
  · cases failed.symm.trans meaning
    exact ⟨parsed, refused, earlier, t, later, tokens, clean, fault⟩

end GrammarMatch.Pattern
