/-
  File:      GrammarMatch/Proofs/ClassBodies.lean
  Subject:   What is written between the brackets of a class.

  A class is made of pieces: a backslash with any character, or another character. What is read of
  it, member by member, ends between two pieces, so that no backslash is ever read without a
  character behind it (`ComesTo.escapes`). A class is read item by item, and its fault stands behind
  whole items: at the backslash of an escape that means nothing, at the minus sign of a range that
  ends before it starts, or at the first character of what ends a range and is no single character
  (`ItemFault`, `readMembers_fault`). A class without a fault is items from one end to the other
  (`readMembers_spelled`).
-/
import GrammarMatch.Proofs.Gaps
import GrammarMatch.Proofs.Refusal
import Mathlib.Data.List.TakeWhile

namespace GrammarMatch.Syntax

open Computability

/-! ## 1. Pieces -/

/-- A backslash with any character, or a character that is neither a backslash nor the closing
    bracket, any number of times. -/
def Pieces (cs : List Char) : Prop := cs ∈ (piece ']')∗

namespace Pieces

variable {c : Char} {before cs : List Char}

theorem following_pieces :
    following c (piece ']')∗ =
      if c = '\\' then anyChar * (piece ']')∗ else if c = ']' then 0 else (piece ']')∗ := by
  have star : following c ((piece ']')∗ * 1) = _ := following_kstar_mul nil_notMem_piece
  rw [mul_one, following_one, add_zero, following_piece] at star
  rw [star]
  split
  next => rfl
  next =>
    split
    next => exact zero_mul _
    next => exact one_mul _

/-- **A backslash has a character behind it**, and the two are a piece. -/
theorem slash : Pieces ('\\' :: cs) ↔ ∃ d rest, cs = d :: rest ∧ Pieces rest := by
  unfold Pieces
  rw [← mem_following, following_pieces, if_pos rfl]
  cases cs with
  | nil => simp
  | cons d rest =>
    unfold anyChar
    rw [mem_charsOf_mul]
    simp

/-- Another character is a piece by itself. -/
theorem plain (slashless : c ≠ '\\') (h : Pieces (c :: cs)) : Pieces cs := by
  unfold Pieces at h ⊢
  rw [← mem_following, following_pieces, if_neg slashless] at h
  split at h
  next => exact absurd h (Language.notMem_zero cs)
  next => exact h

/-- Behind a character that is no backslash, a piece begins: it may end a piece, but it begins none
    that goes on. -/
theorem behind (slashless : c ≠ '\\') (h : Pieces (before ++ c :: cs)) : Pieces cs := by
  induction length : before.length using Nat.strong_induction_on generalizing before with
  | _ n ih =>
    subst length
    cases before with
    | nil => exact h.plain slashless
    | cons d before =>
      by_cases escape : d = '\\'
      · subst escape
        obtain ⟨e, rest, whole, pieces⟩ := slash.mp h
        cases before with
        | nil =>
          cases whole
          exact pieces
        | cons e' before =>
          cases whole
          exact ih before.length (by simp only [List.length_cons]; omega) pieces rfl
      · exact ih before.length (by simp only [List.length_cons]; omega) (h.plain escape) rfl

end Pieces

/-- A class is its brackets and pieces between them. -/
theorem class_cases {text : List Char} (word : text ∈ TokenKind.charClass.lexemes) :
    ∃ members, text = '[' :: (members ++ [']']) ∧ Pieces members := by
  rw [TokenKind.lexemes, mul_assoc, mul_assoc, caret_absorbed, upTo, ← mul_assoc, ← mul_assoc] at word
  obtain ⟨_, ha, _, ⟨d, close, rfl⟩, rfl⟩ := Language.mem_mul.mp word
  rw [mul_assoc] at ha
  obtain ⟨_, ⟨b, bracket, rfl⟩, members, pieces, rfl⟩ := Language.mem_mul.mp ha
  obtain rfl : d = ']' := beq_iff_eq.mp close
  obtain rfl : b = '[' := beq_iff_eq.mp bracket
  exact ⟨members, rfl, (mul_kstar_le_kstar : piece ']' * (piece ']')∗ ≤ _) pieces⟩

/-! ## 2. Members -/

/-- What is written for a member of a class. -/
inductive Spells : List Char → Member → Prop
  | plain {c : Char} (h : c ≠ '\\') : Spells [c] (.char c)
  | shorthand {c : Char} (h : isShorthand c = true) :
      Spells ['\\', c] (.item (.shorthand c.toString))
  | control {c d : Char} (h : control? c = some d) : Spells ['\\', c] (.char d)
  | property {c : Char} {name : List Char} (letter : isPropertyLetter c = true)
      (closed : '\x7d' ∉ name) (known : Property.known (String.ofList name) = true) :
      Spells ('\\' :: c :: '\x7b' :: (name ++ ['\x7d']))
        (.item (.property (String.ofList name) (c == 'P')))
  | escaped {c : Char} (h : Unicode.isAlphanumeric c = false) : Spells ['\\', c] (.char c)

/-- What begins with a backslash in a class and means nothing. -/
inductive MemberFault : Complaint → List Char → Prop
  | escape {c : Char} {rest : List Char} (letter : Unicode.isAlphanumeric c = true)
      (shorthand : isShorthand c = false) (control : control? c = none)
      (braceless : ¬(isPropertyLetter c = true ∧ rest.head? = some '\x7b')) :
      MemberFault (.unknownClassEscape c) ('\\' :: c :: rest)
  | property {c : Char} {name rest : List Char} (letter : isPropertyLetter c = true)
      (closed : '\x7d' ∉ name) (unknown : Property.known (String.ofList name) = false) :
      MemberFault (.unknownProperty (String.ofList name))
        ('\\' :: c :: '\x7b' :: (name ++ '\x7d' :: rest))
  | unclosed {c : Char} {rest : List Char} (letter : isPropertyLetter c = true)
      (unclosed : '\x7d' ∉ rest) :
      MemberFault .unclosedProperty ('\\' :: c :: '\x7b' :: rest)

theorem propertyItem_cases (name : List Char) (negated : Bool) (place : Nat) :
    (Property.known (String.ofList name) = true ∧
      propertyItem name negated place = .ok (.property (String.ofList name) negated)) ∨
    (Property.known (String.ofList name) = false ∧
      propertyItem name negated place = .error ⟨.unknownProperty (String.ofList name), place, []⟩) := by
  unfold propertyItem
  simp only
  cases known : Property.known (String.ofList name) with
  | true => exact .inl ⟨rfl, rfl⟩
  | false => exact .inr ⟨rfl, rfl⟩

/-- What is written for a member ends where a piece begins. -/
theorem Spells.rest {text rest : List Char} {m : Member} (h : Spells text m)
    (pieces : Pieces (text ++ rest)) : Pieces rest := by
  have escaped {c : Char} {rest : List Char} (pieces : Pieces ('\\' :: c :: rest)) : Pieces rest := by
    obtain ⟨_, _, ⟨⟩, pieces⟩ := Pieces.slash.mp pieces
    exact pieces
  cases h with
  | plain slashless => exact pieces.plain slashless
  | shorthand | control | escaped => exact escaped pieces
  | @property c name =>
    -- a backslash in the name may take the closing brace, and a piece ends there all the same
    have named : Pieces ('\x7b' :: (name ++ '\x7d' :: rest)) := escaped (c := c) (by simpa using pieces)
    exact (named.plain (by decide)).behind (by decide)

/-- A member is read as what is written for it, or its backslash is at fault. -/
def MemberSays (c : Char) (cs : List Char) (place : Nat) : Prop :=
  (∃ m text rest, cs = text ++ rest ∧ Spells (c :: text) m ∧
    readMember c cs place = .ok (m, text.length)) ∨
  ∃ complaint, MemberFault complaint (c :: cs) ∧
    readMember c cs place = .error ⟨complaint, place, []⟩

/-- What is read of an escape that is neither a shorthand nor a control character. -/
theorem readMember_escape {e : Char} (shorthand : isShorthand e = false) (control : control? e = none)
    (rest : List Char) (place : Nat) :
    readMember '\\' (e :: rest) place =
      if isPropertyLetter e && rest.head? == some '\x7b' then
        if ((rest.drop 1).takeWhile (· != '\x7d')).length == (rest.drop 1).length then
          .error ⟨.unclosedProperty, place, []⟩
        else (propertyItem ((rest.drop 1).takeWhile (· != '\x7d')) (e == 'P') place).map fun item =>
          (.item item, ((rest.drop 1).takeWhile (· != '\x7d')).length + 3)
      else if Unicode.isAlphanumeric e then .error ⟨.unknownClassEscape e, place, []⟩
      else .ok (.char e, 1) := by
  simp only [readMember, shorthand, control]
  rfl

/-- A property in a class. -/
theorem memberSays_property {e : Char} (letter : isPropertyLetter e = true)
    (shorthand : isShorthand e = false) (control : control? e = none) (body : List Char)
    (place : Nat) : MemberSays '\\' (e :: '\x7b' :: body) place := by
  have braces : (isPropertyLetter e && ('\x7b' :: body).head? == some '\x7b') = true := by
    rw [letter]
    rfl
  unfold MemberSays
  rw [readMember_escape shorthand control, if_pos braces, List.drop_one, List.tail_cons]
  by_cases closed : '\x7d' ∈ body
  · obtain ⟨name, rest, rfl, first⟩ := List.eq_append_cons_of_mem closed
    have taken : (name ++ '\x7d' :: rest).takeWhile (· != '\x7d') = name :=
      takeWhile_run (fun d hd => bne_iff_ne.mpr (ne_of_mem_of_not_mem hd first)) rfl rest
    have shorter : ¬(name.length == (name ++ '\x7d' :: rest).length) = true := by
      rw [beq_iff_eq, List.length_append, List.length_cons]
      omega
    rw [taken, if_neg shorter]
    rcases propertyItem_cases name (e == 'P') place with ⟨known, item⟩ | ⟨unknown, fault⟩
    · refine .inl ⟨_, e :: '\x7b' :: (name ++ ['\x7d']), rest, by simp,
        .property letter first known, ?_⟩
      rw [item]
      simp [Except.map]
    · exact .inr ⟨_, .property letter first unknown, by rw [fault]; rfl⟩
  · have whole : body.takeWhile (· != '\x7d') = body :=
      List.takeWhile_eq_self_iff.mpr fun d hd => bne_iff_ne.mpr (ne_of_mem_of_not_mem hd closed)
    rw [whole, if_pos (beq_self_eq_true _)]
    exact .inr ⟨_, .unclosed letter closed, rfl⟩

theorem memberSays_escape (e : Char) (rest : List Char) (place : Nat) :
    MemberSays '\\' (e :: rest) place := by
  cases shorthand : isShorthand e with
  | true =>
    refine .inl ⟨_, [e], rest, rfl, .shorthand shorthand, ?_⟩
    simp only [readMember, shorthand]
    rfl
  | false =>
    cases control : control? e with
    | some d =>
      refine .inl ⟨.char d, [e], rest, rfl, .control control, ?_⟩
      simp only [readMember, shorthand, control]
      rfl
    | none =>
      by_cases braces : isPropertyLetter e = true ∧ rest.head? = some '\x7b'
      · obtain ⟨body, rfl⟩ := List.head?_eq_some_iff.mp braces.2
        exact memberSays_property braces.1 shorthand control body place
      · unfold MemberSays
        rw [readMember_escape shorthand control, if_neg (by simpa using braces)]
        cases letter : Unicode.isAlphanumeric e with
        | true => exact .inr ⟨_, .escape letter shorthand control braces, rfl⟩
        | false => exact .inl ⟨_, [e], rest, rfl, .escaped letter, rfl⟩

/-- **A member is read as what is written for it**, or its backslash is at fault. -/
theorem readMember_cases {c : Char} {cs : List Char} (pieces : Pieces (c :: cs)) (place : Nat) :
    MemberSays c cs place := by
  by_cases slash : c = '\\'
  · subst slash
    obtain ⟨e, rest, rfl, _⟩ := Pieces.slash.mp pieces
    exact memberSays_escape e rest place
  · refine .inl ⟨.char c, [], cs, rfl, .plain slash, ?_⟩
    unfold readMember
    rw [if_pos (bne_iff_ne.mpr slash)]
    rfl

/-! ## 3. Items -/

/-- What is written for an item of a class, in front of the rest of the class. -/
inductive SpellsItem : List Char → List Char → Prop
  | item {text rest : List Char} {item : ClassItem} (h : Spells text (.item item)) :
      SpellsItem text rest
  | char {text rest : List Char} {c : Char} (h : Spells text (.char c))
      (alone : ∀ e tail, rest ≠ '-' :: e :: tail) : SpellsItem text rest
  | range {text text' rest : List Char} {first last : Char} (h : Spells text (.char first))
      (h' : Spells text' (.char last)) (ordered : first ≤ last) : SpellsItem (text ++ '-' :: text') rest

/-- What is written for some items of a class, in front of the rest of it. -/
inductive SpellsItems : List Char → List Char → Prop
  | nil {rest : List Char} : SpellsItems [] rest
  | cons {text more rest : List Char} (h : SpellsItem text (more ++ rest))
      (others : SpellsItems more rest) : SpellsItems (text ++ more) rest

/-- Where an item of a class is at fault: what stands before the offending piece, and the class from
    there on. -/
inductive ItemFault : Complaint → List Char → List Char → Prop
  /-- An escape means nothing. -/
  | member {x : Complaint} {here : List Char} (fault : MemberFault x here) : ItemFault x [] here
  /-- An escape at the end of a range means nothing. -/
  | lastMember {x : Complaint} {text here : List Char} {first : Char} (h : Spells text (.char first))
      (fault : MemberFault x here) : ItemFault x (text ++ ['-']) here
  /-- What ends a range is no single character. -/
  | rangeEnd {text text' rest : List Char} {first : Char} {item : ClassItem}
      (h : Spells text (.char first)) (h' : Spells text' (.item item)) :
      ItemFault .badRangeEnd (text ++ ['-']) (text' ++ rest)
  /-- A range ends before it starts. -/
  | reversed {text text' rest : List Char} {first last : Char} (h : Spells text (.char first))
      (h' : Spells text' (.char last)) (order : last < first) :
      ItemFault (.reversedRange first last) text ('-' :: (text' ++ rest))

/-- What is written for an item ends where a piece begins. -/
theorem SpellsItem.rest {text rest : List Char} (h : SpellsItem text rest)
    (pieces : Pieces (text ++ rest)) : Pieces rest := by
  cases h with
  | item spells | char spells => exact spells.rest pieces
  | range spells spells' =>
    rw [List.append_assoc] at pieces
    exact spells'.rest ((spells.rest pieces).plain (by decide))

/-- An item is read as what is written for it, or its offending piece is found. -/
def ItemSays (c : Char) (cs : List Char) (place : Nat) : Prop :=
  (∃ item text rest, cs = text ++ rest ∧ SpellsItem (c :: text) rest ∧
    readItem c cs place = .ok (item, text.length)) ∨
  ∃ x before here, c :: cs = before ++ here ∧ ItemFault x before here ∧
    readItem c cs place = .error ⟨x, place + before.length, []⟩

/-- A range, after its first character. -/
theorem itemSays_range {c e first : Char} {text tail : List Char} {place : Nat}
    (pieces : Pieces (e :: tail)) (spells : Spells (c :: text) (.char first))
    (read : readMember c (text ++ '-' :: e :: tail) place = .ok (.char first, text.length)) :
    ItemSays c (text ++ '-' :: e :: tail) place := by
  have behind : c :: (text ++ '-' :: e :: tail) = (c :: text ++ ['-']) ++ e :: tail := by simp
  have there : place + text.length + 2 = place + (c :: text ++ ['-']).length := by
    rw [List.length_append, List.length_cons, List.length_singleton]
    omega
  unfold ItemSays readItem
  rw [read]
  simp only [List.drop_left, rangeEnd?_iff.mpr rfl]
  rcases readMember_cases pieces (place + text.length + 2) with
    ⟨m, text', rest, rfl, spells', read'⟩ | ⟨x, fault, read'⟩
  · rw [read']
    cases m with
    | item item =>
      have fault : ItemFault .badRangeEnd (c :: text ++ ['-']) (e :: text' ++ rest) :=
        .rangeEnd spells spells'
      exact .inr ⟨_, _, _, behind, fault, by rw [there]⟩
    | char last =>
      simp only
      by_cases order : last < first
      · rw [if_pos order]
        exact .inr ⟨_, c :: text, '-' :: (e :: text' ++ rest), rfl,
          .reversed spells spells' order, rfl⟩
      · rw [if_neg order]
        refine .inl ⟨.range [first] [last], text ++ '-' :: e :: text', rest, by simp,
          .range spells spells' (Char.not_lt.mp order), ?_⟩
        have length : (text ++ '-' :: e :: text').length = text.length + 2 + text'.length := by
          rw [List.length_append, List.length_cons, List.length_cons]
          omega
        rw [length]
  · rw [read']
    exact .inr ⟨x, _, _, behind, .lastMember spells fault, by rw [there]⟩

/-- **An item is read as what is written for it**, or its offending piece is found. -/
theorem readItem_cases {c : Char} {cs : List Char} (pieces : Pieces (c :: cs)) (place : Nat) :
    ItemSays c cs place := by
  rcases readMember_cases pieces place with ⟨m, text, rest, rfl, spells, read⟩ | ⟨x, fault, read⟩
  · have after := spells.rest pieces
    cases m with
    | item item =>
      refine .inl ⟨item, text, rest, rfl, .item spells, ?_⟩
      simp only [readItem, read]
    | char first =>
      cases range : rangeEnd? rest with
      | none =>
        refine .inl ⟨.range [first] [first], text, rest, rfl, .char spells fun e tail same => ?_, ?_⟩
        · rw [rangeEnd?_iff.mpr same] at range
          cases range
        · simp only [readItem, read, List.drop_left, range]
      | some r =>
        obtain rfl := rangeEnd?_iff.mp range
        exact itemSays_range (after.plain (by decide)) spells read
  · refine .inr ⟨x, [], c :: cs, rfl, .member fault, ?_⟩
    simp only [readItem, read]
    rfl

/-! ## 4. Classes -/

/-- Where a class is at fault: what stands before the offending piece, and the class from there
    on. -/
def ClassFault (x : Complaint) (before here : List Char) : Prop :=
  ∃ items inside, before = items ++ inside ∧ SpellsItems items (inside ++ here) ∧
    ItemFault x inside here

/-- **The fault of a class stands behind whole items.** -/
theorem readMembers_fault {place : Nat} {cs : List Char} (pieces : Pieces cs) {f : Fault}
    (h : readMembers place cs = .error f) :
    ∃ x before here, cs = before ++ here ∧ ClassFault x before here ∧
      f = ⟨x, place + before.length, []⟩ := by
  induction length : cs.length using Nat.strong_induction_on generalizing place cs with
  | _ n ih =>
    subst length
    cases cs with
    | nil =>
      rw [readMembers] at h
      cases h
    | cons c cs =>
      rw [readMembers_cons] at h
      rcases readItem_cases pieces place with ⟨item, text, rest, rfl, spells, read⟩ |
        ⟨x, before, here, whole, fault, read⟩
      · have after : Pieces rest := spells.rest pieces
        rw [read] at h
        simp only [Except.bind, List.drop_left] at h
        have later := faultOf_eq_some.mp (faultOf_map _ _ ▸ faultOf_eq_some.mpr h)
        have shorter : rest.length < (c :: (text ++ rest)).length := by
          rw [List.length_cons, List.length_append]
          omega
        obtain ⟨x, _, here, rfl, ⟨items, inside, rfl, others, fault⟩, rfl⟩ := ih _ shorter after later rfl
        have there : place + text.length + 1 + (items ++ inside).length =
            place + (c :: text ++ (items ++ inside)).length := by
          simp only [List.length_append, List.length_cons]
          omega
        refine ⟨x, c :: text ++ (items ++ inside), here, by simp, ⟨c :: text ++ items, inside, by simp,
          .cons (by rwa [List.append_assoc] at spells) others, fault⟩, by rw [there]⟩
      · rw [read] at h
        cases h
        exact ⟨x, before, here, whole, ⟨[], before, rfl, .nil, fault⟩, rfl⟩

/-- **A class without a fault is items** from one end to the other. -/
theorem readMembers_spelled {place : Nat} {cs : List Char} (pieces : Pieces cs)
    {items : List ClassItem} (h : readMembers place cs = .ok items) : SpellsItems cs [] := by
  induction length : cs.length using Nat.strong_induction_on generalizing place cs items with
  | _ n ih =>
    subst length
    cases cs with
    | nil => exact .nil
    | cons c cs =>
      rw [readMembers_cons] at h
      rcases readItem_cases pieces place with ⟨item, text, rest, rfl, spells, read⟩ |
        ⟨x, before, here, whole, fault, read⟩
      · rw [read] at h
        simp only [Except.bind, List.drop_left] at h
        have shorter : rest.length < (c :: (text ++ rest)).length := by
          rw [List.length_cons, List.length_append]
          omega
        cases later : readMembers (place + text.length + 1) rest with
        | error f =>
          rw [later] at h
          cases h
        | ok more =>
          have others := ih _ shorter (spells.rest pieces) later rfl
          exact .cons (by rwa [List.append_nil]) others
      · rw [read] at h
        cases h

/-- Reading a class comes to a member that begins here: the first of an item, or what ends a
    range. -/
inductive ComesTo : List Char → List Char → Prop
  | first {c : Char} {cs : List Char} : ComesTo (c :: cs) (c :: cs)
  | last {c e first : Char} {cs tail : List Char} {place n : Nat}
      (read : readMember c cs place = .ok (.char first, n)) (range : cs.drop n = '-' :: e :: tail) :
      ComesTo (c :: cs) (e :: tail)
  | later {c : Char} {cs here : List Char} {place n : Nat} {item : ClassItem}
      (read : readItem c cs place = .ok (item, n)) (h : ComesTo (cs.drop n) here) :
      ComesTo (c :: cs) here

/-- Where a member begins, a piece begins. -/
theorem ComesTo.pieces {cs here : List Char} (h : ComesTo cs here) (pieces : Pieces cs) :
    Pieces here := by
  induction h with
  | first => exact pieces
  | @last c e first cs tail place n read range =>
    rcases readMember_cases pieces place with ⟨m, text, rest, rfl, spells, read'⟩ | ⟨x, _, read'⟩
    · cases read.symm.trans read'
      rw [List.drop_left] at range
      subst range
      exact (spells.rest pieces).plain (by decide)
    · cases read.symm.trans read'
  | @later c cs here place n item read _ ih =>
    rcases readItem_cases pieces place with ⟨item, text, rest, rfl, spells, read'⟩ |
      ⟨x, _, _, _, _, read'⟩
    · cases read.symm.trans read'
      rw [List.drop_left] at ih
      exact ih (spells.rest pieces)
    · cases read.symm.trans read'

/-- **A backslash with which a member begins has a character behind it**, wherever in the class. -/
theorem ComesTo.escapes {cs rest : List Char} (h : ComesTo cs ('\\' :: rest)) (pieces : Pieces cs) :
    rest ≠ [] := by
  obtain ⟨d, rest, rfl, _⟩ := Pieces.slash.mp (h.pieces pieces)
  exact List.cons_ne_nil d rest

/-- The members of a class are pieces, whether the class is negated or not. -/
theorem class_pieces {text : List Char} (word : text ∈ TokenKind.charClass.lexemes) :
    Pieces (inside text) ∧ ∀ members, inside text = '^' :: members → Pieces members := by
  obtain ⟨members, rfl, pieces⟩ := class_cases word
  rw [inside_between]
  refine ⟨pieces, fun rest negated => ?_⟩
  subst negated
  exact pieces.plain (by decide)

end GrammarMatch.Syntax
