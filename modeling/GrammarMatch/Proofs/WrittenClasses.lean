/-
  File:      GrammarMatch/Proofs/WrittenClasses.lean
  Subject:   Literals and classes are read back from what is written for them.

  What is written for a literal or a class is read as one token, whatever follows it
  (`lexical_literal`, `lexical_class`), and the token means the literal (`unescape_quoted`) or the
  class (`classPattern_class`) that was written.
-/
import GrammarMatch.Proofs.Meanings
import GrammarMatch.Proofs.Render

namespace GrammarMatch

open Syntax

/-! ## 1. Literals -/

theorem quotedChar_special {c : Char} (h : c = '\\' ∨ c = '\'') : quotedChar c = ['\\', c] :=
  if_pos h

theorem quotedChar_plain {c : Char} (h : ¬(c = '\\' ∨ c = '\'')) : quotedChar c = [c] := if_neg h

/-- A character that is no backslash ends the quotes, or is passed. -/
theorem quotedReach_plain {c : Char} (slash : c ≠ '\\') (quote : Char) (rest : List Char) :
    quotedReach quote (c :: rest) =
      if c == quote then some 1 else (quotedReach quote rest).map (· + 1) := by
  rw [quotedReach]
  · exact fun h => absurd h slash
  · exact fun _ _ h => absurd h slash

/-- A character that is no backslash stands for itself. -/
theorem unescape_plain {c : Char} (slash : c ≠ '\\') (rest : List Char) :
    unescape (c :: rest) = c :: unescape rest := by
  rw [unescape]
  · exact fun h => absurd h slash
  · exact fun _ _ h => absurd h slash

theorem quotedReach_quoted (chars rest : List Char) :
    quotedReach '\'' (chars.flatMap quotedChar ++ '\'' :: rest) =
      some ((chars.flatMap quotedChar).length + 1) := by
  induction chars with
  | nil => rfl
  | cons c chars ih =>
    rw [List.flatMap_cons, List.append_assoc, List.length_append]
    by_cases special : c = '\\' ∨ c = '\''
    · rw [quotedChar_special special]
      show (quotedReach '\'' (chars.flatMap quotedChar ++ '\'' :: rest)).map (· + 2) = _
      rw [ih, Option.map_some]
      exact congrArg some (Nat.add_comm _ 2)
    · obtain ⟨slash, quote⟩ := not_or.mp special
      rw [quotedChar_plain special, List.singleton_append, quotedReach_plain slash,
        if_neg (by simpa using quote), ih, Option.map_some]
      exact congrArg some (Nat.add_comm _ 1)

theorem lexical_literal (chars : List Char) : Lexical .quoted (Pattern.renderLiteral chars) := by
  refine ⟨by decide, by decide, by decide, fun rest _ => ?_⟩
  show (quotedReach '\'' _).map _ = _
  rw [List.append_assoc, List.singleton_append, quotedReach_quoted, List.length_append]
  rfl

theorem unescape_quoted (chars : List Char) : unescape (chars.flatMap quotedChar) = chars := by
  induction chars with
  | nil => rfl
  | cons c chars ih =>
    rw [List.flatMap_cons]
    by_cases special : c = '\\' ∨ c = '\''
    · rw [quotedChar_special special]
      show (control? c).getD c :: unescape (chars.flatMap quotedChar) = _
      rw [ih]
      rcases special with rfl | rfl <;> rfl
    · obtain ⟨slash, _⟩ := not_or.mp special
      rw [quotedChar_plain special, List.singleton_append, unescape_plain slash, ih]

/-! ## 2. Classes -/

/-- Characters that are passed inside a class. -/
def Inside (cs : List Char) : Prop :=
  ∀ hasMember rest, classReach hasMember (cs ++ rest) =
    (classReach true rest).map (· + cs.length)

theorem Inside.append {cs ds : List Char} (h : Inside cs) (h' : Inside ds) : Inside (cs ++ ds) := by
  intro hasMember rest
  rw [List.append_assoc, h, h' true, Option.map_map, List.length_append]
  congr 1
  funext n
  exact (Nat.add_assoc n _ _).trans (congrArg (n + ·) (Nat.add_comm _ _))

theorem inside_plain {c : Char} (slash : c ≠ '\\') (bracket : c ≠ ']') : Inside [c] := by
  intro hasMember rest
  rw [List.singleton_append, classReach, if_neg (by simpa using bracket)]
  · rfl
  · exact fun h => absurd h slash
  · exact fun _ _ h => absurd h slash

theorem inside_escaped (c : Char) : Inside ['\\', c] := fun _ _ => rfl

/-- Characters of which each one is passed. -/
theorem inside_all {c : Char} {cs : List Char} (h : ∀ d ∈ c :: cs, Inside [d]) :
    Inside (c :: cs) := by
  induction cs generalizing c with
  | nil => exact h c List.mem_cons_self
  | cons d cs ih =>
    obtain ⟨first, others⟩ := List.forall_mem_cons.mp h
    exact first.append (ih others)

/-- An alphanumeric character is none that means something in a class. -/
theorem ne_of_alphanumeric {c d : Char} (h : Unicode.isAlphanumeric c = true)
    (hd : Unicode.isAlphanumeric d = false) : c ≠ d := by
  rintro rfl
  rw [h] at hd
  cases hd

theorem ne_of_nameStart {c d : Char} (h : isNameStart c = true) (hd : isNameStart d = false) :
    c ≠ d := by
  rintro rfl
  rw [h] at hd
  cases hd

theorem inside_classChar (c : Char) : Inside (classChar c) := by
  unfold classChar
  split
  · rename_i h
    exact inside_plain (ne_of_alphanumeric h rfl) (ne_of_alphanumeric h rfl)
  · exact inside_escaped c

/-- Letters and underscores only. -/
def Lettered (name : String) : Prop := name.toList.all isNameStart = true

instance (name : String) : Decidable (Lettered name) :=
  inferInstanceAs (Decidable (name.toList.all isNameStart = true))

theorem abbreviate_cases (name : String) : Lettered name ∨ Property.abbreviate name = name := by
  unfold Property.abbreviate
  split
  iterate 10 exact .inl (by decide)
  exact .inr rfl

theorem lettered_named {name : String} {test : Char → Bool}
    (h : Property.named? name = some test) : Lettered name := by
  unfold Property.named? at h
  split at h
  iterate 8 decide
  cases h

theorem lettered_category {name : String} {k : Unicode.Category}
    (h : Unicode.Category.ofAbbreviation? name = some k) : Lettered name := by
  have same := List.find?_some h
  rw [← eq_of_beq same]
  cases k <;> decide

theorem lettered_major {name : String} (h : Unicode.Category.majors.contains name = true) :
    Lettered name := by
  have all : ∀ major ∈ Unicode.Category.majors, Lettered major := by decide
  exact all name (List.contains_iff_mem.mp h)

/-- The name of a property has letters and underscores only. -/
theorem lettered_of_known {name : String} (known : Property.known name = true) :
    Lettered name := by
  rcases abbreviate_cases name with lettered | short
  · exact lettered
  · unfold Property.known Property.find? at known
    rw [short] at known
    cases named : Property.named? name with
    | some test => exact lettered_named named
    | none =>
      cases category : Unicode.Category.ofAbbreviation? name with
      | some k => exact lettered_category category
      | none =>
        simp only [named, category] at known
        split at known
        · exact lettered_major ‹_›
        · cases known

/-- A range is written as its two ends, or as one character if they are the same. -/
theorem render_range (full : Bool) (first last : Char) :
    (first = last ∧ (ClassItem.range [first] [last]).render full = classChar first) ∨
      (ClassItem.range [first] [last]).render full = classChar first ++ '-' :: classChar last := by
  have one (c : Char) : [c].flatMap classChar = classChar c := List.flatMap_singleton classChar c
  simp only [ClassItem.render, one]
  split
  · rename_i single
    exact .inl ⟨List.head_eq_of_cons_eq single.1, rfl⟩
  · exact .inr rfl

theorem render_shorthand (full : Bool) (letter : Char) :
    (ClassItem.shorthand letter.toString).render full = ['\\', letter] := by
  simp only [ClassItem.render, Char.toString, String.toList_singleton]

/-- What is written for a member is passed inside a class. -/
theorem inside_item (full : Bool) {item : ClassItem} (h : item.Writable) :
    Inside (item.render full) := by
  cases h with
  | @range first last ordered =>
    rcases render_range full first last with ⟨_, single⟩ | range
    · rw [single]
      exact inside_classChar first
    · rw [range]
      have minus : Inside ['-'] := inside_plain (by decide) (by decide)
      exact (inside_classChar first).append (minus.append (inside_classChar last))
  | @shorthand letter _ =>
    rw [render_shorthand]
    exact inside_escaped letter
  | @property name negated known =>
    have braces : Inside ('\x7b' :: (name.toList ++ ['\x7d'])) := by
      refine inside_all fun c hc => ?_
      rcases List.mem_cons.mp hc with rfl | hc
      · exact inside_plain (by decide) (by decide)
      · rcases List.mem_append.mp hc with hc | hc
        · have letter := List.all_eq_true.mp (lettered_of_known known) c hc
          exact inside_plain (ne_of_nameStart letter rfl) (ne_of_nameStart letter rfl)
        · rw [List.mem_singleton.mp hc]
          exact inside_plain (by decide) (by decide)
    exact (inside_escaped _).append braces

theorem inside_items (full : Bool) {items : List ClassItem} (some : items ≠ [])
    (h : ∀ item ∈ items, item.Writable) : Inside (items.flatMap (ClassItem.render full)) := by
  induction items with
  | nil => exact absurd rfl some
  | cons item items ih =>
    obtain ⟨first, others⟩ := List.forall_mem_cons.mp h
    rw [List.flatMap_cons]
    cases items with
    | nil =>
      rw [List.flatMap_nil, List.append_nil]
      exact inside_item full first
    | cons next items => exact (inside_item full first).append (ih nofun others)

theorem lexical_between {cs : List Char} (h : Inside cs) :
    Lexical .charClass ('[' :: (cs ++ [']'])) := by
  refine ⟨by decide, by decide, by decide, fun rest _ => ?_⟩
  show (classReach false _).map _ = _
  rw [List.append_assoc, h, List.length_append]
  show some (_, 1 + cs.length) = _
  rw [Nat.add_comm]
  rfl

theorem lexical_class (full : Bool) {items : List ClassItem} {negated : Bool} (some : items ≠ [])
    (h : ∀ item ∈ items, item.Writable) :
    Lexical .charClass (Pattern.renderClass full items negated) := by
  have members := inside_items full some h
  unfold Pattern.renderClass
  rw [if_neg fun empty => some empty.1]
  cases negated with
  | false => exact lexical_between members
  | true =>
    have caret : Inside ['^'] := inside_plain (by decide) (by decide)
    exact lexical_between (caret.append members)

/-! ## 3. The members of a class -/

theorem alphanumeric_of_shorthand {c : Char} (h : isShorthand c = true) :
    Unicode.isAlphanumeric c = true := by
  have all : "dDwWsS".toList.all Unicode.isAlphanumeric = true := by decide
  exact List.all_eq_true.mp all c (List.contains_iff_mem.mp h)

theorem alphanumeric_of_control {c d : Char} (h : control? c = some d) :
    Unicode.isAlphanumeric c = true := by
  unfold control? at h
  split at h
  iterate 5 rfl
  cases h

/-- A character that is written in a class is read as that character. -/
theorem readMember_classChar (c : Char) (rest : List Char) (place : Nat) :
    ∃ x xs, classChar c = x :: xs ∧ x ≠ '-' ∧ x ≠ '^' ∧
      readMember x (xs ++ rest) place = .ok (.char c, xs.length) := by
  unfold classChar
  by_cases h : Unicode.isAlphanumeric c = true
  · rw [if_pos h]
    refine ⟨c, [], rfl, ne_of_alphanumeric h rfl, ne_of_alphanumeric h rfl, ?_⟩
    have slash : (c != '\\') = true := by simpa using ne_of_alphanumeric (d := '\\') h rfl
    unfold readMember
    rw [if_pos slash]
    rfl
  · rw [if_neg h]
    refine ⟨'\\', [c], rfl, by decide, by decide, ?_⟩
    have letter (d : Char) (hd : Unicode.isAlphanumeric d = true) : (c == d) = false := by
      refine beq_false_of_ne ?_
      rintro rfl
      exact h hd
    have shorthand : isShorthand c = false :=
      Bool.eq_false_iff.mpr fun known => h (alphanumeric_of_shorthand known)
    have control : control? c = none :=
      Option.eq_none_iff_forall_ne_some.mpr fun d known => h (alphanumeric_of_control known)
    simp only [readMember, List.singleton_append, shorthand, control, letter 'p' rfl,
      letter 'P' rfl, Bool.eq_false_iff.mpr h]
    rfl

theorem readMember_shorthand {letter : Char} (known : isShorthand letter = true)
    (rest : List Char) (place : Nat) :
    readMember '\\' (letter :: rest) place = .ok (.item (.shorthand letter.toString), 1) := by
  simp only [readMember, known]
  rfl

theorem readMember_property {name : String} (known : Property.known name = true) (negated : Bool)
    (rest : List Char) (place : Nat) :
    readMember '\\' ((if negated then 'P' else 'p') :: '\x7b' :: (name.toList ++ '\x7d' :: rest))
      place = .ok (.item (.property name negated), name.toList.length + 3) := by
  have letters := List.all_eq_true.mp (lettered_of_known known)
  have taken : (name.toList ++ '\x7d' :: rest).takeWhile (· != '\x7d') = name.toList := by
    refine takeWhile_run (fun c hc => ?_) rfl rest
    simpa using ne_of_nameStart (d := '\x7d') (letters c hc) rfl
  have item : propertyItem name.toList negated place = .ok (.property name negated) := by
    simp only [propertyItem, String.ofList_toList, known]
    rfl
  have longer : (name.toList.length == (name.toList ++ '\x7d' :: rest).length) = false := by
    refine beq_false_of_ne ?_
    rw [List.length_append, List.length_cons]
    omega
  have shorthand : isShorthand (if negated then 'P' else 'p') = false := by cases negated <;> rfl
  have control : control? (if negated then 'P' else 'p') = none := by cases negated <;> rfl
  have capital : ((if negated then 'P' else 'p') == 'P') = negated := by cases negated <;> rfl
  have brace : (some '\x7b' == some '\x7b') = true := rfl
  simp only [readMember, shorthand, control, capital, brace, List.head?_cons, List.drop_one,
    List.tail_cons, taken, longer, item]
  cases negated <;> rfl

section Members

variable {c : Char} {rest : List Char} {place n : Nat}

theorem readMembers_item {item : ClassItem} (h : readMember c rest place = .ok (.item item, n)) :
    readMembers place (c :: rest) =
      (readMembers (place + n + 1) (rest.drop n)).map (item :: ·) := by
  rw [readMembers_cons, readItem, h]
  rfl

/-- A character that no minus sign follows. -/
theorem readMembers_single {first : Char} (h : readMember c rest place = .ok (.char first, n))
    (alone : (rest.drop n).head? ≠ some '-') :
    readMembers place (c :: rest) =
      (readMembers (place + n + 1) (rest.drop n)).map (.range [first] [first] :: ·) := by
  have single : rangeEnd? (rest.drop n) = none :=
    Option.eq_none_iff_forall_ne_some.mpr fun r range =>
      alone (by rw [rangeEnd?_iff.mp range, List.head?_cons])
  rw [readMembers_cons, readItem, h]
  simp only [single]
  rfl

/-- A character with a minus sign and another character behind it. -/
theorem readMembers_range {first last e : Char} {tail : List Char} {k : Nat}
    (h : readMember c rest place = .ok (.char first, n)) (range : rest.drop n = '-' :: e :: tail)
    (h' : readMember e tail (place + n + 2) = .ok (.char last, k)) (ordered : ¬last < first) :
    readMembers place (c :: rest) =
      (readMembers (place + (n + 2 + k) + 1) (tail.drop k)).map (.range [first] [last] :: ·) := by
  have behind : rest.drop (n + 2 + k) = tail.drop k := by
    rw [← List.drop_drop, ← List.drop_drop, range]
    rfl
  rw [readMembers_cons, readItem, h]
  simp only [rangeEnd?_iff.mpr range, h', if_neg ordered, Except.bind, behind]

end Members

/-- No member begins with a sign that means something at the start of a class or after a
    character. -/
theorem head_item (full : Bool) {item : ClassItem} (h : item.Writable) :
    ∃ x xs, item.render full = x :: xs ∧ x ≠ '-' ∧ x ≠ '^' := by
  cases h with
  | @range first last ordered =>
    obtain ⟨x, xs, written, minus, caret, _⟩ := readMember_classChar first [] 0
    rcases render_range full first last with ⟨_, single⟩ | range
    · exact ⟨x, xs, single.trans written, minus, caret⟩
    · exact ⟨x, xs ++ '-' :: classChar last, by rw [range, written]; rfl, minus, caret⟩
  | @shorthand letter _ => exact ⟨'\\', [letter], render_shorthand full letter, by decide, by decide⟩
  | property _ => exact ⟨'\\', _, rfl, by decide, by decide⟩

theorem head_items (full : Bool) {items : List ClassItem} (h : ∀ item ∈ items, item.Writable) :
    (items.flatMap (ClassItem.render full)).head? ≠ some '-' ∧
      (items.flatMap (ClassItem.render full)).head? ≠ some '^' := by
  cases items with
  | nil => exact ⟨nofun, nofun⟩
  | cons item items =>
    obtain ⟨x, xs, written, minus, caret⟩ := head_item full (h item List.mem_cons_self)
    rw [List.flatMap_cons, written, List.cons_append, List.head?_cons]
    exact ⟨fun same => minus (Option.some.inj same), fun same => caret (Option.some.inj same)⟩

/-- A range is read from what is written for it, where no minus sign follows. -/
theorem readMembers_writtenRange (full : Bool) {first last : Char} (ordered : first ≤ last)
    (place : Nat) {cs : List Char} (alone : cs.head? ≠ some '-') :
    ∃ next, readMembers place ((ClassItem.range [first] [last]).render full ++ cs) =
      (readMembers next cs).map (.range [first] [last] :: ·) := by
  rcases render_range full first last with ⟨rfl, single⟩ | range
  · obtain ⟨x, xs, written, _, _, read⟩ := readMember_classChar first cs place
    rw [single, written, List.cons_append]
    rw [readMembers_single read (by rwa [List.drop_left]), List.drop_left]
    exact ⟨_, rfl⟩
  · obtain ⟨y, ys, written', _, _, read'⟩ := readMember_classChar last cs
      (place + (classChar first).length + 1)
    obtain ⟨x, xs, written, _, _, read⟩ :=
      readMember_classChar first ('-' :: (classChar last ++ cs)) place
    rw [written', List.cons_append] at read
    have behind : (xs ++ '-' :: y :: (ys ++ cs)).drop xs.length = '-' :: y :: (ys ++ cs) :=
      List.drop_left
    have split : (ClassItem.range [first] [last]).render full ++ cs =
        x :: (xs ++ '-' :: y :: (ys ++ cs)) := by
      rw [range, written, written']
      simp
    rw [written, List.length_cons] at read'
    rw [split, readMembers_range read behind read' (Char.not_lt.mpr ordered), List.drop_left]
    exact ⟨_, rfl⟩

/-- A member is read from what is written for it, where no minus sign follows. -/
theorem readMembers_written (full : Bool) {item : ClassItem} (h : item.Writable) (place : Nat)
    {cs : List Char} (alone : cs.head? ≠ some '-') :
    ∃ next, readMembers place (item.render full ++ cs) =
      (readMembers next cs).map (item :: ·) := by
  cases h with
  | range ordered => exact readMembers_writtenRange full ordered place alone
  | @shorthand letter known =>
    rw [render_shorthand]
    show ∃ next, readMembers place ('\\' :: (letter :: cs)) = _
    rw [readMembers_item (readMember_shorthand known _ place), List.drop_one, List.tail_cons]
    exact ⟨_, rfl⟩
  | @property name negated known =>
    have split : (ClassItem.property name negated).render full ++ cs =
        '\\' :: ((if negated then 'P' else 'p') :: '\x7b' :: (name.toList ++ '\x7d' :: cs)) := by
      simp [ClassItem.render]
    have behind : ((if negated then 'P' else 'p') :: '\x7b' :: (name.toList ++ '\x7d' :: cs)).drop
        (name.toList.length + 3) = cs := by
      simp
    rw [split, readMembers_item (readMember_property known negated _ place), behind]
    exact ⟨_, rfl⟩

/-- **Members are read back from what is written for them.** -/
theorem readMembers_items (full : Bool) {items : List ClassItem}
    (h : ∀ item ∈ items, item.Writable) (place : Nat) :
    readMembers place (items.flatMap (ClassItem.render full)) = .ok items := by
  induction items generalizing place with
  | nil => rw [List.flatMap_nil, readMembers]
  | cons item items ih =>
    obtain ⟨first, others⟩ := List.forall_mem_cons.mp h
    obtain ⟨next, read⟩ := readMembers_written full first place (head_items full others).1
    rw [List.flatMap_cons, read, ih others]
    rfl

/-- **A class is read back from what is written for it.** -/
theorem classPattern_class (full ignoreCase : Bool) {items : List ClassItem} {negated : Bool}
    (some : items ≠ []) (h : ∀ item ∈ items, item.Writable) (offset : Nat) :
    classPattern ignoreCase ⟨.charClass, Pattern.renderClass full items negated, offset⟩ =
      .ok (.charClass items negated ignoreCase) := by
  unfold classPattern Pattern.renderClass
  rw [if_neg fun empty => some empty.1]
  cases negated with
  | false =>
    have members : inside ('[' :: ((if false = true then ['^'] else []) ++
        (items.flatMap (ClassItem.render full) ++ [']']))) =
          items.flatMap (ClassItem.render full) := inside_between _ _ _
    rw [members]
    split
    · rename_i caret
      have first := (head_items full h).2
      rw [caret] at first
      exact absurd rfl first
    · rw [readMembers_items full h]
      rfl
  | true =>
    have members : inside ('[' :: ((if true = true then ['^'] else []) ++
        (items.flatMap (ClassItem.render full) ++ [']']))) =
          '^' :: items.flatMap (ClassItem.render full) :=
      inside_between '[' ']' ('^' :: items.flatMap (ClassItem.render full))
    rw [members]
    simp only [readMembers_items full h]
    rfl

end GrammarMatch
