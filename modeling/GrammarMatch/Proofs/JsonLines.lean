/-
  File:      GrammarMatch/Proofs/JsonLines.lean
  Subject:   Values on one line hold no control character.

  Whatever stands in the texts of a value, written on one line it holds no character below U+0020
  (`line_clean`): controls are escaped in texts and keys, and nothing else that is written is one.
  So values that are written line after line are told apart again by the line feeds alone
  (`splitOn_lines`).
-/
import GrammarMatch.Datum.Json

namespace GrammarMatch.Json

/-! ## 1. Characters -/

/-- There is no control character below U+0020 among these. -/
def Clean (cs : List Char) : Prop := ∀ c ∈ cs, 0x20 ≤ c.toNat

theorem clean_iff {cs : List Char} : (cs.all fun c => 0x20 ≤ c.toNat) = true ↔ Clean cs :=
  List.all_eq_true.trans (forall₂_congr fun _ _ => decide_eq_true_iff)

instance (cs : List Char) : Decidable (Clean cs) := decidable_of_iff _ clean_iff

theorem clean_nil : Clean [] := List.forall_mem_nil _

theorem Clean.append {cs cs' : List Char} (h : Clean cs) (h' : Clean cs') : Clean (cs ++ cs') :=
  List.forall_mem_append.mpr ⟨h, h'⟩

theorem Clean.cons {c : Char} {cs : List Char} (h : 0x20 ≤ c.toNat) (h' : Clean cs) :
    Clean (c :: cs) := List.forall_mem_cons.mpr ⟨h, h'⟩

theorem clean_replicate (n : Nat) {c : Char} (h : 0x20 ≤ c.toNat) : Clean (List.replicate n c) := by
  intro c' hc'
  rw [List.eq_of_mem_replicate hc']
  exact h

theorem Clean.sublist {cs cs' : List Char} (h : Clean cs') (sub : cs.Sublist cs') : Clean cs :=
  fun c hc => h c (sub.subset hc)

/-- A line feed is a control character. -/
theorem Clean.unbroken {cs : List Char} (h : Clean cs) : '\n' ∉ cs :=
  fun broken => absurd (h '\n' broken) (by decide)

/-! ## 2. Numbers -/

theorem clean_digit {d : Nat} (small : d < 16) : 0x20 ≤ d.digitChar.toNat := by
  have all : ∀ d < 16, 0x20 ≤ d.digitChar.toNat := by decide
  exact all d small

theorem clean_digits {base : Nat} (least : 1 < base) (most : base ≤ 16) (n : Nat) :
    Clean (Nat.toDigits base n) := by
  induction n using Nat.strongRecOn with
  | _ n ih =>
    rw [Nat.toDigits_eq_if least]
    split
    case isTrue small =>
      exact .cons (clean_digit (Nat.lt_of_lt_of_le small most)) clean_nil
    case isFalse large =>
      have positive : 0 < base := Nat.lt_trans Nat.one_pos least
      have fewer : n / base < n := Nat.div_lt_self (by omega) least
      have last : n % base < 16 := Nat.lt_of_lt_of_le (Nat.mod_lt n positive) most
      exact (ih (n / base) fewer).append (.cons (clean_digit last) clean_nil)

theorem clean_hexadecimal (width n : Nat) : Clean (Quoted.hexadecimal width n) :=
  (clean_replicate _ (by decide)).append (clean_digits (by decide) (by decide) n)

theorem clean_int (n : Int) : Clean (toString n).toList := by
  rw [Int.toString_eq_repr, Int.repr_eq_if]
  have digits (n : Nat) : Clean n.repr.toList := by
    rw [Nat.toList_repr]
    exact clean_digits (by decide) (by decide) n
  split
  · exact digits _
  · rw [String.toList_append]
    exact Clean.append (by decide) (digits _)

/-- A decimal is digits, a point, an exponent and signs. -/
theorem clean_decimal (d : Decimal.Scaled) : Clean (Decimal.write d) := by
  have all : Clean (Nat.toDigits 10 d.digits) := clean_digits (by decide) (by decide) _
  have zeros (n : Nat) : Clean (List.replicate n '0') := clean_replicate n (by decide)
  have digits : Clean ((Nat.toDigits 10 d.digits).reverse.dropWhile (· == '0')).reverse :=
    fun c hc => all c (List.mem_reverse.mp
      ((List.dropWhile_sublist _).subset (List.mem_reverse.mp hc)))
  have size : Clean (Nat.toDigits 10 (d.exponent + (Nat.toDigits 10 d.digits).length - 1).natAbs) :=
    clean_digits (by decide) (by decide) _
  unfold Decimal.write
  dsimp only
  split
  · split
    · exact .cons (by decide) (.cons (by decide) ((zeros _).append digits))
    · refine ((digits.sublist (List.take_sublist _ _)).append (zeros _)).append
        (.cons (by decide) ?_)
      split
      · decide
      · exact digits.sublist (List.drop_sublist _ _)
  · have first := digits.sublist (List.take_sublist 1 _)
    refine ((first.append ?_).append (.cons (by decide) (.cons ?_ (zeros _)))).append size
    · split
      · decide
      · exact .cons (by decide) (digits.sublist (List.drop_sublist _ _))
    · split <;> decide

theorem clean_ofFloat (x : Float) : Clean (Decimal.ofFloat x).toList := by
  unfold Decimal.ofFloat
  dsimp only
  have sign (negative : Bool) : Clean (if negative then "" else "-").toList := by
    cases negative <;> decide
  split
  · split
    · rw [String.toList_append]
      exact (sign _).append (by decide)
    · decide
  · split
    · rw [String.toList_append]
      exact (sign _).append (by decide)
    · rw [String.toList_append, String.toList_ofList]
      exact (sign _).append (clean_decimal _)

theorem clean_float (x : Float) : Clean (float x).toList := by
  unfold float
  split
  · decide
  · decide
  · decide
  · exact clean_ofFloat x

/-! ## 3. Texts -/

/-- **A character inside quotes is written without a control.** -/
theorem clean_escape (c : Char) : Clean (escape c) := by
  unfold escape
  repeat' split
  -- what has a letter of its own is written with fixed characters
  all_goals try decide
  · exact .cons (by decide) (.cons (by decide) (clean_hexadecimal 4 c.toNat))
  · rename_i large
    exact .cons (Nat.not_lt.mp large) clean_nil

theorem clean_text (s : String) : Clean (text s).toList := by
  rw [text, String.toList_ofList]
  refine Clean.append (.cons (by decide) fun c hc => ?_) (by decide)
  obtain ⟨c', -, mem⟩ := List.mem_flatMap.mp hc
  exact clean_escape c' c mem

/-! ## 4. Values -/

theorem clean_intercalate (separator : String) (apart : Clean separator.toList)
    {parts : List String} (each : ∀ s ∈ parts, Clean s.toList) :
    Clean (separator.intercalate parts).toList := by
  rw [String.toList_intercalate]
  induction parts with
  | nil => exact clean_nil
  | cons s parts ih =>
    obtain ⟨first, rest⟩ := List.forall_mem_cons.mp each
    cases parts with
    | nil => simpa using first
    | cons s' parts =>
      rw [List.map_cons, List.map_cons, List.intercalate_cons_cons, List.append_assoc]
      exact first.append (apart.append (ih rest))

/-- Parts on a line, in brackets. -/
theorem clean_enclose {depth : Nat} {opening closing : String} (left : Clean opening.toList)
    (right : Clean closing.toList) {parts : List String} (each : ∀ s ∈ parts, Clean s.toList) :
    Clean (Layout.line.enclose depth opening closing parts).toList := by
  cases parts with
  | nil =>
    rw [Layout.enclose, String.toList_append]
    exact left.append right
  | cons s parts =>
    have inner := clean_intercalate ", " (by decide) each
    simp only [Layout.enclose, Layout.breakAt, Layout.separator, String.append_empty,
      String.toList_append]
    exact (left.append inner).append right

mutual

theorem clean_write (depth : Nat) : (d : Datum) → Clean (write .line depth d).toList
  | .null => by rw [write]; decide
  | .bool true => by rw [write]; decide
  | .bool false => by rw [write]; decide
  | .int n => clean_int n
  | .float x => clean_float x
  | .string s => clean_text s
  | .list items => clean_enclose (by decide) (by decide) (clean_items (depth + 1) items)
  | .tuple items => clean_enclose (by decide) (by decide) (clean_items (depth + 1) items)
  | .dict entries => clean_enclose (by decide) (by decide) (clean_entries (depth + 1) entries)

theorem clean_items (depth : Nat) :
    (items : List Datum) → ∀ s ∈ writeItems .line depth items, Clean s.toList
  | [] => List.forall_mem_nil _
  | item :: rest => List.forall_mem_cons.mpr ⟨clean_write depth item, clean_items depth rest⟩

theorem clean_entries (depth : Nat) :
    (entries : List (String × Datum)) → ∀ s ∈ writeEntries .line depth entries, Clean s.toList
  | [] => List.forall_mem_nil _
  | (key, value) :: rest => List.forall_mem_cons.mpr ⟨by
      rw [String.toList_append, String.toList_append]
      exact ((clean_text key).append (by decide)).append (clean_write depth value),
    clean_entries depth rest⟩

end

/-- **A value on one line holds no control character.** -/
theorem line_clean (d : Datum) : Clean (line d).toList := clean_write 0 d

/-! ## 5. Line after line -/

/-- **Values written line after line are told apart by the line feeds**: there are as many lines as
    values, and nothing stands after the last line feed. -/
theorem splitOn_lines (data : List Datum) :
    (String.join (data.map fun d => line d ++ "\n")).toList.splitOn '\n' =
      data.map (fun d => (line d).toList) ++ [[]] := by
  induction data with
  | nil => rfl
  | cons d data ih =>
    rw [List.map_cons, List.map_cons, List.cons_append, ← ih, String.join_cons,
      String.toList_append, String.toList_append, List.append_assoc]
    exact List.splitOn_append_cons_self_of_not_mem (line_clean d).unbroken _

end GrammarMatch.Json
