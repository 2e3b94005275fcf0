/-
  File:      GrammarMatch/Proofs/Meanings.lean
  Subject:   What a token means by itself.

  What a token means does not depend on where it stands, and where it means nothing, the place of
  its fault moves along with it (`Placed`). So each token has a fault of its own, or none
  (`Token.fault?`), whatever the flags and the kind of the pattern are.
-/
import GrammarMatch.Pattern.Compile
import GrammarMatch.Proofs.Spelling

namespace GrammarMatch.Syntax

/-! ## 1. Places -/

/-- A token at another place. -/
def Token.moved (f : Nat → Nat) (t : Token) : Token := { t with offset := f t.offset }

/-- A fault at another place. -/
def Fault.moved (f : Nat → Nat) (x : Fault) : Fault := { x with place := f x.place }

/-- An error is reported where its fault is. -/
theorem offset_inSource {f : Fault} {source : List Char} (inside : f.place ≤ source.length) :
    (f.inSource source.toArray).offset = f.place :=
  Nat.min_eq_left inside

/-- The outcome for what stands `n` characters further behind. -/
def pushed {α : Type} (n : Nat) (v : Except Fault α) : Except Fault α :=
  v.mapError (Fault.moved (· + n))

theorem pushed_ok {α : Type} (n : Nat) (a : α) : pushed n (.ok a) = .ok a := rfl

theorem pushed_map {α β : Type} (n : Nat) (v : Except Fault α) (g : α → β) :
    pushed n (v.map g) = (pushed n v).map g := by
  cases v <;> rfl

/-- What is read off a token depends on its place only in the places of faults. -/
def Placed {α : Type} (read : Token → Except Fault α) : Prop :=
  ∀ t n, read (t.moved (· + n)) = pushed n (read t)

/-- What a token means it means anywhere. -/
theorem Placed.anywhere {α : Type} {read : Token → Except Fault α} (h : Placed read) {t : Token}
    {a : α} (means : read t = .ok a) (f : Nat → Nat) : read (t.moved f) = .ok a := by
  -- both places are reached from the beginning of the text
  have first : ∀ n, ({ t with offset := 0 } : Token).moved (· + n) = { t with offset := n } :=
    fun n => by rw [Token.moved, Nat.zero_add]
  have origin : read { t with offset := 0 } = .ok a := by
    have here := h { t with offset := 0 } t.offset
    rw [first] at here
    cases v : read { t with offset := 0 } with
    | ok b =>
      rw [v] at here
      exact here.symm.trans means
    | error x =>
      rw [v] at here
      cases here.symm.trans means
  have there := h { t with offset := 0 } (f t.offset)
  rw [first, origin] at there
  exact there

/-! ## 2. Members of classes -/

/-- What stands between the first character and the last one. -/
theorem inside_between (c d : Char) (cs : List Char) : inside (c :: (cs ++ [d])) = cs := by
  unfold inside
  rw [List.drop_one, List.tail_cons, List.dropLast_concat]

theorem propertyItem_moved (name : List Char) (negated : Bool) (place n : Nat) :
    propertyItem name negated (place + n) = pushed n (propertyItem name negated place) := by
  simp only [propertyItem]
  split <;> rfl

theorem readMember_moved (c : Char) (cs : List Char) (place n : Nat) :
    readMember c cs (place + n) = pushed n (readMember c cs place) := by
  unfold readMember
  split
  · rfl
  · cases cs with
    | nil => rfl
    | cons e rest =>
      simp only
      split
      · rfl
      · cases control? e with
        | some d => rfl
        | none =>
          simp only
          split
          · split
            · rfl
            · rw [propertyItem_moved, pushed_map]
          · split <;> rfl

/-- What stands behind a minus sign, if it makes a range. -/
def rangeEnd? : List Char → Option (Char × List Char)
  | '-' :: e :: tail => some (e, tail)
  | _ => none

theorem rangeEnd?_iff {cs tail : List Char} {e : Char} :
    rangeEnd? cs = some (e, tail) ↔ cs = '-' :: e :: tail := by
  unfold rangeEnd?
  constructor
  · intro h
    split at h
    · cases h
      rfl
    · cases h
  · rintro rfl
    rfl

/-- The item of a class that begins with `c`, a range or a single member, and how many of the
    following characters belong to it. -/
def readItem (c : Char) (cs : List Char) (place : Nat) : Except Fault (ClassItem × Nat) :=
  match readMember c cs place with
  | .error f => .error f
  | .ok (.item item, n) => .ok (item, n)
  | .ok (.char first, n) =>
    match rangeEnd? (cs.drop n) with
    | none => .ok (.range [first] [first], n)
    | some (e, tail) =>
      match readMember e tail (place + n + 2) with
      | .error f => .error f
      | .ok (.item _, _) => .error ⟨.badRangeEnd, place + n + 2, []⟩
      | .ok (.char last, k) =>
        if last < first then .error ⟨.reversedRange first last, place + n + 1, []⟩
        else .ok (.range [first] [last], n + 2 + k)

/-- The members of a class are read item by item. -/
theorem readMembers_cons (place : Nat) (c : Char) (cs : List Char) :
    readMembers place (c :: cs) = (readItem c cs place).bind fun r =>
      (readMembers (place + r.2 + 1) (cs.drop r.2)).map (r.1 :: ·) := by
  rw [readMembers, readItem]
  cases readMember c cs place with
  | error f => rfl
  | ok r =>
    obtain ⟨first | item, n⟩ := r
    · simp only
      split
      next e tail range =>
        rw [rangeEnd?_iff.mpr range, show place + n + 1 + 1 = place + n + 2 from rfl]
        simp only
        cases readMember e tail (place + n + 2) with
        | error f => rfl
        | ok r =>
          obtain ⟨last | item, k⟩ := r
          · simp only
            split
            · rfl
            · have behind : cs.drop (n + 2 + k) = tail.drop k := by
                rw [← List.drop_drop, ← List.drop_drop, range]
                rfl
              have further : place + (n + 2 + k) + 1 = place + n + 1 + k + 2 := by omega
              simp only [Except.bind, behind, further]
          · rfl
      next other =>
        have alone : rangeEnd? (cs.drop n) = none :=
          Option.eq_none_iff_forall_ne_some.mpr fun r h => other r.1 r.2 (rangeEnd?_iff.mp h)
        rw [alone]
        rfl
    · rfl

theorem readItem_moved (c : Char) (cs : List Char) (place n : Nat) :
    readItem c cs (place + n) = pushed n (readItem c cs place) := by
  unfold readItem
  rw [readMember_moved]
  cases readMember c cs place with
  | error f => rfl
  | ok r =>
    obtain ⟨first | item, k⟩ := r
    · simp only [pushed_ok]
      cases rangeEnd? (cs.drop k) with
      | none => rfl
      | some r =>
        obtain ⟨e, tail⟩ := r
        have further (m : Nat) : place + n + k + m = place + k + m + n := by omega
        simp only
        rw [further 2, further 1, readMember_moved]
        cases readMember e tail (place + k + 2) with
        | error f => rfl
        | ok r =>
          obtain ⟨last | item, l⟩ := r
          · simp only [pushed_ok]
            split <;> rfl
          · rfl
    · rfl

theorem readMembers_moved (place : Nat) (cs : List Char) (n : Nat) :
    readMembers (place + n) cs = pushed n (readMembers place cs) := by
  induction h : cs.length using Nat.strongRecOn generalizing place cs with
  | ind length ih =>
    subst h
    cases cs with
    | nil =>
      rw [readMembers, readMembers]
      rfl
    | cons c cs =>
      rw [readMembers_cons, readMembers_cons, readItem_moved]
      cases readItem c cs place with
      | error f => rfl
      | ok r =>
        obtain ⟨item, k⟩ := r
        have shorter : (cs.drop k).length < (c :: cs).length := by
          rw [List.length_drop, List.length_cons]
          omega
        have further : place + n + k + 1 = place + k + 1 + n := by omega
        simp only [pushed_ok, Except.bind]
        rw [further, ih _ shorter _ _ rfl]
        exact (pushed_map n _ _).symm

/-! ## 3. Tokens -/

theorem classPattern_placed (ignoreCase : Bool) : Placed (classPattern ignoreCase) := by
  intro t n
  have further (m : Nat) : t.offset + n + m = t.offset + m + n := Nat.add_right_comm _ _ _
  unfold classPattern
  simp only [Token.moved]
  split
  · rw [further, readMembers_moved, pushed_map]
  · rw [further, readMembers_moved, pushed_map]

theorem escapePattern_placed (ignoreCase : Bool) : Placed (escapePattern ignoreCase) := by
  intro t n
  unfold escapePattern
  simp only [Token.moved]
  cases t.text.drop 1 with
  | nil => rfl
  | cons c body =>
    simp only
    cases control? c with
    | some d =>
      simp only
      split <;> rfl
    | none =>
      simp only
      repeat' split
      all_goals first | rfl | rw [propertyItem_moved, pushed_map]

theorem readBounds_placed (greedy : Bool) (inner : List Char) :
    Placed fun t => readBounds t greedy inner := by
  intro t n
  unfold readBounds
  simp only [Token.moved]
  generalize readBound (some 0) (inner.takeWhile (· != ',')) = low
  generalize inner.drop (inner.takeWhile (· != ',')).length = rest
  rcases low with _ | _ | min
  · rfl
  · rfl
  · cases rest with
    | nil =>
      simp only
      split <;> rfl
    | cons _ high =>
      simp only
      rcases readBound none high with _ | _ | max
      · rfl
      · rfl
      · simp only
        split <;> rfl

theorem quantityOf_placed : Placed quantityOf := by
  intro ⟨kind, text, offset⟩ n
  show quantityOf ⟨kind, text, offset + n⟩ = _
  unfold quantityOf
  simp only
  generalize (decide (1 < text.length) && text.getLast? == some '?') = isLazy
  generalize (if isLazy = true then text.dropLast else text) = bare
  split
  · rfl
  · rfl
  · rfl
  · exact readBounds_placed _ _ ⟨kind, text, offset⟩ n

theorem ofToken_placed (d : Dialect) : Placed (Pattern.ofToken d) := by
  intro t n
  unfold Pattern.ofToken
  simp only [Token.moved]
  cases t.kind with
  | charClass => exact classPattern_placed d.ignoreCase t n
  | escape => exact escapePattern_placed d.ignoreCase t n
  | _ => rfl

/-! ## 4. Faults -/

/-- The fault that came up instead of a result. -/
def faultOf {α : Type} : Except Fault α → Option Fault
  | .ok _ => none
  | .error f => some f

theorem faultOf_eq_some {α : Type} {v : Except Fault α} {f : Fault} :
    faultOf v = some f ↔ v = .error f := by
  cases v with
  | ok a => simp [faultOf]
  | error g => simp [faultOf]

theorem faultOf_map {α β : Type} (v : Except Fault α) (g : α → β) : faultOf (v.map g) = faultOf v := by
  cases v <;> rfl

/-- What is wrong with a token by itself, if anything is. -/
def Token.fault? (t : Token) : Option Fault :=
  match t.kind with
  | .charClass => faultOf (classPattern false t)
  | .escape => faultOf (escapePattern false t)
  | .quantifier => faultOf (quantityOf t)
  | _ => none

theorem classPattern_fault (ignoreCase : Bool) (t : Token) :
    faultOf (classPattern ignoreCase t) = faultOf (classPattern false t) := by
  unfold classPattern
  split
  · rw [faultOf_map, faultOf_map]
  · rw [faultOf_map, faultOf_map]

theorem escapePattern_fault (ignoreCase : Bool) (t : Token) :
    faultOf (escapePattern ignoreCase t) = faultOf (escapePattern false t) := by
  unfold escapePattern
  cases t.text.drop 1 with
  | nil => rfl
  | cons c body =>
    simp only
    cases control? c with
    | some d =>
      simp only
      split <;> rfl
    | none =>
      simp only
      repeat' split
      all_goals rfl

/-- **Whether an atom of one token means something is up to the token.** -/
theorem ofToken_fault (d : Dialect) {t : Token} (leaf : t.kind.isLeaf = true) :
    faultOf (Pattern.ofToken d t) = t.fault? := by
  unfold Pattern.ofToken Token.fault?
  cases kind : t.kind with
  | charClass => exact classPattern_fault d.ignoreCase t
  | escape => exact escapePattern_fault d.ignoreCase t
  | quantifier =>
    rw [kind] at leaf
    cases leaf
  | _ => rfl

theorem quantityOf_fault {t : Token} (quantifier : t.kind = .quantifier) :
    faultOf (quantityOf t) = t.fault? := by
  unfold Token.fault?
  rw [quantifier]

end GrammarMatch.Syntax
