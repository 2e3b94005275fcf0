/-
  File:      GrammarMatch/Proofs/Derivation.lean
  Subject:   Which solutions a pattern can have at all.

  `Derives w p s t` says that `p` can lead from `s` to `t`: the leaves pass their tests, the
  parts of a sequence follow each other, one branch of an alternation is taken, a repetition has
  an admissible number of rounds. Preference, commitment and what looks find are left out, so
  that everything that matching ever answers is derivable (`eval_derives`), whatever was kept or
  tried before. Positions only grow along a derivation, and only inside the text
  (`Derives.onward`).
-/
import GrammarMatch.Proofs.Plain

namespace GrammarMatch

/-! ## 1. Bounds that are left after some rounds -/

/-- The bounds of a repetition after so many rounds. -/
def Quantity.after (q : Quantity) (count : Nat) : Quantity :=
  ⟨q.min - count, q.max.map (· - count), q.greedy⟩

@[simp] theorem Quantity.after_zero (q : Quantity) : q.after 0 = q := by
  obtain ⟨min, max, greedy⟩ := q
  cases max with
  | none => simp [Quantity.after]
  | some max => simp [Quantity.after]

theorem Quantity.after_after (q : Quantity) (m n : Nat) :
    (q.after m).after n = q.after (m + n) := by
  obtain ⟨min, max, greedy⟩ := q
  cases max with
  | none => simp [Quantity.after]; omega
  | some max => simp [Quantity.after]; omega

theorem Quantity.mayStop_after (q : Quantity) (m n : Nat) :
    (q.after m).mayStop n = q.mayStop (m + n) := by
  unfold Quantity.mayStop Quantity.after
  exact decide_eq_decide.mpr (by constructor <;> intro h <;> push_cast at * <;> omega)

theorem Quantity.mayGoOn_after (q : Quantity) (m n : Nat) :
    (q.after m).mayGoOn n = q.mayGoOn (m + n) := by
  unfold Quantity.mayGoOn Quantity.after
  cases q.max with
  | none => rfl
  | some max =>
    exact decide_eq_decide.mpr (by constructor <;> intro h <;> push_cast at * <;> omega)

namespace Match

/-! ## 2. Derivations -/

/-- A pattern can lead from where one solution ends to another one. -/
inductive Derives (w : Basis) : Pattern → Solution → Solution → Prop
  | literal {chars : List Char} {ignoreCase : Bool} {s : Solution} {stop : Int}
      (h : literalStop? w.env.text chars ignoreCase s.stop = some stop) :
      Derives w (.literal chars ignoreCase) s ⟨stop, s.captured⟩
  | charClass {items : List ClassItem} {negated ignoreCase : Bool} {s : Solution}
      (h : classHolds w.env.text items negated ignoreCase s.stop = .ok true) :
      Derives w (.charClass items negated ignoreCase) s ⟨s.stop + 1, s.captured⟩
  | nil {s : Solution} : Derives w (.sequence []) s s
  | cons {p : Pattern} {rest : List Pattern} {s t u : Solution} (hp : Derives w p s t)
      (hrest : Derives w (.sequence rest) t u) : Derives w (.sequence (p :: rest)) s u
  | branch {mode : ChoiceMode} {branches : List Pattern} {p : Pattern} {s t : Solution}
      (mem : p ∈ branches) (h : Derives w p s t) : Derives w (.alternation mode branches) s t
  | stop {q : Quantity} {body : Pattern} {s : Solution} (enough : q.mayStop 0 = true) :
      Derives w (.repetition q body) s s
  | last {q : Quantity} {body : Pattern} {s t : Solution} (room : q.mayGoOn 0 = true)
      (h : Derives w body s t) (width : t.stop = s.stop) : Derives w (.repetition q body) s t
  | more {q : Quantity} {body : Pattern} {s t u : Solution} (room : q.mayGoOn 0 = true)
      (h : Derives w body s t) (width : t.stop ≠ s.stop)
      (rest : Derives w (.repetition (q.after 1) body) t u) : Derives w (.repetition q body) s u
  | enclosed {plural : List CaptureKey} {body : Pattern} {s t : Solution}
      (h : Derives w body s t) : Derives w (.group none plural body) s t
  | grouped {key : CaptureKey} {plural : List CaptureKey} {body : Pattern} {s t : Solution}
      (h : Derives w body ⟨s.stop, []⟩ t) :
      Derives w (.group (some key) plural body) s (Basis.grouped key plural s.stop s.captured t)
  | look {kind : LookKind} {body : Pattern} {s : Solution} : Derives w (.look kind body) s s
  | anchor {kind : AnchorKind} {s : Solution}
      (h : anchorHolds w.env.text s.stop kind = .ok true) : Derives w (.anchor kind) s s
  | ruleRef {r : Reference} {rule : Rule} {s t : Solution} {c : Capture}
      (known : w.lexicon.rules r.name = .ok rule) (h : Derives w rule.pattern ⟨s.stop, []⟩ t)
      (finished : w.finished rule s.stop t = .ok c) :
      Derives w (.ruleRef r) s ⟨t.stop, capturedUnder r.key? c s.captured⟩
  | space {rule : Rule} {s t : Solution} {c : Capture} (own : w.lexicon.space = true)
      (known : w.lexicon.rules "ws" = .ok rule) (h : Derives w rule.pattern ⟨s.stop, []⟩ t)
      (finished : w.finished rule s.stop t = .ok c) : Derives w .whitespace s ⟨t.stop, s.captured⟩
  | gap {s : Solution} {stop : Int} (own : w.lexicon.space = false)
      (h : gapStop? w.env.text s.stop = .ok (some stop)) :
      Derives w .whitespace s ⟨stop, s.captured⟩

/-- A call can lead from where one solution ends to another one: the body of the rule can, and
    its capture is added under the key. -/
def DerivesCall (w : Basis) (name : String) (key : Option CaptureKey) (s u : Solution) : Prop :=
  ∃ rule t c, w.lexicon.rules name = .ok rule ∧ Derives w rule.pattern ⟨s.stop, []⟩ t ∧
    w.finished rule s.stop t = .ok c ∧ u = ⟨t.stop, capturedUnder key c s.captured⟩

theorem DerivesCall.ruleRef {w : Basis} {r : Reference} {s u : Solution}
    (h : DerivesCall w r.name r.key? s u) : Derives w (.ruleRef r) s u := by
  obtain ⟨rule, t, c, known, hd, hc, rfl⟩ := h
  exact .ruleRef known hd hc

theorem DerivesCall.space {w : Basis} {s u : Solution} (own : w.lexicon.space = true)
    (h : DerivesCall w "ws" none s u) : Derives w .whitespace s u := by
  obtain ⟨rule, t, c, known, hd, hc, rfl⟩ := h
  exact .space own known hd hc

/-! ## 3. What plain recursion answers is derivable -/

section Evaluation

variable {w : Basis} {inner : Inner}

/-- Whatever is answered one level deeper is derivable. -/
def Inner.Sound (w : Basis) (inner : Inner) : Prop :=
  ∀ active p s t, t ∈ inner active p s → Derives w p s t

theorem rounds_derives {q : Quantity} {body : Pattern} {k : Solution → Answers Solution}
    (hk : ∀ s t, t ∈ k s → Derives w body s t) {left count : Nat} {s t : Solution}
    (h : t ∈ rounds q k left count s) : Derives w (.repetition (q.after count) body) s t := by
  induction left generalizing count s with
  | zero => exact absurd h (Answers.not_mem_done t)
  | succ left ih =>
    have stop {b : Bool} (ht : t ∈ Answers.only (b && q.mayStop count) s) :
        Derives w (.repetition (q.after count) body) s t := by
      obtain ⟨hb, rfl⟩ := Answers.mem_only.mp ht
      refine .stop ?_
      rw [Quantity.mayStop_after]
      exact (Bool.and_eq_true_iff.mp hb).2
    unfold rounds at h
    rcases Answers.mem_of_mem_append h with h | h
    · rcases Answers.mem_of_mem_append h with h | h
      · exact stop h
      · split at h
        · rename_i room
          obtain ⟨u, hu, h⟩ := Answers.mem_of_mem_bind h
          have room' : (q.after count).mayGoOn 0 = true := by rwa [Quantity.mayGoOn_after]
          split at h
          · rename_i width
            rw [Answers.mem_just.mp h]
            exact .last room' (hk s u hu) width
          · rename_i width
            refine .more room' (hk s u hu) width ?_
            rw [Quantity.after_after]
            exact ih h
        · exact absurd h (Answers.not_mem_done t)
    · exact stop h

theorem chain_derives (hi : inner.Sound w) {active : Active} {parts : List Pattern}
    {s t : Solution} (h : t ∈ Answers.chain (parts.map (inner active)) s) :
    Derives w (.sequence parts) s t := by
  induction parts generalizing s with
  | nil =>
    rw [Answers.mem_just.mp h]
    exact .nil
  | cons p parts ih =>
    obtain ⟨u, hu, h⟩ := Answers.mem_of_mem_bind h
    exact .cons (hi active p s u hu) (ih h)

/-- The result of an atomic rule is a derivable solution of its body, finished. -/
theorem verdict_derives (hi : inner.Sound w) (again : ∀ v, w.again ≠ .ok (some v))
    {active : Active} {rule : Rule} {pos stop : Int} {c : Capture}
    (h : w.verdict inner active rule pos = .ok (some (stop, c))) :
    ∃ t, Derives w rule.pattern ⟨pos, []⟩ t ∧ w.finished rule pos t = .ok c ∧ stop = t.stop := by
  unfold Basis.verdict at h
  split at h
  · exact absurd h (again _)
  · cases hf : (inner ((rule.name, pos) :: active) rule.pattern ⟨pos, []⟩).first with
    | error f =>
      rw [hf] at h
      cases h
    | ok found =>
      rw [hf] at h
      cases found with
      | none => cases h
      | some t =>
        change (w.finished rule pos t).map _ = _ at h
        cases hc : w.finished rule pos t with
        | error f =>
          rw [hc] at h
          cases h
        | ok c' =>
          rw [hc] at h
          cases h
          exact ⟨t, hi _ _ _ _ (Answers.mem_of_first hf), hc, rfl⟩

theorem call_derives (hi : inner.Sound w) (again : ∀ v, w.again ≠ .ok (some v)) {active : Active}
    {name : String} {key : Option CaptureKey} {s u : Solution}
    (h : u ∈ w.call inner active name key s) : DerivesCall w name key s u := by
  obtain ⟨rule, known, h⟩ := Answers.mem_of_mem_attempt h
  split at h
  · obtain ⟨v, hv, h⟩ := Answers.mem_of_mem_attempt h
    cases v with
    | none => exact absurd h (Answers.not_mem_done u)
    | some v =>
      obtain ⟨stop, c⟩ := v
      obtain ⟨t, hd, hc, rfl⟩ := verdict_derives hi again hv
      exact ⟨rule, t, c, known, hd, hc, Answers.mem_just.mp h⟩
  · obtain ⟨t, ht, h⟩ := Answers.mem_of_mem_bind h
    obtain ⟨c, hc, h⟩ := Answers.mem_of_mem_attempt h
    exact ⟨rule, t, c, known, hi _ _ _ _ ht, hc, Answers.mem_just.mp h⟩

/-- The first solutions of branches are solutions of branches. -/
theorem mem_of_firsts {k : Pattern → Answers Solution} {branches : List Pattern}
    {found : List (Option Solution)} (h : branches.mapM (fun p => (k p).first) = .ok found)
    {t : Solution} (ht : some t ∈ found) : ∃ p ∈ branches, t ∈ k p := by
  induction branches generalizing found with
  | nil =>
    cases h
    cases ht
  | cons p branches ih =>
    rw [List.mapM_cons] at h
    cases hp : (k p).first with
    | error f =>
      rw [hp] at h
      cases h
    | ok o =>
      rw [hp] at h
      cases hr : branches.mapM (fun p => (k p).first) with
      | error f =>
        rw [hr] at h
        cases h
      | ok found' =>
        rw [hr] at h
        cases h
        rcases List.mem_cons.mp ht with rfl | ht
        · exact ⟨p, List.mem_cons_self, Answers.mem_of_first hp⟩
        · obtain ⟨p', hp', ht⟩ := ih hr ht
          exact ⟨p', List.mem_cons_of_mem p hp', ht⟩

theorem mem_longestFirst {found : List (Option Solution)} {t : Solution} :
    t ∈ longestFirst found ↔ some t ∈ found := by
  unfold longestFirst
  rw [List.mem_mergeSort, List.mem_filterMap]
  constructor
  · rintro ⟨o, ho, rfl⟩
    exact ho
  · intro h
    exact ⟨some t, h, rfl⟩

theorem part_derives (hi : inner.Sound w) (again : ∀ v, w.again ≠ .ok (some v)) {active : Active}
    {p : Pattern} {s t : Solution} (h : t ∈ w.part inner active s p) : Derives w p s t := by
  unfold Basis.part at h
  split at h
  · split at h
    · rename_i hs
      rw [Answers.mem_just.mp h]
      exact .literal hs
    · exact absurd h (Answers.not_mem_done t)
  · obtain ⟨holds, hh, h⟩ := Answers.mem_of_mem_attempt h
    obtain ⟨rfl, rfl⟩ := Answers.mem_only.mp h
    exact .charClass hh
  · exact chain_derives hi h
  · obtain ⟨x, hx, h⟩ := Answers.mem_of_mem_concat h
    obtain ⟨p, hp, rfl⟩ := List.mem_map.mp hx
    exact .branch hp (hi _ _ _ _ h)
  · obtain ⟨found, hf, h⟩ := Answers.mem_of_mem_attempt h
    obtain ⟨p, hp, h⟩ := mem_of_firsts hf (mem_longestFirst.mp (Answers.mem_ofList.mp h))
    exact .branch hp (hi _ _ _ _ h)
  · have := rounds_derives (fun s t => hi active _ s t) h
    rwa [Quantity.after_zero] at this
  · exact .enclosed (hi _ _ _ _ h)
  · obtain ⟨u, hu, h⟩ := Answers.mem_of_mem_bind h
    rw [Answers.mem_just.mp h]
    exact .grouped (hi _ _ _ _ hu)
  · obtain ⟨found, _, h⟩ := Answers.mem_of_mem_attempt h
    obtain ⟨_, rfl⟩ := Answers.mem_only.mp h
    exact .look
  · obtain ⟨holds, hh, h⟩ := Answers.mem_of_mem_attempt h
    obtain ⟨rfl, rfl⟩ := Answers.mem_only.mp h
    exact .anchor hh
  · exact (call_derives hi again h).ruleRef
  · split at h
    · rename_i own
      exact (call_derives hi again h).space own
    · rename_i own
      obtain ⟨stop, hs, h⟩ := Answers.mem_of_mem_attempt h
      cases stop with
      | none => exact absurd h (Answers.not_mem_done t)
      | some stop =>
        rw [Answers.mem_just.mp h]
        exact .gap (Bool.eq_false_iff.mpr own) hs

/-- **What plain recursion answers is derivable.** -/
theorem eval_derives (again : ∀ v, w.again ≠ .ok (some v)) (levels depth : Nat) :
    Inner.Sound w (w.eval levels depth) := by
  induction levels generalizing depth with
  | zero =>
    intro active p s t h
    obtain ⟨_, _, h⟩ := Answers.mem_of_mem_attempt h
    exact absurd h (Answers.not_mem_failed _ t)
  | succ levels ih =>
    intro active p s t h
    obtain ⟨_, _, h⟩ := Answers.mem_of_mem_attempt h
    exact part_derives (ih (depth + 1)) again h

end Evaluation

/-! ## 4. Positions only grow -/

/-- A slice is no longer than the text. -/
theorem length_slice_le (t : Text) (i j : Int) :
    (t.slice i j).length ≤ (t.bound j) - (t.bound i) := by
  unfold Text.slice
  rw [Array.length_toList, Array.size_extract]
  omega

/-- A bound lies in the text. -/
theorem bound_le (t : Text) {i : Int} (h : 0 ≤ i) : t.bound i ≤ i.toNat ∧ t.bound i ≤ t.size := by
  unfold Text.bound
  rw [if_pos h]
  exact ⟨Nat.min_le_left _ _, Nat.min_le_right _ _⟩

theorem continuesWith_le (t : Text) {n : Nat} {chars : List Char} (hn : n ≤ t.size)
    (h : t.continuesWith n chars = true) : n + chars.length ≤ t.size := by
  induction chars generalizing n with
  | nil => exact hn
  | cons c chars ih =>
    unfold Text.continuesWith at h
    obtain ⟨hc, hrest⟩ := Bool.and_eq_true_iff.mp h
    have hlt : n < t.size := by
      rw [beq_iff_eq] at hc
      exact (Array.getElem?_eq_some_iff.mp hc).1
    have := ih hlt hrest
    rw [List.length_cons]
    omega

/-- A literal stands at a position. -/
def literalStands (t : Text) (chars : List Char) (ignoreCase : Bool) (pos : Int) : Bool :=
  if ignoreCase then
    (t.slice pos (pos + chars.length)).length == chars.length &&
      Unicode.fold (t.slice pos (pos + chars.length)) == Unicode.fold chars
  else t.standsAt chars pos

theorem literalStop_eq_some {t : Text} {chars : List Char} {ignoreCase : Bool} {pos stop : Int} :
    literalStop? t chars ignoreCase pos = some stop ↔
      literalStands t chars ignoreCase pos = true ∧ stop = pos + chars.length := by
  show (if literalStands t chars ignoreCase pos then some (pos + (chars.length : Int)) else none) =
    some stop ↔ _
  cases literalStands t chars ignoreCase pos with
  | true => simp [eq_comm]
  | false => simp

/-- A literal stands in the text unless it is empty. -/
theorem literalStands_le {t : Text} {chars : List Char} {ignoreCase : Bool} {pos : Int}
    (h : literalStands t chars ignoreCase pos = true) (hpos : 0 ≤ pos) (hne : chars ≠ []) :
    pos + chars.length ≤ t.stop := by
  have hlen : 0 < chars.length := List.length_pos_iff.mpr hne
  unfold Text.stop
  cases ignoreCase with
  | true =>
    obtain ⟨hsize, _⟩ := Bool.and_eq_true_iff.mp h
    rw [beq_iff_eq] at hsize
    have h1 := length_slice_le t pos (pos + chars.length)
    have h2 := bound_le t (i := pos + chars.length) (by omega)
    have h3 : t.bound pos = min pos.toNat t.size := by
      unfold Text.bound
      rw [if_pos hpos]
    omega
  | false =>
    change t.standsAt chars pos = true at h
    unfold Text.standsAt at h
    simp only [if_pos hpos] at h
    obtain ⟨hle, hc⟩ := Bool.and_eq_true_iff.mp h
    have := continuesWith_le t (of_decide_eq_true hle) hc
    omega

theorem lt_of_classHolds {t : Text} {items : List ClassItem} {negated ignoreCase : Bool} {pos : Int}
    (h : classHolds t items negated ignoreCase pos = .ok true) : pos < t.stop := by
  unfold classHolds at h
  split at h
  · assumption
  · cases h

theorem spaceStop_spec {t : Text} {left : Nat} {pos stop : Int}
    (h : spaceStop t left pos = .ok stop) :
    pos ≤ stop ∧ (pos < stop → pos < t.stop ∧ stop ≤ t.stop) := by
  induction left generalizing pos with
  | zero =>
    cases h
    exact ⟨Int.le_refl _, fun h => absurd h (Int.lt_irrefl _)⟩
  | succ left ih =>
    unfold spaceStop at h
    split at h
    · rename_i hlt
      split at h
      · cases h
      · split at h
        · obtain ⟨h1, h2⟩ := ih h
          refine ⟨by omega, fun _ => ⟨hlt, ?_⟩⟩
          by_cases hs : pos + 1 < stop
          · exact (h2 hs).2
          · omega
        · cases h
          exact ⟨Int.le_refl _, fun h => absurd h (Int.lt_irrefl _)⟩
    · cases h
      exact ⟨Int.le_refl _, fun h => absurd h (Int.lt_irrefl _)⟩

theorem gapStop_spec {t : Text} {pos stop : Int} (h : gapStop? t pos = .ok (some stop)) :
    pos ≤ stop ∧ (pos < stop → pos < t.stop ∧ stop ≤ t.stop) := by
  unfold gapStop? at h
  split at h
  · cases h
  · rename_i stop' hs
    have hspec := spaceStop_spec hs
    split at h
    · rename_i hin
      have : stop' = stop := by
        cases hb : wordAt t (pos - 1) with
        | error f =>
          rw [hb] at h
          cases h
        | ok before =>
          rw [hb] at h
          change (if before = true then _ else _) = _ at h
          split at h
          · cases ha : wordAt t pos with
            | error f =>
              rw [ha] at h
              cases h
            | ok after =>
              rw [ha] at h
              cases after <;> cases h
              rfl
          · cases h
            rfl
      exact this ▸ hspec
    · cases h
      exact hspec

/-- One position lies behind another one, and in the text if they differ. -/
def Onward (t : Text) (start stop : Int) : Prop := start ≤ stop ∧ (start < stop → start < t.stop)

theorem Onward.refl (t : Text) (pos : Int) : Onward t pos pos :=
  ⟨Int.le_refl _, fun h => absurd h (Int.lt_irrefl _)⟩

theorem Onward.trans {t : Text} {i j k : Int} (h : Onward t i j) (h' : Onward t j k) :
    Onward t i k := by
  refine ⟨Int.le_trans h.1 h'.1, fun hlt => ?_⟩
  by_cases hij : i < j
  · exact h.2 hij
  · have : i = j := Int.le_antisymm h.1 (Int.not_lt.mp hij)
    subst this
    exact h'.2 hlt

/-- **Positions only grow along a derivation, and only inside the text.** -/
theorem Derives.onward {w : Basis} {p : Pattern} {s t : Solution} (h : Derives w p s t) :
    Onward w.env.text s.stop t.stop := by
  induction h with
  | @literal chars ignoreCase s stop h =>
    obtain ⟨stands, rfl⟩ := literalStop_eq_some.mp h
    refine ⟨by show s.stop ≤ s.stop + _; omega, fun hlt => ?_⟩
    by_cases hpos : 0 ≤ s.stop
    · have := literalStands_le stands hpos (by rintro rfl; simp at hlt)
      exact Int.lt_of_lt_of_le hlt this
    · unfold Text.stop
      omega
  | charClass h => exact ⟨by show _ ≤ _ + 1; omega, fun _ => lt_of_classHolds h⟩
  | nil => exact .refl _ _
  | cons _ _ ih₁ ih₂ => exact ih₁.trans ih₂
  | branch _ _ ih => exact ih
  | stop _ => exact .refl _ _
  | last _ _ _ ih => exact ih
  | more _ _ _ _ ih₁ ih₂ => exact ih₁.trans ih₂
  | enclosed _ ih => exact ih
  | grouped _ ih => exact ih
  | look => exact .refl _ _
  | anchor _ => exact .refl _ _
  | ruleRef _ _ _ ih => exact ih
  | space _ _ _ _ ih => exact ih
  | gap _ h =>
    have := gapStop_spec h
    exact ⟨this.1, fun hlt => (this.2 hlt).1⟩

/-- **A derivation that starts in the text ends in the text.** -/
theorem Derives.le_stop {w : Basis} {p : Pattern} {s t : Solution} (h : Derives w p s t)
    (start : 0 ≤ s.stop) (inside : s.stop ≤ w.env.text.stop) : t.stop ≤ w.env.text.stop := by
  induction h with
  | @literal chars ignoreCase s stop h =>
    obtain ⟨stands, rfl⟩ := literalStop_eq_some.mp h
    by_cases hne : chars = []
    · rw [hne]
      exact (Int.add_zero s.stop).symm ▸ inside
    · exact literalStands_le stands start hne
  | charClass h => exact Int.add_one_le_of_lt (lt_of_classHolds h)
  | nil => exact inside
  | cons hp _ ih₁ ih₂ => exact ih₂ (Int.le_trans start hp.onward.1) (ih₁ start inside)
  | branch _ _ ih => exact ih start inside
  | stop _ => exact inside
  | last _ _ _ ih => exact ih start inside
  | more _ hp _ _ ih₁ ih₂ => exact ih₂ (Int.le_trans start hp.onward.1) (ih₁ start inside)
  | enclosed _ ih => exact ih start inside
  | grouped _ ih => exact ih start inside
  | look => exact inside
  | anchor _ => exact inside
  | ruleRef _ _ _ ih => exact ih start inside
  | space _ _ _ _ ih => exact ih start inside
  | @gap s stop _ h =>
    have gap := gapStop_spec h
    by_cases width : s.stop < stop
    · exact (gap.2 width).2
    · exact Int.le_trans (Int.not_lt.mp width) inside

end Match

end GrammarMatch
