/-
  File:      GrammarMatch/Proofs/CaseRuns.lean
  Subject:   The case mappings of single characters as runs of code points.

  A case mapping is a table of runs in ascending order, so that at most one run of it has a code
  point (`seek_of_mem`, `seek_has`). What is said of all characters can therefore be checked run by
  run: whether a run lies in one of a table, in either direction (`CaseRun.coveredBy`,
  `CaseRun.back`), and whether it has nothing in common with a table (`CaseRun.clearOf`). Only where
  runs are irregular their few code points have to be looked at one by one (`CaseRun.points`).

  `foldPoints` is the full case folding of a code point; the mappings of characters are those of
  their code points (`mem_caseVariants`, `foldChar_inj`).
-/
import GrammarMatch.Unicode.Case
import Mathlib.Data.List.Basic

namespace GrammarMatch.Unicode

/-! ## 1. Single runs -/

namespace CaseRun

/-- A code point belongs to a run. -/
def Has (r : CaseRun) (n : Nat) : Prop := r.first ≤ n ∧ n ≤ r.last ∧ r.step ∣ n - r.first

/-- Where a run takes a code point. -/
def image (r : CaseRun) (n : Nat) : Nat := ((n : Int) + r.shift).toNat

/-- The code points of a run. -/
def points (r : CaseRun) : List Nat :=
  (List.range ((r.last - r.first) / r.step + 1)).map fun k => r.first + r.step * k

/-- No code point is taken below the first one of all. -/
def lifts (r : CaseRun) : Bool := 0 ≤ (r.first : Int) + r.shift

/-- The run that takes the images of a run back. -/
def back (r : CaseRun) : CaseRun := ⟨r.image r.first, r.image r.last, r.step, -r.shift⟩

/-- All of a run belongs to another one, which takes it to the same places. -/
def within (r q : CaseRun) : Bool :=
  q.first.ble r.first && r.last.ble q.last && (r.first - q.first) % q.step == 0 &&
    r.step % q.step == 0 && r.shift == q.shift

/-- A run has every second code point, or a single one. -/
def alternates (r : CaseRun) : Bool := r.step == 2 || r.first == r.last

/-- Two runs have no code point in common: one ends before the other, or they alternate. -/
def apart (r q : CaseRun) : Bool :=
  r.last.blt q.first || q.last.blt r.first ||
    (r.alternates && q.alternates && (r.first + q.first) % 2 == 1)

/-- All of a run belongs to one run of a table in order: it can only be the first one that does not
    end before it. -/
def coveredBy (r : CaseRun) : List CaseRun → Bool
  | [] => false
  | q :: rest => bif q.last.blt r.first then r.coveredBy rest else r.within q

/-- A run has no code point in common with a table in order. -/
def clearOf (r : CaseRun) : List CaseRun → Bool
  | [] => true
  | q :: rest =>
    bif q.last.blt r.first then r.clearOf rest
    else r.last.blt q.first || (r.apart q && r.clearOf rest)

variable {r q : CaseRun} {runs : List CaseRun} {n m : Nat}

theorem image?_eq_some : r.image? n = some m ↔ r.Has n ∧ r.image n = m := by
  rw [image?, Has, Nat.dvd_iff_mod_eq_zero]
  by_cases has : r.first ≤ n ∧ n ≤ r.last ∧ (n - r.first) % r.step = 0
  · obtain ⟨low, high, steps⟩ := has
    simp [low, high, steps, image]
  · simp only [Option.ite_none_right_eq_some, Bool.and_eq_true, decide_eq_true_eq, beq_iff_eq,
      Option.some.injEq, and_assoc, image]

theorem mem_points (h : r.Has n) : n ∈ r.points := by
  obtain ⟨low, high, k, steps⟩ := h
  rw [points, List.mem_map]
  rcases Nat.eq_zero_or_pos r.step with still | positive
  · rw [still, Nat.zero_mul] at steps
    exact ⟨0, List.mem_range.mpr (Nat.zero_lt_succ _), by omega⟩
  · have few : k ≤ (r.last - r.first) / r.step := by
      rw [Nat.le_div_iff_mul_le positive, Nat.mul_comm, ← steps]
      omega
    exact ⟨k, List.mem_range.mpr (Nat.lt_succ_of_le few), by omega⟩

theorem Has.within (h : r.Has n) (inside : r.within q = true) :
    q.Has n ∧ q.image n = r.image n := by
  simp only [CaseRun.within, Bool.and_eq_true, Nat.ble_eq, beq_iff_eq] at inside
  obtain ⟨⟨⟨⟨low, high⟩, starts⟩, steps⟩, shift⟩ := inside
  obtain ⟨low', high', apart⟩ := h
  refine ⟨⟨Nat.le_trans low low', Nat.le_trans high' high, ?_⟩, by rw [image, image, shift]⟩
  have sum : n - q.first = (n - r.first) + (r.first - q.first) := by omega
  rw [sum]
  exact Nat.dvd_add (Nat.dvd_trans (Nat.dvd_of_mod_eq_zero steps) apart)
    (Nat.dvd_of_mod_eq_zero starts)

theorem exists_within (covered : r.coveredBy runs = true) : ∃ q ∈ runs, r.within q = true := by
  induction runs with
  | nil => cases covered
  | cons q runs ih =>
    rw [coveredBy] at covered
    cases skipped : q.last.blt r.first with
    | true =>
      rw [skipped] at covered
      obtain ⟨q', hq, inside⟩ := ih covered
      exact ⟨q', List.mem_cons_of_mem q hq, inside⟩
    | false =>
      rw [skipped] at covered
      exact ⟨q, List.mem_cons_self, covered⟩

theorem Has.back (h : r.Has n) (lifts : r.lifts = true) :
    r.back.Has (r.image n) ∧ r.back.image (r.image n) = n := by
  have above : 0 ≤ (r.first : Int) + r.shift := of_decide_eq_true lifts
  obtain ⟨low, high, apart⟩ := h
  have same : r.image n - r.image r.first = n - r.first := by
    simp only [image]
    omega
  refine ⟨⟨?_, ?_, ?_⟩, ?_⟩
  · show r.image r.first ≤ r.image n
    simp only [image]
    omega
  · show r.image n ≤ r.image r.last
    simp only [image]
    omega
  · show r.step ∣ r.image n - r.image r.first
    rwa [same]
  · show ((r.image n : Int) + -r.shift).toNat = n
    simp only [image]
    omega

theorem Has.parity (h : r.Has n) (alternate : r.alternates = true) : n % 2 = r.first % 2 := by
  obtain ⟨low, high, apart⟩ := h
  simp only [alternates, Bool.or_eq_true, beq_iff_eq] at alternate
  rcases alternate with two | single
  · rw [two] at apart
    omega
  · omega

theorem Has.not_apart (h : r.Has n) (h' : q.Has n) : r.apart q = false := by
  rw [Bool.eq_false_iff]
  intro far
  simp only [apart, Bool.or_eq_true, Nat.blt_eq, Bool.and_eq_true, beq_iff_eq] at far
  rcases far with (before | after) | ⟨⟨alternate, alternate'⟩, odd⟩
  · have := h.2.1
    have := h'.1
    omega
  · have := h.1
    have := h'.2.1
    omega
  · have := h.parity alternate
    have := h'.parity alternate'
    omega

end CaseRun

/-! ## 2. Runs in order -/

/-- Runs one after the other, the first of them not before a code point. -/
def orderedFrom (n : Nat) : List CaseRun → Bool
  | [] => true
  | r :: rest => n.ble r.first && r.first.ble r.last && orderedFrom (r.last + 1) rest

/-- The image of a code point under runs in order: the first run that does not end before it
    decides. -/
def seek (n : Nat) : List CaseRun → Option Nat
  | [] => none
  | r :: rest => bif r.last.blt n then seek n rest else r.image? n

section Ordered

variable {runs : List CaseRun} {k n m : Nat} {r q : CaseRun}

theorem orderedFrom_cons (h : orderedFrom k (r :: runs) = true) :
    k ≤ r.first ∧ r.first ≤ r.last ∧ orderedFrom (r.last + 1) runs = true := by
  simpa only [orderedFrom, Bool.and_eq_true, Nat.ble_eq, and_assoc] using h

theorem imageIn?_before (ordered : orderedFrom k runs = true) (before : n < k) :
    imageIn? runs n = none := by
  induction runs generalizing k with
  | nil => rfl
  | cons r runs ih =>
    obtain ⟨from', low, later⟩ := orderedFrom_cons ordered
    have none : r.image? n = none := by
      rw [Option.eq_none_iff_forall_ne_some]
      intro m image
      have := (CaseRun.image?_eq_some.mp image).1.1
      omega
    rw [imageIn?, List.findSome?_cons, none]
    exact ih later (by omega)

theorem imageIn?_eq_seek (ordered : orderedFrom k runs = true) : imageIn? runs n = seek n runs := by
  induction runs generalizing k with
  | nil => rfl
  | cons r runs ih =>
    obtain ⟨-, -, later⟩ := orderedFrom_cons ordered
    rw [imageIn?, List.findSome?_cons, seek]
    by_cases beyond : r.last < n
    · have none : r.image? n = none := by
        rw [Option.eq_none_iff_forall_ne_some]
        intro m image
        have := (CaseRun.image?_eq_some.mp image).1.2.1
        omega
      rw [none, Nat.blt_eq.mpr beyond]
      exact ih later
    · have rest : imageIn? runs n = none := imageIn?_before later (by omega)
      rw [Bool.eq_false_iff.mpr (mt Nat.blt_eq.mp beyond), cond_false]
      cases r.image? n with
      | some m => rfl
      | none => exact rest

/-- The run that has a code point decides on its image. -/
theorem seek_of_mem (ordered : orderedFrom k runs = true) (hr : r ∈ runs) (h : r.Has n) :
    seek n runs = some (r.image n) := by
  induction runs generalizing k with
  | nil => cases hr
  | cons q runs ih =>
    obtain ⟨-, -, later⟩ := orderedFrom_cons ordered
    rw [seek]
    rcases List.mem_cons.mp hr with rfl | hr
    · rw [Bool.eq_false_iff.mpr (mt Nat.blt_eq.mp (Nat.not_lt.mpr h.2.1)), cond_false]
      exact CaseRun.image?_eq_some.mpr ⟨h, rfl⟩
    · have beyond : q.last < n := by
        by_contra short
        have image := ih later hr
        rw [← imageIn?_eq_seek later, imageIn?_before later (by omega)] at image
        cases image
      rw [Nat.blt_eq.mpr beyond]
      exact ih later hr

/-- An image is that of a run that has the code point. -/
theorem seek_has (h : seek n runs = some m) : ∃ r ∈ runs, r.Has n ∧ r.image n = m := by
  induction runs with
  | nil => cases h
  | cons r runs ih =>
    rw [seek] at h
    cases beyond : r.last.blt n with
    | true =>
      rw [beyond] at h
      obtain ⟨q, hq, has⟩ := ih h
      exact ⟨q, List.mem_cons_of_mem r hq, has⟩
    | false =>
      rw [beyond] at h
      exact ⟨r, List.mem_cons_self, CaseRun.image?_eq_some.mp h⟩

/-- What a run does, a table does that has a run around it. -/
theorem seek_covered (ordered : orderedFrom k runs = true) (h : r.Has n)
    (covered : r.coveredBy runs = true) : seek n runs = some (r.image n) := by
  obtain ⟨q, hq, inside⟩ := CaseRun.exists_within covered
  obtain ⟨has, same⟩ := h.within inside
  rw [seek_of_mem ordered hq has, same]

theorem seek_back (ordered : orderedFrom k runs = true) (lifts : r.lifts = true) (h : r.Has n)
    (covered : r.back.coveredBy runs = true) : seek (r.image n) runs = some n := by
  obtain ⟨has, same⟩ := h.back lifts
  rw [seek_covered ordered has covered, same]

/-- A table says nothing of the code points of a run that is clear of it. -/
theorem seek_clear (ordered : orderedFrom k runs = true) (h : r.Has n)
    (clear : r.clearOf runs = true) : seek n runs = none := by
  induction runs generalizing k with
  | nil => rfl
  | cons q runs ih =>
    obtain ⟨-, low, later⟩ := orderedFrom_cons ordered
    rw [CaseRun.clearOf] at clear
    rw [seek]
    cases skipped : q.last.blt r.first with
    | true =>
      rw [skipped] at clear
      rw [Nat.blt_eq.mpr (Nat.lt_of_lt_of_le (Nat.blt_eq.mp skipped) h.1)]
      exact ih later clear
    | false =>
      rw [skipped, cond_false] at clear
      have none (far : r.apart q = true) : q.image? n = none := by
        rw [Option.eq_none_iff_forall_ne_some]
        intro m image
        rw [h.not_apart (CaseRun.image?_eq_some.mp image).1] at far
        cases far
      rcases Bool.or_eq_true_iff.mp clear with before | clear
      · have short : ¬ q.last < n := by
          have := Nat.blt_eq.mp before
          have := h.2.1
          omega
        rw [Bool.eq_false_iff.mpr (mt Nat.blt_eq.mp short)]
        exact none (by rw [CaseRun.apart, before, Bool.true_or, Bool.true_or])
      · obtain ⟨far, clear⟩ := Bool.and_eq_true_iff.mp clear
        cases q.last.blt n with
        | true => exact ih later clear
        | false => exact none far

end Ordered

/-! ## 3. The tables -/

/-- No image of a run is below the first code point of all, and all of them are characters. -/
def CaseRun.sound (r : CaseRun) : Bool :=
  r.lifts && (r.back.last.blt 0xD800 || (Nat.ble 0xE000 r.back.first && r.back.last.blt 0x110000))

theorem tables_sound : [lowerRuns, upperRuns, foldRuns].all (fun runs =>
    orderedFrom 0 runs && runs.all CaseRun.sound) = true := by decide +kernel

/-- One of the three tables of runs. -/
inductive Table : List CaseRun → Prop
  | lower : Table lowerRuns
  | upper : Table upperRuns
  | fold : Table foldRuns

namespace Table

variable {runs : List CaseRun} {r : CaseRun} {n m : Nat}

theorem mem (h : Table runs) : runs ∈ [lowerRuns, upperRuns, foldRuns] := by
  cases h <;> simp

theorem ordered (h : Table runs) : orderedFrom 0 runs = true :=
  (Bool.and_eq_true_iff.mp (List.all_eq_true.mp tables_sound runs h.mem)).1

theorem sound (h : Table runs) (hr : r ∈ runs) : r.sound = true :=
  List.all_eq_true.mp (Bool.and_eq_true_iff.mp (List.all_eq_true.mp tables_sound runs h.mem)).2 r hr

theorem lifts (h : Table runs) (hr : r ∈ runs) : r.lifts = true :=
  (Bool.and_eq_true_iff.mp (h.sound hr)).1

/-- The tables map code points to those of characters. -/
theorem valid (h : Table runs) (image : seek n runs = some m) : m.isValidChar := by
  obtain ⟨r, hr, has, rfl⟩ := seek_has image
  obtain ⟨lifts, lands⟩ := Bool.and_eq_true_iff.mp (h.sound hr)
  obtain ⟨low, high, -⟩ := (has.back lifts).1
  simp only [Bool.or_eq_true, Bool.and_eq_true, Nat.blt_eq, Nat.ble_eq] at lands
  rcases lands with below | ⟨above, inside⟩
  · exact .inl (by omega)
  · exact .inr ⟨by omega, by omega⟩

end Table

/-- The code points that fold to several, as runs. -/
def longRuns : List CaseRun := longFolds.map fun entry => ⟨entry.1, entry.1, 1, 0⟩

/-- No code point of a run folds to several, and those that do fold to characters. -/
theorem longFolds_sound : (orderedFrom 0 longRuns && foldRuns.all (·.clearOf longRuns) &&
    longFolds.all fun entry => entry.2.all fun m =>
      m.blt 0xD800 || Nat.ble 0xE000 m && m.blt 0x110000) = true := by decide +kernel

theorem longRuns_ordered : orderedFrom 0 longRuns = true :=
  (Bool.and_eq_true_iff.mp (Bool.and_eq_true_iff.mp longFolds_sound).1).1

/-- A run that is clear of them has no code point that folds to several. -/
theorem CaseRun.Has.short {r : CaseRun} {n : Nat} (h : r.Has n)
    (clear : r.clearOf longRuns = true) : longFolds.find? (fun entry => entry.1 == n) = none := by
  refine List.find?_eq_none.mpr fun entry listed same => ?_
  obtain rfl := beq_iff_eq.mp same
  have single : (⟨entry.1, entry.1, 1, 0⟩ : CaseRun) ∈ longRuns := List.mem_map_of_mem listed
  have image := seek_of_mem longRuns_ordered single ⟨Nat.le_refl _, Nat.le_refl _, Nat.one_dvd _⟩
  rw [seek_clear longRuns_ordered h clear] at image
  cases image

/-- The full case folding of a code point. -/
def foldPoints (n : Nat) : List Nat :=
  match seek n foldRuns with
  | some m => [m]
  | none =>
    match longFolds.find? fun entry => entry.1 == n with
    | some entry => entry.2
    | none => [n]

/-! ## 4. Characters -/

theorem toNat_ofNat {n : Nat} (valid : n.isValidChar) : (Char.ofNat n).toNat = n := by
  rw [Char.ofNat, dif_pos valid]
  rfl

theorem ofNat_eq_iff {m : Nat} (valid : m.isValidChar) {c : Char} :
    Char.ofNat m = c ↔ m = c.toNat := by
  constructor
  · rintro rfl
    exact (toNat_ofNat valid).symm
  · rintro rfl
    exact Char.ofNat_toNat c

/-- The case mappings of a character are those of its code point. -/
def tabled (c : Char) : Bool :=
  lowerVariant? c == (seek c.toNat lowerRuns).map Char.ofNat &&
    upperVariant? c == (seek c.toNat upperRuns).map Char.ofNat &&
    foldChar c == (foldPoints c.toNat).map Char.ofNat

theorem tabled_ascii : (List.range 0x80).all (fun n => tabled (Char.ofNat n)) = true := by
  decide +kernel

theorem of_ascii {c : Char} (small : c.toNat < 0x80) :
    lowerVariant? c = (seek c.toNat lowerRuns).map Char.ofNat ∧
      upperVariant? c = (seek c.toNat upperRuns).map Char.ofNat ∧
      foldChar c = (foldPoints c.toNat).map Char.ofNat := by
  have this := List.all_eq_true.mp tabled_ascii c.toNat (List.mem_range.mpr small)
  rw [Char.ofNat_toNat] at this
  simpa only [tabled, Bool.and_eq_true, beq_iff_eq, and_assoc] using this

theorem lowerVariant?_eq (c : Char) :
    lowerVariant? c = (seek c.toNat lowerRuns).map Char.ofNat := by
  by_cases small : c.toNat < 0x80
  · exact (of_ascii small).1
  · rw [lowerVariant?, if_neg small, imageIn?_eq_seek Table.lower.ordered]

theorem upperVariant?_eq (c : Char) :
    upperVariant? c = (seek c.toNat upperRuns).map Char.ofNat := by
  by_cases small : c.toNat < 0x80
  · exact (of_ascii small).2.1
  · rw [upperVariant?, if_neg small, imageIn?_eq_seek Table.upper.ordered]

theorem foldChar_eq (c : Char) : foldChar c = (foldPoints c.toNat).map Char.ofNat := by
  by_cases small : c.toNat < 0x80
  · exact (of_ascii small).2.2
  · rw [foldChar, if_neg small, foldPoints, imageIn?_eq_seek Table.fold.ordered]
    cases image : seek c.toNat foldRuns with
    | some m =>
      obtain ⟨r, hr, has, -⟩ := seek_has image
      have short := (Bool.and_eq_true_iff.mp (Bool.and_eq_true_iff.mp longFolds_sound).1).2
      rw [has.short (List.all_eq_true.mp short r hr)]
      rfl
    | none =>
      dsimp only
      cases longFolds.find? fun entry => entry.1 == c.toNat with
      | some entry => rfl
      | none => exact congrArg (fun d => [d]) (Char.ofNat_toNat c).symm

section Table

variable {runs : List CaseRun} (h : Table runs) {c d : Char}
include h

theorem variant_eq_some :
    (seek d.toNat runs).map Char.ofNat = some c ↔ seek d.toNat runs = some c.toNat := by
  rw [Option.map_eq_some_iff]
  constructor
  · rintro ⟨m, image, same⟩
    rwa [(ofNat_eq_iff (h.valid image)).mp same] at image
  · exact fun image => ⟨c.toNat, image, Char.ofNat_toNat c⟩

end Table

/-- The single-character variants of a character are the images of its code point. -/
theorem mem_caseVariants {c d : Char} : c ∈ caseVariants d ↔
    seek d.toNat lowerRuns = some c.toNat ∨ seek d.toNat upperRuns = some c.toNat := by
  rw [caseVariants, List.mem_append, Option.mem_toList, Option.mem_toList, lowerVariant?_eq,
    upperVariant?_eq, variant_eq_some Table.lower, variant_eq_some Table.upper]

theorem valid_foldPoints {c : Char} {m : Nat} (h : m ∈ foldPoints c.toNat) : m.isValidChar := by
  rw [foldPoints] at h
  split at h
  · rename_i image
    exact List.mem_singleton.mp h ▸ Table.fold.valid image
  · split at h
    · rename_i entry found
      have listed := List.mem_of_find?_eq_some found
      have sound := (Bool.and_eq_true_iff.mp longFolds_sound).2
      have valid := List.all_eq_true.mp (List.all_eq_true.mp sound entry listed) m h
      simp only [Bool.or_eq_true, Bool.and_eq_true, Nat.blt_eq, Nat.ble_eq] at valid
      rcases valid with below | ⟨above, inside⟩
      · exact .inl below
      · exact .inr ⟨by omega, inside⟩
    · exact List.mem_singleton.mp h ▸ c.valid

/-- Two characters have the same case folding if and only if their code points do. -/
theorem foldChar_inj {c d : Char} : foldChar c = foldChar d ↔
    foldPoints c.toNat = foldPoints d.toNat := by
  rw [foldChar_eq, foldChar_eq]
  constructor
  · intro same
    have back {c : Char} : ((foldPoints c.toNat).map Char.ofNat).map Char.toNat =
        foldPoints c.toNat := by
      rw [List.map_map]
      exact (List.map_congr_left fun m hm => toNat_ofNat (valid_foldPoints hm)).trans
        (List.map_id _)
    rw [← back, same, back]
  · exact congrArg _

end GrammarMatch.Unicode
