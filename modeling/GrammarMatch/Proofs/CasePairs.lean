/-
  File:      GrammarMatch/Proofs/CasePairs.lean
  Subject:   Where a class of one character and a literal differ in what they take for its case.

  Without regard to case a literal compares foldings, and a class tries the single-character lower
  case and upper case of the character that it tests. A character that folds like another one need
  not be a variant of it: `ſ` folds to `s`, and its upper case is `S`. The pairs for which the two
  tests differ are `strays`, and there are no others in all of Unicode (`class_or_literal`).

  Both directions are settled table by table: a variant has the same folding (`alike_variant`), and
  characters with the same folding are variants (`admits_of_alike`), with the exception of strays.
-/
import GrammarMatch.Proofs.CaseRuns
import GrammarMatch.Proofs.Slice

namespace GrammarMatch

namespace Unicode

/-! ## 1. Strays -/

/-- The pairs of a class and a character tested with it where the class and the literal differ: the
    two have one folding and the class does not match. Only of `I` and the dotless `ı` it is the
    class alone that matches. -/
def strays : List (Nat × Nat) :=
  [(0x49, 0x131), (0x4B, 0x212A), (0x73, 0x17F), (0xB5, 0x39C), (0xB5, 0x3BC), (0xC5, 0x212B),
   (0x17F, 0x53), (0x17F, 0x73), (0x1C5, 0x1C4), (0x1C5, 0x1C6), (0x1C8, 0x1C7),
   (0x1C8, 0x1C9), (0x1CB, 0x1CA), (0x1CB, 0x1CC), (0x1F2, 0x1F1), (0x1F2, 0x1F3),
   (0x345, 0x399), (0x345, 0x3B9), (0x345, 0x1FBE), (0x390, 0x1FD3), (0x398, 0x3F4),
   (0x3A9, 0x2126), (0x3B0, 0x1FE3), (0x3B2, 0x3D0), (0x3B5, 0x3F5), (0x3B8, 0x3D1),
   (0x3B9, 0x345), (0x3B9, 0x1FBE), (0x3BA, 0x3F0), (0x3BC, 0xB5), (0x3C0, 0x3D6),
   (0x3C1, 0x3F1), (0x3C2, 0x3A3), (0x3C2, 0x3C3), (0x3C3, 0x3C2), (0x3C6, 0x3D5),
   (0x3D0, 0x392), (0x3D0, 0x3B2), (0x3D1, 0x398), (0x3D1, 0x3B8), (0x3D1, 0x3F4),
   (0x3D5, 0x3A6), (0x3D5, 0x3C6), (0x3D6, 0x3A0), (0x3D6, 0x3C0), (0x3F0, 0x39A),
   (0x3F0, 0x3BA), (0x3F1, 0x3A1), (0x3F1, 0x3C1), (0x3F4, 0x398), (0x3F4, 0x3B8),
   (0x3F4, 0x3D1), (0x3F5, 0x395), (0x3F5, 0x3B5), (0x432, 0x1C80), (0x434, 0x1C81),
   (0x43E, 0x1C82), (0x441, 0x1C83), (0x442, 0x1C84), (0x442, 0x1C85), (0x44A, 0x1C86),
   (0x463, 0x1C87), (0x1C80, 0x412), (0x1C80, 0x432), (0x1C81, 0x414), (0x1C81, 0x434),
   (0x1C82, 0x41E), (0x1C82, 0x43E), (0x1C83, 0x421), (0x1C83, 0x441), (0x1C84, 0x422),
   (0x1C84, 0x442), (0x1C84, 0x1C85), (0x1C85, 0x422), (0x1C85, 0x442), (0x1C85, 0x1C84),
   (0x1C86, 0x42A), (0x1C86, 0x44A), (0x1C87, 0x462), (0x1C87, 0x463), (0x1C88, 0xA64A),
   (0x1C88, 0xA64B), (0x1E61, 0x1E9B), (0x1E9B, 0x1E60), (0x1E9B, 0x1E61), (0x1E9E, 0xDF),
   (0x1F88, 0x1F80), (0x1F89, 0x1F81), (0x1F8A, 0x1F82), (0x1F8B, 0x1F83), (0x1F8C, 0x1F84),
   (0x1F8D, 0x1F85), (0x1F8E, 0x1F86), (0x1F8F, 0x1F87), (0x1F98, 0x1F90), (0x1F99, 0x1F91),
   (0x1F9A, 0x1F92), (0x1F9B, 0x1F93), (0x1F9C, 0x1F94), (0x1F9D, 0x1F95), (0x1F9E, 0x1F96),
   (0x1F9F, 0x1F97), (0x1FA8, 0x1FA0), (0x1FA9, 0x1FA1), (0x1FAA, 0x1FA2), (0x1FAB, 0x1FA3),
   (0x1FAC, 0x1FA4), (0x1FAD, 0x1FA5), (0x1FAE, 0x1FA6), (0x1FAF, 0x1FA7), (0x1FBC, 0x1FB3),
   (0x1FBE, 0x345), (0x1FBE, 0x399), (0x1FBE, 0x3B9), (0x1FCC, 0x1FC3), (0x1FD3, 0x390),
   (0x1FE3, 0x3B0), (0x1FFC, 0x1FF3), (0x2126, 0x3A9), (0x2126, 0x3C9), (0x212A, 0x4B),
   (0x212A, 0x6B), (0x212B, 0xC5), (0x212B, 0xE5), (0xA64B, 0x1C88), (0xFB05, 0xFB06),
   (0xFB06, 0xFB05)]

/-- The class and the literal of a code point differ on another one. -/
def stray (c d : Nat) : Bool := strays.contains (c, d)

/-- The class of a code point matches another one. -/
def admits (c d : Nat) : Bool :=
  c == d || seek d lowerRuns == some c || seek d upperRuns == some c

/-- The literal of a code point matches another one. -/
def alike (c d : Nat) : Bool := foldPoints c == foldPoints d

variable {c d n m : Nat}

theorem stray_iff : stray c d = true ↔ (c, d) ∈ strays := List.contains_iff_mem

theorem alike_iff : alike c d = true ↔ foldPoints c = foldPoints d := beq_iff_eq

theorem admits_iff : admits c d = true ↔
    c = d ∨ seek d lowerRuns = some c ∨ seek d upperRuns = some c := by
  simp only [admits, Bool.or_eq_true, beq_iff_eq, or_assoc]

/-- On a stray the two differ, and the class matches it only if it is that of `I`. -/
theorem strays_differ : strays.all (fun p => admits p.1 p.2 == (p.1 == 'I'.toNat) &&
    alike p.1 p.2 != (p.1 == 'I'.toNat)) = true := by decide +kernel

/-! ## 2. Variants have one folding -/

/-- What is folded to one character does not fold any further. -/
theorem folds_fixed : foldRuns.all (fun r =>
    r.back.clearOf foldRuns && r.back.clearOf longRuns) = true := by decide +kernel

/-- **A code point and its folding have the same folding**, if that is one code point. -/
theorem foldPoints_image (h : seek n foldRuns = some m) :
    foldPoints n = [m] ∧ foldPoints m = [m] := by
  constructor
  · rw [foldPoints, h]
  · obtain ⟨r, hr, has, rfl⟩ := seek_has h
    obtain ⟨last, short⟩ := Bool.and_eq_true_iff.mp (List.all_eq_true.mp folds_fixed r hr)
    have there := (has.back (Table.fold.lifts hr)).1
    rw [foldPoints, seek_clear Table.fold.ordered there last, there.short short]

/-- A run of variants that is part of a run of foldings, in one direction or the other. -/
theorem CaseRun.Has.folds {r : CaseRun} (has : r.Has n) (lifts : r.lifts = true)
    (h : r.coveredBy foldRuns = true ∨ r.back.coveredBy foldRuns = true) :
    foldPoints (r.image n) = foldPoints n := by
  rcases h with forth | back
  · obtain ⟨own, fixed⟩ := foldPoints_image (seek_covered Table.fold.ordered has forth)
    rw [own, fixed]
  · obtain ⟨own, fixed⟩ := foldPoints_image (seek_back Table.fold.ordered lifts has back)
    rw [own, fixed]

theorem variants_fold : [lowerRuns, upperRuns].all (fun runs => runs.all fun r =>
    r.coveredBy foldRuns || r.back.coveredBy foldRuns || r.points.all fun n =>
      alike (r.image n) n || stray (r.image n) n) = true := by decide +kernel

/-- The lower and the upper case of a character have its folding, but for strays. -/
theorem alike_variant {runs : List CaseRun} (table : Table runs)
    (variants : runs ∈ [lowerRuns, upperRuns]) (h : seek d runs = some c) :
    foldPoints c = foldPoints d ∨ (c, d) ∈ strays := by
  obtain ⟨r, hr, has, rfl⟩ := seek_has h
  have checked := List.all_eq_true.mp (List.all_eq_true.mp variants_fold runs variants) r hr
  rcases Bool.or_eq_true_iff.mp checked with folds | each
  · exact .inl (has.folds (table.lifts hr) (Bool.or_eq_true_iff.mp folds))
  · have here := List.all_eq_true.mp each d (CaseRun.mem_points has)
    exact (Bool.or_eq_true_iff.mp here).imp alike_iff.mp stray_iff.mp

theorem alike_of_admits (h : admits c d = true) :
    foldPoints c = foldPoints d ∨ (c, d) ∈ strays := by
  rcases admits_iff.mp h with rfl | lower | upper
  · exact .inl rfl
  · exact alike_variant .lower List.mem_cons_self lower
  · exact alike_variant .upper (List.mem_cons_of_mem _ List.mem_cons_self) upper

/-! ## 3. Characters of one folding are variants -/

/-- A pair is one of variants, or a stray. -/
def settled (c d : Nat) : Bool := admits c d || stray c d

/-- The characters of a run are variants of their foldings. -/
def foldedSettled (r : CaseRun) : Bool :=
  r.back.coveredBy upperRuns || r.back.coveredBy lowerRuns ||
    r.points.all fun n => settled n (r.image n)

/-- The foldings are variants of them. -/
def foldingSettled (r : CaseRun) : Bool :=
  r.coveredBy lowerRuns || r.coveredBy upperRuns || r.points.all fun n => settled (r.image n) n

/-- They are the upper cases of their foldings, or variants of all that fold to the same. -/
def siblingsSettled (r : CaseRun) : Bool :=
  r.back.coveredBy upperRuns || foldRuns.all fun q => r.back.apart q.back || r.points.all fun n =>
    let m := q.back.image (r.image n)
    n == m || q.image? m != some (r.image n) || (settled n m && settled m n)

theorem foldRuns_settled : foldRuns.all (fun r =>
    foldedSettled r && foldingSettled r && siblingsSettled r) = true := by decide +kernel

/-- Several code points as one number, by which lists of them are told apart. -/
def digest (l : List Nat) : Nat := l.foldl (fun k n => 0x110000 * k + n) 0

/-- What folds to several characters is a variant of all that fold to the same ones. -/
theorem longFolds_settled : longFolds.all (fun entry => entry.2.length != 1 &&
    longFolds.all fun entry' => !(digest entry.2).beq (digest entry'.2) ||
      settled entry.1 entry'.1) = true := by decide +kernel

theorem settled_iff : settled c d = true ↔ admits c d = true ∨ (c, d) ∈ strays := by
  rw [settled, Bool.or_eq_true, stray_iff]

theorem settled_self (c : Nat) : settled c c = true :=
  settled_iff.mpr (.inl (admits_iff.mpr (.inl rfl)))

theorem settled_lower (h : seek d lowerRuns = some c) : settled c d = true :=
  settled_iff.mpr (.inl (admits_iff.mpr (.inr (.inl h))))

theorem settled_upper (h : seek d upperRuns = some c) : settled c d = true :=
  settled_iff.mpr (.inl (admits_iff.mpr (.inr (.inr h))))

theorem settled_run {r : CaseRun} (hr : r ∈ foldRuns) :
    foldedSettled r = true ∧ foldingSettled r = true ∧ siblingsSettled r = true := by
  simpa only [Bool.and_eq_true, and_assoc] using List.all_eq_true.mp foldRuns_settled r hr

theorem settled_folded (h : seek c foldRuns = some d) : settled c d = true := by
  obtain ⟨r, hr, has, rfl⟩ := seek_has h
  have lifts := Table.fold.lifts hr
  have checked := (settled_run hr).1
  simp only [foldedSettled, Bool.or_eq_true] at checked
  rcases checked with (upper | lower) | each
  · exact settled_upper (seek_back Table.upper.ordered lifts has upper)
  · exact settled_lower (seek_back Table.lower.ordered lifts has lower)
  · exact List.all_eq_true.mp each c (CaseRun.mem_points has)

theorem settled_folding (h : seek d foldRuns = some c) : settled c d = true := by
  obtain ⟨r, hr, has, rfl⟩ := seek_has h
  have checked := (settled_run hr).2.1
  simp only [foldingSettled, Bool.or_eq_true] at checked
  rcases checked with (lower | upper) | each
  · exact settled_lower (seek_covered Table.lower.ordered has lower)
  · exact settled_upper (seek_covered Table.upper.ordered has upper)
  · exact List.all_eq_true.mp each d (CaseRun.mem_points has)

/-- The first of two siblings is the upper case of their folding, or they are variants. -/
theorem sibling_cases (h : seek c foldRuns = some m) (h' : seek d foldRuns = some m) :
    seek m upperRuns = some c ∨ settled c d = true ∧ settled d c = true := by
  obtain ⟨r, hr, has, same⟩ := seek_has h
  obtain ⟨q, hq, has', same'⟩ := seek_has h'
  obtain ⟨image, -⟩ := has.back (Table.fold.lifts hr)
  obtain ⟨image', again⟩ := has'.back (Table.fold.lifts hq)
  rcases Bool.or_eq_true_iff.mp (settled_run hr).2.2 with upper | checked
  · left
    rw [← same]
    exact seek_back Table.upper.ordered (Table.fold.lifts hr) has upper
  · right
    rcases Bool.or_eq_true_iff.mp (List.all_eq_true.mp checked q hq) with far | each
    · rw [same] at image
      rw [same'] at image'
      rw [image.not_apart image'] at far
      cases far
    · have here := List.all_eq_true.mp each c (CaseRun.mem_points has)
      rw [same] at here
      rw [same'] at again
      simp only [again, Bool.or_eq_true, beq_iff_eq, bne_iff_ne, Bool.and_eq_true] at here
      rcases here with (rfl | other) | settled
      · exact ⟨settled_self c, settled_self c⟩
      · exact absurd (CaseRun.image?_eq_some.mpr ⟨has', same'⟩) other
      · exact settled

theorem settled_siblings (h : seek c foldRuns = some m) (h' : seek d foldRuns = some m) :
    settled c d = true := by
  rcases sibling_cases h h' with upper | settled
  · rcases sibling_cases h' h with upper' | settled
    · obtain rfl := Option.some.inj (upper.symm.trans upper')
      exact settled_self c
    · exact settled.2
  · exact settled.1

/-- A code point that folds to several, or its folding. -/
theorem foldPoints_cases (n : Nat) : (∃ entry ∈ longFolds, entry.1 = n ∧ foldPoints n = entry.2 ∧
    entry.2.length ≠ 1) ∨ foldPoints n = [(seek n foldRuns).getD n] := by
  rw [foldPoints]
  cases seek n foldRuns with
  | some m => exact .inr rfl
  | none =>
    cases found : longFolds.find? fun entry => entry.1 == n with
    | none => exact .inr rfl
    | some entry =>
      have listed := List.mem_of_find?_eq_some found
      have checked := List.all_eq_true.mp longFolds_settled entry listed
      have here := List.find?_some found
      exact .inl ⟨entry, listed, beq_iff_eq.mp here, rfl,
        bne_iff_ne.mp (Bool.and_eq_true_iff.mp checked).1⟩

/-- **Characters of one folding are variants of each other, but for strays.** -/
theorem admits_of_alike (h : foldPoints c = foldPoints d) : settled c d = true := by
  rcases foldPoints_cases c with ⟨entry, listed, rfl, fold, long⟩ | short
  · rcases foldPoints_cases d with ⟨entry', listed', rfl, fold', -⟩ | short'
    · have checked := List.all_eq_true.mp longFolds_settled entry listed
      have pair := List.all_eq_true.mp (Bool.and_eq_true_iff.mp checked).2 entry' listed'
      rcases Bool.or_eq_true_iff.mp pair with differ | settled
      · have same : entry.2 = entry'.2 := fold.symm.trans (h.trans fold')
        rw [same, Nat.beq_refl] at differ
        cases differ
      · exact settled
    · rw [← fold, h, short'] at long
      exact absurd rfl long
  · rcases foldPoints_cases d with ⟨entry', -, rfl, fold', long'⟩ | short'
    · rw [← fold', ← h, short] at long'
      exact absurd rfl long'
    · rw [short, short'] at h
      have same := List.singleton_inj.mp h
      cases image : seek c foldRuns with
      | none =>
        rw [image] at same
        cases image' : seek d foldRuns with
        | none =>
          rw [image'] at same
          exact settled_iff.mpr (.inl (admits_iff.mpr (.inl same)))
        | some m =>
          rw [image'] at same
          exact settled_folding (image'.trans (congrArg some same.symm))
      | some m =>
        rw [image] at same
        cases image' : seek d foldRuns with
        | none =>
          rw [image'] at same
          exact settled_folded (image.trans (congrArg some same))
        | some m' =>
          rw [image'] at same
          exact settled_siblings image (image'.trans (congrArg some same.symm))

/-- **The class of a code point and the literal agree on all but the strays.** -/
theorem agree_iff : (admits c d = true ↔ foldPoints c = foldPoints d) ↔ (c, d) ∉ strays := by
  constructor
  · intro agree mem
    have differ := List.all_eq_true.mp strays_differ (c, d) mem
    simp only [Bool.and_eq_true, beq_iff_eq, bne_iff_ne] at differ
    obtain ⟨own, other⟩ := differ
    rw [own, ← alike_iff] at agree
    exact other (Bool.eq_iff_iff.mpr agree.symm)
  · intro regular
    constructor
    · exact fun h => (alike_of_admits h).resolve_right regular
    · exact fun h => (settled_iff.mp (admits_of_alike h)).resolve_right regular

end Unicode

/-! ## 4. Classes and literals -/

namespace Match

open Unicode (caseVariants foldChar strays)

variable {t : Text} {pos : Int} {d : Char}

theorem itemHas_single (c d : Char) : itemHas d (.range [c] [c]) = .ok (d == c) := by
  have single : (notAfter [c] [d] && notAfter [d] [c]) = (d == c) := by
    rw [Bool.eq_iff_iff]
    simp only [notAfter, Bool.and_true, Bool.and_eq_true, Bool.or_eq_true, decide_eq_true_eq,
      beq_iff_eq]
    constructor
    · rintro ⟨low | same, high | same'⟩
      · exact absurd high (Char.lt_asymm low)
      · exact same'
      · exact same.symm
      · exact same'
    · rintro rfl
      exact ⟨.inr rfl, .inr rfl⟩
  rw [itemHas, single]

/-- The class of one character matches it and the characters of which it is a variant. -/
theorem classHas_single (c d : Char) :
    classHas [.range [c] [c]] false true d = .ok ((d :: caseVariants d).contains c) := by
  have among (l : List Char) : someCharIn [.range [c] [c]] l = .ok (l.contains c) := by
    induction l with
    | nil => rfl
    | cons x l ih =>
      rw [someCharIn, someItemHas, itemHas_single, List.contains_cons, Bool.beq_comm]
      cases c == x with
      | true => rfl
      | false => exact ih
  show (someCharIn _ (d :: caseVariants d)).map (· != false) = _
  rw [among]
  exact congrArg Except.ok (Bool.xor_false _)

/-- The text from a character to the next one. -/
theorem slice_here (inside : 0 ≤ pos) (here : t.at? pos = some d) :
    t.Span pos (pos + 1) ∧ t.slice pos (pos + 1) = [d] := by
  have index := here
  rw [Text.at?_of_nonneg t inside] at index
  obtain ⟨before, -⟩ := Array.getElem?_eq_some_iff.mp index
  have stop : t.stop = t.size := rfl
  have span : t.Span pos (pos + 1) := ⟨inside, by omega, by omega⟩
  exact ⟨span, (Text.slice_eq_singleton span).mpr ⟨rfl, here⟩⟩

theorem classHolds_single (inside : 0 ≤ pos) (here : t.at? pos = some d) (c : Char) :
    classHolds t [.range [c] [c]] false true pos =
      .ok (Unicode.admits c.toNat d.toNat) := by
  have variants : (d :: caseVariants d).contains c = Unicode.admits c.toNat d.toNat := by
    rw [Bool.eq_iff_iff, List.contains_iff_mem, List.mem_cons, Unicode.mem_caseVariants,
      Unicode.admits_iff, Char.toNat_inj]
  obtain ⟨span, one⟩ := slice_here inside here
  rw [classHolds_slice span one, classHas_single, variants]

theorem literalStop?_single (inside : 0 ≤ pos) (here : t.at? pos = some d) (c : Char) :
    literalStop? t [c] true pos = some (pos + 1) ↔
      Unicode.foldPoints c.toNat = Unicode.foldPoints d.toNat := by
  obtain ⟨span, one⟩ := slice_here inside here
  rw [literalStop_slice span, one, literalTakes_iff, ← Unicode.foldChar_inj]
  simp [Alike, Unicode.fold, eq_comm]

/-- **A class of one character and the literal agree without regard to case, but for the strays.**
    On a stray only the literal matches, unless the class is that of `I`. So a class may be written
    with another variant of its character unless a stray is in the way. -/
theorem class_or_literal {t : Text} {pos : Int} {d : Char} (inside : 0 ≤ pos)
    (here : t.at? pos = some d) (c : Char) :
    ((classHolds t [.range [c] [c]] false true pos = .ok true ↔
        literalStop? t [c] true pos = some (pos + 1)) ↔ (c.toNat, d.toNat) ∉ strays) ∧
      ((c.toNat, d.toNat) ∈ strays →
        (classHolds t [.range [c] [c]] false true pos = .ok true ↔ c = 'I')) ∧
      ∀ c' ∈ caseVariants c, (c'.toNat, c.toNat) ∉ strays → (c.toNat, d.toNat) ∉ strays →
        (c'.toNat, d.toNat) ∉ strays → classHolds t [.range [c'] [c']] false true pos =
          classHolds t [.range [c] [c]] false true pos := by
  simp only [classHolds_single inside here, literalStop?_single inside here, Except.ok.injEq]
  refine ⟨Unicode.agree_iff, fun mem => ?_, fun c' variant kept own other => ?_⟩
  · have differ := List.all_eq_true.mp Unicode.strays_differ _ mem
    have own := beq_iff_eq.mp (Bool.and_eq_true_iff.mp differ).1
    rw [own, beq_iff_eq, Char.toNat_inj]
  · have admitted : Unicode.admits c'.toNat c.toNat = true :=
      Unicode.admits_iff.mpr (.inr (Unicode.mem_caseVariants.mp variant))
    have same := (Unicode.agree_iff.mpr kept).mp admitted
    rw [Bool.eq_iff_iff, Unicode.agree_iff.mpr own, Unicode.agree_iff.mpr other, same]

/-- The class of `K` and the literal both match a small `k`. -/
theorem class_or_literal_letter :
    (classHolds (Text.ofString "k") [.range ['K'] ['K']] false true 0 = .ok true ↔
      literalStop? (Text.ofString "k") ['K'] true 0 = some 1) := by
  have here : (Text.ofString "k").at? 0 = some 'k' := by decide
  exact (class_or_literal (by decide) here 'K').1.mpr (by decide)

/-- **The long `ſ` folds to `s`, and it is no variant of it**: the literal matches it and the class
    does not. -/
theorem class_of_long_s :
    classHolds (Text.ofString "ſ") [.range ['s'] ['s']] false true 0 = .ok false ∧
      literalStop? (Text.ofString "ſ") ['s'] true 0 = some 1 := by
  have here : (Text.ofString "ſ").at? 0 = some 'ſ' := by decide
  have stray : ('s'.toNat, 'ſ'.toNat) ∈ strays := .tail _ (.tail _ (.head _))
  obtain ⟨own, other⟩ :=
    Bool.and_eq_true_iff.mp (List.all_eq_true.mp Unicode.strays_differ _ stray)
  constructor
  · rw [classHolds_single (Int.le_refl 0) here]
    exact congrArg Except.ok (beq_iff_eq.mp own)
  · have alike : Unicode.alike 's'.toNat 'ſ'.toNat = true :=
      Bool.ne_false_iff.mp (bne_iff_ne.mp other)
    exact (literalStop?_single (Int.le_refl 0) here 's').mpr (Unicode.alike_iff.mp alike)

end Match

end GrammarMatch
