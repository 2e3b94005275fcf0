/-
  File:      GrammarMatch/Proofs/Shuffle.lean
  Subject:   Patterns whose competing branches stand in another order.

  In an alternation that prefers the longest the branches may change their places. What is read
  off the tree of a pattern does not change then: its width (`Shuffled.width`), how often a key
  can be captured in it, and so the keys that bind a list (`Shuffled.pluralKeys`).
-/
import GrammarMatch.Proofs.Counts
import GrammarMatch.Proofs.Lexicon
import Mathlib.Data.List.Forall2
import Mathlib.Data.List.Perm.Basic

namespace GrammarMatch

/-! ## 1. Another order of branches -/

/-- The same pattern, but for the order of the branches in alternations that prefer the longest
    and are chosen, by their branches. Branches may be changed themselves. -/
inductive Pattern.Shuffled (chosen : List Pattern → Prop) : Pattern → Pattern → Prop
  | literal (chars : List Char) (ignoreCase : Bool) :
      Shuffled chosen (.literal chars ignoreCase) (.literal chars ignoreCase)
  | charClass (items : List ClassItem) (negated ignoreCase : Bool) :
      Shuffled chosen (.charClass items negated ignoreCase) (.charClass items negated ignoreCase)
  | sequence {parts parts' : List Pattern} (h : List.Forall₂ (Shuffled chosen) parts parts') :
      Shuffled chosen (.sequence parts) (.sequence parts')
  | alternation (mode : ChoiceMode) {branches branches' : List Pattern}
      (h : List.Forall₂ (Shuffled chosen) branches branches') :
      Shuffled chosen (.alternation mode branches) (.alternation mode branches')
  | permuted {branches between branches' : List Pattern}
      (h : List.Forall₂ (Shuffled chosen) branches between) (here : chosen branches)
      (perm : between.Perm branches') :
      Shuffled chosen (.alternation .longest branches) (.alternation .longest branches')
  | repetition (q : Quantity) {body body' : Pattern} (h : Shuffled chosen body body') :
      Shuffled chosen (.repetition q body) (.repetition q body')
  | group (key : Option CaptureKey) (plural : List CaptureKey) {body body' : Pattern}
      (h : Shuffled chosen body body') :
      Shuffled chosen (.group key plural body) (.group key plural body')
  | look (kind : LookKind) {body body' : Pattern} (h : Shuffled chosen body body') :
      Shuffled chosen (.look kind body) (.look kind body')
  | anchor (kind : AnchorKind) : Shuffled chosen (.anchor kind) (.anchor kind)
  | ruleRef (r : Reference) : Shuffled chosen (.ruleRef r) (.ruleRef r)
  | whitespace : Shuffled chosen .whitespace .whitespace

/-- The same rule, but for the order of competing branches. -/
structure Rule.Shuffled (chosen : List Pattern → Prop) (rule rule' : Rule) : Prop where
  name : rule'.name = rule.name
  kind : rule'.kind = rule.kind
  pattern : rule.pattern.Shuffled chosen rule'.pattern

/-- Registries that answer alike, but for the order of competing branches in their rules. -/
structure Match.Lexicon.Shuffled (chosen : List Pattern → Prop) (x x' : Match.Lexicon) : Prop where
  space : x'.space = x.space
  known : ∀ name rule, x.rules name = .ok rule →
    ∃ rule', x'.rules name = .ok rule' ∧ rule.Shuffled chosen rule'
  unknown : ∀ name f, x.rules name = .error f → x'.rules name = .error f

namespace Pattern

variable {chosen : List Pattern → Prop}

mutual

/-- Nothing needs to be moved. -/
theorem Shuffled.refl (p : Pattern) : p.Shuffled chosen p := by
  match p with
  | .literal .. => exact .literal _ _
  | .charClass .. => exact .charClass _ _ _
  | .sequence parts => exact .sequence (shuffled_all parts)
  | .alternation mode branches => exact .alternation mode (shuffled_all branches)
  | .repetition q body => exact .repetition q (Shuffled.refl body)
  | .group key plural body => exact .group key plural (Shuffled.refl body)
  | .look kind body => exact .look kind (Shuffled.refl body)
  | .anchor kind => exact .anchor kind
  | .ruleRef r => exact .ruleRef r
  | .whitespace => exact .whitespace

theorem shuffled_all (l : List Pattern) : List.Forall₂ (Shuffled chosen) l l := by
  match l with
  | [] => exact .nil
  | p :: rest => exact .cons (Shuffled.refl p) (shuffled_all rest)

end

/-! ## 2. Widths -/

namespace Width

theorem sup_comm (a b : Width) : a.sup b = b.sup a := by
  obtain ⟨low, high⟩ := a
  obtain ⟨low', high'⟩ := b
  have least : min low low' = min low' low := Int.min_comm ..
  unfold sup
  cases high with
  | none => cases high' <;> exact congrArg₂ Width.mk least rfl
  | some x =>
    cases high' with
    | none => exact congrArg₂ Width.mk least rfl
    | some y => exact congrArg₂ Width.mk least (congrArg some (Int.max_comm ..))

theorem sup_assoc (a b c : Width) : (a.sup b).sup c = a.sup (b.sup c) := by
  obtain ⟨low, high⟩ := a
  obtain ⟨low', high'⟩ := b
  obtain ⟨low'', high''⟩ := c
  have least : min (min low low') low'' = min low (min low' low'') := Int.min_assoc ..
  unfold sup
  cases high with
  | none => cases high' <;> cases high'' <;> exact congrArg₂ Width.mk least rfl
  | some x =>
    cases high' with
    | none => cases high'' <;> exact congrArg₂ Width.mk least rfl
    | some y =>
      cases high'' with
      | none => exact congrArg₂ Width.mk least rfl
      | some z => exact congrArg₂ Width.mk least (congrArg some (Int.max_assoc ..))

/-- The width of one of several things. -/
def ofOne : List Width → Width
  | [] => ⟨0, some 0⟩
  | w :: ws => ws.foldl sup w

/-- **The width of one of several things does not depend on their order.** -/
theorem ofOne_perm {ws ws' : List Width} (h : ws.Perm ws') : ofOne ws = ofOne ws' := by
  have right : RightCommutative sup := ⟨fun a b c => by
    rw [sup_assoc, sup_assoc, sup_comm b c]⟩
  induction h with
  | nil => rfl
  | cons w h _ => exact h.foldl_eq w
  | swap w w' ws =>
    show ws.foldl sup (w'.sup w) = ws.foldl sup (w.sup w')
    rw [sup_comm]
  | trans _ _ ih ih' => exact ih.trans ih'

end Width

theorem widthOfBranches_eq (w : Width) (branches : List Pattern) :
    widthOfBranches w branches = (branches.map width).foldl Width.sup w := by
  induction branches generalizing w with
  | nil => rfl
  | cons p branches ih =>
    unfold widthOfBranches
    exact ih (w.sup p.width)

theorem width_alternation (mode : ChoiceMode) (branches : List Pattern) :
    (alternation mode branches).width = Width.ofOne (branches.map width) := by
  cases branches with
  | nil => rfl
  | cons p branches =>
    unfold width
    exact widthOfBranches_eq p.width branches

theorem widthOfParts_eq (parts : List Pattern) :
    widthOfParts parts = (parts.map width).foldr Width.add ⟨0, some 0⟩ := by
  induction parts with
  | nil => rfl
  | cons p parts ih =>
    unfold widthOfParts
    rw [ih]
    rfl

mutual

/-- **The order of branches changes no width.** -/
theorem Shuffled.width {p p' : Pattern} (h : p.Shuffled chosen p') : p'.width = p.width := by
  match h with
  | .literal .. | .charClass .. | .anchor _ | .ruleRef _ | .whitespace | .look .. => rfl
  | .sequence h =>
    show widthOfParts _ = widthOfParts _
    rw [widthOfParts_eq, widthOfParts_eq, widths_shuffled h]
  | .alternation mode h => rw [width_alternation, width_alternation, widths_shuffled h]
  | .permuted h _ perm =>
    rw [width_alternation, width_alternation, ← widths_shuffled h]
    exact Width.ofOne_perm (perm.symm.map Pattern.width)
  | .repetition q h => exact congrArg (Width.times · q) (Shuffled.width h)
  | .group key plural h =>
    have inside := Shuffled.width h
    exact inside

theorem widths_shuffled {l l' : List Pattern} (h : List.Forall₂ (Shuffled chosen) l l') :
    l'.map Pattern.width = l.map Pattern.width := by
  match h with
  | .nil => rfl
  | .cons first rest =>
    exact congrArg₂ List.cons (Shuffled.width first) (widths_shuffled rest)

end

/-! ## 3. Plural keys -/

variable {k : CaptureKey}

theorem get_parts (k : CaptureKey) (parts : List Pattern) :
    rowCount parts k = (parts.map (·.captureCounts.get k)).foldr Nat.add 0 := by
  induction parts with
  | nil => rfl
  | cons p parts ih =>
    rw [rowCount_cons, ih]
    rfl

theorem get_branches (k : CaptureKey) (branches : List Pattern) :
    (captureCountsOfBranches branches).get k =
      (branches.map (·.captureCounts.get k)).foldr max 0 := by
  induction branches with
  | nil => rfl
  | cons p branches ih =>
    unfold captureCountsOfBranches
    rw [Counts.get_sup, ih]
    rfl

theorem get_repetition (q : Quantity) {body body' : Pattern}
    (h : body'.captureCounts.get k = body.captureCounts.get k) :
    (repetition q body').captureCounts.get k = (repetition q body).captureCounts.get k := by
  have twice : Counts.get (body'.captureCounts.map fun e => (e.1, 2)) k =
      Counts.get (body.captureCounts.map fun e => (e.1, 2)) k := by
    rw [(proper_captureCounts body').get_twice, (proper_captureCounts body).get_twice, h]
  unfold captureCounts
  cases q.max with
  | none => exact twice
  | some high =>
    show Counts.get (if 1 < high then _ else _) k = Counts.get (if 1 < high then _ else _) k
    by_cases many : 1 < high
    · rw [if_pos many, if_pos many]
      exact twice
    · rw [if_neg many, if_neg many]
      exact h

mutual

/-- **The order of branches changes no count of captures.** -/
theorem Shuffled.counts {p p' : Pattern} (h : p.Shuffled chosen p') :
    p'.captureCounts.get k = p.captureCounts.get k := by
  match h with
  | .literal .. | .charClass .. | .anchor _ | .ruleRef _ | .whitespace | .look .. => rfl
  | .sequence h =>
    show rowCount _ k = rowCount _ k
    rw [get_parts, get_parts, counts_shuffled h]
  | .alternation mode h =>
    show (captureCountsOfBranches _).get k = (captureCountsOfBranches _).get k
    rw [get_branches, get_branches, counts_shuffled h]
  | .permuted h _ perm =>
    show (captureCountsOfBranches _).get k = (captureCountsOfBranches _).get k
    rw [get_branches, get_branches, ← counts_shuffled h]
    exact (perm.symm.map _).foldr_eq 0
  | .repetition q h => exact get_repetition q (Shuffled.counts h)
  | .group key plural h =>
    have inside : _ = Counts.get _ k := Shuffled.counts h
    cases key with
    | none => exact inside
    | some key => rfl

theorem counts_shuffled {l l' : List Pattern} (h : List.Forall₂ (Shuffled chosen) l l') :
    l'.map (·.captureCounts.get k) = l.map (·.captureCounts.get k) := by
  match h with
  | .nil => rfl
  | .cons first rest =>
    exact congrArg₂ List.cons (Shuffled.counts first) (counts_shuffled rest)

end

end Pattern

/-! ## 4. Keys in order -/

namespace CaptureKey

theorem le_names {s t : String} : (name s).le (name t) = true ↔ s ≤ t := by
  show (!decide (t < s)) = true ↔ s ≤ t
  rw [Bool.not_eq_true', decide_eq_false_iff_not, String.not_lt]

theorem le_indices {m n : Int} : (index m).le (index n) = true ↔ m ≤ n := decide_eq_true_iff

theorem le_total (k l : CaptureKey) : (k.le l || l.le k) = true := by
  rw [Bool.or_eq_true]
  cases k with
  | index m =>
    cases l with
    | index n => exact (Int.le_total m n).imp le_indices.mpr le_indices.mpr
    | name t => exact .inl rfl
  | name s =>
    cases l with
    | index n => exact .inr rfl
    | name t => exact (String.le_total s t).imp le_names.mpr le_names.mpr

theorem le_trans (k l m : CaptureKey) (h : k.le l = true) (h' : l.le m = true) :
    k.le m = true := by
  cases k with
  | index i =>
    cases m with
    | name u => rfl
    | index n =>
      cases l with
      | index j => exact le_indices.mpr (Int.le_trans (le_indices.mp h) (le_indices.mp h'))
      | name t => cases h'
  | name s =>
    cases l with
    | index j => cases h
    | name t =>
      cases m with
      | index n => cases h'
      | name u => exact le_names.mpr (String.le_trans (le_names.mp h) (le_names.mp h'))

theorem le_antisymm {k l : CaptureKey} (h : k.le l = true) (h' : l.le k = true) : k = l := by
  cases k with
  | index m =>
    cases l with
    | index n => exact congrArg index (Int.le_antisymm (le_indices.mp h) (le_indices.mp h'))
    | name t => cases h'
  | name s =>
    cases l with
    | index n => cases h
    | name t => exact congrArg name (String.le_antisymm (le_names.mp h) (le_names.mp h'))

end CaptureKey

namespace Pattern

variable {chosen : List Pattern → Prop}

theorem pluralKeys_sorted (p : Pattern) : p.pluralKeys.Pairwise fun k l => k.le l = true :=
  List.pairwise_mergeSort CaptureKey.le_trans CaptureKey.le_total _

theorem pluralKeys_nodup (p : Pattern) : p.pluralKeys.Nodup := by
  refine ((List.mergeSort_perm _ _).nodup_iff).mpr ?_
  exact (proper_captureCounts p).once.sublist (List.filter_sublist.map _)

/-- **The order of branches changes no plural keys.** -/
theorem Shuffled.pluralKeys {p p' : Pattern} (h : p.Shuffled chosen p') :
    p'.pluralKeys = p.pluralKeys := by
  have perm : p'.pluralKeys.Perm p.pluralKeys := by
    refine (List.perm_ext_iff_of_nodup p'.pluralKeys_nodup p.pluralKeys_nodup).mpr fun k => ?_
    rw [mem_pluralKeys, mem_pluralKeys, h.counts]
  exact perm.eq_of_pairwise (fun _ _ _ _ => CaptureKey.le_antisymm) p'.pluralKeys_sorted
    p.pluralKeys_sorted

end Pattern

end GrammarMatch
