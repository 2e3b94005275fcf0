/-
  File:      GrammarMatch/Proofs/Contests.lean
  Subject:   The order of competing branches decides only ties.

  Where the longest branch counts, all branches are tried, in whatever order they stand. Without
  kept results and without callbacks the same solutions come of it, and the order shows only among
  those that end at the same place. So a search that is not given up finds the same ends in the
  same order when branches change places, in whatever rules they stand; and if no two branches
  tie where the search comes to them, it captures the same (`shuffling_decides_ties`).
-/
import GrammarMatch.Proofs.Anchored
import GrammarMatch.Proofs.Parallel
import GrammarMatch.Proofs.Shuffle
import GrammarMatch.Proofs.WellNested
import Mathlib.Data.List.Pairwise

namespace GrammarMatch

open Match

namespace Match

/-! ## 1. The longest of several -/

section Longest

variable {found found' : List (Option Solution)}

theorem longestFirst_pairwise (found : List (Option Solution)) :
    (longestFirst found).Pairwise fun u v => v.stop ≤ u.stop := by
  have trans (u v w : Solution) (h : decide (v.stop ≤ u.stop) = true)
      (h' : decide (w.stop ≤ v.stop) = true) : decide (w.stop ≤ u.stop) = true :=
    decide_eq_true (Int.le_trans (of_decide_eq_true h') (of_decide_eq_true h))
  have total (u v : Solution) :
      (decide (v.stop ≤ u.stop) || decide (u.stop ≤ v.stop)) = true := by
    rw [Bool.or_eq_true, decide_eq_true_iff, decide_eq_true_iff]
    exact Int.le_total v.stop u.stop
  have sorted := List.pairwise_mergeSort trans total (found.filterMap id)
  exact sorted.imp of_decide_eq_true

theorem longestFirst_perm (h : found.Perm found') :
    (longestFirst found).Perm (longestFirst found') :=
  ((List.mergeSort_perm _ _).trans (h.filterMap id)).trans (List.mergeSort_perm _ _).symm

/-- The ends do not depend on the order in which solutions are found. -/
theorem longestFirst_stops (h : found.Perm found') :
    (longestFirst found).map Solution.stop = (longestFirst found').map Solution.stop := by
  have sorted (found : List (Option Solution)) :
      ((longestFirst found).map Solution.stop).Pairwise fun i j => j ≤ i :=
    List.pairwise_map.mpr (longestFirst_pairwise found)
  exact ((longestFirst_perm h).map _).eq_of_pairwise (fun _ _ _ _ h h' => Int.le_antisymm h' h)
    (sorted found) (sorted found')

/-- Solutions of branches of which no two end at the same place. -/
abbrev Tieless : List (Option Solution) → Prop :=
  List.Pairwise fun a b => ∀ u ∈ a, ∀ v ∈ b, u.stop ≠ v.stop

/-- **Without ties the order in which solutions are found does not matter.** -/
theorem longestFirst_tieless (apart : Tieless found) (h : found.Perm found') :
    longestFirst found = longestFirst found' := by
  have distinct : (found.filterMap id).Pairwise fun u v => u.stop ≠ v.stop := by
    rw [List.pairwise_filterMap]
    exact apart.imp fun h u hu v hv => h u hu v hv
  refine (longestFirst_perm h).eq_of_pairwise (fun u v hu hv huv hvu => ?_)
    (longestFirst_pairwise found) (longestFirst_pairwise found')
  have here : u ∈ found.filterMap id := List.mem_mergeSort.mp hu
  have there : v ∈ found.filterMap id :=
    List.mem_mergeSort.mp ((longestFirst_perm h).mem_iff.mpr hv)
  have symm : Std.Symm fun u v : Solution => u.stop ≠ v.stop := ⟨fun _ _ h => h.symm⟩
  refine Classical.byContradiction fun other => ?_
  exact distinct.forall here there other (Int.le_antisymm hvu huv)

end Longest

/-! ## 2. Branches one after the other -/

section Branches

variable {α γ γ' δ : Type} {s t : State}

/-- Each of several computations comes to its result after those before it. -/
theorem mapM_tried {x : γ → Run α} {l : List γ} {results : List α}
    (h : l.mapM x s = .ok results t) :
    List.Forall₂ (fun c a => ∃ before after done u u', l = before ++ c :: after ∧
      before.mapM x s = .ok done u ∧ x c u = .ok a u') l results := by
  induction l generalizing s results with
  | nil =>
    rw [List.mapM_nil] at h
    cases h
    exact .nil
  | cons c l ih =>
    rw [List.mapM_cons] at h
    cases hc : x c s with
    | error f u =>
      rw [Run.bind_error hc] at h
      cases h
    | ok a u =>
      rw [Run.bind_ok hc] at h
      cases hl : l.mapM x u with
      | error f v =>
        rw [Run.bind_error hl] at h
        cases h
      | ok as v =>
        rw [Run.bind_ok hl] at h
        cases h
        refine .cons ⟨[], l, [], s, u, rfl, by rw [List.mapM_nil]; rfl, hc⟩ ?_
        refine (ih hl).imp fun d b hd => ?_
        obtain ⟨before, after, done, w, w', split, tried, last⟩ := hd
        refine ⟨c :: before, after, a :: done, w, w', congrArg (c :: ·) split, ?_, last⟩
        rw [List.mapM_cons]
        exact (Run.bind_ok hc).trans ((Run.bind_ok tried).trans rfl)

/-- From one list to another by way of two that are in step with them. -/
theorem forall₂_between {A : γ → α → Prop} {B : γ → γ' → Prop} {C : γ' → δ → Prop}
    {Q : α → δ → Prop} {l : List γ} {m : List α} {l' : List γ'} {m' : List δ}
    (ha : List.Forall₂ A l m) (hb : List.Forall₂ B l l') (hc : List.Forall₂ C l' m')
    (step : ∀ a b c d, A a b → B a c → C c d → Q b d) : List.Forall₂ Q m m' := by
  induction ha generalizing l' m' with
  | nil =>
    cases hb
    cases hc
    exact .nil
  | cons a _ ih =>
    cases hb with
    | cons b hb =>
      cases hc with
      | cons c hc => exact .cons (step _ _ _ _ a b c) (ih hb hc)

/-- What holds of any two of one list carries over to a list in step with it. -/
theorem pairwise_of_forall₂ {A : γ → α → Prop} {P : γ → γ → Prop} {Q : α → α → Prop}
    {l : List γ} {m : List α} (h : List.Forall₂ A l m) (hl : l.Pairwise P)
    (step : ∀ c d a b, P c d → A c a → A d b → Q a b) : m.Pairwise Q := by
  have length := h.length_eq
  rw [List.pairwise_iff_getElem] at hl ⊢
  intro i j hi hj lt
  have hi' : i < l.length := length ▸ hi
  have hj' : j < l.length := length ▸ hj
  exact step _ _ _ _ (hl i j hi' hj' lt) (h.get hi' hi) (h.get hj' hj)

end Branches

/-! ## 3. First solutions without kept results -/

section Unkept

variable {env : Env} (off : env.settings.memoize = false) {active : Active} {s t : State}
  {th : Thread}

include off

/-- What a first solution is depends on the rules alone. -/
theorem firstOf_unkept (active : Active) (th : Thread) (s : State) :
    (firstOf env active none th).Ensures s fun o s' => s'.lexicon = s.lexicon ∧
      (agendaAnswers (Basis.of env s.lexicon) active [th]).first = o := by
  have read {α : Type} (x : Answers α) : x.first = x.head.map (Option.map Prod.fst) := by
    cases x <;> rfl
  refine Run.ensures_bind.mpr ((seek_unkept off active [th] s).mono fun o s' h => ?_)
  rw [read, h.2]
  cases o with
  | error f => exact ⟨h.1, rfl⟩
  | ok found => exact ⟨h.1, by cases found <;> rfl⟩

theorem firstOf_again {r : Option Solution} {s' : State} (h : firstOf env active none th s = .ok r t)
    (same : s'.lexicon = s.lexicon) : ∃ t', firstOf env active none th s' = .ok r t' := by
  have first := ((firstOf_unkept off active th s).ok h).2
  rw [← same] at first
  cases again : firstOf env active none th s' with
  | ok r' t' =>
    have first' := ((firstOf_unkept off active th s').ok again).2
    cases first.symm.trans first'
    exact ⟨t', rfl⟩
  | error f t' =>
    have first' := ((firstOf_unkept off active th s').error again).2
    cases first.symm.trans first'

/-- Trying branches does not change the rules. -/
theorem firsts_lexicon (active : Active) (pos : Int) (captured : Captured) (depth : Nat)
    (branches : List Pattern) (s : State) :
    (firsts env active pos captured depth branches).Ensures s fun _ s' =>
      s'.lexicon = s.lexicon := by
  unfold firsts
  induction branches generalizing s with
  | nil =>
    rw [List.mapM_nil]
    exact rfl
  | cons p branches ih =>
    rw [List.mapM_cons]
    refine Run.ensures_bind.mpr ((firstOf_unkept off active _ s).mono fun o u h => ?_)
    cases o with
    | error f => exact h.1
    | ok r =>
      refine Run.ensures_bind.mpr ((ih u).mono fun o v hv => ?_)
      cases o with
      | error f => exact hv.trans h.1
      | ok rs => exact hv.trans h.1

end Unkept

/-! ## 4. Another order of competing branches -/

/-- The search for a pattern, with branches in another order. What is captured is the same if
    there are no ties. -/
def reordering (chosen : List Pattern → Prop) (x x' : Lexicon) (untied : Prop) : Likeness where
  lexicon := x
  lexicon' := x'
  memoize := false
  captures c c' := untied → c' = c
  captured l l' := untied → l' = l
  lost _ := True
  lost' _ := True
  part := Pattern.Shuffled chosen
  rule := Rule.Shuffled chosen
  call _ := True

/-- No two branches have first solutions that end at the same place. -/
def NoTies (env : Env) (active : Active) (pos : Int) (captured : Captured) (depth : Nat)
    (s : State) : List Pattern → Prop :=
  List.Pairwise fun p q => ∀ u v t t',
    firstOf env active none ⟨[.part p (depth + 1)], pos, captured⟩ s = .ok (some u) t →
    firstOf env active none ⟨[.part q (depth + 1)], pos, captured⟩ s = .ok (some v) t' →
    u.stop ≠ v.stop

/-- At a moment that comes to a chosen alternation no two of its branches tie. -/
def Decided (env : Env) (chosen : List Pattern → Prop) (m : Moment) : Prop :=
  ∀ branches depth goals pos captured rest,
    m.agenda = ⟨.part (.alternation .longest branches) depth :: goals, pos, captured⟩ :: rest →
    chosen branches → NoTies env m.active pos captured depth m.state branches

section Reordering

variable {chosen : List Pattern → Prop} {x x' : Lexicon} {untied : Prop} {env : Env}
  (off : env.settings.memoize = false) {s s' t : State}

theorem reordering_place {pos pos' : Int} :
    (reordering chosen x x' untied).place pos pos' ↔ pos' = pos := Likeness.place_still rfl

/-- Solutions that belong together compare alike. -/
theorem reordering_order (a a' b b' : Solution) (ha : (reordering chosen x x' untied).solution a a')
    (hb : (reordering chosen x x' untied).solution b b') : b.stop ≤ a.stop ↔ b'.stop ≤ a'.stop := by
  rw [reordering_place.mp ha.stop, reordering_place.mp hb.stop]

theorem reordering_same {s s' : State} :
    (reordering chosen x x' untied).same s s' ↔ s.lexicon = x ∧ s'.lexicon = x' :=
  ⟨fun h => ⟨h.lexicon, h.lexicon'⟩, fun h => ⟨h.1, h.2, fun on => absurd on Bool.false_ne_true⟩⟩

/-- Competing solutions that belong together still do when those of one side were found in another
    order. -/
theorem longestFirst_reordered {found between found' : List (Option Solution)}
    (alike : List.Forall₂ (Option.Rel (reordering chosen x x' untied).solution) found between)
    (perm : between.Perm found') (tieless : untied → Tieless found) :
    List.Forall₂ (reordering chosen x x' untied).solution (longestFirst found)
      (longestFirst found') := by
  by_cases hu : untied
  · -- nothing differs but the order, which does not matter without ties
    have equal : found = between := by
      refine List.forall₂_eq_eq_eq ▸ alike.imp fun a a' h => ?_
      cases h with
      | none => rfl
      | some h =>
        have stop := reordering_place.mp h.stop
        have caps := h.captured hu
        exact congrArg some (Solution.mk.injEq .. ▸ ⟨stop.symm, caps.symm⟩)
    subst equal
    rw [← longestFirst_tieless (tieless hu) perm]
    exact List.forall₂_same.mpr fun u _ => ⟨reordering_place.mpr rfl, fun _ => rfl⟩
  · -- the ends are in the same order, whatever was captured
    have sorted := (Correspondence.longestFirst_pairs reordering_order alike).imp fun u u' h =>
      (reordering_place.mp h.stop).symm
    rw [← List.forall₂_map_right_iff, ← List.forall₂_map_left_iff, List.forall₂_eq_eq_eq,
      longestFirst_stops perm, ← List.forall₂_eq_eq_eq, List.forall₂_map_left_iff,
      List.forall₂_map_right_iff] at sorted
    exact sorted.imp fun u u' h => ⟨reordering_place.mpr h.symm, fun tied => absurd tied hu⟩

include off

/-- Where no branches tie, what was found of them ends at different places. -/
theorem tieless_of_noTies {active : Active} {pos : Int} {captured : Captured} {depth : Nat}
    {branches : List Pattern} {found : List (Option Solution)} {s₀ : State}
    (noTies : NoTies env active pos captured depth s₀ branches) (same : s.lexicon = s₀.lexicon)
    (h : firsts env active pos captured depth branches s = .ok found t) : Tieless found := by
  have again : List.Forall₂ (fun p a => ∃ t',
      firstOf env active none ⟨[.part p (depth + 1)], pos, captured⟩ s₀ = .ok a t')
      branches found := by
    refine (mapM_tried h).imp fun p a tried => ?_
    obtain ⟨before, after, done, u, u', _, earlier, last⟩ := tried
    refine firstOf_again off last ?_
    exact ((firsts_lexicon off active pos captured depth before s).ok earlier |>.trans same).symm
  refine pairwise_of_forall₂ again noTies fun p q a b apart ha hb u hu v hv => ?_
  obtain rfl : a = some u := hu
  obtain rfl : b = some v := hv
  obtain ⟨t', ha⟩ := ha
  obtain ⟨t'', hb⟩ := hb
  exact apart u v t' t'' ha hb

variable {R : Moment → Prop} (leads : ∀ m m', R m → Leads env m m' → R m')

include leads

/-- Branches that belong together one by one have first solutions that belong together. -/
theorem reordering_firsts {active : Active} {target : Option Int} {branches between : List Pattern}
    {depth : Nat} {goals : List Goal} {pos : Int} {captured captured' : Captured} {rest : Agenda}
    {s₀ : State} {found found' : List (Option Solution)}
    (room : depth ≤ env.bounds.room)
    (inner : (reordering chosen x x' untied).Inner env env R (Goal.partSize env.bounds depth))
    (reached : R ⟨active, target,
      ⟨.part (.alternation .longest branches) depth :: goals, pos, captured⟩ :: rest, s₀⟩)
    (entered : Run.enter env depth pos s₀ = .ok () s)
    (caps : untied → captured' = captured) (lexicon : s.lexicon = x)
    (pairs : List.Forall₂ (Pattern.Shuffled chosen) branches between)
    (h : firsts env active pos captured depth branches s = .ok found t)
    (h' : List.Forall₂ (fun p a => ∃ u u', u.lexicon = x' ∧
      firstOf env active none ⟨[.part p (depth + 1)], pos, captured'⟩ u = .ok a u') between found') :
    List.Forall₂ (Option.Rel (reordering chosen x x' untied).solution) found found' := by
  refine forall₂_between (mapM_tried h) pairs h' fun p a p' a' tried part answered => ?_
  obtain ⟨before, after, done, u, u', rfl, earlier, last⟩ := tried
  obtain ⟨w, w', lexicon', last'⟩ := answered
  have lexicon : u.lexicon = x :=
    ((firsts_lexicon off active pos captured depth before s).ok earlier).trans lexicon
  have search := inner active none ⟨[.part p (depth + 1)], pos, captured⟩
    ⟨[.part p' (depth + 1)], pos, captured'⟩ u w
    (List.forall_mem_singleton.mpr (Goal.part_under_part room p))
    ⟨.cons (.part part) .nil, reordering_place.mpr rfl, caps⟩
    (reordering_same.mpr ⟨lexicon, lexicon'⟩)
    (leads _ _ reached (.inner (.branch room entered earlier)))
  rw [Likeness.moved_still rfl, last] at search
  change (reordering chosen x x' untied).Pace _ _
    (firstOf env active none ⟨[.part p' (depth + 1)], pos, captured'⟩ w) at search
  rw [last'] at search
  cases search with
  | ok alike _ => exact alike

/-- **Branches compete alike in any order.** -/
theorem reordering_compete (decided : untied → ∀ m, R m → Decided env chosen m) :
    (reordering chosen x x' untied).Compete env env R := by
  intro active target branches branches' depth goals pos pos' captured captured' rest s₀ s s'
    alike room inner reached entered hpos caps same
  obtain rfl := reordering_place.mp hpos
  obtain ⟨lexicon, lexicon'⟩ := reordering_same.mp same
  rw [Likeness.moved_still rfl]
  cases hx : firsts env active pos' captured depth branches s with
  | error f t => exact .lost trivial
  | ok found t =>
    cases hy : firsts env active pos' captured' depth branches' s' with
    | error f t' => exact .lost' trivial
    | ok found' t' =>
      have later := (firsts_lexicon off active pos' captured depth branches s).ok hx
      have later' := (firsts_lexicon off active pos' captured' depth branches' s').ok hy
      refine .ok ?_ (reordering_same.mpr ⟨later.trans lexicon, later'.trans lexicon'⟩)
      have answered := (mapM_tried hy).imp fun p a tried => by
        obtain ⟨before, after, done, u, u', _, earlier, last⟩ := tried
        have here : u.lexicon = x' :=
          ((firsts_lexicon off active pos' captured' depth before s').ok earlier).trans lexicon'
        exact (⟨u, u', here, last⟩ : ∃ u u', u.lexicon = x' ∧ firstOf env active none
          ⟨[.part p (depth + 1)], pos', captured'⟩ u = .ok a u')
      cases alike with
      | alternation _ pairs =>
        exact Correspondence.longestFirst_pairs reordering_order
          (reordering_firsts off leads room inner reached entered caps lexicon pairs hx answered)
      | permuted pairs here perm =>
        obtain ⟨found'', answered, perm'⟩ := List.perm_comp_forall₂ perm answered
        have alike :=
          reordering_firsts off leads room inner reached entered caps lexicon pairs hx answered
        refine longestFirst_reordered alike perm' fun hu => ?_
        have noTies := decided hu _ reached _ _ _ _ _ _ rfl here
        have before : s.lexicon = s₀.lexicon :=
          ((Run.enter_spec (Basis.of env s₀.lexicon) depth pos').ok entered).1.lexicon
        exact tieless_of_noTies off noTies before hx

end Reordering

/-! ## 5. The whole search -/

theorem reordering_layer {chosen : List Pattern → Prop} {x x' : Lexicon} {untied : Prop}
    (space : x'.space = x.space) {p p' : Pattern} (h : p.Shuffled chosen p') :
    (reordering chosen x x' untied).Layer p p' := by
  cases h with
  | literal chars ignoreCase => exact .literal chars ignoreCase
  | charClass items negated ignoreCase => exact .charClass items negated ignoreCase
  | sequence h => exact .sequence h
  | alternation mode h =>
    cases mode with
    | ordered => exact .ordered h
    | longest => exact .longest _ _
  | permuted h here perm => exact .longest _ _
  | repetition q h => exact .repetition q h
  | group key plural h => exact .group key plural h
  | look kind h => exact .look kind h fun _ => ⟨rfl, h.width⟩
  | anchor kind => exact .anchor kind rfl
  | ruleRef r => exact .ruleRef trivial
  | whitespace => exact .whitespace rfl space fun _ => trivial

/-- **The search with branches in another order is parallel**, as far as it goes. -/
theorem reordering_parallel {chosen : List Pattern → Prop} {x x' : Lexicon}
    (shuffled : x.Shuffled chosen x') (text : Text) {settings : Settings}
    (off : settings.memoize = false) (untied : Prop) {R : Moment → Prop}
    (leads : ∀ m m', R m → Leads ⟨text, {}, settings⟩ m m' → R m')
    (decided : untied → ∀ m, R m → Decided ⟨text, {}, settings⟩ chosen m) :
    Parallel ⟨text, {}, settings⟩ ⟨text, {}, settings⟩ R (reordering chosen x x' untied) where
  text := ⟨#[], rfl, Array.empty_append.symm⟩
  actions := rfl
  actions' := rfl
  memoize := off
  memoize' := off
  maxDepth := rfl
  full full room := absurd room full
  full' room full := absurd room full
  leads := leads _ _
  nil _ := rfl
  cons hc ho tied := by rw [hc tied, ho tied]
  single h tied := by
    cases h tied
    rfl
  build ho hs h tied := by rw [reordering_place.mp ho, reordering_place.mp hs, h tied]
  node := by
    intro rule rule' opened opened' stop stop' captured captured' hr ho hs h tied
    unfold node Rule.plural
    rw [reordering_place.mp ho, reordering_place.mp hs, h tied, hr.name, hr.pattern.pluralKeys]
  rules := by
    intro name _
    show Likeness.answers _ (x.rules name) (x'.rules name)
    cases known : x.rules name with
    | error f =>
      rw [shuffled.unknown name f known]
      exact .unknown f
    | ok rule =>
      obtain ⟨rule', known', hr⟩ := shuffled.known name rule known
      rw [known']
      exact .known hr
  kind hr := ⟨hr.name, hr.kind⟩
  layer := reordering_layer shuffled.space
  pattern hr _ := hr.pattern
  compete := reordering_compete off leads decided
  delve := Likeness.delve_pairs (fun _ => rfl) leads fun _ _ hr => hr.pattern

/-- What is seen of agendas that belong together ends at the same places, if it comes to an
    end. -/
theorem enumerates_ends {env : Env} {L : Likeness} (P : Parallel env env (fun _ => True) L)
    (still : L.shift = 0) {active : Active} {agenda agenda' : Agenda} {s s' : State}
    {y y' : Answers Solution} (alike : List.Forall₂ L.thread agenda agenda') (same : L.same s s')
    (seen : Enumerates env active agenda s y) (seen' : Enumerates env active agenda' s' y')
    (ends : y.Ends) (ends' : y'.Ends) :
    y'.toList.map Solution.stop = y.toList.map Solution.stop := by
  have pace {agenda agenda' : Agenda} {s s' : State}
      (alike : List.Forall₂ L.thread agenda agenda') (same : L.same s s') :
      L.Pace (Option.Rel fun r r' => L.solution r.1 r'.1 ∧ List.Forall₂ L.thread r.2 r'.2)
        (seek env active none agenda s) (seek env active none agenda' s') := by
    have both : L.Pace _ (seek env active none agenda s)
        (seek env (L.moved active) (L.aim none) agenda' s') := P.seek trivial alike same
    rwa [Likeness.moved_still still] at both
  induction seen generalizing agenda' s' y' with
  | done h =>
    cases seen' with
    | done h' => rfl
    | failed h' => exact absurd ends' id
    | found h' later' =>
      have both := pace alike same
      rw [h, h'] at both
      cases both with
      | ok both _ => cases both
  | failed h => exact absurd ends id
  | found h later ih =>
    cases seen' with
    | done h' =>
      have both := pace alike same
      rw [h, h'] at both
      cases both with
      | ok both _ => cases both
    | failed h' => exact absurd ends' id
    | found h' later' =>
      have both := pace alike same
      rw [h, h'] at both
      cases both with
      | ok both same' =>
        cases both with
        | some both =>
          have stop := (Likeness.place_still still).mp both.1.stop
          exact congrArg₂ List.cons stop (ih both.2 same' later' ends ends')

end Match

/-! ## 6. Every way to ask -/

section Asking

variable (chosen : List Pattern → Prop)

/-- The same query, but for the order of competing branches. -/
inductive Query.Shuffled : Query → Query → Prop
  | pattern {p p' : Pattern} (h : p.Shuffled chosen p') : Shuffled (.pattern p) (.pattern p')
  | rule (name : String) (anchored : Bool) : Shuffled (.rule name anchored) (.rule name anchored)

/-- Nothing ties in the search for a query. -/
def Query.Untied (text : Text) (registry : Option Registry) (settings : Settings) (q : Query)
    (pos : Int) : Prop :=
  ∀ m, Reaches ⟨text, {}, settings⟩ (q.moment text registry pos) m →
    Decided ⟨text, {}, settings⟩ chosen m

/-- The start of the search for a task, by a matcher that has looked up the rule to begin with. -/
def Grammar.Task.moment (t : Grammar.Task) (anchored : Bool) (pos : Int) (s : State) : Moment :=
  ⟨[], (Query.rule t.start anchored).target t.text,
    [⟨[(Query.rule t.start anchored).goal], pos, []⟩], s⟩

/-- Nothing ties in the search for a task. -/
def Grammar.Task.Untied (r : Registry) (t : Grammar.Task) (anchored : Bool) (pos : Int) : Prop :=
  ∀ rule s, Run.lookup t.start { registry := some r } = .ok rule s →
    ∀ m, Reaches ⟨t.text, t.actions, t.settings⟩ (t.moment anchored pos s) m →
      Decided ⟨t.text, t.actions, t.settings⟩ chosen m

variable {chosen}

/-- What is found, if neither search is given up, ends at the same place, and is the same if
    nothing ties. -/
structure SameFound (untied : Prop) (r r' : Option Found) : Prop where
  stop : r'.map Found.stop = r.map Found.stop
  same : untied → r' = r

variable {x x' : Lexicon} {untied : Prop}

theorem sameFound_of {r r' : Option Found}
    (h : Option.Rel (reordering chosen x x' untied).found r r') : SameFound untied r r' := by
  cases h with
  | none => exact ⟨rfl, fun _ => rfl⟩
  | @some u u' h =>
    obtain ⟨stop, capture⟩ := u
    obtain ⟨stop', capture'⟩ := u'
    obtain rfl := reordering_place.mp h.stop
    exact ⟨rfl, fun tied => congrArg (fun c => some (Found.mk stop' c)) (h.capture tied)⟩

/-- Outcomes that are given up by neither search. -/
theorem outcome_ok {α α' : Type} {A : α → α' → Prop} {o : Except Failure α}
    {o' : Except Failure α'} {a : α} {a' : α'} (h : (reordering chosen x x' untied).outcome A o o')
    (ho : o = .ok a) (ho' : o' = .ok a') : A a a' := by
  subst ho
  subst ho'
  cases h with
  | ok h => exact h

section Questions

variable {registry registry' : Option Registry}
  (shuffled : (Lexicon.of registry).Shuffled chosen (Lexicon.of registry')) {settings : Settings}
  (off : settings.memoize = false)

include shuffled off

/-- **A query comes to the same ends, whatever the order of competing branches.** -/
theorem ask_shuffled (text : Text) {q q' : Query} (hq : q.Shuffled chosen q') (pos : Int)
    {r r' : Option Found} (h : ((Matcher.start text registry {} settings).ask q pos).1 = .ok r)
    (h' : ((Matcher.start text registry' {} settings).ask q' pos).1 = .ok r') :
    SameFound (q.Untied chosen text registry settings pos) r r' := by
  let start := q.moment text registry pos
  let untied := q.Untied chosen text registry settings pos
  have parallel := reordering_parallel shuffled text off untied
    (R := Reaches ⟨text, {}, settings⟩ start) (fun _ _ reached next => reached.tail next)
    fun tied => tied
  have query : (reordering chosen (.of registry) (.of registry') untied).query q q' := by
    cases hq with
    | pattern part => exact .pattern part part.pluralKeys
    | rule name anchored => exact .rule trivial anchored
  have pace := parallel.query query .refl (reordering_place.mpr (rfl : pos = pos))
    (Likeness.same_start rfl rfl) (sound_start text registry) (sound_start text registry')
  exact sameFound_of (outcome_ok pace.advance h h')

end Questions

section Tasks

variable {r r' : Registry}
  (shuffled : (Lexicon.of (some r)).Shuffled chosen (Lexicon.of (some r'))) {settings : Settings}
  (off : settings.memoize = false) (text : Text) (name : String)

include shuffled off

/-- A rule that is looked up first comes to the same ends. -/
theorem task_shuffled (anchored : Bool) (pos : Int) :
    (reordering chosen (.of (some r)) (.of (some r'))
      (Grammar.Task.Untied chosen r ⟨text, name, {}, settings⟩ anchored pos)).Pace
      (Option.Rel (reordering chosen (.of (some r)) (.of (some r'))
        (Grammar.Task.Untied chosen r ⟨text, name, {}, settings⟩ anchored pos)).found)
      ((do Grammar.Task.check ⟨text, name, {}, settings⟩
           Matcher.runRule ⟨text, {}, settings⟩ name pos anchored) { registry := some r })
      ((do Grammar.Task.check ⟨text, name, {}, settings⟩
           Matcher.runRule ⟨text, {}, settings⟩ name pos anchored) { registry := some r' }) := by
  let task : Grammar.Task := ⟨text, name, {}, settings⟩
  have parallel := reordering_parallel shuffled text off (task.Untied chosen r anchored pos)
    (R := fun m => ∃ rule s, Run.lookup name { registry := some r } = .ok rule s ∧
      Reaches ⟨text, {}, settings⟩ (task.moment anchored pos s) m)
    (fun _ _ ⟨rule, s, known, reached⟩ next => ⟨rule, s, known, reached.tail next⟩)
    fun tied m ⟨rule, s, known, reached⟩ => tied rule s known m reached
  exact parallel.checked (rfl : task.start = task.start) trivial anchored
    (fun rule s known => ⟨rule, s, known, .refl⟩) (reordering_place.mpr rfl)
    (Likeness.same_start rfl rfl) (sound_start text (some r)) (sound_start text (some r'))

/-- A partial parse begins at a position of the text. -/
theorem subparse_shuffled (pos : Int) {found found' : Option Found}
    (h : (Grammar.subparse r ⟨text, name, {}, settings⟩ pos).1 = .ok found)
    (h' : (Grammar.subparse r' ⟨text, name, {}, settings⟩ pos).1 = .ok found') :
    SameFound (Grammar.Task.Untied chosen r ⟨text, name, {}, settings⟩ false pos) found found' := by
  unfold Grammar.subparse at h h'
  cases here : Cursor.at text pos with
  | error f =>
    simp only [here] at h
    cases h
  | ok cursor =>
    simp only [here] at h h'
    exact sameFound_of (outcome_ok (task_shuffled shuffled off text name false pos).advance h h')

theorem parse_shuffled {tree tree' : Option Capture}
    (h : (Grammar.parse r ⟨text, name, {}, settings⟩).1 = .ok tree)
    (h' : (Grammar.parse r' ⟨text, name, {}, settings⟩).1 = .ok tree') :
    tree'.map (·.label.stop) = tree.map (·.label.stop) ∧
      (Grammar.Task.Untied chosen r ⟨text, name, {}, settings⟩ true 0 → tree' = tree) := by
  let untied := Grammar.Task.Untied chosen r ⟨text, name, {}, settings⟩ true 0
  have covers {r : Registry} {c : Capture}
      (h : (Grammar.parse r ⟨text, name, {}, settings⟩).1 = .ok (some c)) :
      c.label.stop = text.stop := (parse_covers r ⟨text, name, {}, settings⟩ h).stop
  let A : Option Capture → Option Capture → Prop := Option.Rel fun c c' => untied → c' = c
  have trees : A tree tree' := by
    have pace := task_shuffled shuffled off text name true 0
    have whole := Likeness.pace_bind (B := A) (k := fun found => pure (found.map Found.capture))
      (l := fun found => pure (found.map Found.capture)) pace fun found found' t t' h later _ _ =>
        Likeness.pace_pure (L := reordering chosen (.of (some r)) (.of (some r')) untied) ?_ later
    · rw [bind_assoc] at whole
      exact outcome_ok whole.advance h h'
    · cases h with
      | none => exact .none
      | some h => exact .some h.capture
  cases trees with
  | none => exact ⟨rfl, fun _ => rfl⟩
  | @some c c' same =>
    refine ⟨?_, fun tied => congrArg some (same tied)⟩
    show some c'.label.stop = some c.label.stop
    rw [covers h, covers h']

end Tasks

/-- What does not depend on the order of competing branches: where a pattern and where a rule end,
    one solution after the other, and what every way to ask finds, but for ties. -/
structure OrderFree (chosen : List Pattern → Prop) (text : Text) (settings : Settings)
    (registry registry' : Option Registry) : Prop where
  patterns {p p'} (hp : p.Shuffled chosen p') {active depth pos captured s s' y y'}
    (lexicon : s.lexicon = .of registry) (lexicon' : s'.lexicon = .of registry')
    (seen : Enumerates ⟨text, {}, settings⟩ active [⟨[.part p depth], pos, captured⟩] s y)
    (seen' : Enumerates ⟨text, {}, settings⟩ active [⟨[.part p' depth], pos, captured⟩] s' y')
    (ends : y.Ends) (ends' : y'.Ends) :
    y'.toList.map Solution.stop = y.toList.map Solution.stop
  rules {name key active depth pos captured s s' y y'}
    (lexicon : s.lexicon = .of registry) (lexicon' : s'.lexicon = .of registry')
    (seen : Enumerates ⟨text, {}, settings⟩ active [⟨[.call name key depth], pos, captured⟩] s y)
    (seen' : Enumerates ⟨text, {}, settings⟩ active [⟨[.call name key depth], pos, captured⟩] s' y')
    (ends : y.Ends) (ends' : y'.Ends) :
    y'.toList.map Solution.stop = y.toList.map Solution.stop
  asked {q q'} (hq : q.Shuffled chosen q') {pos r r'}
    (h : ((Matcher.start text registry {} settings).ask q pos).1 = .ok r)
    (h' : ((Matcher.start text registry' {} settings).ask q' pos).1 = .ok r') :
    SameFound (q.Untied chosen text registry settings pos) r r'
  parsed {r r' name tree tree'} (hr : registry = some r) (hr' : registry' = some r')
    (h : (Grammar.parse r ⟨text, name, {}, settings⟩).1 = .ok tree)
    (h' : (Grammar.parse r' ⟨text, name, {}, settings⟩).1 = .ok tree') :
    tree'.map (·.label.stop) = tree.map (·.label.stop) ∧
      (Grammar.Task.Untied chosen r ⟨text, name, {}, settings⟩ true 0 → tree' = tree)
  subparsed {r r' name pos found found'} (hr : registry = some r) (hr' : registry' = some r')
    (h : (Grammar.subparse r ⟨text, name, {}, settings⟩ pos).1 = .ok found)
    (h' : (Grammar.subparse r' ⟨text, name, {}, settings⟩ pos).1 = .ok found') :
    SameFound (Grammar.Task.Untied chosen r ⟨text, name, {}, settings⟩ false pos) found found'

/-- **The order of competing branches decides only ties.** Without kept results and without
    callbacks, whatever alternations that prefer the longest change the order of their branches,
    in a pattern and in rules: what is seen of a pattern or of a rule ends at the same places in
    the same order, and every way to ask finds a match that ends at the same place, or none, unless
    it is given up. Where no two branches tie in the search, it finds the same capture. -/
theorem shuffling_decides_ties {registry registry' : Option Registry}
    (shuffled : (Lexicon.of registry).Shuffled chosen (Lexicon.of registry')) (text : Text)
    {settings : Settings} (off : settings.memoize = false) :
    OrderFree chosen text settings registry registry' := by
  have parallel := reordering_parallel shuffled text off False (R := fun _ => True)
    (fun _ _ _ _ => trivial) fun tied => tied.elim
  have start {g g' : Goal} {pos : Int} {captured : Captured}
      (goal : (reordering chosen (.of registry) (.of registry') False).goal g g') :
      List.Forall₂ (reordering chosen (.of registry) (.of registry') False).thread
        [⟨[g], pos, captured⟩] [⟨[g'], pos, captured⟩] :=
    .cons ⟨.cons goal .nil, reordering_place.mpr rfl, fun _ => rfl⟩ .nil
  constructor
  case patterns =>
    intro p p' part active depth pos captured s s' y y' lexicon lexicon' seen seen' ends ends'
    exact enumerates_ends parallel rfl (start (.part part))
      (reordering_same.mpr ⟨lexicon, lexicon'⟩) seen seen' ends ends'
  case rules =>
    intro name key active depth pos captured s s' y y' lexicon lexicon' seen seen' ends ends'
    exact enumerates_ends parallel rfl (start (.call trivial))
      (reordering_same.mpr ⟨lexicon, lexicon'⟩) seen seen' ends ends'
  case asked => exact fun hq _ _ _ h h' => ask_shuffled shuffled off text hq _ h h'
  case parsed =>
    rintro r r' name tree tree' rfl rfl h h'
    exact parse_shuffled shuffled off text name h h'
  case subparsed =>
    rintro r r' name pos found found' rfl rfl h h'
    exact subparse_shuffled shuffled off text name pos h h'

end Asking

/-- Two letters or one of them, the shorter branch first. -/
def letterContest : List Pattern := [.literal ['a'] false, .literal ['a', 'b'] false]

/-- In either order both letters are found first, and then the one. -/
theorem shuffling_decides_ties_letters :
    let env : Env := ⟨#['a', 'b'], {}, ⟨none, false, 4000⟩⟩
    let seen : Answers Solution := .found ⟨2, []⟩ (.found ⟨1, []⟩ .done)
    (Lexicon.of none).Shuffled (· = letterContest) (Lexicon.of none) ∧
      env.settings.memoize = false ∧
      (Pattern.alternation .longest letterContest).Shuffled (· = letterContest)
        (.alternation .longest letterContest.reverse) ∧
      Enumerates env [] [⟨[.part (.alternation .longest letterContest) 1], 0, []⟩]
        { registry := none } seen ∧
      Enumerates env [] [⟨[.part (.alternation .longest letterContest.reverse) 1], 0, []⟩]
        { registry := none } seen ∧
      OrderFree (· = letterContest) env.text env.settings none none := by
  have rules : (Lexicon.of none).Shuffled (· = letterContest) (Lexicon.of none) :=
    ⟨rfl, fun _ _ h => (by cases h), fun _ _ h => h⟩
  have part : (Pattern.alternation .longest letterContest).Shuffled (· = letterContest)
      (.alternation .longest letterContest.reverse) :=
    .permuted (Pattern.shuffled_all _) rfl (List.reverse_perm _).symm
  have sorted : longestFirst [some ⟨2, []⟩, some ⟨1, []⟩] = [⟨2, []⟩, ⟨1, []⟩] :=
    List.mergeSort_of_pairwise (by decide)
  have swapped : longestFirst [some ⟨1, []⟩, some ⟨2, []⟩] = [⟨2, []⟩, ⟨1, []⟩] := by
    rw [← sorted]
    exact longestFirst_tieless (by simp) (List.Perm.swap ..)
  refine ⟨rules, rfl, part, (enumerates_goal rfl).mpr ?_, (enumerates_goal rfl).mpr ?_,
    shuffling_decides_ties rules _ rfl⟩
  · exact (congrArg Answers.ofList swapped).symm
  · exact (congrArg Answers.ofList sorted).symm

end GrammarMatch
