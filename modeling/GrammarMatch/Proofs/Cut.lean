/-
  File:      GrammarMatch/Proofs/Cut.lean
  Subject:   Plain recursion in a tighter place.

  Plain recursion gives up where a limit on nesting is reached, where there are no levels left,
  and, on a strict basis, where an atomic rule is already being matched. With fewer calls active,
  more levels and no limit it gives up later, and up to there it answers the same: the answers in
  the tighter place are those in the wider one, cut short by such a failure (`eval_cut`).
-/
import GrammarMatch.Proofs.Plain

namespace GrammarMatch.Match

section Cut

variable (F : Failure → Prop) {α β : Type}

/-- Answers that agree with others up to a failure of a kind, after which anything may follow in
    the others. -/
inductive Cut : Answers α → Answers α → Prop
  | here {f : Failure} {y : Answers α} (h : F f) : Cut (.failed f) y
  | done : Cut .done .done
  | failed {f : Failure} : Cut (.failed f) (.failed f)
  | found {a : α} {x y : Answers α} (h : Cut x y) : Cut (.found a x) (.found a y)

/-- An outcome that agrees with another one unless it is a failure of a kind. -/
def CutOutcome (v v' : Except Failure β) : Prop := v = v' ∨ ∃ f, v = .error f ∧ F f

variable {F}

/-! ## 1. Operations on answers -/

theorem Cut.refl (x : Answers α) : Cut F x x := by
  induction x with
  | done => exact .done
  | failed f => exact .failed
  | found a x ih => exact .found ih

theorem Cut.append {x y x' y' : Answers α} (h : Cut F x y) (h' : Cut F x' y') :
    Cut F (x ++ x') (y ++ y') := by
  induction h with
  | here h => exact .here h
  | done => exact h'
  | failed => exact .failed
  | found _ ih => exact .found ih

theorem Cut.bind {x y : Answers α} {k m : α → Answers β} (h : Cut F x y)
    (hk : ∀ a, Cut F (k a) (m a)) : Cut F (x.bind k) (y.bind m) := by
  induction h with
  | here h => exact .here h
  | done => exact .done
  | failed => exact .failed
  | found _ ih => exact (hk _).append ih

theorem Cut.attempt {v v' : Except Failure β} {k m : β → Answers α} (h : CutOutcome F v v')
    (hk : ∀ b, Cut F (k b) (m b)) : Cut F (.attempt v k) (.attempt v' m) := by
  rcases h with rfl | ⟨f, rfl, hf⟩
  · cases v with
    | ok b => exact hk b
    | error f => exact .failed
  · exact .here hf

theorem Cut.first {x y : Answers α} (h : Cut F x y) : CutOutcome F x.first y.first := by
  cases h with
  | here h => exact .inr ⟨_, rfl, h⟩
  | done => exact .inl rfl
  | failed => exact .inl rfl
  | found _ => exact .inl rfl

theorem Cut.filter {x y : Answers α} (h : Cut F x y) (p : α → Bool) :
    Cut F (x.filter p) (y.filter p) := h.bind fun _ => .refl _

theorem Cut.concat {γ : Type} {k m : γ → Answers α} (h : ∀ c, Cut F (k c) (m c)) (l : List γ) :
    Cut F (.concat (l.map k)) (.concat (l.map m)) := by
  induction l with
  | nil => exact .done
  | cons c l ih => exact (h c).append ih

theorem Cut.chain {γ : Type} {k m : γ → α → Answers α} (h : ∀ c a, Cut F (k c a) (m c a))
    (l : List γ) (a : α) : Cut F (.chain (l.map k) a) (.chain (l.map m) a) := by
  induction l generalizing a with
  | nil => exact .refl _
  | cons c l ih => exact (h c a).bind ih

theorem CutOutcome.refl (v : Except Failure β) : CutOutcome F v v := .inl rfl

theorem CutOutcome.eq_ok {v v' : Except Failure β} (h : CutOutcome F v v') {b : β}
    (hv : v = .ok b) : v' = .ok b := by
  rcases h with h | ⟨f, h, _⟩
  · rw [← h, hv]
  · rw [hv] at h
    cases h

theorem CutOutcome.bind {v v' : Except Failure α} {k m : α → Except Failure β}
    (h : CutOutcome F v v') (hk : ∀ a, CutOutcome F (k a) (m a)) :
    CutOutcome F (v.bind k) (v'.bind m) := by
  rcases h with rfl | ⟨f, rfl, hf⟩
  · cases v with
    | ok a => exact hk a
    | error f => exact .inl rfl
  · exact .inr ⟨f, rfl, hf⟩

theorem CutOutcome.mapM {γ : Type} {k m : γ → Except Failure α}
    (h : ∀ c, CutOutcome F (k c) (m c)) (l : List γ) :
    CutOutcome F (l.mapM k) (l.mapM m) := by
  induction l with
  | nil => exact .inl rfl
  | cons c l ih =>
    rw [List.mapM_cons, List.mapM_cons]
    exact (h c).bind fun a => ih.bind fun l' => .refl _

/-! ## 2. Parts -/

theorem rounds_cut {q : Quantity} {k m : Solution → Answers Solution}
    (h : ∀ s, Cut F (k s) (m s)) (left count : Nat) (s : Solution) :
    Cut F (rounds q k left count s) (rounds q m left count s) := by
  induction left generalizing count s with
  | zero => exact .done
  | succ left ih =>
    have further : Cut F
        ((k s).bind fun t =>
          if t.stop = s.stop then .just t else rounds q k left (count + 1) t)
        ((m s).bind fun t =>
          if t.stop = s.stop then .just t else rounds q m left (count + 1) t) := by
      refine (h s).bind fun t => ?_
      by_cases width : t.stop = s.stop
      · rw [if_pos width, if_pos width]
        exact .refl _
      · rw [if_neg width, if_neg width]
        exact ih (count + 1) t
    unfold rounds
    by_cases more : q.mayGoOn count = true
    · rw [if_pos more, if_pos more]
      exact ((Cut.refl _).append further).append (.refl _)
    · rw [if_neg more, if_neg more]
      exact .refl _

theorem retreat_cut {k m : Solution → Answers Solution} (h : ∀ s, Cut F (k s) (m s)) (left : Nat)
    (s : Solution) : Cut F (Basis.retreat k left s) (Basis.retreat m left s) := by
  induction left generalizing s with
  | zero => exact .done
  | succ left ih => exact (h s).append (ih _)

variable (F) in
/-- Whatever is answered one level deeper is cut short, if no fewer calls are active. -/
def Inner.Cuts (inner inner' : Inner) : Prop :=
  ∀ active active' p s, active' ⊆ active → Cut F (inner active p s) (inner' active' p s)

section Parts

variable {w : Basis} {inner inner' : Inner} {active active' : Active}

theorem verdict_cut (again : ∃ f, w.again = .error f ∧ F f) (hi : inner.Cuts F inner')
    (sub : active' ⊆ active) (rule : Rule) (pos : Int) :
    CutOutcome F (w.verdict inner active rule pos) (w.verdict inner' active' rule pos) := by
  unfold Basis.verdict
  by_cases entered : active.contains (rule.name, pos) = true
  · rw [if_pos entered]
    exact .inr again
  · have entered' : ¬active'.contains (rule.name, pos) = true := by
      intro h
      exact entered (List.contains_iff_mem.mpr (sub (List.contains_iff_mem.mp h)))
    rw [if_neg entered, if_neg entered']
    have body := hi _ _ rule.pattern ⟨pos, []⟩ (List.cons_subset_cons (rule.name, pos) sub)
    exact body.first.bind fun found => .refl _

theorem call_cut (again : ∃ f, w.again = .error f ∧ F f) (hi : inner.Cuts F inner')
    (sub : active' ⊆ active) (name : String) (key : Option CaptureKey) (s : Solution) :
    Cut F (w.call inner active name key s) (w.call inner' active' name key s) := by
  unfold Basis.call
  refine Cut.attempt (.refl _) fun rule => ?_
  by_cases atomic : rule.kind.atomic = true
  · rw [if_pos atomic, if_pos atomic]
    exact Cut.attempt (verdict_cut again hi sub rule s.stop) fun v => .refl _
  · rw [if_neg atomic, if_neg atomic]
    exact (hi _ _ rule.pattern ⟨s.stop, []⟩ sub).bind fun t => .refl _

theorem looked_cut (hi : inner.Cuts F inner') (sub : active' ⊆ active) (kind : LookKind)
    (body : Pattern) (pos : Int) :
    CutOutcome F (Basis.looked inner active kind body pos)
      (Basis.looked inner' active' kind body pos) := by
  unfold Basis.looked
  by_cases backward : kind.backward = true
  · rw [if_pos backward, if_pos backward]
    exact ((retreat_cut (fun s => hi _ _ body s sub) _ _).filter _).first
  · rw [if_neg backward, if_neg backward]
    exact (hi _ _ body ⟨pos, []⟩ sub).first

theorem part_cut (again : ∃ f, w.again = .error f ∧ F f) (hi : inner.Cuts F inner')
    (sub : active' ⊆ active) (s : Solution) (p : Pattern) :
    Cut F (w.part inner active s p) (w.part inner' active' s p) := by
  cases p with
  | literal chars ignoreCase => exact .refl _
  | charClass items negated ignoreCase => exact .refl _
  | sequence parts => exact Cut.chain (fun p s => hi _ _ p s sub) parts s
  | alternation mode branches =>
    cases mode with
    | ordered => exact Cut.concat (fun p => hi _ _ p s sub) branches
    | longest =>
      exact Cut.attempt (CutOutcome.mapM (fun p => (hi _ _ p s sub).first) branches)
        fun found => .refl _
  | repetition q body => exact rounds_cut (fun s => hi _ _ body s sub) _ _ _
  | group key plural body =>
    cases key with
    | none => exact hi _ _ body s sub
    | some key => exact (hi _ _ body ⟨s.stop, []⟩ sub).bind fun t => .refl _
  | look kind body => exact Cut.attempt (looked_cut hi sub kind body s.stop) fun found => .refl _
  | anchor kind => exact .refl _
  | ruleRef r => exact call_cut again hi sub r.name r.key? s
  | whitespace =>
    unfold Basis.part
    by_cases own : w.lexicon.space = true
    · rw [if_pos own, if_pos own]
      exact call_cut again hi sub "ws" none s
    · rw [if_neg own, if_neg own]
      exact .refl _

end Parts

end Cut

/-! ## 3. All levels -/

/-- The same basis under other settings. -/
def Basis.under (w : Basis) (settings : Settings) : Basis :=
  { w with env := { w.env with settings } }

/-- One level of plain recursion does not depend on the settings. -/
theorem part_under (w : Basis) (settings : Settings) (inner : Inner) (active : Active)
    (s : Solution) (p : Pattern) :
    (w.under settings).part inner active s p = w.part inner active s p := rfl

/-- Of the settings only the limit on nesting matters to plain recursion. -/
theorem eval_under (w : Basis) {settings : Settings}
    (same : settings.maxDepth = w.env.settings.maxDepth) (levels depth : Nat) :
    (w.under settings).eval levels depth = w.eval levels depth := by
  have entry (depth : Nat) (pos : Int) :
      (w.under settings).entry depth pos = w.entry depth pos := by
    unfold Basis.entry
    rw [← same]
    rfl
  induction levels generalizing depth with
  | zero =>
    funext active p s
    unfold Basis.eval
    rw [entry]
  | succ levels ih =>
    funext active p s
    unfold Basis.eval
    rw [entry, ih]
    rfl

section Levels

variable {F : Failure → Prop} {w : Basis} {settings : Settings}

theorem entry_open (unlimited : w.env.settings.maxDepth = none) (depth : Nat) (pos : Int) :
    w.entry depth pos = .ok () := by
  unfold Basis.entry
  rw [unlimited]

theorem entry_cut (limit : w.env.settings.maxDepth = none ∨ ∀ depth pos, F (.depthLimit depth pos))
    (depth : Nat) (pos : Int) : CutOutcome F (w.entry depth pos) (.ok ()) := by
  rcases limit with unlimited | limit
  · rw [entry_open unlimited]
    exact .refl _
  · unfold Basis.entry
    cases w.env.settings.maxDepth with
    | none => exact .refl _
    | some bound =>
      by_cases deep : bound < depth
      · simp only [if_pos deep]
        exact .inr ⟨_, rfl, limit depth pos⟩
      · simp only [if_neg deep]
        exact .refl _

/-- **In a tighter place plain recursion is cut short**: with fewer levels, more calls active or
    a limit on nesting. -/
theorem eval_cut (again : ∃ f, w.again = .error f ∧ F f) (exhausted : F .stackExhausted)
    (limit : w.env.settings.maxDepth = none ∨ ∀ depth pos, F (.depthLimit depth pos))
    (unlimited : settings.maxDepth = none) {levels levels' : Nat} (le : levels ≤ levels')
    (depth depth' : Nat) :
    Inner.Cuts F (w.eval levels depth) ((w.under settings).eval levels' depth') := by
  induction levels generalizing levels' depth depth' with
  | zero =>
    intro active active' p s _
    show Cut F (.attempt (w.entry depth s.stop) fun _ => .failed .stackExhausted) _
    rcases entry_cut limit depth s.stop with h | ⟨f, h, hf⟩
    · rw [h]
      exact .here exhausted
    · rw [h]
      exact .here hf
  | succ levels ih =>
    obtain ⟨levels', rfl⟩ : ∃ n, levels' = n + 1 := ⟨levels' - 1, by omega⟩
    intro active active' p s sub
    have entry : CutOutcome F (w.entry depth s.stop) ((w.under settings).entry depth' s.stop) := by
      rw [entry_open (w := w.under settings) unlimited]
      exact entry_cut limit depth s.stop
    refine Cut.attempt entry fun _ => ?_
    exact part_cut again (ih (by omega) (depth + 1) (depth' + 1)) sub s p

end Levels

end GrammarMatch.Match
