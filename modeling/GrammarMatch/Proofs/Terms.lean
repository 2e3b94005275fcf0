/-
  File:      GrammarMatch/Proofs/Terms.lean
  Subject:   On which terms the search and plain recursion agree.

  A kept result is taken as it is, so the search agrees with plain recursion only if what was
  kept is right. `Terms` says which kept results are right, and at which failures of plain
  recursion the search may have gone on differently: a rule that plain recursion gave up on may
  have been answered from a kept result. Everything else agrees, and what agrees step by step
  agrees as a whole (`computes_bind`).
-/
import GrammarMatch.Proofs.Run

namespace GrammarMatch.Match

/-! ## 1. The terms of the comparison -/

/-- On which terms a search is compared with plain recursion. -/
structure Terms (w : Basis) where
  /-- A kept result is right. -/
  valid : String × Int → Verdict → Prop
  /-- Plain recursion failed here, but the search may have gone on. -/
  excuse : Failure → State → Prop
  /-- An excuse remains one. -/
  grows : ∀ {f : Failure} {s s' : State}, s.trace <:+ s'.trace → excuse f s → excuse f s'
  /-- A rule that is already being matched does not match, or plain recursion is excused. -/
  again : w.again = .ok none ∨
    ∃ f, w.again = .error f ∧ ∀ s, s.Reentered → excuse f s
  /-- A right result is the one that plain recursion has, or that is excused. -/
  hit : ∀ {depth active name rule pos v}, w.env.settings.memoize = true →
    w.lexicon.rules name = .ok rule → valid (rule.name, pos) v →
    w.verdict (w.solutions depth) active rule pos = .ok v ∨
      ∃ f, w.verdict (w.solutions depth) active rule pos = .error f ∧ ∀ s, excuse f s
  /-- What plain recursion has is right. -/
  settle : ∀ {depth active name rule pos v}, w.env.settings.memoize = true →
    w.lexicon.rules name = .ok rule →
    w.verdict (w.solutions depth) active rule pos = .ok v → valid (rule.name, pos) v

namespace Terms

variable {w : Basis} (T : Terms w) {α β γ δ : Type}

/-- All kept results are right, and no rule was called where it was being matched, unless that
    is nothing out of the ordinary. -/
structure Kept (s : State) : Prop where
  right : ∀ key v, s.memo[key]? = some v → T.valid key v
  once : w.again = .ok none ∨ ¬s.Reentered

/-- A computation comes to what is expected, as far as a view of its result shows it, unless the
    expected failure is excused. -/
def Computes (x : Run α) (view : α → β) (v : Except Failure β) : Prop :=
  ∀ s, s.lexicon = w.lexicon → x.Ensures s fun o s' => s.Grows s' ∧
    (T.Kept s → (v = o.map view ∧ T.Kept s') ∨ ∃ f, v = .error f ∧ T.excuse f s')

variable {T}

theorem kept_of_steady {s s' : State} (h : s.Steady s') (hs : T.Kept s) : T.Kept s' := by
  constructor
  · rw [h.memo]
    exact hs.right
  · exact hs.once.imp id fun once entered => once (h.once entered)

/-- What a computation comes to after a steady step. -/
theorem Computes.after {x : Run α} {view : α → β} {v : Except Failure β}
    (h : T.Computes x view v) {s s₁ : State} (steady : s.Steady s₁) (hs : s.lexicon = w.lexicon) :
    x.Ensures s₁ fun o s' => s.Grows s' ∧
      (T.Kept s → (v = o.map view ∧ T.Kept s') ∨ ∃ f, v = .error f ∧ T.excuse f s') :=
  (h s₁ (steady.lexicon.trans hs)).mono fun _ _ h₂ =>
    ⟨steady.grows.trans h₂.1, fun hkept => h₂.2 (kept_of_steady steady hkept)⟩

theorem not_again (T : Terms w) (v : Int × Capture) : w.again ≠ .ok (some v) := by
  intro h
  rcases T.again with h' | ⟨f, h', _⟩
  · rw [h] at h'
    cases h'
  · rw [h] at h'
    cases h'

/-- A step that is steady and comes to one thing whatever happened. -/
def Comes (w : Basis) (x : Run α) (v : Except Failure α) : Prop :=
  ∀ s, s.lexicon = w.lexicon → x.Ensures s fun o s' => s.Steady s' ∧ o = v

theorem comes_ofExcept (v : Except Failure α) : Comes w (Run.ofExcept v) v :=
  fun _ _ => Run.ofExcept_spec v

theorem comes_lookup (name : String) : Comes w (Run.lookup name) (w.lexicon.rules name) :=
  fun _ hs => hs ▸ Run.lookup_spec name

theorem comes_enter (depth : Nat) (pos : Int) :
    Comes w (Run.enter w.env depth pos) (w.entry depth pos) := fun _ _ => Run.enter_spec w depth pos

theorem comes_countCall : Comes w Run.countCall (.ok ()) := fun _ _ => Run.countCall_spec

theorem comes_finish (rule : Rule) (start : Int) (t : Solution) :
    Comes w (Run.finish w.env rule start t.stop t.captured) (w.finished rule start t) :=
  fun _ _ => Run.finish_spec w rule start t

theorem comes_definesSpace : Comes w Run.definesSpace (.ok w.lexicon.space) :=
  fun _ hs => hs ▸ Run.definesSpace_spec

theorem computes_pure (a : α) (view : α → β) : T.Computes (pure a) view (.ok (view a)) :=
  fun s _ => ⟨.refl s, fun hk => .inl ⟨rfl, hk⟩⟩

theorem computes_throw (f : Failure) (view : α → β) :
    T.Computes (throw f : Run α) view (.error f) :=
  fun s _ => ⟨.refl s, fun hk => .inl ⟨rfl, hk⟩⟩

/-- One computation after another comes to what is expected of both. The second may count on
    what plain recursion has for the first. -/
theorem computes_bind_of {x : Run α} {k : α → Run γ} {view : α → β} {view' : γ → δ}
    {v : Except Failure β} {m : β → Except Failure δ} (hx : T.Computes x view v)
    (grows : ∀ a s, s.lexicon = w.lexicon → (k a).Ensures s fun _ s' => s.Grows s')
    (hk : ∀ a, v = .ok (view a) → T.Computes (k a) view' (m (view a))) :
    T.Computes (x >>= k) view' (v.bind m) := by
  intro s hs
  rw [Run.ensures_bind]
  refine (hx s hs).mono fun o s₁ h₁ => ?_
  obtain ⟨grows₁, h₁⟩ := h₁
  cases o with
  | error f =>
    refine ⟨grows₁, fun hkept => ?_⟩
    rcases h₁ hkept with ⟨rfl, hkept'⟩ | ⟨f', rfl, excused⟩
    · exact .inl ⟨rfl, hkept'⟩
    · exact .inr ⟨f', rfl, excused⟩
  | ok a =>
    by_cases hv : v = .ok (view a)
    · subst hv
      refine (hk a rfl s₁ (grows₁.lexicon.trans hs)).mono fun o s₂ h₂ => ?_
      obtain ⟨grows₂, h₂⟩ := h₂
      refine ⟨grows₁.trans grows₂, fun hkept => ?_⟩
      rcases h₁ hkept with ⟨_, hkept'⟩ | ⟨f, hf, _⟩
      · exact h₂ hkept'
      · cases hf
    · refine (grows a s₁ (grows₁.lexicon.trans hs)).mono fun o s₂ grows₂ =>
        ⟨grows₁.trans grows₂, fun hkept => ?_⟩
      rcases h₁ hkept with ⟨hv', _⟩ | ⟨f, rfl, excused⟩
      · exact absurd hv' hv
      · exact .inr ⟨f, rfl, T.grows grows₂.trace excused⟩

theorem computes_bind {x : Run α} {k : α → Run γ} {view : α → β} {view' : γ → δ}
    {v : Except Failure β} {m : β → Except Failure δ} (hx : T.Computes x view v)
    (hk : ∀ a, T.Computes (k a) view' (m (view a))) : T.Computes (x >>= k) view' (v.bind m) :=
  computes_bind_of hx (fun a s hs => (hk a s hs).mono fun _ _ h => h.1) fun a _ => hk a

/-- After a step that comes to one thing whatever happened, the rest may count on it. -/
theorem Comes.computes_bind {x : Run α} {k : α → Run γ} {view : γ → δ} {v : Except Failure α}
    {m : α → Except Failure δ} (hx : Comes w x v)
    (hk : ∀ a, v = .ok a → T.Computes (k a) view (m a)) : T.Computes (x >>= k) view (v.bind m) := by
  intro s hs
  rw [Run.ensures_bind]
  refine (hx s hs).mono fun o s₁ h₁ => ?_
  obtain ⟨steady, rfl⟩ := h₁
  cases o with
  | error f => exact ⟨steady.grows, fun hkept => .inl ⟨rfl, kept_of_steady steady hkept⟩⟩
  | ok a => exact (hk a rfl).after steady hs

theorem computes_mapM {x : γ → Run α} {m : γ → Except Failure α} {l : List γ}
    (h : ∀ c ∈ l, T.Computes (x c) id (m c)) : T.Computes (l.mapM x) id (l.mapM m) := by
  induction l with
  | nil =>
    rw [List.mapM_nil, List.mapM_nil]
    exact computes_pure [] id
  | cons c l ih =>
    rw [List.mapM_cons, List.mapM_cons]
    refine computes_bind (h c List.mem_cons_self) fun a => ?_
    refine computes_bind (ih fun d hd => h d (List.mem_cons_of_mem c hd)) fun l' => ?_
    exact computes_pure (a :: l') id

end Terms

end GrammarMatch.Match
