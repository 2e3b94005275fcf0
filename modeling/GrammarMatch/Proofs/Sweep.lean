/-
  File:      GrammarMatch/Proofs/Sweep.lean
  Subject:   Sweeps over a text.

  Finders and grammars go over a text from left to right and ask one matcher at one position after
  the other, so that what it kept at one is there at the next. They go on after a match, or one
  character further where there is none. `sweep` is this loop by itself, over the answers of fresh
  matchers. The loops that run come to it (`findFrom_sweep`, `searchFrom_sweep`, `scanFrom_sweep`),
  as the matcher never answers otherwise than a fresh one (`Steadfast`). So the trees that are
  found lie apart from each other, and nothing could have been found in between
  (`sweeps_exact`).
-/
import GrammarMatch.Proofs.EntryPoints
import GrammarMatch.Proofs.Sharing
import GrammarMatch.Proofs.StaticShape
import GrammarMatch.Proofs.WellNested
import GrammarMatch.Proofs.Widening

namespace GrammarMatch

open Match

/-! ## 1. Sweeps -/

/-- Where a sweep goes on after a capture: behind it, or one character further if it is empty. -/
def Capture.next (c : Capture) : Int := max c.label.stop (c.label.start + 1)

/-- The captures that are found from a position on, before another one. -/
def sweep (look : Int → Option Found) (last pos : Int) : List Capture :=
  if pos < last then
    match look pos with
    | none => sweep look last (pos + 1)
    | some v => v.capture :: sweep look last (max v.stop (pos + 1))
  else []
termination_by (last - pos).toNat
decreasing_by all_goals omega

/-- What is found at a position begins there, and is said to end where it ends. -/
def Placed (look : Int → Option Found) (pos : Int) : Prop :=
  ∀ v, look pos = some v → v.capture.label.start = pos ∧ v.capture.label.stop = v.stop

/-- Captures are all that a sweep can find between two positions: each is what is found where it
    starts, they do not overlap, and nothing is found where none of them is. -/
structure Tiles (look : Int → Option Found) (first last : Int) (trees : List Capture) : Prop where
  matched : ∀ c ∈ trees, first ≤ c.label.start ∧ c.label.start < last ∧
    look c.label.start = some ⟨c.label.stop, c⟩
  apart : trees.Pairwise fun c d => c.next ≤ d.label.start
  skipped : ∀ p, first ≤ p → p < last → (∀ c ∈ trees, p < c.label.start ∨ c.next ≤ p) →
    look p = none

section Sweeps

variable {look : Int → Option Found} {last pos : Int}

/-- **A sweep finds all that it can.** -/
theorem sweep_tiles (placed : ∀ p, pos ≤ p → p < last → Placed look p) :
    Tiles look pos last (sweep look last pos) := by
  fun_induction sweep look last pos with
  | case1 pos more here ih =>
    obtain ⟨matched, apart, skipped⟩ := ih fun p le => placed p (by omega)
    refine ⟨fun c hc => ?_, apart, fun p le lt outside => ?_⟩
    · obtain ⟨le, rest⟩ := matched c hc
      exact ⟨by omega, rest⟩
    · by_cases eq : p = pos
      · rw [eq]
        exact here
      · exact skipped p (by omega) lt outside
  | case2 pos more v here ih =>
    obtain ⟨start, stop⟩ := placed pos (Int.le_refl _) more v here
    have next : v.capture.next = max v.stop (pos + 1) := by rw [Capture.next, start, stop]
    have whole : v = ⟨v.capture.label.stop, v.capture⟩ := by rw [stop]
    obtain ⟨matched, apart, skipped⟩ := ih fun p le => placed p (by omega)
    refine ⟨List.forall_mem_cons.mpr ⟨?_, fun c hc => ?_⟩,
      List.pairwise_cons.mpr ⟨fun d hd => ?_, apart⟩, fun p le lt outside => ?_⟩
    · rw [start]
      exact ⟨Int.le_refl _, more, whole ▸ here⟩
    · obtain ⟨le, rest⟩ := matched c hc
      exact ⟨by omega, rest⟩
    · rw [next]
      exact (matched d hd).1
    · obtain ⟨first, others⟩ := List.forall_mem_cons.mp outside
      rw [start, next] at first
      exact skipped p (by omega) lt others
  | case3 pos done => exact ⟨List.forall_mem_nil _, .nil, fun p le lt => by omega⟩

/-- The first capture of a sweep is the first that could be found. -/
theorem Tiles.first {c : Capture} {trees : List Capture} (h : Tiles look pos last (c :: trees)) :
    ∀ p, pos ≤ p → p < c.label.start → look p = none := by
  intro p le lt
  have here := (h.matched c List.mem_cons_self).2.1
  refine h.skipped p le (by omega) (List.forall_mem_cons.mpr ⟨.inl lt, fun d hd => .inl ?_⟩)
  have after := (List.pairwise_cons.mp h.apart).1 d hd
  unfold Capture.next at after
  omega

end Sweeps

/-! ## 2. Matchers that are asked again and again -/

/-- What a fresh matcher finds. -/
def Query.look (q : Query) (text : Text) (registry : Option Registry) (actions : Actions)
    (settings : Settings) (pos : Int) : Option Found :=
  match ((Matcher.start text registry actions settings).ask q pos).1 with
  | .ok found => found
  | .error _ => none

/-- Something is asked for all over a text, where nothing stands in the way: nesting is not
    limited, no fresh matcher fails, and either nothing is kept or, with room enough, no run
    without kept results enters an atomic rule where it is being matched. -/
structure Query.Untroubled (q : Query) (text : Text) (registry : Option Registry)
    (actions : Actions) (settings : Settings) : Prop where
  unlimited : settings.maxDepth = none
  built : ∀ r ∈ registry, r.Built
  direct : settings.memoize = true → ∃ room, settings.room ≤ room ∧
    ∀ pos, text.Span 0 pos → q.Direct text registry actions { settings with room } pos
  returns : ∀ pos, text.Span 0 pos →
    ∃ found, ((Matcher.start text registry actions settings).ask q pos).1 = .ok found

/-- Room may be short: results are kept, and without them there is not room enough. -/
def Query.Short (q : Query) (text : Text) (registry : Option Registry) (actions : Actions)
    (settings : Settings) : Prop :=
  settings.memoize = true ∧
    ¬∀ pos, text.Span 0 pos → q.Direct text registry actions settings pos

/-- A matcher in a state as required answers as expected and is in such a state again, unless room
    is short and it runs out of it. -/
structure Steadfast (env : Env) (registry : Option Registry) (q : Query)
    (look : Int → Option Found) (short : Prop) (good : State → Prop) : Prop where
  start : good { registry }
  steady : ∀ {s s' : State}, s.Steady s' → good s → good s'
  ask : ∀ {s : State} {pos : Int}, good s → env.text.Span 0 pos →
    (short → (Matcher.ask ⟨env, s⟩ q pos).1 ≠ .error .stackExhausted) →
      (Matcher.ask ⟨env, s⟩ q pos).1 = .ok (look pos) ∧ good (Matcher.ask ⟨env, s⟩ q pos).2.state

section Steadfast

variable {q : Query} {text : Text} {registry : Option Registry} {actions : Actions}
  {settings : Settings}

theorem Query.Untroubled.found (h : q.Untroubled text registry actions settings) {pos : Int}
    (here : text.Span 0 pos) : ((Matcher.start text registry actions settings).ask q pos).1 =
      .ok (q.look text registry actions settings pos) := by
  obtain ⟨found, asked⟩ := h.returns pos here
  unfold Query.look
  rw [asked]

/-- What is found begins where it was asked for. -/
theorem Query.Untroubled.covers (h : q.Untroubled text registry actions settings) {pos : Int}
    (here : text.Span 0 pos) {v : Found}
    (found : q.look text registry actions settings pos = some v) :
    v.capture.Covers text pos v.stop := by
  refine ask_covers text registry actions settings .start q here ?_
  rw [h.found here, found]

namespace Match

variable {w : Basis} (T : Terms w)

/-- Where no answer of plain recursion is excused, a matcher that has kept what is right answers
    so, and has kept what is right again. -/
theorem ask_answers {pos : Int} (inexcusable : ∀ f s, w.answer q pos = .error f → ¬T.excuse f s)
    {s : State} (lexicon : s.lexicon = w.lexicon) (kept : T.Kept s) :
    (Matcher.ask ⟨w.env, s⟩ q pos).1 = w.answer q pos ∧
      (Matcher.ask ⟨w.env, s⟩ q pos).2.state.lexicon = w.lexicon ∧
        T.Kept (Matcher.ask ⟨w.env, s⟩ q pos).2.state := by
  obtain ⟨grows, come⟩ := (Matcher.advance_spec (m := ⟨w.env, s⟩)
    (query_computes T q pos s lexicon)).1
  rcases come kept with ⟨answered, kept'⟩ | ⟨f, failed, excused⟩
  · exact ⟨(answered.trans (congrFun Except.map_id _)).symm, grows.lexicon.trans lexicon, kept'⟩
  · exact absurd excused (inexcusable f _ failed)

/-- Terms on which no answer is excused make a matcher steadfast, in less room too. -/
theorem Terms.steadfast {env : Env} {room : Nat} {short : Prop} (wide : w.env = env.withRoom room)
    (le : env.settings.room ≤ room) (same : ¬short → room = env.settings.room)
    (lexicon : w.lexicon = Lexicon.of registry)
    (inexcusable : ∀ pos, env.text.Span 0 pos → ∀ f s,
      w.answer q pos = .error f → ¬T.excuse f s)
    (untroubled : q.Untroubled env.text registry env.actions env.settings) :
    Steadfast env registry q (q.look env.text registry env.actions env.settings) short
      fun s => s.lexicon = w.lexicon ∧ T.Kept s := by
  -- In the wider room a matcher answers as plain recursion, and so it does here.
  have answers {s : State} {pos : Int} (here : env.text.Span 0 pos)
      (good : s.lexicon = w.lexicon ∧ T.Kept s)
      (enough : short → (Matcher.ask ⟨env, s⟩ q pos).1 ≠ .error .stackExhausted) :
      (Matcher.ask ⟨env, s⟩ q pos).1 = w.answer q pos ∧
        (Matcher.ask ⟨env, s⟩ q pos).2.state.lexicon = w.lexicon ∧
          T.Kept (Matcher.ask ⟨env, s⟩ q pos).2.state := by
    have answered := ask_answers T (inexcusable pos here) good.1 good.2
    rw [wide] at answered
    by_cases tight : short
    · obtain ⟨outcome, state⟩ := ask_widened (m := ⟨env, s⟩) le (enough tight)
      rw [← outcome, ← state]
      exact answered
    · rw [same tight] at answered
      exact answered
  have start : State.lexicon { registry } = w.lexicon ∧ T.Kept { registry } :=
    ⟨lexicon.symm, kept_start T registry⟩
  refine ⟨start, fun steady good => ⟨steady.lexicon.trans good.1, kept_of_steady steady good.2⟩, ?_⟩
  intro s pos good here enough
  obtain ⟨answered, good'⟩ := answers here good enough
  have fresh : (Matcher.ask ⟨env, { registry }⟩ q pos).1 = _ := untroubled.found here
  have plain := (answers here start fun _ => by rw [fresh]; exact fun h => by cases h).1
  exact ⟨answered.trans (plain.symm.trans fresh), good'⟩

end Match

/-- **Where nothing stands in the way a matcher answers as a fresh one**, whatever it was asked
    before, unless room is short and it runs out of it. -/
theorem Query.Untroubled.steadfast (h : q.Untroubled text registry actions settings) :
    ∃ good, Steadfast ⟨text, actions, settings⟩ registry q (q.look text registry actions settings)
      (q.Short text registry actions settings) good := by
  cases on : settings.memoize with
  | false =>
    let T := Terms.unkept ⟨text, actions, settings⟩ (.of registry) on
    exact ⟨_, T.steadfast (show _ = Env.withRoom _ settings.room from rfl) (Nat.le_refl _)
      (fun _ => rfl) rfl (fun _ _ _ _ _ h => h) h⟩
  | true =>
    -- The room in which to compare is the one at hand, if that is enough.
    have compared : ∃ room, settings.room ≤ room ∧
        (¬q.Short text registry actions settings → room = settings.room) ∧
        ∀ pos, text.Span 0 pos → q.Direct text registry actions { settings with room } pos := by
      by_cases direct : ∀ pos, text.Span 0 pos → q.Direct text registry actions settings pos
      · exact ⟨settings.room, Nat.le_refl _, fun _ => rfl, direct⟩
      · obtain ⟨room, le, wide⟩ := h.direct on
        exact ⟨room, le, fun roomy => absurd ⟨on, direct⟩ roomy, wide⟩
    obtain ⟨room, le, same, direct⟩ := compared
    let env : Env := ⟨text, actions, { { settings with room } with memoize := true }⟩
    have wide : env = (Env.mk text actions settings).withRoom room := by
      unfold env Env.withRoom
      simp only [on]
    let T := Terms.kept env (.of registry) (Lexicon.named_of h.built)
    refine ⟨_, T.steadfast wide le same rfl (fun pos here f s failed excused => ?_) h⟩
    have off := (direct pos here).answer true
    rcases excused with rfl | ⟨limited, _⟩
    · exact (direct pos here).2 (off.symm.trans failed)
    · exact limited h.unlimited

/-- Where plain recursion answers that gives up where an atomic rule is being matched, nothing
    stands in the way, and room is not short. -/
theorem Query.untroubled_of_plain (unlimited : settings.maxDepth = none)
    (built : ∀ r ∈ registry, r.Built)
    (plain : ∀ pos, text.Span 0 pos → ∃ found,
      (Basis.refusing ⟨text, actions, { settings with memoize := false }⟩ (.of registry)
        .stackExhausted).answer q pos = .ok found) :
    q.Untroubled text registry actions settings ∧ ¬q.Short text registry actions settings := by
  have direct (pos : Int) (here : text.Span 0 pos) :
      ∃ found, ¬(q.fresh text registry actions settings false pos).2.state.Reentered ∧
        (q.fresh text registry actions settings false pos).1 = .ok found := by
    obtain ⟨found, answered⟩ := plain pos here
    exact ⟨found, Query.fresh_once answered fun h => by cases h⟩
  have roomy (pos : Int) (here : text.Span 0 pos) :
      q.Direct text registry actions settings pos := by
    obtain ⟨found, once, off⟩ := direct pos here
    exact ⟨once, by rw [off]; exact fun h => by cases h⟩
  refine ⟨⟨unlimited, built, fun _ => ⟨settings.room, Nat.le_refl _, roomy⟩, fun pos here => ?_⟩,
    fun short => short.2 roomy⟩
  obtain ⟨found, once, off⟩ := direct pos here
  obtain ⟨maxDepth, memoize, room⟩ := settings
  cases memoize with
  | false => exact ⟨found, off⟩
  | true =>
    rcases Query.fresh_agree built once with same | ⟨_, failed, _⟩
    · exact ⟨found, same.trans off⟩
    · cases off.symm.trans failed

end Steadfast

/-! ## 3. Loops -/

section Loops

variable {env : Env} {registry : Option Registry} {look : Int → Option Found}
  {short : Prop} {good : State → Prop} {s : State} {pos : Int}

/-- What a steadfast matcher answers, unless it runs out of room. -/
theorem Steadfast.cases {q : Query} (h : Steadfast env registry q look short good) (hs : good s)
    (here : env.text.Span 0 pos) {outcome : Except Failure (Option Found)} {m : Matcher}
    (asked : Matcher.ask ⟨env, s⟩ q pos = (outcome, m)) :
    (short ∧ outcome = .error .stackExhausted) ∨
      outcome = .ok (look pos) ∧ ∃ s', m = ⟨env, s'⟩ ∧ good s' := by
  by_cases full : short ∧ outcome = .error .stackExhausted
  · exact .inl full
  · obtain ⟨answered, good'⟩ :=
      h.ask hs here (by rw [asked]; exact fun tight out => full ⟨tight, out⟩)
    have same : m.env = env := by
      have := Matcher.ask_env ⟨env, s⟩ q pos
      rwa [asked] at this
    rw [asked] at answered good'
    exact .inr ⟨answered, m.state, congrArg (Matcher.mk · m.state) same, good'⟩

/-- **The loop of a finder is a sweep**, unless the matcher runs out of room. -/
theorem findFrom_sweep {p : Pattern} (h : Steadfast env registry (.pattern p) look short good)
    (hs : good s) (nonneg : 0 ≤ pos) {left : Nat} (ahead : left = (env.text.stop + 1 - pos).toNat)
    (found : List Capture)
    (enough : short →
      (Finder.findFrom p ⟨env, s⟩ left pos found).2 ≠ some .stackExhausted) :
    Finder.findFrom p ⟨env, s⟩ left pos found =
      (found.reverse ++ sweep look (env.text.stop + 1) pos, none) := by
  induction left using Nat.strongRecOn generalizing s pos found with
  | ind left ih =>
    unfold Finder.findFrom at enough ⊢
    unfold sweep
    by_cases out : left = 0
    · rw [if_pos out, if_neg (by omega), List.append_nil]
    rw [if_neg out] at enough ⊢
    rw [if_pos (show pos < env.text.stop + 1 by omega)]
    have here : env.text.Span 0 pos := ⟨Int.le_refl 0, nonneg, by omega⟩
    rcases asked : Matcher.pattern ⟨env, s⟩ p pos with ⟨outcome, m⟩
    rw [asked] at enough
    rcases h.cases hs here asked with ⟨tight, rfl⟩ | ⟨rfl, s', rfl, hs'⟩
    · exact absurd rfl (enough tight)
    cases seen : look pos with
    | none =>
      simp only [seen] at enough ⊢
      exact ih _ (by omega) hs' (by omega) (by omega) found enough
    | some v =>
      obtain ⟨stop, c⟩ := v
      simp only [seen] at enough ⊢
      by_cases width : pos < stop
      · rw [if_pos width] at enough ⊢
        rw [ih _ (by omega) hs' (by omega) (by omega) (c :: found) enough, List.reverse_cons,
          List.append_assoc, Int.max_eq_left (by omega)]
        rfl
      · rw [if_neg width] at enough ⊢
        rw [ih _ (by omega) hs' (by omega) (by omega) (c :: found) enough, List.reverse_cons,
          List.append_assoc, Int.max_eq_right (by omega)]
        rfl

/-- **A search is the beginning of a sweep**, unless the matcher runs out of room. -/
theorem searchFrom_sweep {p : Pattern} (h : Steadfast env registry (.pattern p) look short good)
    (hs : good s) (nonneg : 0 ≤ pos) {left : Nat} (ahead : pos + left = env.text.stop)
    (enough : short → Finder.searchFrom p ⟨env, s⟩ left pos ≠ .error .stackExhausted) :
    Finder.searchFrom p ⟨env, s⟩ left pos =
      .ok (sweep look (env.text.stop + 1) pos).head? := by
  induction left generalizing s pos with
  | zero =>
    unfold Finder.searchFrom at enough ⊢
    unfold sweep
    rw [if_pos (show pos < env.text.stop + 1 by omega)]
    have here : env.text.Span 0 pos := ⟨Int.le_refl 0, nonneg, by omega⟩
    rcases asked : Matcher.pattern ⟨env, s⟩ p pos with ⟨outcome, m⟩
    rw [asked] at enough
    rcases h.cases hs here asked with ⟨tight, rfl⟩ | ⟨rfl, s', rfl, hs'⟩
    · exact absurd rfl (enough tight)
    cases look pos with
    | none =>
      unfold sweep
      rw [if_neg (by omega)]
      rfl
    | some v => rfl
  | succ left ih =>
    unfold Finder.searchFrom at enough ⊢
    unfold sweep
    rw [if_pos (show pos < env.text.stop + 1 by omega)]
    have here : env.text.Span 0 pos := ⟨Int.le_refl 0, nonneg, by omega⟩
    rcases asked : Matcher.pattern ⟨env, s⟩ p pos with ⟨outcome, m⟩
    rw [asked] at enough
    rcases h.cases hs here asked with ⟨tight, rfl⟩ | ⟨rfl, s', rfl, hs'⟩
    · exact absurd rfl (enough tight)
    cases seen : look pos with
    | none =>
      simp only [seen] at enough ⊢
      exact ih hs' (by omega) (by omega) enough
    | some v => rfl

/-- A search that fails is the beginning of a loop that fails. -/
theorem findFrom_of_searchFrom {p : Pattern} {m : Matcher} {left : Nat} {f : Failure}
    (failed : Finder.searchFrom p m left pos = .error f) (found : List Capture) :
    (Finder.findFrom p m (left + 1) pos found).2 = some f := by
  induction left generalizing m pos with
  | zero =>
    unfold Finder.searchFrom at failed
    unfold Finder.findFrom
    rw [if_neg (Nat.succ_ne_zero 0)]
    rcases asked : m.pattern p pos with ⟨outcome | _ | v, m'⟩
    · rw [asked] at failed
      cases failed
      rfl
    · rw [asked] at failed
      cases failed
    · rw [asked] at failed
      cases failed
  | succ left ih =>
    unfold Finder.searchFrom at failed
    unfold Finder.findFrom
    rw [if_neg (Nat.succ_ne_zero _)]
    rcases asked : m.pattern p pos with ⟨outcome | _ | v, m'⟩
    · rw [asked] at failed
      cases failed
      rfl
    · rw [asked] at failed
      exact ih failed
    · rw [asked] at failed
      cases failed

/-- What is found at a position, if it is not empty. -/
def nonEmpty (look : Int → Option Found) (pos : Int) : Option Found :=
  (look pos).filter fun v => pos < v.stop

/-- **The loop of a grammar is a sweep for what is not empty**, unless the matcher runs out of
    room. -/
theorem scanFrom_sweep {name : String}
    (h : Steadfast env registry (.rule name false) look short good) (hs : good s)
    (nonneg : 0 ≤ pos) {left : Nat} (ahead : left = (env.text.stop - pos).toNat)
    (found : List Capture)
    (enough : short →
      (Grammar.scanFrom ⟨env, s⟩ name left pos found).1.failure ≠ some .stackExhausted) :
    (Grammar.scanFrom ⟨env, s⟩ name left pos found).1 =
      ⟨found.reverse ++ sweep (nonEmpty look) env.text.stop pos, none⟩ := by
  induction left using Nat.strongRecOn generalizing s pos found with
  | ind left ih =>
    unfold Grammar.scanFrom at enough ⊢
    unfold sweep
    by_cases out : left = 0
    · rw [if_pos out, if_neg (by omega), List.append_nil]
    rw [if_neg out] at enough ⊢
    rw [if_pos (show pos < env.text.stop by omega)]
    have here : env.text.Span 0 pos := ⟨Int.le_refl 0, nonneg, by omega⟩
    rcases asked : Matcher.rule ⟨env, s⟩ name pos false with ⟨outcome, m⟩
    rw [asked] at enough
    rcases h.cases hs here asked with ⟨tight, rfl⟩ | ⟨rfl, s', rfl, hs'⟩
    · exact absurd rfl (enough tight)
    cases seen : look pos with
    | none =>
      have counts : nonEmpty look pos = none := by
        rw [nonEmpty, seen]
        rfl
      simp only [seen, counts] at enough ⊢
      exact ih _ (by omega) hs' (by omega) (by omega) found enough
    | some v =>
      obtain ⟨stop, c⟩ := v
      by_cases width : pos < stop
      · have counts : nonEmpty look pos = some ⟨stop, c⟩ := by
          rw [nonEmpty, seen, Option.filter_some, if_pos (decide_eq_true width)]
        simp only [seen, dif_pos width, counts] at enough ⊢
        rw [ih _ (by omega) hs' (by omega) (by omega) (c :: found) enough, List.reverse_cons,
          List.append_assoc, Int.max_eq_left (by omega)]
        rfl
      · have counts : nonEmpty look pos = none := by
          rw [nonEmpty, seen, Option.filter_some, if_neg (by simpa using width)]
        simp only [seen, dif_neg width, counts] at enough ⊢
        exact ih _ (by omega) hs' (by omega) (by omega) found enough

end Loops

/-! ## 4. Finders -/

/-- What a fresh matcher finds is placed where it was asked for. -/
theorem Query.Untroubled.placed {q : Query} {text : Text} {registry : Option Registry}
    {actions : Actions} {settings : Settings} (h : q.Untroubled text registry actions settings)
    {pos : Int} (here : text.Span 0 pos) :
    Placed (q.look text registry actions settings) pos := by
  intro v found
  have covers := h.covers here found
  exact ⟨covers.start, covers.stop⟩

namespace Finder

/-- The trees are all that a finder can find in a text: each is its match where it starts, they do
    not overlap, and there is no match where none of them is. -/
structure Sweeps (f : Finder) (text : Text) (trees : List Capture) : Prop where
  matched : ∀ c ∈ trees, text.Span 0 c.label.start ∧ f.matchAt text c.label.start = .ok (some c)
  apart : trees.Pairwise fun c d => c.next ≤ d.label.start
  skipped : ∀ p, text.Span 0 p → (∀ c ∈ trees, p < c.label.start ∨ c.next ≤ p) →
    f.matchAt text p = .ok none

/-- The first match from a position on, if there is one. -/
def First (f : Finder) (text : Text) (pos : Int) : Option Capture → Prop
  | none => ∀ p, pos ≤ p → p ≤ text.stop → f.matchAt text p = .ok none
  | some c => (pos ≤ c.label.start ∧ c.label.start ≤ text.stop) ∧
      f.matchAt text c.label.start = .ok (some c) ∧
      ∀ p, pos ≤ p → p < c.label.start → f.matchAt text p = .ok none

section Sweeps

variable {f : Finder} {text : Text}
  (untroubled : (Query.pattern f.pattern).Untroubled text f.registry {} f.settings)

include untroubled

/-- What a finder matches at a position is what a fresh matcher finds there. -/
theorem matchAt_look {pos : Int} (here : text.Span 0 pos) : f.matchAt text pos =
    .ok (((Query.pattern f.pattern).look text f.registry {} f.settings pos).map Found.capture) := by
  obtain ⟨c, cursor⟩ := Cursor.at_span here
  unfold matchAt
  rw [cursor]
  exact congrArg (Except.map (Option.map Found.capture)) (untroubled.found here)

/-- The matches of a finder from a position on. -/
theorem sweep_matches {pos : Int} (nonneg : 0 ≤ pos) :
    Tiles ((Query.pattern f.pattern).look text f.registry {} f.settings) pos (text.stop + 1)
      (sweep ((Query.pattern f.pattern).look text f.registry {} f.settings) (text.stop + 1)
        pos) :=
  sweep_tiles fun p le lt => untroubled.placed ⟨Int.le_refl 0, by omega, by omega⟩

/-- **All captures of a finder are all that it can find**, unless the matcher runs out of room. -/
theorem findAll_sweeps
    (enough : (Query.pattern f.pattern).Short text f.registry {} f.settings →
      (f.findAll text).2 ≠ some .stackExhausted) :
    ∃ trees, f.findAll text = (trees, none) ∧ f.Sweeps text trees ∧
      f.captures text = .ok (if f.flags.global then trees else trees.take 1) := by
  obtain ⟨good, h⟩ := untroubled.steadfast
  let look := (Query.pattern f.pattern).look text f.registry {} f.settings
  have whole : f.findAll text = (sweep look (text.stop + 1) 0, none) :=
    findFrom_sweep h h.start (Int.le_refl 0)
      (show text.size + 1 = (text.stop + 1 - 0).toNat by unfold Text.stop; omega) [] enough
  obtain ⟨matched, apart, skipped⟩ := sweep_matches untroubled (Int.le_refl 0)
  refine ⟨_, whole, ⟨fun c hc => ?_, apart, fun p here outside => ?_⟩, ?_⟩
  · obtain ⟨nonneg, lt, found⟩ := matched c hc
    have here : text.Span 0 c.label.start := ⟨Int.le_refl 0, nonneg, by omega⟩
    refine ⟨here, ?_⟩
    rw [matchAt_look untroubled here, found]
    rfl
  · rw [matchAt_look untroubled here,
      skipped p here.le (Int.lt_add_one_of_le here.le_stop) outside]
    rfl
  · unfold captures
    by_cases global : f.flags.global = true
    · rw [if_pos global, if_pos global, whole]
    · rw [if_neg global, if_neg global]
      have start : text.Span 0 0 := ⟨Int.le_refl 0, Int.le_refl 0, Int.natCast_nonneg _⟩
      obtain ⟨c, cursor⟩ := Cursor.at_span start
      have left : (text.stop - 0).toNat = text.size := by unfold Text.stop; omega
      have search : f.search text 0 = searchFrom f.pattern (f.matcher text) text.size 0 := by
        unfold search
        rw [cursor, left]
      have found := searchFrom_sweep h h.start (Int.le_refl 0)
        (show 0 + (text.size : Int) = text.stop from Int.zero_add _) fun short full =>
          enough short (findFrom_of_searchFrom full [])
      rw [search]
      refine (congrArg (Except.map Option.toList) found).trans ?_
      show Except.ok (sweep look (text.stop + 1) 0).head?.toList = _
      cases sweep look (text.stop + 1) 0 with
      | nil => rfl
      | cons c rest => rfl

/-- **A search finds the first match**, unless the matcher runs out of room. -/
theorem search_first {pos : Int} (here : text.Span 0 pos)
    (enough : (Query.pattern f.pattern).Short text f.registry {} f.settings →
      f.search text pos ≠ .error .stackExhausted) :
    ∃ found, f.search text pos = .ok found ∧ f.First text pos found := by
  obtain ⟨good, h⟩ := untroubled.steadfast
  let look := (Query.pattern f.pattern).look text f.registry {} f.settings
  obtain ⟨c, cursor⟩ := Cursor.at_span here
  have search : f.search text pos =
      searchFrom f.pattern (f.matcher text) (text.stop - pos).toNat pos := by
    unfold search
    rw [cursor]
  rw [search] at enough ⊢
  have nonneg := here.le
  have inside := here.le_stop
  have found := searchFrom_sweep h h.start nonneg
    (show pos + ((text.stop - pos).toNat : Int) = text.stop by omega) enough
  have tiles := sweep_matches untroubled nonneg
  refine ⟨_, found, ?_⟩
  cases trees : sweep look (text.stop + 1) pos with
  | nil =>
    rw [trees] at tiles
    intro p le le'
    rw [matchAt_look untroubled ⟨Int.le_refl 0, by omega, le'⟩,
      tiles.skipped p le (by omega) (List.forall_mem_nil _)]
    rfl
  | cons c rest =>
    rw [trees] at tiles
    obtain ⟨le, lt, found⟩ := tiles.matched c List.mem_cons_self
    refine ⟨⟨le, by omega⟩, ?_, fun p le' lt' => ?_⟩
    · rw [matchAt_look untroubled ⟨Int.le_refl 0, by omega, by omega⟩, found]
      rfl
    · rw [matchAt_look untroubled ⟨Int.le_refl 0, by omega, by omega⟩, tiles.first p le' lt']
      rfl

end Sweeps

end Finder

/-! ## 5. Grammars -/

namespace Grammar

/-- The trees are all that a scan can find in a text: each is the partial parse where it starts
    and is not empty, they do not overlap, and where none of them is there is no partial parse, or
    an empty one. -/
structure Sweeps (r : Registry) (t : Task) (trees : List Capture) : Prop where
  matched : ∀ c ∈ trees, t.text.Span 0 c.label.start ∧ c.label.start < c.label.stop ∧
    (subparse r t c.label.start).1 = .ok (some ⟨c.label.stop, c⟩)
  apart : trees.Pairwise fun c d => c.label.stop ≤ d.label.start
  skipped : ∀ p, t.text.Span 0 p → (∀ c ∈ trees, p < c.label.start ∨ c.label.stop ≤ p) →
    ∃ found, (subparse r t p).1 = .ok found ∧ ∀ v ∈ found, v.stop = p

section Sweeps

variable {r : Registry} {t : Task}
  (untroubled : (Query.rule t.start false).Untroubled t.text (some r) t.actions t.settings)

include untroubled

/-- What is found at the start shows that there is room for a call. -/
theorem room_of_untroubled : 1 ≤ (t.matcher r).env.bounds.room := by
  have start : t.text.Span 0 0 := ⟨Int.le_refl 0, Int.le_refl 0, Int.natCast_nonneg _⟩
  by_cases room : 1 ≤ (t.matcher r).env.bounds.room
  · exact room
  · have full : seek (t.matcher r).env [] none [⟨[.call t.start (some (.name t.start)) 1], 0, []⟩]
        (t.matcher r).state = .error .stackExhausted (t.matcher r).state := by
      rw [seek_goal, expand_call_full room]
      rfl
    have asked := untroubled.found start
    have run : ((Query.rule t.start false).run (t.matcher r).env 0).outcome (t.matcher r).state =
        .error .stackExhausted := Run.outcome_error (Run.bind_error full)
    have failed : (Matcher.ask (t.matcher r) (.rule t.start false) 0).1 =
        .error .stackExhausted := (advance_fst _ _).trans run
    cases asked.symm.trans failed

/-- A rule is asked for with the same outcome if it was looked up before. -/
theorem checked_look {pos : Int} (here : t.text.Span 0 pos) :
    (t.check >>= fun _ => Matcher.runRule (t.matcher r).env t.start pos false).outcome
        (t.matcher r).state =
      .ok ((Query.rule t.start false).look t.text (some r) t.actions t.settings pos) := by
  have checked := checked_outcome t (room_of_untroubled untroubled) false pos (t.matcher r).state
  have run := query_outcome (t.matcher r).env (.rule t.start false) pos (t.matcher r).state
  rw [checked]
  exact run.symm.trans ((advance_fst _ _).symm.trans (untroubled.found here))

/-- A partial parse is what a fresh matcher finds. -/
theorem subparse_look {pos : Int} (here : t.text.Span 0 pos) : (subparse r t pos).1 =
    .ok ((Query.rule t.start false).look t.text (some r) t.actions t.settings pos) := by
  obtain ⟨c, cursor⟩ := Cursor.at_span here
  rw [subparse, advance_fst, cursor]
  exact checked_look untroubled here

/-- The start rule exists, and looking it up leaves a matcher as it was. -/
theorem check_steady : ∃ s, (t.matcher r).advance t.check = (.ok (), ⟨(t.matcher r).env, s⟩) ∧
    (t.matcher r).state.Steady s := by
  have start : t.text.Span 0 0 := ⟨Int.le_refl 0, Int.le_refl 0, Int.natCast_nonneg _⟩
  have looked := checked_look untroubled start
  have spec := Run.lookup_spec (s := (t.matcher r).state) t.start
  have check : t.check = Run.lookup t.start >>= fun _ => pure () := rfl
  cases known : Run.lookup t.start (t.matcher r).state with
  | ok rule s =>
    refine ⟨s, ?_, (spec.ok known).1⟩
    have ok : t.check (t.matcher r).state = .ok () s := by
      rw [check, Run.bind_ok known]
      rfl
    unfold Matcher.advance
    rw [ok]
  | error f s =>
    have failed : t.check (t.matcher r).state = .error f s := by
      rw [check]
      exact Run.bind_error known
    rw [Run.outcome_error (Run.bind_error failed)] at looked
    cases looked

/-- **The captures of a scan are all that it can find**, unless the matcher runs out of room. -/
theorem scan_sweeps
    (enough : (Query.rule t.start false).Short t.text (some r) t.actions t.settings →
      (scan r t).1.failure ≠ some .stackExhausted) :
    ∃ trees, (scan r t).1 = ⟨trees, none⟩ ∧ Sweeps r t trees := by
  obtain ⟨good, h⟩ := untroubled.steadfast
  let look := (Query.rule t.start false).look t.text (some r) t.actions t.settings
  obtain ⟨s, check, steady⟩ := check_steady untroubled
  have scanned : (scan r t).1 =
      (scanFrom ⟨(t.matcher r).env, s⟩ t.start t.text.size 0 []).1 := by
    unfold scan
    rw [check]
  rw [scanned] at enough ⊢
  have whole := scanFrom_sweep h (h.steady steady h.start) (Int.le_refl 0)
    (show t.text.size = (t.text.stop - 0).toNat by unfold Text.stop; omega) [] enough
  have counts {p : Int} {v : Found} (found : nonEmpty look p = some v) :
      look p = some v ∧ p < v.stop := by
    obtain ⟨found, width⟩ := Option.filter_eq_some_iff.mp found
    exact ⟨found, of_decide_eq_true width⟩
  have tiles : Tiles (nonEmpty look) 0 t.text.stop (sweep (nonEmpty look) t.text.stop 0) := by
    refine sweep_tiles fun p le lt v found => ?_
    exact untroubled.placed ⟨Int.le_refl 0, le, by omega⟩ v (counts found).1
  obtain ⟨matched, apart, skipped⟩ := tiles
  have wide : ∀ c ∈ sweep (nonEmpty look) t.text.stop 0, c.next = c.label.stop := by
    intro c hc
    have := (counts (matched c hc).2.2).2
    exact Int.max_eq_left this
  refine ⟨_, whole, fun c hc => ?_, apart.imp_of_mem fun hc _ le => ?_, fun p here outside => ?_⟩
  · obtain ⟨nonneg, lt, found⟩ := matched c hc
    obtain ⟨found, width⟩ := counts found
    have here : t.text.Span 0 c.label.start := ⟨Int.le_refl 0, nonneg, by omega⟩
    exact ⟨here, width, (subparse_look untroubled here).trans (congrArg Except.ok found)⟩
  · rwa [wide _ hc] at le
  · refine ⟨_, subparse_look untroubled here, fun v found => ?_⟩
    have inside := here.le_stop
    have covers := untroubled.covers here found
    have span := covers.nested.ordered.span
    rw [covers.start, covers.stop] at span
    have le := span.le
    by_cases width : p < v.stop
    · -- A match that is not empty would begin before the end of the text.
      have none := skipped p here.le (by have := span.le_stop; omega) fun c hc => by
        rw [wide c hc]
        exact outside c hc
      have found : look p = some v := found
      rw [nonEmpty, found, Option.filter_some, if_pos (decide_eq_true width)] at none
      cases none
    · omega

end Sweeps

end Grammar

/-! ## 6. Searching, finding all, scanning -/

/-- **Sweeps cover a text exactly.** Where nothing stands in the way, and the matcher does not run
    out of room where that is short: the captures of a finder are its matches where they start, do
    not overlap, and there is no match outside of them; if it is global these are what it captures,
    and else the first of them. A search finds the first match from a position on. The captures of
    a scan are the partial parses where they start, not empty and not overlapping, and there is none
    outside of them that is not empty. -/
theorem sweeps_exact :
    (∀ (f : Finder) (text : Text),
      (Query.pattern f.pattern).Untroubled text f.registry {} f.settings →
        (((Query.pattern f.pattern).Short text f.registry {} f.settings →
            (f.findAll text).2 ≠ some .stackExhausted) →
          ∃ trees, f.findAll text = (trees, none) ∧ f.Sweeps text trees ∧
            f.captures text = .ok (if f.flags.global then trees else trees.take 1)) ∧
        ∀ pos, text.Span 0 pos →
          ((Query.pattern f.pattern).Short text f.registry {} f.settings →
            f.search text pos ≠ .error .stackExhausted) →
          ∃ found, f.search text pos = .ok found ∧ f.First text pos found) ∧
    ∀ (r : Registry) (t : Grammar.Task),
      (Query.rule t.start false).Untroubled t.text (some r) t.actions t.settings →
        ((Query.rule t.start false).Short t.text (some r) t.actions t.settings →
          (Grammar.scan r t).1.failure ≠ some .stackExhausted) →
        ∃ trees, (Grammar.scan r t).1 = ⟨trees, none⟩ ∧ Grammar.Sweeps r t trees :=
  ⟨fun _ _ untroubled =>
      ⟨Finder.findAll_sweeps untroubled, fun _ => Finder.search_first untroubled⟩,
    fun _ _ => Grammar.scan_sweeps⟩

/-- The finder of letters. -/
def letterFinder : Finder := referenceFinder "letter" (some letters) {}

theorem letters_built : ∀ r ∈ some letters, r.Built := by
  have define : Registry.empty.define "letter" (.now (.pattern letterRule.pattern)) .token .none =
      .ok letters := rfl
  rintro r ⟨⟩
  exact .define .empty define

/-- Two characters are swept for letters, by a finder and by a grammar, with kept results. -/
theorem sweeps_exact_letter :
    let text : Text := #['b', 'a']
    let task : Grammar.Task := ⟨text, "letter", {}, {}⟩
    (Query.pattern letterFinder.pattern).Untroubled text letterFinder.registry {}
        letterFinder.settings ∧
      (Query.rule task.start false).Untroubled text (some letters) {} {} ∧
      (∃ trees, letterFinder.findAll text = (trees, none) ∧ letterFinder.Sweeps text trees) ∧
      (∃ found, letterFinder.search text 1 = .ok found ∧ letterFinder.First text 1 found) ∧
      ∃ trees, (Grammar.scan letters task).1 = ⟨trees, none⟩ ∧
        Grammar.Sweeps letters task trees := by
  intro text task
  have places {pos : Int} (here : text.Span 0 pos) : pos = 0 ∨ pos = 1 ∨ pos = 2 := by
    have low : 0 ≤ pos := here.le
    have high : pos ≤ 2 := here.le_stop
    omega
  obtain ⟨finding, roomy⟩ :
      (Query.pattern letterFinder.pattern).Untroubled text (some letters) {} {} ∧
        ¬(Query.pattern letterFinder.pattern).Short text (some letters) {} {} :=
    Query.untroubled_of_plain rfl letters_built fun pos here => by
      rcases places here with rfl | rfl | rfl <;> exact ⟨_, rfl⟩
  obtain ⟨parsing, roomy'⟩ :
      (Query.rule task.start false).Untroubled text (some letters) {} {} ∧
        ¬(Query.rule task.start false).Short text (some letters) {} {} :=
    Query.untroubled_of_plain rfl letters_built fun pos here => by
      rcases places here with rfl | rfl | rfl <;> exact ⟨_, rfl⟩
  obtain ⟨all, first⟩ := sweeps_exact.1 letterFinder text finding
  obtain ⟨trees, found, sweeps, _⟩ := all fun short => absurd short roomy
  have here : text.Span 0 1 := ⟨Int.le_refl 0, by decide, by decide⟩
  exact ⟨finding, parsing, ⟨trees, found, sweeps⟩, first 1 here fun short => absurd short roomy,
    sweeps_exact.2 letters task parsing fun short => absurd short roomy'⟩

end GrammarMatch
