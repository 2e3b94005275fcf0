/-
  File:      GrammarMatch/Proofs/Parallel.lean
  Subject:   Two searches of alike patterns, side by side.

  The searches are for patterns that need not be the same, by rules that need not be the same, in
  texts of which the second may have something in front. A likeness says which patterns, rules and
  captures of the two belong together, and for which failures either search may be given up. Two
  searches are parallel if what belongs together is built alike, layer by layer; how the longest
  branch is chosen and how the body of an atomic rule is matched is left to each likeness
  (`Parallel`). Then the whole searches correspond, the agendas that they leave behind included
  (`Parallel.seek`, `Parallel.query`).
-/
import GrammarMatch.Grammar
import GrammarMatch.Proofs.Lockstep
import GrammarMatch.Proofs.Prepended
import GrammarMatch.Proofs.Scopes

namespace GrammarMatch.Match

/-! ## 1. What belongs together -/

/-- What belongs together in two searches. -/
structure Likeness where
  /-- How many characters the second text has in front. -/
  shift : Nat := 0
  /-- What the registry of the first search answers. -/
  lexicon : Lexicon
  /-- What the registry of the second search answers. -/
  lexicon' : Lexicon
  /-- Whether the searches keep results. -/
  memoize : Bool
  /-- Captures that belong together. -/
  captures : Capture → Capture → Prop
  /-- What was captured in one scope. -/
  captured : Captured → Captured → Prop
  /-- A failure for which the first search may be given up. -/
  lost : Failure → Prop
  /-- A failure for which the second search may be given up. -/
  lost' : Failure → Prop
  /-- Patterns that belong together. -/
  part : Pattern → Pattern → Prop
  /-- Rules that belong together. -/
  rule : Rule → Rule → Prop
  /-- The names of the rules that the searches may call. -/
  call : String → Prop

namespace Likeness

variable (L : Likeness)

/-- The same position of the first text, which is in the text or after it if something is in
    front of it. -/
structure place (pos pos' : Int) : Prop where
  moved : pos' = pos + L.shift
  nonneg : 0 < L.shift → 0 ≤ pos

/-- The same calls, in the second text. -/
def moved (active : Active) : Active := active.map fun c => (c.1, c.2 + (L.shift : Int))

/-- The same end, in the second text. -/
def aim (target : Option Int) : Option Int := target.map (· + (L.shift : Int))

/-- The same failure; one that a match raises tells the position in its own text. -/
def failure (f f' : Failure) : Prop :=
  f' = f.moved L.shift ∨ f' = f ∧ ∃ name, L.lexicon.rules name = .error f

/-- Solutions with the same end. -/
structure solution (u u' : Solution) : Prop where
  stop : L.place u.stop u'.stop
  captured : L.captured u.captured u'.captured

/-- Results of an atomic rule with the same end. -/
abbrev verdict : Verdict → Verdict → Prop :=
  Option.Rel fun v v' => L.place v.1 v'.1 ∧ L.captures v.2 v'.2

/-- What was found with the same end. -/
structure found (u u' : Found) : Prop where
  stop : L.place u.stop u'.stop
  capture : L.captures u.capture u'.capture

/-- The registries answer as they should, and alike results are kept at the same positions. -/
structure same (s s' : State) : Prop where
  lexicon : s.lexicon = L.lexicon
  lexicon' : s'.lexicon = L.lexicon'
  kept : L.memoize = true → ∀ (name : String) (pos pos' : Int), L.place pos pos' →
    Option.Rel L.verdict s.memo[(name, pos)]? s'.memo[(name, pos')]?

/-- Goals of the same kind with patterns, positions and captures that belong together. -/
inductive goal : Goal → Goal → Prop
  | part {p p' : Pattern} {depth : Nat} (h : L.part p p') : goal (.part p depth) (.part p' depth)
  | call {name : String} {key : Option CaptureKey} {depth : Nat} (h : L.call name) :
      goal (.call name key depth) (.call name key depth)
  | round {q : Quantity} {body body' : Pattern} {count : Nat} {opened opened' : Int} {depth : Nat}
      (h : L.part body body') (hpos : L.place opened opened') :
      goal (.round q body count opened depth) (.round q body' count opened' depth)
  | close {key : CaptureKey} {plural : List CaptureKey} {opened opened' : Int}
      {outer outer' : Captured} (hpos : L.place opened opened') (h : L.captured outer outer') :
      goal (.close key plural opened outer) (.close key plural opened' outer')
  | finish {rule rule' : Rule} {key : Option CaptureKey} {opened opened' : Int}
      {outer outer' : Captured} (hr : L.rule rule rule') (hpos : L.place opened opened')
      (h : L.captured outer outer') :
      goal (.finish rule key opened outer) (.finish rule' key opened' outer')
  | retreat {body body' : Pattern} {left depth : Nat} (h : L.part body body')
      (still : L.shift = 0) : goal (.retreat body left depth) (.retreat body' left depth)

/-- Threads with goals that belong together at the same position. -/
structure thread (th th' : Thread) : Prop where
  goals : List.Forall₂ L.goal th.goals th'.goals
  pos : L.place th.pos th'.pos
  captured : L.captured th.captured th'.captured

variable {b b' : Bounds} {m m' : Nat × Nat}

/-- Ways with goals that belong together from the same position on. -/
structure way (w : Branch b m) (w' : Branch b' m') : Prop where
  goals : List.Forall₂ L.goal w.goals w'.goals
  pos : L.place w.pos w'.pos
  captured : L.captured w.captured w'.captured

/-- Ways that belong together in the same order. -/
abbrev ways : List (Branch b m) → List (Branch b' m') → Prop := List.Forall₂ L.way

/-- The same answer about a rule, or rules that belong together. -/
inductive answers : Except Failure Rule → Except Failure Rule → Prop
  | known {rule rule' : Rule} (h : L.rule rule rule') : answers (.ok rule) (.ok rule')
  | unknown (f : Failure) : answers (.error f) (.error f)

/-- Patterns that are built alike from patterns that belong together. What looks before its
    position does so only if nothing is in front of the second text. -/
inductive Layer : Pattern → Pattern → Prop
  | literal (chars : List Char) (ignoreCase : Bool) :
      Layer (.literal chars ignoreCase) (.literal chars ignoreCase)
  | charClass (items : List ClassItem) (negated ignoreCase : Bool) :
      Layer (.charClass items negated ignoreCase) (.charClass items negated ignoreCase)
  | sequence {parts parts' : List Pattern} (h : List.Forall₂ L.part parts parts') :
      Layer (.sequence parts) (.sequence parts')
  | ordered {branches branches' : List Pattern} (h : List.Forall₂ L.part branches branches') :
      Layer (.alternation .ordered branches) (.alternation .ordered branches')
  | longest (branches branches' : List Pattern) :
      Layer (.alternation .longest branches) (.alternation .longest branches')
  | repetition (q : Quantity) {body body' : Pattern} (h : L.part body body') :
      Layer (.repetition q body) (.repetition q body')
  | group (key : Option CaptureKey) (plural : List CaptureKey) {body body' : Pattern}
      (h : L.part body body') : Layer (.group key plural body) (.group key plural body')
  | look (kind : LookKind) {body body' : Pattern} (h : L.part body body')
      (behind : kind.backward = true → L.shift = 0 ∧ body'.width = body.width) :
      Layer (.look kind body) (.look kind body')
  | anchor (kind : AnchorKind) (still : L.shift = 0) : Layer (.anchor kind) (.anchor kind)
  | ruleRef {r : Reference} (h : L.call r.name) : Layer (.ruleRef r) (.ruleRef r)
  | whitespace (still : L.shift = 0) (space : L.lexicon'.space = L.lexicon.space)
      (own : L.lexicon.space = true → L.call "ws") : Layer .whitespace .whitespace

/-! ## 2. Computations -/

variable {α α' β β' γ : Type} {A : α → α' → Prop} {B : β → β' → Prop} {s s' : State}

/-- Two computations come to what belongs together, or to the same failure, in states that belong
    together, unless one of them is given up. -/
inductive Pace (A : α → α' → Prop) :
    EStateM.Result Failure State α → EStateM.Result Failure State α' → Prop
  | lost {r : EStateM.Result Failure State α'} {f : Failure} {s : State} (h : L.lost f) :
      Pace A (.error f s) r
  | lost' {r : EStateM.Result Failure State α} {f : Failure} {s : State} (h : L.lost' f) :
      Pace A r (.error f s)
  | ok {a : α} {a' : α'} {s s' : State} (h : A a a') (same : L.same s s') :
      Pace A (.ok a s) (.ok a' s')
  | failed {f f' : Failure} {s s' : State} (h : L.failure f f') (same : L.same s s') :
      Pace A (.error f s) (.error f' s')

variable {L}

theorem pace_pure {a : α} {a' : α'} (h : A a a') (same : L.same s s') :
    L.Pace A ((pure a : Run α) s) ((pure a' : Run α') s') := .ok h same

theorem Pace.mono {A' : α → α' → Prop} {r : EStateM.Result Failure State α}
    {r' : EStateM.Result Failure State α'} (h : L.Pace A r r') (hA : ∀ a a', A a a' → A' a a') :
    L.Pace A' r r' := by
  cases h with
  | lost h => exact .lost h
  | lost' h => exact .lost' h
  | ok h same => exact .ok (hA _ _ h) same
  | failed h same => exact .failed h same

theorem pace_bind {x : Run α} {y : Run α'} {k : α → Run β} {l : α' → Run β'}
    (h : L.Pace A (x s) (y s'))
    (hk : ∀ a a' t t', A a a' → L.same t t' → x s = .ok a t → y s' = .ok a' t' →
      L.Pace B (k a t) (l a' t')) :
    L.Pace B ((x >>= k) s) ((y >>= l) s') := by
  simp only [bind, EStateM.bind]
  generalize hx : x s = r at h hk ⊢
  generalize hy : y s' = r' at h hk ⊢
  cases h with
  | lost h => exact .lost h
  | lost' h => exact .lost' h
  | ok h same => exact hk _ _ _ _ h same rfl rfl
  | failed h same => exact .failed h same

/-- A failure that tells no position is the same in both texts. -/
theorem failure_still {f : Failure} (still : f.moved L.shift = f) : L.failure f f :=
  .inl still.symm

/-- The same test of the text, of which no failure tells a position. -/
theorem pace_ofExcept (v : Except Failure α) (still : ∀ f, v = .error f → f.moved L.shift = f)
    (same : L.same s s') : L.Pace Eq (Run.ofExcept v s) (Run.ofExcept v s') := by
  cases v with
  | ok a => exact .ok rfl same
  | error f => exact .failed (failure_still (still f rfl)) same

/-- Where there is room for another level in both searches, or in neither, or one of them is
    given up. -/
theorem pace_level {depth limit limit' : Nat}
    (full : ¬depth ≤ limit → depth ≤ limit' → L.lost .stackExhausted)
    (full' : depth ≤ limit → ¬depth ≤ limit' → L.lost' .stackExhausted) (same : L.same s s')
    {x : depth ≤ limit → Run α} {y : depth ≤ limit' → Run α'}
    (h : ∀ room room', L.Pace A (x room s) (y room' s')) :
    L.Pace A ((if room : depth ≤ limit then x room else throw .stackExhausted) s)
      ((if room : depth ≤ limit' then y room else throw .stackExhausted) s') := by
  by_cases room : depth ≤ limit
  · rw [dif_pos room]
    by_cases room' : depth ≤ limit'
    · rw [dif_pos room']
      exact h room room'
    · rw [dif_neg room']
      exact .lost' (full' room room')
  · rw [dif_neg room]
    by_cases room' : depth ≤ limit'
    · exact .lost (full room room')
    · rw [dif_neg room']
      exact .failed (failure_still rfl) same

/-- One after the other, where each may count on what came before it in the first search. -/
theorem pace_mapM {γ' : Type} {G : γ → γ' → Prop} {x : γ → Run α} {y : γ' → Run α'} {l : List γ}
    {l' : List γ'} (pairs : List.Forall₂ G l l') (same : L.same s s')
    (h : ∀ before c after done c' t t', l = before ++ c :: after → G c c' →
      before.mapM x s = .ok done t → L.same t t' → L.Pace A (x c t) (y c' t')) :
    L.Pace (List.Forall₂ A) (l.mapM x s) (l'.mapM y s') := by
  induction pairs generalizing s s' with
  | nil =>
    rw [List.mapM_nil, List.mapM_nil]
    exact pace_pure .nil same
  | @cons c c' l l' pair _ ih =>
    rw [List.mapM_cons, List.mapM_cons]
    have first : L.Pace A (x c s) (y c' s') :=
      h [] c l [] c' s s' rfl pair (by rw [List.mapM_nil]; rfl) same
    refine pace_bind first fun a a' t t' ha same' hx _ => ?_
    refine pace_bind (ih same' ?_) fun l l' u u' hl same'' _ _ => pace_pure (.cons ha hl) same''
    intro before d after done d' v v' hl hd hdone same''
    refine h (c :: before) d after (a :: done) d' v v' (congrArg (c :: ·) hl) hd ?_ same''
    rw [List.mapM_cons]
    exact (Run.bind_ok hx).trans ((Run.bind_ok hdone).trans rfl)

/-! ## 3. Positions -/

section Places

variable {pos pos' opened opened' : Int}

theorem place_still (still : L.shift = 0) : L.place pos pos' ↔ pos' = pos := by
  constructor
  · rintro ⟨h, _⟩
    omega
  · intro h
    exact ⟨by omega, fun some => absurd some (by omega)⟩

/-- Where nothing is in front, the calls are the same. -/
theorem moved_still (still : L.shift = 0) (active : Active) : L.moved active = active := by
  have same (c : String × Int) : (c.1, c.2 + (L.shift : Int)) = c := by
    rw [still]
    exact Prod.ext rfl (Int.add_zero c.2)
  exact List.map_id'' same active

/-- So many characters further on. -/
theorem place_forward (h : L.place pos pos') {n : Int} (nonneg : 0 ≤ n) :
    L.place (pos + n) (pos' + n) := by
  obtain ⟨moved, inside⟩ := h
  exact ⟨by omega, fun front => by have := inside front; omega⟩

theorem place_lt (ho : L.place opened opened') (h : L.place pos pos') :
    opened' < pos' ↔ opened < pos := by
  have := ho.moved
  have := h.moved
  omega

theorem place_eq {name name' : String} (ho : L.place opened opened') (h : L.place pos pos') :
    (name, opened') = (name', pos') ↔ (name, opened) = (name', pos) := by
  have := ho.moved
  have := h.moved
  constructor
  · intro alike
    cases alike
    exact congrArg _ (by omega)
  · intro alike
    cases alike
    exact congrArg _ (by omega)

/-- A call is active in the second search where it is in the first. -/
theorem contains_moved (active : Active) (name : String) (h : L.place pos pos') :
    (L.moved active).contains (name, pos') = active.contains (name, pos) := by
  rw [Bool.eq_iff_iff, List.contains_iff_mem, List.contains_iff_mem]
  unfold moved
  rw [List.mem_map, h.moved]
  constructor
  · rintro ⟨⟨name', i⟩, mem, alike⟩
    obtain ⟨rfl, alike⟩ := Prod.ext_iff.mp alike
    cases show i = pos by have : i + (L.shift : Int) = pos + L.shift := alike; omega
    exact mem
  · intro mem
    exact ⟨_, mem, rfl⟩

theorem accepts_aim (target : Option Int) (h : L.place pos pos') :
    accepts (L.aim target) pos' = accepts target pos := by
  cases target with
  | none => rfl
  | some stop =>
    rw [Bool.eq_iff_iff]
    have := h.moved
    show (pos' == stop + (L.shift : Int)) = true ↔ (pos == stop) = true
    rw [beq_iff_eq, beq_iff_eq]
    omega

end Places

/-! ## 4. Ways -/

theorem thread_way {goals goals' : List Goal} {w : Branch b m} {w' : Branch b' m'}
    (hw : L.way w w') (hgoals : List.Forall₂ L.goal goals goals') :
    L.thread (w.thread goals) (w'.thread goals') :=
  ⟨List.rel_append hw.goals hgoals, hw.pos, hw.captured⟩

theorem way_one {w : Branch b m} {w' : Branch b' m'} (h : L.way w w') : L.ways [w] [w'] :=
  .cons h .nil

section Tests

variable (env env' : Env) {pos pos' : Int} {captured captured' : Captured}
  (hpos : L.place pos pos') (caps : L.captured captured captured')

include hpos caps

theorem ways_wayIf (holds : Bool) :
    L.ways (wayIf env holds pos captured : List (Branch env.bounds m))
      (wayIf env' holds pos' captured' : List (Branch env'.bounds m')) := by
  cases holds with
  | true => exact way_one ⟨.nil, hpos, caps⟩
  | false => exact .nil

theorem ways_choices {q : Quantity} {body body' : Pattern} {count depth : Nat}
    (part : L.part body body') {hp : (Goal.part body (depth + 1)).Under env.bounds m}
    {hr : (Goal.round q body count pos depth).Under env.bounds m}
    {hp' : (Goal.part body' (depth + 1)).Under env'.bounds m'}
    {hr' : (Goal.round q body' count pos' depth).Under env'.bounds m'} :
    L.ways (choices env q body count depth pos captured hp hr)
      (choices env' q body' count depth pos' captured' hp' hr') := by
  have stop : L.ways
      (wayIf env (q.mayStop count) pos captured : List (Branch env.bounds m))
      (wayIf env' (q.mayStop count) pos' captured' : List (Branch env'.bounds m')) :=
    ways_wayIf env env' hpos caps _
  have goOn : L.ways
      (if q.mayGoOn count then
        [Branch.both (.part body (depth + 1)) (.round q body count pos depth) hp hr pos captured]
      else [])
      (if q.mayGoOn count then
        [Branch.both (.part body' (depth + 1)) (.round q body' count pos' depth) hp' hr' pos'
          captured']
      else []) := by
    cases q.mayGoOn count with
    | true => exact way_one ⟨.cons (.part part) (.cons (.round part hpos) .nil), hpos, caps⟩
    | false => exact .nil
  show L.ways (if q.greedy then (if q.mayGoOn count then _ else _) ++ wayIf env _ _ _
      else wayIf env _ _ _ ++ (if q.mayGoOn count then _ else _))
    (if q.greedy then (if q.mayGoOn count then _ else _) ++ wayIf env' _ _ _
      else wayIf env' _ _ _ ++ (if q.mayGoOn count then _ else _))
  cases q.greedy with
  | true => exact List.rel_append goOn stop
  | false => exact List.rel_append stop goOn

end Tests

end Likeness

/-! ## 5. Parallel searches -/

/-- The first solutions of branches, each by a search of its own. -/
def firsts (env : Env) (active : Active) (pos : Int) (captured : Captured) (depth : Nat)
    (branches : List Pattern) : Run (List (Option Solution)) :=
  branches.mapM fun p => firstOf env active none ⟨[.part p (depth + 1)], pos, captured⟩

namespace Likeness

section Demands

variable (L : Likeness) (env env' : Env) (R : Moment → Prop)

/-- Searches inside a goal correspond, if their goals are below a size. -/
def Inner (m : Nat × Nat) : Prop :=
  ∀ active target th th' s s', (∀ h ∈ th.goals, h.Under env.bounds m) → L.thread th th' →
    L.same s s' → R ⟨active, target, [th], s⟩ →
      L.Pace (Option.Rel L.solution) (firstOf env active target th s)
        (firstOf env' (L.moved active) (L.aim target) th' s')

/-- The longest branches correspond if the searches inside do. -/
def Compete : Prop :=
  ∀ ⦃active : Active⦄ ⦃target : Option Int⦄ ⦃branches branches' : List Pattern⦄ ⦃depth : Nat⦄
    ⦃goals : List Goal⦄ ⦃pos pos' : Int⦄ ⦃captured captured' : Captured⦄ ⦃rest : Agenda⦄
    ⦃s₀ s s' : State⦄,
    L.part (.alternation .longest branches) (.alternation .longest branches') →
    depth ≤ env.bounds.room → L.Inner env env' R (Goal.partSize env.bounds depth) →
    R ⟨active, target, ⟨.part (.alternation .longest branches) depth :: goals, pos, captured⟩ ::
      rest, s₀⟩ →
    Run.enter env depth pos s₀ = .ok () s → L.place pos pos' → L.captured captured captured' →
    L.same s s' →
    L.Pace (fun found found' =>
        List.Forall₂ L.solution (longestFirst found) (longestFirst found'))
      (firsts env active pos captured depth branches s)
      (firsts env' (L.moved active) pos' captured' depth branches' s')

/-- The bodies of atomic rules correspond if the searches inside do. -/
def Delve : Prop :=
  ∀ ⦃active : Active⦄ ⦃target : Option Int⦄ ⦃name : String⦄ ⦃key : Option CaptureKey⦄
    ⦃depth : Nat⦄ ⦃goals : List Goal⦄ ⦃pos pos' : Int⦄ ⦃captured : Captured⦄ ⦃rest : Agenda⦄
    ⦃s₀ s s' : State⦄ ⦃rule rule' : Rule⦄,
    L.rule rule rule' → L.Inner env env' R (Goal.callSize env.bounds depth) →
    R ⟨active, target, ⟨.call name key depth :: goals, pos, captured⟩ :: rest, s₀⟩ →
    Enters env active name depth pos s₀ rule s → depth ≤ env'.bounds.room → L.place pos pos' →
    L.same s s' →
    L.Pace (Option.Rel L.solution)
      (firstOf env ((rule.name, pos) :: active) none ⟨[.part rule.pattern (depth + 1)], pos, []⟩ s)
      (firstOf env' ((rule.name, pos') :: L.moved active) none
        ⟨[.part rule'.pattern (depth + 1)], pos', []⟩ s')

end Demands

section Pairs

variable {L : Likeness} {env env' : Env} {R : Moment → Prop} (nil : L.captured [] [])
  (leads : ∀ m m', R m → Leads env m m' → R m')

/-- Branches that belong together one by one compete alike. -/
theorem compete_pairs (pairs : ∀ branches branches',
      L.part (.alternation .longest branches) (.alternation .longest branches') →
        List.Forall₂ L.part branches branches')
    (leads : ∀ m m', R m → Leads env m m' → R m') : L.Compete env env' R := by
  intro active target branches branches' depth goals pos pos' captured captured' rest s₀ s s'
    alike room inner reached entered hpos caps same
  refine (pace_mapM (pairs _ _ alike) same ?_).mono fun found found' h =>
    Correspondence.longestFirst_pairs (fun a a' b b' ha hb => ?_) h
  · intro before p after done p' t t' split part tried later
    subst split
    refine inner active none _ _ t t' ?_ ⟨.cons (.part part) .nil, hpos, caps⟩ later ?_
    · exact List.forall_mem_singleton.mpr (Goal.part_under_part room p)
    · exact leads _ _ reached (.inner (.branch room entered tried))
  · have := ha.stop.moved
    have := hb.stop.moved
    omega

include nil leads

/-- Bodies that belong together are matched alike. -/
theorem delve_pair {active : Active} {target : Option Int} {name : String}
    {key : Option CaptureKey} {depth : Nat} {goals : List Goal} {pos pos' : Int}
    {captured : Captured} {rest : Agenda} {s₀ s s' : State} {rule rule' : Rule}
    (part : L.part rule.pattern rule'.pattern)
    (inner : L.Inner env env' R (Goal.callSize env.bounds depth))
    (reached : R ⟨active, target, ⟨.call name key depth :: goals, pos, captured⟩ :: rest, s₀⟩)
    (enters : Enters env active name depth pos s₀ rule s) (hpos : L.place pos pos')
    (same : L.same s s') :
    L.Pace (Option.Rel L.solution)
      (firstOf env ((rule.name, pos) :: active) none ⟨[.part rule.pattern (depth + 1)], pos, []⟩ s)
      (firstOf env' ((rule.name, pos') :: L.moved active) none
        ⟨[.part rule'.pattern (depth + 1)], pos', []⟩ s') := by
  have search := inner ((rule.name, pos) :: active) none
    ⟨[.part rule.pattern (depth + 1)], pos, []⟩ ⟨[.part rule'.pattern (depth + 1)], pos', []⟩ s s'
    (List.forall_mem_singleton.mpr (Goal.part_under enters.room rule.pattern 0))
    ⟨.cons (.part part) .nil, hpos, nil⟩ same (leads _ _ reached (.inner (.body enters)))
  have called : L.moved ((rule.name, pos) :: active) = (rule.name, pos') :: L.moved active := by
    rw [hpos.moved]
    rfl
  rwa [called] at search

/-- Rules of which the bodies belong together are matched alike. -/
theorem delve_pairs (pairs : ∀ rule rule', L.rule rule rule' → L.part rule.pattern rule'.pattern) :
    L.Delve env env' R :=
  fun _ _ _ _ _ _ _ _ _ _ _ _ _ _ _ hr inner reached enters _ hpos same =>
    delve_pair nil leads (pairs _ _ hr) inner reached enters hpos same

end Pairs

end Likeness

/-- Two searches without callbacks that go side by side: what belongs together is built alike. The
    first is followed from moment to moment. -/
structure Parallel (env env' : Env) (R : Moment → Prop) (L : Likeness) : Prop where
  text : ∃ front : Text, front.size = L.shift ∧ env'.text = front ++ env.text
  actions : env.actions = {}
  actions' : env'.actions = {}
  memoize : env.settings.memoize = L.memoize
  memoize' : env'.settings.memoize = L.memoize
  maxDepth : env'.settings.maxDepth = env.settings.maxDepth
  full {depth} (full : ¬depth ≤ env.settings.room) (room' : depth ≤ env'.settings.room) :
    L.lost .stackExhausted
  full' {depth} (room : depth ≤ env.settings.room) (full' : ¬depth ≤ env'.settings.room) :
    L.lost' .stackExhausted
  leads {m m'} (h : R m) (leads : Leads env m m') : R m'
  nil : L.captured [] []
  cons {key c c' outer outer'} (hc : L.captures c c') (ho : L.captured outer outer') :
    L.captured ((key, c) :: outer) ((key, c') :: outer')
  single {key c c'} (h : L.captured [(key, c)] [(key, c')]) : L.captures c c'
  build {name opened opened' stop stop' plural captured captured'} (ho : L.place opened opened')
    (hs : L.place stop stop') (h : L.captured captured captured') :
    L.captures (.build name opened stop plural none captured)
      (.build name opened' stop' plural none captured')
  node {rule rule' opened opened' stop stop' captured captured'} (hr : L.rule rule rule')
    (ho : L.place opened opened') (hs : L.place stop stop') (h : L.captured captured captured') :
    L.captures (node rule opened stop captured) (node rule' opened' stop' captured')
  rules {name} (h : L.call name) : L.answers (L.lexicon.rules name) (L.lexicon'.rules name)
  kind {rule rule'} (h : L.rule rule rule') : rule'.name = rule.name ∧ rule'.kind = rule.kind
  layer {p p'} (h : L.part p p') : L.Layer p p'
  pattern {rule rule'} (h : L.rule rule rule') (atomic : ¬rule.kind.atomic = true) :
    L.part rule.pattern rule'.pattern
  compete : L.Compete env env' R
  delve : L.Delve env env' R

namespace Parallel

open Likeness

variable {env env' : Env} {R : Moment → Prop} {L : Likeness} (P : Parallel env env' R L)

include P in
theorem captured_under {key : Option CaptureKey} {c c' : Capture} {outer outer' : Captured}
    (h : L.captures c c') (ho : L.captured outer outer') :
    L.captured (capturedUnder key c outer) (capturedUnder key c' outer') := by
  cases key with
  | none => exact ho
  | some key => exact P.cons h ho

/-! ## 6. Steps -/

section Steps

variable {name : String} {pos pos' : Int} {s s' : State}

/-- The same state, as far as it matters, belongs to the same states. -/
theorem same_steady {t t' : State} (same : L.same s s') (h : s.Steady t) (h' : s'.Steady t') :
    L.same t t' := by
  refine ⟨h.lexicon.trans same.lexicon, h'.lexicon.trans same.lexicon', fun on name i i' hi => ?_⟩
  rw [h.memo, h'.memo]
  exact same.kept on name i i' hi

/-- Steps that keep nothing and come to the same. -/
theorem pace_steady {α α' : Type} {A : α → α' → Prop} {x : Run α} {y : Run α'} {a : α} {a' : α'}
    (same : L.same s s') (hx : x.Ensures s fun o t => s.Steady t ∧ o = .ok a)
    (hy : y.Ensures s' fun o t => s'.Steady t ∧ o = .ok a') (h : A a a') :
    L.Pace A (x s) (y s') := by
  cases ex : x s with
  | error f t => cases (hx.error ex).2
  | ok b t =>
    cases ey : y s' with
    | error f t => cases (hy.error ey).2
    | ok b' t' =>
      obtain ⟨steady, first⟩ := hx.ok ex
      obtain ⟨steady', second⟩ := hy.ok ey
      cases first
      cases second
      exact .ok h (same_steady same steady steady')

include P

theorem pace_lookup (h : L.call name) (same : L.same s s') :
    L.Pace L.rule (Run.lookup name s) (Run.lookup name s') := by
  have answers := P.rules h
  rw [← same.lexicon, ← same.lexicon'] at answers
  cases hx : Run.lookup name s with
  | ok rule t =>
    obtain ⟨steady, first⟩ := (Run.lookup_spec name).ok hx
    cases hy : Run.lookup name s' with
    | ok rule' t' =>
      obtain ⟨steady', second⟩ := (Run.lookup_spec name).ok hy
      rw [← first, ← second] at answers
      cases answers with
      | known h => exact .ok h (same_steady same steady steady')
    | error f t' =>
      obtain ⟨_, second⟩ := (Run.lookup_spec name).error hy
      rw [← first, ← second] at answers
      cases answers
  | error f t =>
    obtain ⟨steady, first⟩ := (Run.lookup_spec name).error hx
    cases hy : Run.lookup name s' with
    | ok rule' t' =>
      obtain ⟨_, second⟩ := (Run.lookup_spec name).ok hy
      rw [← first, ← second] at answers
      cases answers
    | error f' t' =>
      obtain ⟨steady', second⟩ := (Run.lookup_spec name).error hy
      rw [← first, ← second] at answers
      cases answers with
      | unknown =>
        refine .failed (.inr ⟨rfl, name, ?_⟩) (same_steady same steady steady')
        rw [← same.lexicon, ← first]

theorem pace_enter {depth : Nat} (hpos : L.place pos pos') (same : L.same s s') :
    L.Pace (fun _ _ => True) (Run.enter env depth pos s) (Run.enter env' depth pos' s') := by
  have steady (pos : Int) (s : State) : s.Steady (s.entered depth pos) := by
    unfold State.entered
    split
    · exact ⟨rfl, rfl, List.suffix_refl _, id⟩
    · exact .refl s
  have later := same_steady same (steady pos s) (steady pos' s')
  rw [Run.enter_eq, Run.enter_eq, P.maxDepth]
  cases env.settings.maxDepth with
  | none => exact .ok trivial later
  | some limit =>
    by_cases beyond : limit < depth
    · simp only [if_pos beyond]
      exact .failed (.inl (congrArg (Failure.depthLimit depth) hpos.moved)) later
    · simp only [if_neg beyond]
      exact .ok trivial later

theorem pace_remembered (hpos : L.place pos pos') (same : L.same s s') :
    L.Pace (Option.Rel L.verdict) (Run.remembered env name pos s)
      (Run.remembered env' name pos' s') := by
  by_cases on : L.memoize = true
  · have memoize := P.memoize.trans on
    have memoize' := P.memoize'.trans on
    have pair := same.kept on name pos pos' hpos
    cases held : s.memo[(name, pos)]? with
    | none =>
      rw [held] at pair
      generalize held' : s'.memo[(name, pos')]? = kept' at pair
      cases pair
      rw [Run.remembered_none memoize held, Run.remembered_none memoize' held']
      exact .ok .none same
    | some kept =>
      rw [held] at pair
      generalize held' : s'.memo[(name, pos')]? = kept' at pair
      cases pair with
      | some h =>
        rw [Run.remembered_held memoize held, Run.remembered_held memoize' held']
        exact .ok (.some h) ⟨same.lexicon, same.lexicon', same.kept⟩
  · unfold Run.remembered
    rw [if_neg (fun h => on (P.memoize.symm.trans h)), if_neg fun h => on (P.memoize'.symm.trans h)]
    exact .ok .none same

theorem pace_settle {v v' : Verdict} (hv : L.verdict v v') (hpos : L.place pos pos')
    (same : L.same s s') :
    L.Pace (fun _ _ => True) (Run.settle env name pos v s) (Run.settle env' name pos' v' s') := by
  have spec := Run.settle_spec (s := s) env name pos v
  have spec' := Run.settle_spec (s := s') env' name pos' v'
  cases hx : Run.settle env name pos v s with
  | error f t => cases (spec.error hx).2.1
  | ok u t =>
    cases hy : Run.settle env' name pos' v' s' with
    | error f t => cases (spec'.error hy).2.1
    | ok u' t' =>
      obtain ⟨grows, _, _, memo⟩ := spec.ok hx
      obtain ⟨grows', _, _, memo'⟩ := spec'.ok hy
      refine .ok trivial ⟨grows.lexicon.trans same.lexicon, grows'.lexicon.trans same.lexicon', ?_⟩
      intro on other i i' hi
      rw [memo, memo', if_pos (P.memoize.trans on), if_pos (P.memoize'.trans on),
        Std.HashMap.getElem?_insert, Std.HashMap.getElem?_insert]
      by_cases here : (name, pos) = (other, i)
      · rw [if_pos (beq_iff_eq.mpr here), if_pos (beq_iff_eq.mpr ((place_eq hpos hi).mpr here))]
        exact .some hv
      · rw [if_neg (fun h => here (beq_iff_eq.mp h)),
          if_neg fun h => here ((place_eq hpos hi).mp (beq_iff_eq.mp h))]
        exact same.kept on other i i' hi

theorem pace_finish {rule rule' : Rule} {opened opened' : Int} {captured captured' : Captured}
    (hr : L.rule rule rule') (ho : L.place opened opened') (hpos : L.place pos pos')
    (caps : L.captured captured captured') (same : L.same s s') :
    L.Pace L.captures (Run.finish env rule opened pos captured s)
      (Run.finish env' rule' opened' pos' captured' s') := by
  have plain {env : Env} (none : env.actions = {}) (rule : Rule) (opened pos : Int)
      (captured : Captured) : Run.finish env rule opened pos captured =
        pure (Match.node rule opened pos captured) := by
    unfold Run.finish
    rw [none]
    rfl
  rw [plain P.actions, plain P.actions']
  exact pace_pure (P.node hr ho hpos caps) same

end Steps

/-! ## 7. The leaves of a pattern -/

section Leaves

variable {pos pos' : Int} {s s' : State}

/-- Either nothing is in front, or the position is not before the first text. -/
theorem still_or_nonneg (hpos : L.place pos pos') : L.shift = 0 ∨ 0 ≤ pos := by
  rcases Nat.eq_zero_or_pos L.shift with still | front
  · exact .inl still
  · exact .inr (hpos.nonneg front)

include P

/-- Where nothing is in front, the texts are the same. -/
theorem text_still (still : L.shift = 0) : env'.text = env.text := by
  obtain ⟨front, size, text⟩ := P.text
  rw [text, Array.eq_empty_of_size_eq_zero (size.trans still)]
  exact Array.empty_append

theorem bounds_stop : env'.bounds.stop = env.bounds.stop + L.shift := by
  obtain ⟨front, size, text⟩ := P.text
  show env'.text.stop = env.text.stop + L.shift
  rw [text, Text.stop_prepended, size]

theorem pair_literalStop (chars : List Char) (ignoreCase : Bool) (hpos : L.place pos pos') :
    Option.Rel L.place (literalStop? env.text chars ignoreCase pos)
      (literalStop? env'.text chars ignoreCase pos') := by
  have moved : literalStop? env'.text chars ignoreCase pos' =
      (literalStop? env.text chars ignoreCase pos).map (· + (L.shift : Int)) := by
    rcases still_or_nonneg hpos with still | nonneg
    · have same : (· + ((0 : Nat) : Int)) = id := funext Int.add_zero
      rw [P.text_still still, (place_still still).mp hpos, still, same, Option.map_id]
      rfl
    · obtain ⟨front, size, text⟩ := P.text
      rw [text, hpos.moved, ← size]
      exact literalStop_prepended front env.text chars ignoreCase nonneg
  rw [moved]
  cases found : literalStop? env.text chars ignoreCase pos with
  | none => exact .none
  | some stop =>
    refine .some ⟨rfl, fun front => ?_⟩
    have nonneg := hpos.nonneg front
    have later : stop = pos + chars.length := by
      unfold literalStop? at found
      exact (Option.some.inj (Option.ite_none_right_eq_some.mp found).2).symm
    omega

theorem classHolds_pair (items : List ClassItem) (negated ignoreCase : Bool)
    (hpos : L.place pos pos') :
    classHolds env'.text items negated ignoreCase pos' =
      classHolds env.text items negated ignoreCase pos := by
  rcases still_or_nonneg hpos with still | nonneg
  · rw [P.text_still still, (place_still still).mp hpos]
  · obtain ⟨front, size, text⟩ := P.text
    rw [text, hpos.moved, ← size]
    exact classHolds_prepended front env.text items negated ignoreCase nonneg

end Leaves

/-! ## 8. Parts of patterns -/

/-- The first solution is what a search of its own comes to. -/
theorem pace_firstOf {active active' : Active} {target target' : Option Int} {th th' : Thread}
    {s s' : State} {Q : Agenda → Agenda → Prop}
    (h : L.Pace (Option.Rel fun r r' => L.solution r.1 r'.1 ∧ Q r.2 r'.2)
      (Match.seek env active target [th] s) (Match.seek env' active' target' [th'] s')) :
    L.Pace (Option.Rel L.solution) (firstOf env active target th s)
      (firstOf env' active' target' th' s') := by
  refine pace_bind h fun found found' _ _ h after _ _ => pace_pure ?_ after
  cases h with
  | none => exact .none
  | some h => exact .some h.1

variable {active : Active} {target : Option Int} {goals : List Goal} {pos pos' : Int}
  {captured captured' : Captured} {rest : Agenda} {depth : Nat} {s₀ s s' : State}
  (room : depth ≤ env.bounds.room) (room' : depth ≤ env'.bounds.room)

/-- What a test comes to corresponds. -/
theorem pace_wayIf {m m' : Nat × Nat} (hpos : L.place pos pos')
    (caps : L.captured captured captured') (same : L.same s s') (holds : Bool) :
    L.Pace L.ways ((pure (wayIf env holds pos captured) : Run (List (Branch env.bounds m))) s)
      ((pure (wayIf env' holds pos' captured') : Run (List (Branch env'.bounds m'))) s') :=
  pace_pure (ways_wayIf env env' hpos caps holds) same

include P

/-- The longest branches correspond. -/
theorem expandLongest {branches branches' : List Pattern}
    (alike : L.part (.alternation .longest branches) (.alternation .longest branches'))
    (inner : L.Inner env env' R (Goal.partSize env.bounds depth))
    (reached : R ⟨active, target,
      ⟨.part (.alternation .longest branches) depth :: goals, pos, captured⟩ :: rest, s₀⟩)
    (entered : Run.enter env depth pos s₀ = .ok () s) (hpos : L.place pos pos')
    (caps : L.captured captured captured') (same : L.same s s') :
    L.Pace L.ways
      (expandPart env active depth room pos captured (solver env) (.alternation .longest branches) s)
      (expandPart env' (L.moved active) depth room' pos' captured' (solver env')
        (.alternation .longest branches') s') := by
  refine pace_bind (P.compete alike room inner reached entered hpos caps same)
    fun found found' _ _ h later _ _ => pace_pure ?_ later
  rw [Likeness.ways, List.forall₂_map_left_iff, List.forall₂_map_right_iff]
  exact h.imp fun u u' hu => ⟨.nil, hu.stop, hu.captured⟩

/-- Looking around comes to the same if the search inside does. -/
theorem expandLook {kind : LookKind} {body body' : Pattern} (alike : L.part body body')
    (behind : kind.backward = true → L.shift = 0 ∧ body'.width = body.width)
    (inner : L.Inner env env' R (Goal.partSize env.bounds depth))
    (reached : R ⟨active, target, ⟨.part (.look kind body) depth :: goals, pos, captured⟩ :: rest,
      s₀⟩)
    (entered : Run.enter env depth pos s₀ = .ok () s) (hpos : L.place pos pos')
    (caps : L.captured captured captured') (same : L.same s s') :
    L.Pace L.ways (expandPart env active depth room pos captured (solver env) (.look kind body) s)
      (expandPart env' (L.moved active) depth room' pos' captured' (solver env')
        (.look kind body') s') := by
  have answer {t t' : State} {found found' : Option Solution}
      (h : Option.Rel L.solution found found') (later : L.same t t') :
      L.Pace L.ways
        ((pure (wayIf env (found.isSome != kind.negative) pos captured) :
          Run (List (Branch env.bounds (Goal.partSize env.bounds depth)))) t)
        ((pure (wayIf env' (found'.isSome != kind.negative) pos' captured') :
          Run (List (Branch env'.bounds (Goal.partSize env'.bounds depth)))) t') := by
    have isSome : found'.isSome = found.isSome := by
      cases h with
      | none => rfl
      | some _ => rfl
    rw [isSome]
    exact pace_wayIf hpos caps later _
  simp only [Match.expandPart]
  by_cases hk : kind.backward = true
  · obtain ⟨still, width⟩ := behind hk
    have retreat : retreatFrom body' pos' = retreatFrom body pos := by
      unfold retreatFrom
      rw [width, (place_still still).mp hpos]
    have aim : L.aim (some pos) = some pos' := congrArg some hpos.moved.symm
    rw [if_pos hk, if_pos hk, retreat]
    refine pace_bind (A := Option.Rel L.solution) ?_ fun _ _ _ _ h later _ _ => answer h later
    have search := inner active (some pos)
      ⟨[.retreat body (retreatFrom body pos).1 depth], (retreatFrom body pos).2, []⟩
      ⟨[.retreat body' (retreatFrom body pos).1 depth], (retreatFrom body pos).2, []⟩ s s' ?_ ?_
      same ?_
    · rwa [aim] at search
    · exact List.forall_mem_singleton.mpr (Goal.retreat_under_part body _ depth)
    · exact ⟨.cons (.retreat alike still) .nil, (place_still still).mpr rfl, P.nil⟩
    · exact P.leads reached (.inner (.behind room entered hk))
  · rw [if_neg hk, if_neg hk]
    refine pace_bind (A := Option.Rel L.solution)
      (inner active none ⟨[.part body (depth + 1)], pos, []⟩ ⟨[.part body' (depth + 1)], pos', []⟩
        s s' ?_ ?_ same ?_)
      fun _ _ _ _ h later _ _ => answer h later
    · exact List.forall_mem_singleton.mpr (Goal.part_under_part room body)
    · exact ⟨.cons (.part alike) .nil, hpos, P.nil⟩
    · exact P.leads reached (.inner (.ahead room entered hk))

theorem expandPart {p p' : Pattern} (alike : L.part p p')
    (inner : L.Inner env env' R (Goal.partSize env.bounds depth))
    (reached : R ⟨active, target, ⟨.part p depth :: goals, pos, captured⟩ :: rest, s₀⟩)
    (entered : Run.enter env depth pos s₀ = .ok () s) (hpos : L.place pos pos')
    (caps : L.captured captured captured') (same : L.same s s') :
    L.Pace L.ways (expandPart env active depth room pos captured (solver env) p s)
      (expandPart env' (L.moved active) depth room' pos' captured' (solver env') p' s') := by
  cases P.layer alike with
  | literal chars ignoreCase =>
    have pair := P.pair_literalStop chars ignoreCase hpos
    simp only [Match.expandPart]
    generalize literalStop? env.text chars ignoreCase pos = stop at pair ⊢
    generalize literalStop? env'.text chars ignoreCase pos' = stop' at pair ⊢
    cases pair with
    | none => exact pace_pure .nil same
    | some h => exact pace_pure (way_one ⟨.nil, h, caps⟩) same
  | charClass items negated ignoreCase =>
    simp only [Match.expandPart]
    rw [P.classHolds_pair items negated ignoreCase hpos]
    have still := placeless_classHolds env.text items negated ignoreCase pos
    refine pace_bind (pace_ofExcept _ (fun f h => still f h _) same)
      fun holds _ t t' alike later _ _ => ?_
    subst alike
    exact pace_wayIf (place_forward hpos (by decide)) caps later holds
  | sequence parts =>
    refine pace_pure (way_one ⟨?_, hpos, caps⟩) same
    rw [List.forall₂_map_left_iff, List.forall₂_map_right_iff]
    exact parts.imp fun _ _ part => .part part
  | ordered branches =>
    refine pace_pure ?_ same
    rw [Likeness.ways, List.forall₂_map_left_iff, List.forall₂_map_right_iff]
    exact branches.imp fun _ _ part => ⟨.cons (.part part) .nil, hpos, caps⟩
  | longest branches branches' =>
    exact P.expandLongest room room' alike inner reached entered hpos caps same
  | repetition q body => exact pace_pure (ways_choices env env' hpos caps body) same
  | group key plural body =>
    cases key with
    | none => exact pace_pure (way_one ⟨.cons (.part body) .nil, hpos, caps⟩) same
    | some key =>
      have close : L.goal (.close key plural pos captured) (.close key plural pos' captured') :=
        .close hpos caps
      exact pace_pure (way_one ⟨.cons (.part body) (.cons close .nil), hpos, P.nil⟩) same
  | look kind body behind =>
    exact P.expandLook room room' body behind inner reached entered hpos caps same
  | anchor kind still =>
    simp only [Match.expandPart]
    rw [P.text_still still, (place_still still).mp hpos]
    have moved (f : Failure) : f.moved L.shift = f := by rw [still]; exact f.moved_zero
    refine pace_bind (pace_ofExcept _ (fun f _ => moved f) same)
      fun holds _ t t' alike later _ _ => ?_
    subst alike
    exact pace_wayIf ((place_still still).mpr rfl) caps later holds
  | ruleRef call => exact pace_pure (way_one ⟨.cons (.call call) .nil, hpos, caps⟩) same
  | whitespace still space own =>
    have known {x : Lexicon} {t : State} (hx : t.lexicon = x) :
        (Run.definesSpace : Run Bool).Ensures t fun o t' => t.Steady t' ∧ o = .ok x.space :=
      Run.definesSpace_spec.mono fun o t' h => ⟨h.1, h.2.trans (hx ▸ rfl)⟩
    simp only [Match.expandPart]
    refine pace_bind (A := fun b b' => b = b' ∧ b = L.lexicon.space)
      (pace_steady same (known same.lexicon) (known same.lexicon') ⟨space.symm, rfl⟩)
      fun own' _ t t' alike later _ _ => ?_
    obtain ⟨rfl, rfl⟩ := alike
    cases hown : L.lexicon.space with
    | true => exact pace_pure (way_one ⟨.cons (.call (own hown)) .nil, hpos, caps⟩) later
    | false =>
      rw [P.text_still still, (place_still still).mp hpos]
      have moved (f : Failure) : f.moved L.shift = f := by rw [still]; exact f.moved_zero
      refine pace_bind (pace_ofExcept _ (fun f _ => moved f) later)
        fun found _ t t' alike later _ _ => ?_
      subst alike
      cases found with
      | none => exact pace_pure .nil later
      | some stop => exact pace_pure (way_one ⟨.nil, (place_still still).mpr rfl, caps⟩) later

/-! ## 9. Rules -/

/-- Results of an atomic rule that was looked up, and its call counted, correspond. -/
theorem verdict {name : String} {key : Option CaptureKey} {rule rule' : Rule} {s₁ : State}
    (hr : L.rule rule rule') (inner : L.Inner env env' R (Goal.callSize env.bounds depth))
    (reached : R ⟨active, target, ⟨.call name key depth :: goals, pos, captured⟩ :: rest, s₀⟩)
    (known : Run.lookup name s₀ = .ok rule s₁) (counted : Run.countCall s₁ = .ok () s)
    (atomic : rule.kind.atomic = true) (hpos : L.place pos pos') (same : L.same s s') :
    L.Pace L.verdict (verdict env active depth room pos (solver env) rule s)
      (verdict env' (L.moved active) depth room' pos' (solver env') rule' s') := by
  obtain ⟨name_eq, _⟩ := P.kind hr
  unfold Match.verdict
  rw [name_eq]
  refine pace_bind (P.pace_remembered hpos same) fun kept kept' t t' h later missed _ => ?_
  cases h with
  | some h => exact pace_pure h later
  | none =>
    have contains := contains_moved active rule.name hpos
    by_cases entered : active.contains (rule.name, pos) = true
    · simp only [if_pos entered, if_pos (contains.trans entered)]
      have noted {t : State} : (Run.log (.reentered rule.name pos) t) =
          .ok () { t with trace := .reentered rule.name pos :: t.trace } := rfl
      refine pace_bind (A := fun _ _ => True) (.ok trivial ?_) fun _ _ _ _ _ after _ _ =>
        pace_pure .none after
      exact ⟨later.lexicon, later.lexicon', later.kept⟩
    · simp only [if_neg entered, if_neg fun h => entered (contains.symm.trans h)]
      have enters : Enters env active name depth pos s₀ rule t := by
        refine ⟨room, ⟨s₁, known, ?_⟩, atomic, entered⟩
        cases counted
        exact missed
      have keep {v v' : Verdict} {t t' : State} (hv : L.verdict v v') (after : L.same t t') :
          L.Pace L.verdict ((do Run.settle env rule.name pos v; return v : Run Verdict) t)
            ((do Run.settle env' rule.name pos' v'; return v' : Run Verdict) t') :=
        pace_bind (P.pace_settle hv hpos after) fun _ _ _ _ _ after _ _ => pace_pure hv after
      refine pace_bind (A := Option.Rel L.solution)
        (P.delve hr inner reached enters room' hpos later) fun found found' u u' h after _ _ => ?_
      cases h with
      | none => exact keep .none after
      | some h =>
        exact pace_bind (P.pace_finish hr hpos h.stop h.captured after)
          fun c c' _ _ hc after _ _ => keep (.some ⟨h.stop, hc⟩) after

theorem expandCall {name : String} {key : Option CaptureKey} (call : L.call name)
    (inner : L.Inner env env' R (Goal.callSize env.bounds depth))
    (reached : R ⟨active, target, ⟨.call name key depth :: goals, pos, captured⟩ :: rest, s⟩)
    (hpos : L.place pos pos') (caps : L.captured captured captured') (same : L.same s s') :
    L.Pace L.ways (expandCall env active depth room pos captured (solver env) name key s)
      (expandCall env' (L.moved active) depth room' pos' captured' (solver env') name key s') := by
  refine pace_bind (P.pace_lookup call same) fun rule rule' t t' hr later known _ => ?_
  refine pace_bind (A := fun _ _ => True)
    (.ok trivial ⟨later.lexicon, later.lexicon', later.kept⟩) fun _ _ u u' _ after counted _ => ?_
  obtain ⟨_, kind⟩ := P.kind hr
  rw [kind]
  by_cases atomic : rule.kind.atomic = true
  · simp only [if_pos atomic]
    refine pace_bind (P.verdict room room' hr inner reached known counted atomic hpos after)
      fun v v' _ _ h after _ _ => ?_
    cases h with
    | none => exact pace_pure .nil after
    | some h =>
      refine pace_pure (way_one ⟨.nil, h.1, ?_⟩) after
      exact P.captured_under h.2 caps
  · simp only [if_neg atomic]
    have finish : L.goal (.finish rule key pos captured) (.finish rule' key pos' captured') :=
      .finish hr hpos caps
    have goals : L.goal (.part rule.pattern (depth + 1)) (.part rule'.pattern (depth + 1)) :=
      .part (P.pattern hr atomic)
    exact pace_pure (way_one ⟨.cons goals (.cons finish .nil), hpos, P.nil⟩) after

/-! ## 10. Searches -/

/-- **What goals that belong together are worked off to belongs together.** -/
theorem expand {g g' : Goal} (inner : L.Inner env env' R (g.size env.bounds))
    (reached : R ⟨active, target, ⟨g :: goals, pos, captured⟩ :: rest, s⟩)
    (hg : L.goal g g') (hpos : L.place pos pos') (caps : L.captured captured captured')
    (same : L.same s s') :
    L.Pace L.ways (expand env active pos captured g (solver env) s)
      (expand env' (L.moved active) pos' captured' g' (solver env') s') := by
  cases hg with
  | part part =>
    refine pace_bind (P.pace_enter hpos same) fun _ _ t t' _ later entered _ => ?_
    exact pace_level P.full P.full' later fun room room' =>
      P.expandPart room room' part inner reached entered hpos caps later
  | call call =>
    exact pace_level P.full P.full' same fun room room' =>
      P.expandCall room room' call inner reached hpos caps same
  | @round q body body' count opened opened' depth part ho =>
    refine pace_level P.full P.full' same fun room room' => ?_
    have stop := P.bounds_stop
    have lt := place_lt ho hpos
    have moved := ho.moved
    by_cases further : opened < pos ∧ opened < env.bounds.stop
    · rw [dif_pos further, dif_pos (show opened' < pos' ∧ opened' < env'.bounds.stop by omega)]
      exact pace_pure (ways_choices env env' hpos caps part) same
    · rw [dif_neg further, dif_neg (show ¬(opened' < pos' ∧ opened' < env'.bounds.stop) by omega)]
      exact pace_pure (way_one ⟨.nil, hpos, caps⟩) same
  | close ho outer =>
    exact pace_pure (way_one ⟨.nil, hpos, P.cons (P.build ho hpos caps) outer⟩) same
  | finish hr ho outer =>
    exact pace_bind (P.pace_finish hr ho hpos caps same) fun c c' _ _ hc later _ _ =>
      pace_pure (way_one ⟨.nil, hpos, P.captured_under hc outer⟩) later
  | @retreat body body' left depth part still =>
    cases left with
    | zero => exact pace_pure .nil same
    | succ left =>
      refine pace_level P.full P.full' same fun room room' => pace_pure ?_ same
      have back : L.place (pos - 1) (pos' - 1) :=
        (place_still still).mpr (congrArg (· - 1) ((place_still still).mp hpos))
      exact .cons ⟨.cons (.part part) .nil, hpos, caps⟩
        (way_one ⟨.cons (.retreat part still) .nil, back, caps⟩)

/-- **Two parallel searches correspond**, and so do the agendas that they leave behind. -/
theorem seek {agenda agenda' : Agenda} (reached : R ⟨active, target, agenda, s⟩)
    (h : List.Forall₂ L.thread agenda agenda') (same : L.same s s') :
    L.Pace (Option.Rel fun r r' => L.solution r.1 r'.1 ∧ List.Forall₂ L.thread r.2 r'.2)
      (seek env active target agenda s)
      (seek env' (L.moved active) (L.aim target) agenda' s') := by
  induction active, target, agenda using seek.induct env generalizing agenda' s s' with
  | case1 active target =>
    cases h
    rw [seek.eq_1, seek.eq_1]
    exact pace_pure .none same
  | case2 active target pos captured rest accepted =>
    obtain ⟨⟨_, pos', captured'⟩, rest', ⟨goals, hpos, caps⟩, hrest, rfl⟩ :=
      List.forall₂_cons_left_iff.mp h
    cases goals
    rw [seek.eq_2, seek.eq_2, if_pos accepted, if_pos ((accepts_aim target hpos).trans accepted)]
    exact pace_pure (.some ⟨⟨hpos, caps⟩, hrest⟩) same
  | case3 active target pos captured rest passed ih =>
    obtain ⟨⟨_, pos', captured'⟩, rest', ⟨goals, hpos, caps⟩, hrest, rfl⟩ :=
      List.forall₂_cons_left_iff.mp h
    cases goals
    rw [seek.eq_2, seek.eq_2, if_neg passed,
      if_neg fun accepted => passed ((accepts_aim target hpos).symm.trans accepted)]
    exact ih (P.leads reached (.passed passed)) hrest same
  | case4 active target g goals pos captured rest ihSolve ihWays =>
    obtain ⟨⟨_, pos', captured'⟩, rest', ⟨all, hpos, caps⟩, hrest, rfl⟩ :=
      List.forall₂_cons_left_iff.mp h
    obtain ⟨g', goals', hg, hgoals, rfl⟩ := List.forall₂_cons_left_iff.mp all
    rw [seek_goal, seek_goal]
    refine pace_bind (P.expand ?_ reached hg hpos caps same)
      fun ways ways' t t' hways later worked _ => ?_
    · intro active' target' th th' t t' below hth later reached'
      exact pace_firstOf (ihSolve active' target' th below reached' (.cons hth .nil) later)
    · refine ihWays ways (P.leads reached (.worked worked)) (List.rel_append ?_ hrest) later
      rw [List.forall₂_map_left_iff, List.forall₂_map_right_iff]
      exact hways.imp fun w w' hw => thread_way hw hgoals

end Parallel

/-! ## 11. Questions -/

namespace Likeness

variable (L : Likeness)

/-- Queries that belong together. -/
inductive query : Query → Query → Prop
  | pattern {p p' : Pattern} (h : L.part p p') (plural : p'.pluralKeys = p.pluralKeys) :
      query (.pattern p) (.pattern p')
  | rule {name : String} (h : L.call name) (anchored : Bool) :
      query (.rule name anchored) (.rule name anchored)

/-- Outcomes that belong together, unless one of the two was given up. -/
inductive outcome {α α' : Type} (A : α → α' → Prop) : Except Failure α → Except Failure α' → Prop
  | lost {f : Failure} (h : L.lost f) (o : Except Failure α') : outcome A (.error f) o
  | lost' {f : Failure} (h : L.lost' f) (o : Except Failure α) : outcome A o (.error f)
  | ok {a : α} {a' : α'} (h : A a a') : outcome A (.ok a) (.ok a')
  | failed {f f' : Failure} (h : L.failure f f') : outcome A (.error f) (.error f')

variable {L}

/-- What matchers answer belongs together if the computations do. -/
theorem Pace.advance {α α' : Type} {A : α → α' → Prop} {m m' : Matcher} {x : Run α} {y : Run α'}
    (h : L.Pace A (x m.state) (y m'.state)) : L.outcome A (m.advance x).1 (m'.advance y).1 := by
  unfold Matcher.advance
  generalize x m.state = r at h ⊢
  generalize y m'.state = r' at h ⊢
  cases h with
  | lost h => exact .lost h _
  | lost' h => exact .lost' h _
  | ok h _ => exact .ok h
  | failed h _ => exact .failed h

/-- Matchers that have kept nothing yet are in states that belong together. -/
theorem same_start {registry registry' : Option Registry}
    (lexicon : Lexicon.of registry = L.lexicon) (lexicon' : Lexicon.of registry' = L.lexicon') :
    L.same { registry } { registry := registry' } := by
  refine ⟨lexicon, lexicon', fun _ name pos pos' _ => ?_⟩
  rw [Std.HashMap.getElem?_empty, Std.HashMap.getElem?_empty]
  exact .none

end Likeness

namespace Parallel

open Likeness

variable {env env' : Env} {R : Moment → Prop} {L : Likeness} (P : Parallel env env' R L)
  {pos pos' : Int} {s s' : State}

include P

/-- The searches for queries that belong together correspond. -/
theorem search {q q' : Query} (hq : L.query q q')
    (reached : R ⟨[], q.target env.text, [⟨[q.goal], pos, []⟩], s⟩) (hpos : L.place pos pos')
    (same : L.same s s') :
    L.Pace (Option.Rel fun r r' => L.solution r.1 r'.1 ∧ List.Forall₂ L.thread r.2 r'.2)
      (Match.seek env [] (q.target env.text) [⟨[q.goal], pos, []⟩] s)
      (Match.seek env' [] (q'.target env'.text) [⟨[q'.goal], pos', []⟩] s') := by
  have stop : env'.text.stop = env.text.stop + L.shift := P.bounds_stop
  have aim : q'.target env'.text = L.aim (q.target env.text) := by
    cases hq with
    | pattern h plural => rfl
    | rule h anchored =>
      show (if anchored then some env'.text.stop else none) =
        L.aim (if anchored then some env.text.stop else none)
      rw [stop]
      cases anchored <;> rfl
  have goal : L.goal q.goal q'.goal := by
    cases hq with
    | pattern h plural => exact .part h
    | rule h anchored => exact .call h
  rw [aim]
  exact P.seek reached (.cons ⟨.cons goal .nil, hpos, P.nil⟩ .nil) same

/-- **Queries that belong together come to what belongs together.** -/
theorem query {q q' : Query} (hq : L.query q q')
    (reached : R ⟨[], q.target env.text, [⟨[q.goal], pos, []⟩], s⟩) (hpos : L.place pos pos')
    (same : L.same s s') (sound : s.Sound env.text) (sound' : s'.Sound env'.text) :
    L.Pace (Option.Rel L.found) (q.run env pos s) (q'.run env' pos' s') := by
  have search := P.search hq reached hpos same
  cases hq with
  | pattern h plural =>
    refine pace_bind search fun found found' _ _ h later _ _ => ?_
    cases h with
    | none => exact pace_pure .none later
    | some h =>
      refine pace_pure (.some ⟨h.1.stop, ?_⟩) later
      rw [plural]
      exact P.build hpos h.1.stop h.1.captured
  | @rule name _ anchored =>
    have note {found found' : Option Found} (matched : Bool) {t t' : State}
        (h : Option.Rel L.found found found') (later : L.same t t') :
        L.Pace (Option.Rel L.found) ((do Run.logRun name pos matched; return found) t)
          ((do Run.logRun name pos' matched; return found') t') :=
      pace_bind (A := fun _ _ => True) (.ok trivial ⟨later.lexicon, later.lexicon', later.kept⟩)
        fun _ _ _ _ _ after _ _ => pace_pure h after
    refine pace_bind search fun found found' t t' h later hx hy => ?_
    cases h with
    | none => exact note false .none later
    | @some r r' h =>
      obtain ⟨⟨stop, captured⟩, rest⟩ := r
      obtain ⟨⟨stop', captured'⟩, rest'⟩ := r'
      obtain ⟨⟨c, rfl⟩, _⟩ := called_captured sound hx
      obtain ⟨⟨c', rfl⟩, _⟩ := called_captured sound' hy
      exact note true (.some ⟨h.1.stop, P.single h.1.captured⟩) later

/-- Tasks that begin with the same rule, which has to exist before anything is matched, come to
    what belongs together. -/
theorem checked {task task' : Grammar.Task} (start : task'.start = task.start)
    (call : L.call task.start) (anchored : Bool)
    (reached : ∀ rule t, Run.lookup task.start s = .ok rule t →
      R ⟨[], (Query.rule task.start anchored).target env.text,
        [⟨[(Query.rule task.start anchored).goal], pos, []⟩], t⟩)
    (hpos : L.place pos pos') (same : L.same s s') (sound : s.Sound env.text)
    (sound' : s'.Sound env'.text) :
    L.Pace (Option.Rel L.found)
      ((do task.check; Matcher.runRule env task.start pos anchored) s)
      ((do task'.check; Matcher.runRule env' task'.start pos' anchored) s') := by
  have check (task : Grammar.Task) {α : Type} (k : Run α) :
      (do task.check; k) = (do let _ ← Run.lookup task.start; k) := by
    funext s
    unfold Grammar.Task.check
    simp only [bind, EStateM.bind]
    cases Run.lookup task.start s <;> rfl
  rw [check, check, start]
  refine pace_bind (P.pace_lookup call same) fun rule rule' t t' _ later known known' => ?_
  refine P.query (.rule call anchored) (reached rule t known) hpos later ?_ ?_
  · exact sound_steady ((Run.lookup_spec _).ok known).1 sound
  · exact sound_steady ((Run.lookup_spec _).ok known').1 sound'

end Parallel

end GrammarMatch.Match
