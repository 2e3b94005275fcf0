/-
  File:      GrammarMatch/Proofs/Translation.lean
  Subject:   Matching further on in a longer text.

  A pattern that asks neither where it stands nor what stands before it, and comes to no rule that
  does, matches after something that is put in front of the text as it matches without: with the
  same failures, the same nodes and the same texts, all positions moved on (`ask_prepended`).
  Whether results are kept makes no difference: they are kept under positions that are moved on.
-/
import GrammarMatch.Proofs.Parallel
import GrammarMatch.Proofs.Safety

namespace GrammarMatch

open Match

/-! ## 1. Captures further on -/

mutual

/-- The capture, with all its positions moved on. -/
def Capture.moved (k : Int) : Capture → Capture
  | .node label inside =>
    .node { label with start := label.start + k, stop := label.stop + k } (movedAll k inside)

/-- The captures of a scope, with all their positions moved on. -/
def Capture.movedAll (k : Int) : List (CaptureKey × Capture) → List (CaptureKey × Capture)
  | [] => []
  | (key, c) :: rest => (key, c.moved k) :: movedAll k rest

end

/-- The texts of all nodes of a capture, each before those inside it. -/
def Capture.texts (source : Text) (c : Capture) : List String := c.walk.map (Capture.text source)

namespace Match

variable (front text : Text)

/-- A capture of the text, and the same capture after what is put in front: of the same texts. -/
structure Onto (c c' : Capture) : Prop where
  moved : c' = c.moved front.size
  texts : c'.texts (front ++ text) = c.texts text

/-- What was captured in one scope, and the same after what is put in front. -/
abbrev OntoAll : Captured → Captured → Prop :=
  List.Forall₂ fun e e' => e.1 = e'.1 ∧ Onto front text e.2 e'.2

variable {front text}

theorem onto_inside {captured captured' : Captured} (h : OntoAll front text captured captured') :
    captured' = Capture.movedAll front.size captured ∧
      (Capture.walkAll captured').map (Capture.text (front ++ text)) =
        (Capture.walkAll captured).map (Capture.text text) := by
  induction h with
  | nil => exact ⟨rfl, rfl⟩
  | @cons e e' captured captured' pair _ ih =>
    obtain ⟨key, c⟩ := e
    obtain ⟨key', c'⟩ := e'
    obtain ⟨rfl, onto⟩ := pair
    constructor
    · exact congrArg₂ List.cons (congrArg (Prod.mk key) onto.moved) ih.1
    · have texts : c'.walk.map _ = c.walk.map _ := onto.texts
      rw [Capture.walkAll, Capture.walkAll, List.map_append, List.map_append, texts, ih.2]

/-- A capture of a span is built further on from what is further on. -/
theorem onto_build {name : Option CaptureKey} {start stop : Int} {plural : List CaptureKey}
    {rule : Option String} {captured captured' : Captured}
    (nonneg : 0 < front.size → 0 ≤ start ∧ 0 ≤ stop) (h : OntoAll front text captured captured') :
    Onto front text (.build name start stop plural rule captured)
      (.build name (start + front.size) (stop + front.size) plural rule captured') := by
  obtain ⟨moved, texts⟩ := onto_inside (List.rel_reverse h)
  have own : (front ++ text : Text).slice (start + front.size) (stop + front.size) =
      text.slice start stop := by
    rcases Nat.eq_zero_or_pos front.size with none | some
    · rw [Array.eq_empty_of_size_eq_zero none, Array.empty_append]
      exact congrArg₂ text.slice (Int.add_zero start) (Int.add_zero stop)
    · exact Text.slice_prepended front text (nonneg some).1 (nonneg some).2
  constructor
  · unfold Capture.build
    rw [moved, Capture.moved]
  · unfold Capture.build Capture.texts
    rw [Capture.walk, Capture.walk, List.map_cons, List.map_cons, texts]
    exact congrArg (· :: _) (congrArg String.ofList own)

end Match

/-! ## 2. What looks only forward -/

/-- The pattern asks neither where it stands nor what stands before it. -/
inductive Pattern.Forward : Pattern → Prop
  | literal {chars : List Char} {ignoreCase : Bool} : Forward (.literal chars ignoreCase)
  | charClass {items : List ClassItem} {negated ignoreCase : Bool} :
      Forward (.charClass items negated ignoreCase)
  | sequence {parts : List Pattern} (h : ∀ p ∈ parts, Forward p) : Forward (.sequence parts)
  | alternation {mode : ChoiceMode} {branches : List Pattern} (h : ∀ p ∈ branches, Forward p) :
      Forward (.alternation mode branches)
  | repetition {q : Quantity} {body : Pattern} (h : Forward body) : Forward (.repetition q body)
  | group {key : Option CaptureKey} {plural : List CaptureKey} {body : Pattern}
      (h : Forward body) : Forward (.group key plural body)
  | look {kind : LookKind} {body : Pattern} (ahead : kind.backward = false) (h : Forward body) :
      Forward (.look kind body)
  | ruleRef {r : Reference} : Forward (.ruleRef r)

/-- What is asked for asks neither where it stands nor what stands before it. -/
def Query.Forward : Query → Prop
  | .pattern p => p.Forward
  | .rule _ _ => True

/-- Neither the query nor any rule that it may come to asks where it stands or what stands before
    it. -/
structure Query.Carefree (x : Lexicon) (q : Query) : Prop where
  query : q.Forward
  rules : ∀ name rule, x.Reaches (q.Calls x.space) name → x.rules name = .ok rule →
    rule.pattern.Forward

/-! ## 3. Outcomes further on -/

/-- The outcome in a text, and the same outcome after what is put in front: the end and all nodes
    moved on, the texts the same, and the same failure. A failure to compile a rule tells no
    position of the text. -/
inductive Displaced (x : Lexicon) (front text : Text) :
    Except Failure (Option Found) → Except Failure (Option Found) → Prop
  | unmatched : Displaced x front text (.ok none) (.ok none)
  | found {r : Found}
      (texts : (r.capture.moved front.size).texts (front ++ text) = r.capture.texts text) :
      Displaced x front text (.ok (some r))
        (.ok (some ⟨r.stop + front.size, r.capture.moved front.size⟩))
  | failed (f : Failure) : Displaced x front text (.error f) (.error (f.moved front.size))
  | uncompiled {f : Failure} {name : String} (h : x.rules name = .error f) :
      Displaced x front text (.error f) (.error f)

namespace Match

/-- The same search further on. -/
def forwards (front text : Text) (x : Lexicon) (memoize : Bool) (q : Query) : Likeness where
  shift := front.size
  lexicon := x
  lexicon' := x
  memoize := memoize
  captures := Onto front text
  captured := OntoAll front text
  lost _ := False
  lost' _ := False
  part p p' := p' = p ∧ p.Forward ∧ ∀ name, p.Calls x.space name → x.Reaches (q.Calls x.space) name
  rule rule rule' := rule' = rule ∧ rule.pattern.Forward ∧
    ∀ name, rule.pattern.Calls x.space name → x.Reaches (q.Calls x.space) name
  call name := x.Reaches (q.Calls x.space) name

section Forwards

variable {front text : Text} {x : Lexicon} {memoize : Bool} {q : Query}

theorem forwards_inside {p : Pattern} {l : List Pattern} (forward : ∀ c ∈ l, c.Forward)
    (inside : ∀ c ∈ l, c ∈ p.children)
    (calls : ∀ name, p.Calls x.space name → x.Reaches (q.Calls x.space) name) :
    List.Forall₂ (forwards front text x memoize q).part l l :=
  List.forall₂_same.mpr fun c hc =>
    ⟨rfl, forward c hc, fun name h => calls name (.child (inside c hc) h)⟩

theorem forwards_layer {p p' : Pattern} (h : (forwards front text x memoize q).part p p') :
    (forwards front text x memoize q).Layer p p' := by
  obtain ⟨alike, forward, calls⟩ := h
  subst alike
  have body {c : Pattern} (hc : c.Forward) (inside : c ∈ p'.children) :
      (forwards front text x memoize q).part c c :=
    ⟨rfl, hc, fun name h => calls name (.child inside h)⟩
  cases forward with
  | literal => exact .literal _ _
  | charClass => exact .charClass _ _ _
  | @sequence parts forward =>
    exact .sequence (forwards_inside (p := .sequence parts) forward (fun _ h => h) calls)
  | @alternation mode branches forward =>
    cases mode with
    | ordered =>
      exact .ordered
        (forwards_inside (p := .alternation .ordered branches) forward (fun _ h => h) calls)
    | longest => exact .longest _ _
  | repetition h => exact .repetition _ (body h List.mem_cons_self)
  | group h => exact .group _ _ (body h List.mem_cons_self)
  | look ahead h =>
    refine .look _ (body h List.mem_cons_self) fun behind => ?_
    rw [ahead] at behind
    cases behind
  | ruleRef => exact .ruleRef (calls _ .ruleRef)

/-- **The search further on is parallel**, in any settings. -/
theorem forwards_parallel (settings : Settings) (carefree : q.Carefree x) :
    Parallel ⟨text, {}, settings⟩ ⟨front ++ text, {}, settings⟩ (fun _ => True)
      (forwards front text x settings.memoize q) where
  text := ⟨front, rfl, rfl⟩
  actions := rfl
  actions' := rfl
  memoize := rfl
  memoize' := rfl
  maxDepth := rfl
  full full room := absurd room full
  full' room full := absurd room full
  leads _ _ := trivial
  nil := .nil
  cons hc ho := .cons ⟨rfl, hc⟩ ho
  single h := by
    cases h with
    | cons pair _ => exact pair.2
  build ho hs h := by
    rw [ho.moved, hs.moved]
    exact onto_build (fun some => ⟨ho.nonneg some, hs.nonneg some⟩) h
  node := by
    rintro rule _ opened opened' stop stop' captured captured' ⟨rfl, _⟩ ho hs h
    unfold node
    rw [ho.moved, hs.moved]
    exact onto_build (fun some => ⟨ho.nonneg some, hs.nonneg some⟩) h
  rules := by
    intro name reached
    show Likeness.answers _ (x.rules name) (x.rules name)
    cases known : x.rules name with
    | error f => exact .unknown f
    | ok rule =>
      exact .known ⟨rfl, carefree.rules name rule reached known,
        fun callee calls => .rule reached known calls⟩
  kind := by
    rintro rule _ ⟨rfl, _⟩
    exact ⟨rfl, rfl⟩
  layer := forwards_layer
  pattern := by
    rintro rule _ ⟨rfl, h⟩ _
    exact ⟨rfl, h⟩
  compete := by
    refine Likeness.compete_pairs ?_ fun _ _ _ _ => trivial
    rintro branches branches' ⟨alike, forward, calls⟩
    cases alike
    cases forward with
    | alternation forward =>
      exact forwards_inside (p := .alternation .longest branches) forward (fun _ h => h) calls
  delve := by
    refine Likeness.delve_pairs List.Forall₂.nil (fun _ _ _ _ => trivial) ?_
    rintro rule _ ⟨rfl, h⟩
    exact ⟨rfl, h⟩

/-- Outcomes of parallel searches further on are displaced. -/
theorem displaced_of {o o' : Except Failure (Option Found)}
    (h : (forwards front text x memoize q).outcome
      (Option.Rel (forwards front text x memoize q).found) o o') : Displaced x front text o o' := by
  cases h with
  | lost h => exact h.elim
  | lost' h => exact h.elim
  | @ok found found' h =>
    cases h with
    | none => exact .unmatched
    | @some r r' h =>
      obtain ⟨stop, capture⟩ := r'
      obtain ⟨⟨rfl, _⟩, rfl, texts⟩ := h
      exact .found texts
  | failed h =>
    rcases h with rfl | ⟨rfl, name, unknown⟩
    · exact .failed _
    · exact .uncompiled unknown

end Forwards

/-! ## 4. Questions further on -/

section Questions

variable (front text : Text) (registry : Option Registry) (settings : Settings) {q : Query}
  {pos : Int} (nonneg : 0 ≤ pos) (carefree : q.Carefree (Lexicon.of registry))

include nonneg carefree

/-- The computation for a query further on. -/
theorem query_prepended :
    (forwards front text (Lexicon.of registry) settings.memoize q).Pace
      (Option.Rel (forwards front text (Lexicon.of registry) settings.memoize q).found)
      (q.run ⟨text, {}, settings⟩ pos { registry })
      (q.run ⟨front ++ text, {}, settings⟩ (pos + front.size) { registry }) := by
  have parallel : Parallel ⟨text, {}, settings⟩ ⟨front ++ text, {}, settings⟩ (fun _ => True)
      (forwards front text (Lexicon.of registry) settings.memoize q) :=
    forwards_parallel settings carefree
  have query : (forwards front text (Lexicon.of registry) settings.memoize q).query q q := by
    cases q with
    | pattern p => exact .pattern ⟨rfl, carefree.query, fun name h => .called h⟩ rfl
    | rule name anchored =>
      have called : (Query.rule name anchored).Calls (Lexicon.of registry).space name := rfl
      exact .rule (Lexicon.Reaches.called called) anchored
  exact parallel.query query trivial ⟨rfl, fun _ => nonneg⟩ (Likeness.same_start rfl rfl)
    (sound_start text registry) (sound_start (front ++ text) registry)

/-- **A query comes to the same further on.** -/
theorem displaced_query :
    Displaced (Lexicon.of registry) front text
      ((Matcher.start text registry {} settings).ask q pos).1
      ((Matcher.start (front ++ text) registry {} settings).ask q (pos + front.size)).1 :=
  displaced_of (query_prepended front text registry settings nonneg carefree).advance

end Questions

/-- **A partial parse comes to the same further on.** -/
theorem displaced_subparse (front text : Text) (r : Registry) (settings : Settings)
    {start : String} {pos : Int} (here : text.Span 0 pos)
    (carefree : (Query.rule start false).Carefree (Lexicon.of (some r))) :
    Displaced (Lexicon.of (some r)) front text
      (Grammar.subparse r ⟨text, start, {}, settings⟩ pos).1
      (Grammar.subparse r ⟨front ++ text, start, {}, settings⟩ (pos + front.size)).1 := by
  let L := forwards front text (Lexicon.of (some r)) settings.memoize (.rule start false)
  have parallel : Parallel ⟨text, {}, settings⟩ ⟨front ++ text, {}, settings⟩ (fun _ => True) L :=
    forwards_parallel settings carefree
  have same : L.same { registry := some r } { registry := some r } :=
    Likeness.same_start rfl rfl
  have further : (front ++ text : Text).Span 0 (pos + front.size) := by
    have := here.le
    have := here.le_stop
    have := Text.stop_prepended front text
    exact ⟨Int.le_refl 0, by omega, by omega⟩
  obtain ⟨cursor, found⟩ := Cursor.at_span here
  obtain ⟨cursor', found'⟩ := Cursor.at_span further
  apply displaced_of (q := .rule start false)
  show L.outcome (Option.Rel L.found) _ _
  refine Likeness.Pace.advance ?_
  refine Likeness.pace_bind (A := fun _ _ => True) ?_ fun _ _ t t' _ later hx hy => ?_
  · show L.Pace _ (Run.ofExcept (Cursor.at text pos) _)
      (Run.ofExcept (Cursor.at (front ++ text) (pos + front.size)) _)
    rw [found, found']
    exact .ok trivial same
  · have called : (Query.rule start false).Calls (Lexicon.of (some r)).space start := rfl
    exact parallel.checked rfl (Lexicon.Reaches.called called) false (fun _ _ _ => trivial)
      ⟨rfl, fun _ => here.le⟩ later
      (sound_steady ((Run.ofExcept_spec _).ok hx).1 (sound_start text (some r)))
      (sound_steady ((Run.ofExcept_spec _).ok hy).1 (sound_start (front ++ text) (some r)))

end Match

/-- **Matching does not depend on what stands before**: a query that asks neither where it stands
    nor what stands before it, and comes to no rule that does, has after anything that is put in
    front the outcome that it has without, moved on. So does a partial parse. -/
theorem matching_displaced (front text : Text) (settings : Settings) :
    (∀ registry q pos, 0 ≤ pos → q.Carefree (Lexicon.of registry) →
      Displaced (Lexicon.of registry) front text
        ((Matcher.start text registry {} settings).ask q pos).1
        ((Matcher.start (front ++ text) registry {} settings).ask q (pos + front.size)).1) ∧
    ∀ r start pos, text.Span 0 pos → (Query.rule start false).Carefree (Lexicon.of (some r)) →
      Displaced (Lexicon.of (some r)) front text
        (Grammar.subparse r ⟨text, start, {}, settings⟩ pos).1
        (Grammar.subparse r ⟨front ++ text, start, {}, settings⟩ (pos + front.size)).1 :=
  ⟨fun registry _ _ nonneg carefree =>
      displaced_query front text registry settings nonneg carefree,
    fun r _ _ here carefree => displaced_subparse front text r settings here carefree⟩

/-- The rule for a letter comes to no other rule. -/
theorem letter_carefree : (Query.rule "letter" false).Carefree (Lexicon.of (some letters)) := by
  have reached (name : String)
      (h : (Lexicon.of (some letters)).Reaches ((Query.rule "letter" false).Calls false) name) :
      name = "letter" := by
    induction h with
    | called h => exact h
    | rule _ known calls ih =>
      subst ih
      cases known
      cases calls with
      | child hc _ => cases hc
  refine ⟨trivial, fun name rule h known => ?_⟩
  rw [reached name h] at known
  cases known
  exact .literal

/-- A letter is found after two other characters as it is found at the start. -/
theorem matching_displaced_letter :
    Text.Span #['a'] 0 0 ∧ (Query.rule "letter" false).Carefree (Lexicon.of (some letters)) ∧
      Displaced (Lexicon.of (some letters)) #['b', 'c'] #['a']
        ((Matcher.start #['a'] (some letters) {} {}).ask (.rule "letter" false) 0).1
        ((Matcher.start #['b', 'c', 'a'] (some letters) {} {}).ask (.rule "letter" false) 2).1 ∧
      Displaced (Lexicon.of (some letters)) #['b', 'c'] #['a']
        (Grammar.subparse letters ⟨#['a'], "letter", {}, {}⟩ 0).1
        (Grammar.subparse letters ⟨#['b', 'c', 'a'], "letter", {}, {}⟩ 2).1 := by
  have here : Text.Span #['a'] 0 0 := Text.span_self (Int.le_refl 0) (by decide)
  obtain ⟨asked, parsed⟩ := matching_displaced #['b', 'c'] #['a'] {}
  exact ⟨here, letter_carefree,
    asked (some letters) (.rule "letter" false) 0 (Int.le_refl 0) letter_carefree,
    parsed letters "letter" 0 here letter_carefree⟩

end GrammarMatch
