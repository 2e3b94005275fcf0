/-
  File:      GrammarMatch/Proofs/Reports.lean
  Subject:   What a call of the program reports: all or nothing.

  What a session says on the way makes no difference to what its steps come to (`Step.Comes`), so
  a session comes to the outcome of its call. There are five ways for it to end (`Call.Ends`). From
  these the report is read off (`run_settles`): the status tells whether there was a failure that is
  reported, no capture, or some; without a capture nothing is printed and no file is changed; the
  captures are written as a whole, to one place.
-/
import GrammarMatch.Proofs.FileWriting
import GrammarMatch.Proofs.JsonLines
import GrammarMatch.Proofs.Sessions

namespace GrammarMatch.CommandLine

/-! ## 1. Steps -/

section Steps

variable {α β : Type}

/-- A step comes to a value or to a failure, whatever was said before. -/
def Step.Comes (x : Step α) (v : Except Failure α) : Prop :=
  ∀ said, ∃ said', x said = match v with
    | .ok a => .ok a said'
    | .error f => .error (.failure f) said'

theorem comes_pure (a : α) : Step.Comes (pure a) (.ok a) := fun said => ⟨said, rfl⟩

theorem comes_throw (f : Failure) : Step.Comes (throw (.failure f) : Step α) (.error f) :=
  fun said => ⟨said, rfl⟩

theorem comes_bind {x : Step α} {v : Except Failure α} {k : α → Step β} {w : α → Except Failure β}
    (hx : x.Comes v) (hk : ∀ a, v = .ok a → (k a).Comes (w a)) :
    Step.Comes (x >>= k) (v.bind w) := by
  intro said
  obtain ⟨said', run⟩ := hx said
  cases v with
  | error f =>
    refine ⟨said', ?_⟩
    show EStateM.bind x k said = _
    simp only [EStateM.bind, run]
    rfl
  | ok a =>
    obtain ⟨said'', further⟩ := hk a rfl said'
    refine ⟨said'', ?_⟩
    show EStateM.bind x k said = _
    simp only [EStateM.bind, run]
    exact further

/-- A step after one that comes to a known value. -/
theorem comes_after {x : Step α} {a : α} (hx : x.Comes (.ok a)) {k : α → Step β}
    {w : Except Failure β} (hk : (k a).Comes w) : Step.Comes (x >>= k) w :=
  comes_bind hx (w := fun _ => w) fun a' same => by
    cases same
    exact hk

/-- Before a step that makes something of the value, and cannot fail. -/
theorem comes_map {x : Step α} {v : Except Failure α} (hx : x.Comes v) {k : α → Step β} {g : α → β}
    (hk : ∀ a, (k a).Comes (.ok (g a))) : Step.Comes (x >>= k) (v.map g) := by
  have same : v.map g = v.bind fun a => .ok (g a) := by cases v <;> rfl
  rw [same]
  exact comes_bind hx fun a _ => hk a

theorem comes_say (m : Message) : (say m).Comes (.ok ()) := fun said => ⟨m :: said, rfl⟩

/-- A step before which something may be said. -/
theorem comes_aside {b : Prop} [Decidable b] {m : Message} {y : Step β} {w : Except Failure β}
    (hy : y.Comes w) : Step.Comes (if b then say m >>= fun _ => y else y) w := by
  split
  · exact comes_after (comes_say m) hy
  · exact hy

theorem comes_log (level : Level) (text : String) : (log level text).Comes (.ok ()) := comes_say _

theorem comes_ofExcept (v : Except Failure α) : (ofExcept v).Comes v := by
  cases v with
  | ok a => exact comes_pure a
  | error f => exact comes_throw f

theorem comes_forM {l : List α} {k : α → Step Unit} (each : ∀ a, (k a).Comes (.ok ())) :
    Step.Comes (l.forM k) (.ok ()) := by
  induction l with
  | nil => exact comes_pure ()
  | cons a l ih => exact comes_after (each a) ih

theorem comes_logRuns (m : Matcher) : (logRuns m).Comes (.ok ()) := by
  refine comes_forM fun event => ?_
  cases event with
  | ran => exact comes_log _ _
  | _ => exact comes_pure ()

theorem comes_readFile {files : FileTree} {path content : String}
    (h : files.read path = .ok content) :
    (readFile files path).Comes (.ok (plainLines content.toList)) := by
  unfold readFile
  rw [h]
  exact comes_pure _

theorem comes_defineAll (r : Registry) (ds : List Registry.Declaration) :
    (defineAll r ds).Comes ((ds.map .declared).foldlM Registry.defineSpec r) := by
  induction ds generalizing r with
  | nil => exact comes_pure r
  | cons d ds ih =>
    rw [List.map_cons, List.foldlM_cons]
    exact comes_bind (comes_ofExcept _) fun r' _ => comes_after (comes_log _ _) (ih r')

/-- **A grammar is loaded**, with messages on the way. -/
theorem comes_loadGrammar {files : FileTree} {path content : String}
    (h : files.read path = .ok content) : (loadGrammar files path).Comes
      (GrammarFile.load (plainLines content.toList) (some path)) := by
  refine comes_after (comes_readFile h) ?_
  unfold GrammarFile.load
  cases GrammarFile.read (plainLines content.toList) (some path) with
  | error e => exact comes_throw _
  | ok file =>
    refine comes_after (comes_log _ _) (comes_after (comes_log _ _) ?_)
    have same : (GrammarFile.compile file).map id = GrammarFile.compile file :=
      congrFun Except.map_id _
    show Step.Comes _ (GrammarFile.compile file)
    rw [← same]
    exact comes_map (comes_defineAll .empty file.rules) fun r =>
      comes_after (comes_log _ _) (comes_pure r)

end Steps

/-! ## 2. Sessions -/

theorem settings_make {maxDepth : Option Int} (positive : ∀ limit ∈ maxDepth, 1 ≤ limit) :
    Settings.make maxDepth true = .ok { maxDepth := maxDepth.map Int.toNat } := by
  cases maxDepth with
  | none => rfl
  | some limit => exact if_neg (Int.not_lt.mpr (positive limit rfl))

namespace Call

variable {c : Call} {files : FileTree} {args : List String} (made : c.Made files args)

include made

/-- **The text is matched** in the mode that is asked for. -/
theorem comes_matchInput (r : Registry) :
    (matchInput c.options r c.chars).Comes (c.sought r) := by
  have limit : Step.Comes (c.options.maxDepth.mapM (Setting.needed .maxDepth)) (.ok c.maxDepth) := by
    rw [made.maxDepth]
    cases c.maxDepth <;> exact comes_pure _
  unfold matchInput
  refine comes_after limit ?_
  rw [settings_make made.positive, made.start]
  refine comes_after (comes_pure _) (comes_after (comes_log _ _) (comes_after (comes_pure _) ?_))
  -- what was said of the runs does not matter, so the matcher that is left is put aside
  unfold sought task
  dsimp only
  split
  · rcases Grammar.scan r _ with ⟨⟨found, _ | f⟩, m⟩
    · exact comes_after (comes_logRuns m) (comes_after (comes_log _ _) (comes_pure found))
    · exact comes_after (comes_logRuns m) (comes_throw f)
  · split
    · rcases Grammar.subparse r _ 0 with ⟨v, m⟩
      exact comes_after (comes_logRuns m) (comes_map (comes_ofExcept v) fun _ => comes_pure _)
    · rcases Grammar.parse r _ with ⟨v, m⟩
      exact comes_after (comes_logRuns m) (comes_map (comes_ofExcept v) fun _ =>
        comes_after (comes_log _ _) (comes_pure _))

/-- **A session comes to the outcome of its call.** -/
theorem comes_results :
    (results files c.options c.grammar c.input).Comes (c.outcome.map fun found => (c.chars, found)) := by
  have same : c.outcome.map (fun found => (c.chars, found)) =
      c.registry.bind fun r => (c.sought r).map fun found => (c.chars, found) := by
    unfold outcome
    cases c.registry <;> rfl
  rw [same]
  refine comes_bind (comes_loadGrammar made.code) fun r _ => ?_
  refine comes_aside (comes_after (comes_readFile made.text) ?_)
  exact comes_map (comes_matchInput made r) fun found => comes_aside (comes_pure _)

/-! ## 3. Ends -/

/-- The ways for a session to end. -/
inductive Ends (c : Call) (files : FileTree) : Report → Prop
  /-- With a failure that is reported. -/
  | failed {f : Failure} {messages : List Message} (fails : c.outcome = .error f)
      (reported : isReported f = true) : Ends c files ⟨.status 2, "", messages, files⟩
  /-- With one that is not. -/
  | broken {f : Failure} {messages : List Message} (fails : c.outcome = .error f)
      (unforeseen : ¬isReported f = true) : Ends c files ⟨.broken (.failure f), "", messages, files⟩
  /-- Without a capture. -/
  | unmatched {messages : List Message} (empty : c.outcome = .ok []) :
      Ends c files ⟨.status 1, "", messages, files⟩
  /-- With captures that are printed. -/
  | printed {found : List Capture} {messages : List Message} (captured : found ≠ [])
      (comes : c.outcome = .ok found) (unfiled : c.file = none) :
      Ends c files ⟨.status 0, written c.options c.chars found, messages, files⟩
  /-- With captures that are written to a file. -/
  | filed {found : List Capture} {messages : List Message} {path : String} {files' : FileTree}
      (captured : found ≠ []) (comes : c.outcome = .ok found) (filed : c.file = some path)
      (wrote : files.write path (written c.options c.chars found) = .ok files') :
      Ends c files ⟨.status 0, "", messages, files'⟩

/-- **There is no other way for a session to end.** -/
theorem session_ends :
    c.Ends files (session files c.options c.level c.grammar c.input) := by
  obtain ⟨said, run⟩ := comes_results made []
  unfold session
  cases outcome : c.outcome with
  | error f =>
    rw [outcome] at run
    simp only [run, Except.map]
    split
    · exact .failed outcome ‹_›
    · exact .broken outcome ‹_›
  | ok found =>
    rw [outcome] at run
    simp only [run, Except.map]
    cases found with
    | nil => exact .unmatched outcome
    | cons first rest =>
      dsimp only
      cases filed : c.file with
      | none =>
        rw [show c.options.output.filter _ = _ from filed]
        exact .printed (List.cons_ne_nil _ _) outcome filed
      | some path =>
        obtain ⟨place, aimed⟩ := made.writable path filed
        have wrote (content : String) : files.write path content = .ok (files.put place content) :=
          congrArg (Except.map _) aimed
        rw [show c.options.output.filter _ = _ from filed]
        simp only [wrote]
        exact .filed (List.cons_ne_nil _ _) outcome filed (wrote _)

/-- **A call ends as its session does.** -/
theorem run_ends (parser : String) : c.Ends files (run files args parser) := by
  have named {path content : String} (h : files.read path = .ok content) :
      (some path).filter (!·.isEmpty) = some path :=
    Option.filter_some_pos (by simpa using FileTree.read_named h)
  unfold run
  rw [made.options]
  simp only [made.session, made.grammar, made.input, named made.code, named made.text, made.level]
  exact session_ends made

end Call

/-! ## 4. Reports -/

namespace Call

variable {c : Call} {files : FileTree}

/-- All captures are written, in order: each as a value on a line of its own, or as one list. -/
def Renders (c : Call) (found : List Capture) (text : String) : Prop :=
  if c.options.prettyPrint then
    text = Json.lines (.list (found.map (·.toDatum c.chars))) ++ "\n"
  else
    text.toList.splitOn '\n' =
      found.map (fun capture => (Json.line (capture.toDatum c.chars)).toList) ++ [[]]

/-- A text is printed and no file is changed, or it is what the file for the output holds now, and
    at no other place is something else found than before. -/
def Delivers (c : Call) (files : FileTree) (text : String) (r : Report) : Prop :=
  match c.file with
  | none => r.output = text ∧ r.files = files
  | some path => r.output = "" ∧ r.files.read path = .ok text ∧
      ∃ place, files.target path = .ok place ∧
        ∀ p, r.files.entry? p = if p = place then some (.file text) else files.entry? p

/-- **A report says what became of the call**, and gives all or nothing. -/
structure Settled (c : Call) (files : FileTree) (r : Report) : Prop where
  /-- Status 2 is for the failures that are reported. -/
  failure : r.ending = .status 2 ↔ ∃ f, c.outcome = .error f ∧ isReported f = true
  /-- Status 1 is for no capture. -/
  unmatched : r.ending = .status 1 ↔ c.outcome = .ok []
  /-- Status 0 is for captures. -/
  success : r.ending = .status 0 ↔ ∃ first rest, c.outcome = .ok (first :: rest)
  /-- There is no other end for a grammar that repeats nothing less than not at all. -/
  ends : c.Sensible → r.ending = .status 0 ∨ r.ending = .status 1 ∨ r.ending = .status 2
  /-- At any end but that with status 0 nothing is printed, and no file is changed. -/
  withheld : r.ending ≠ .status 0 → r.output = "" ∧ r.files = files
  /-- Captures are delivered all together. -/
  delivered : ∀ found, c.outcome = .ok found → found ≠ [] →
    ∃ text, c.Renders found text ∧ c.Delivers files text r

theorem renders_written (found : List Capture) : c.Renders found (written c.options c.chars found) := by
  unfold Renders written
  split
  · rfl
  · rw [Json.splitOn_lines, List.map_map]
    rfl

namespace Ends

variable {r : Report} (h : c.Ends files r)

include h

theorem failure_iff : r.ending = .status 2 ↔ ∃ f, c.outcome = .error f ∧ isReported f = true := by
  cases h with
  | failed fails reported => exact iff_of_true rfl ⟨_, fails, reported⟩
  | broken fails unforeseen => simp [fails, unforeseen]
  | unmatched empty => simp [empty]
  | printed _ comes => simp [comes]
  | filed _ comes => simp [comes]

theorem unmatched_iff : r.ending = .status 1 ↔ c.outcome = .ok [] := by
  cases h with
  | failed fails => simp [fails]
  | broken fails => simp [fails]
  | unmatched empty => exact iff_of_true rfl empty
  | printed captured comes => simp [comes, captured]
  | filed captured comes => simp [comes, captured]

theorem success_iff : r.ending = .status 0 ↔ ∃ first rest, c.outcome = .ok (first :: rest) := by
  cases h with
  | failed fails => simp [fails]
  | broken fails => simp [fails]
  | unmatched empty => simp [empty]
  | printed captured comes => simpa [comes] using List.exists_cons_of_ne_nil captured
  | filed captured comes => simpa [comes] using List.exists_cons_of_ne_nil captured

theorem foreseen (sensible : c.Sensible) :
    r.ending = .status 0 ∨ r.ending = .status 1 ∨ r.ending = .status 2 := by
  cases h with
  | failed => exact .inr (.inr rfl)
  | broken fails unforeseen => exact absurd (outcome_foreseen sensible _ fails) unforeseen
  | unmatched => exact .inr (.inl rfl)
  | printed => exact .inl rfl
  | filed => exact .inl rfl

theorem withheld (h' : r.ending ≠ .status 0) : r.output = "" ∧ r.files = files := by
  cases h with
  | failed => exact ⟨rfl, rfl⟩
  | broken => exact ⟨rfl, rfl⟩
  | unmatched => exact ⟨rfl, rfl⟩
  | printed => exact absurd rfl h'
  | filed => exact absurd rfl h'

theorem delivered {found : List Capture} (comes : c.outcome = .ok found) (captured : found ≠ []) :
    ∃ text, c.Renders found text ∧ c.Delivers files text r := by
  refine ⟨_, renders_written found, ?_⟩
  unfold Delivers
  cases h with
  | failed fails => cases fails.symm.trans comes
  | broken fails => cases fails.symm.trans comes
  | unmatched empty =>
    cases empty.symm.trans comes
    exact absurd rfl captured
  | printed _ comes' unfiled =>
    cases comes'.symm.trans comes
    rw [unfiled]
    exact ⟨rfl, rfl⟩
  | filed _ comes' filed wrote =>
    cases comes'.symm.trans comes
    rw [filed]
    exact ⟨rfl, FileTree.read_write wrote⟩

end Ends

end Call

/-- **The program reports all or nothing.** Called for two files that can be read, a rule to start
    with and a limit on nesting that is positive, if there is one, it ends with status 2 just when
    loading or matching fails in a way that is reported, with status 1 just when there is no
    capture, and with status 0 just when there are some; then all of them are written, in order and
    to one place, and otherwise nothing is written. Where no rule that can be called repeats
    something less than not at all, there is no other end: none, that is, as long as the stack of the
    machine has room for compiling the patterns of the grammar and for writing out the captures. The
    want of room there is no failure of a session here, and nothing would report it; while the text
    is matched it is one, and is reported. -/
theorem run_settles {c : Call} {files : FileTree} {args : List String} (made : c.Made files args)
    (parser : String) : c.Settled files (run files args parser) :=
  have ends := Call.run_ends made parser
  ⟨ends.failure_iff, ends.unmatched_iff, ends.success_iff, ends.foreseen, ends.withheld,
    fun _ comes captured => ends.delivered comes captured⟩

/-- A scan for letters, with a file for the output. -/
def letterCall : Call where
  options := { grammar := some "g", input := some "t", scan := true, output := some "o" }
  level := .warning
  start := "TOP"
  maxDepth := none
  grammar := "g"
  code := "version 1.0\ntoken TOP = a\n"
  input := "t"
  text := "aba"

/-- The files it reads. -/
def letterFiles : FileTree where
  files := [(["g"], letterCall.code), (["t"], letterCall.text)]

theorem letterCall_made :
    letterCall.Made letterFiles ["g", "t", "--scan", "-o", "o"] where
  options := by cbv
  session := rfl
  level := rfl
  start := rfl
  maxDepth := rfl
  positive _ h := by cases h
  grammar := rfl
  code := by cbv
  input := rfl
  text := by cbv
  writable := by
    rintro path ⟨⟩
    exact ⟨["o"], by cbv⟩

/-- The registry it makes. -/
def letterRegistry : Registry :=
  Registry.empty.put "TOP" (.compiled ⟨"TOP", .token, .literal ['a'] false, .none⟩)

theorem letterCall_registry : letterCall.registry = .ok letterRegistry := by cbv

theorem letterCall_sensible : letterCall.Sensible := by
  intro r same
  cases letterCall_registry.symm.trans same
  have only (name : String)
      (h : (Match.Lexicon.of (some letterRegistry)).Reaches (· = "TOP") name) : name = "TOP" := by
    induction h with
    | called h => exact h
    | rule _ known calls ih =>
      subst ih
      cases known
      cases calls with
      | child hc _ => cases hc
  intro name rule reached known
  cases only name reached
  cases known
  exact .literal

/-- The two letters of a text are found, and written to a file line by line. -/
theorem run_settles_letters :
    letterCall.Made letterFiles ["g", "t", "--scan", "-o", "o"] ∧ letterCall.Sensible ∧
      letterCall.outcome = .ok [.node ⟨some (.name "TOP"), 0, 1, some "TOP", none, []⟩ [],
        .node ⟨some (.name "TOP"), 2, 3, some "TOP", none, []⟩ []] ∧
      letterCall.Settled letterFiles
        (run letterFiles ["g", "t", "--scan", "-o", "o"] "1.0") := by
  refine ⟨letterCall_made, letterCall_sensible, ?_, run_settles letterCall_made "1.0"⟩
  rw [Call.outcome, letterCall_registry]
  cbv

/-- A repetition that asks for less than no rounds, in what is looked for behind the start. -/
def behindCall : Call where
  options := { grammar := some "g", input := some "t" }
  level := .warning
  start := "TOP"
  maxDepth := none
  grammar := "g"
  code := "version 1.0\nregex TOP = (?<=\\ba\x7b-1\x7d)\n"
  input := "t"
  text := ""

/-- The files it reads. -/
def behindFiles : FileTree where
  files := [(["g"], behindCall.code), (["t"], behindCall.text)]

/-- Where something is repeated less than not at all, a session can come to an end that has no
    status: a character is read behind the end of the text. -/
theorem run_unsettled : behindCall.Made behindFiles ["g", "t"] ∧
    (run behindFiles ["g", "t"] "1.0").ending = .broken (.failure .outsideText) ∧
      ∀ code, (run behindFiles ["g", "t"] "1.0").ending ≠ .status code := by
  have made : behindCall.Made behindFiles ["g", "t"] := {
    options := by cbv
    session := rfl
    level := rfl
    start := rfl
    maxDepth := rfl
    positive := fun _ h => by cases h
    grammar := rfl
    code := by cbv
    input := rfl
    text := by cbv
    writable := fun _ h => by cases h }
  have comes : behindCall.outcome = .error .outsideText := by cbv
  have broken {r : Report} (ends : behindCall.Ends behindFiles r) :
      r.ending = .broken (.failure .outsideText) := by
    cases ends with
    | failed fails reported =>
      cases comes.symm.trans fails
      cases reported
    | broken fails =>
      cases comes.symm.trans fails
      rfl
    | unmatched empty => cases comes.symm.trans empty
    | printed _ comes' => cases comes.symm.trans comes'
    | filed _ comes' => cases comes.symm.trans comes'
  have ending := broken (Call.run_ends made "1.0")
  refine ⟨made, ending, fun code same => ?_⟩
  cases ending.symm.trans same

end GrammarMatch.CommandLine
