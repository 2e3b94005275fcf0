/-
  File:      GrammarMatch/Proofs/Sessions.lean
  Subject:   What a call of the program asks for, and what becomes of it.

  A call names a grammar, a text, a start rule and a mode. What becomes of it is the outcome of
  loading the grammar and then matching the text (`Call.outcome`), with nothing said of messages,
  files and exits: a failure, or the captures of the mode. A scan that fails on the way has failed.
  Where no rule that can be called repeats something less than not at all, every failure is one that
  is reported (`Call.outcome_foreseen`).
-/
import GrammarMatch.CommandLine.Session
import GrammarMatch.Proofs.Loading
import GrammarMatch.Proofs.Safety

namespace GrammarMatch

open Match

/-! ## 1. The rules of a grammar file -/

namespace Registry

variable {ds : List Declaration} {r : Registry}

/-- A name stands for what its last declaration makes, or else for a built-in rule. -/
theorem Enters.resolve (h : Enters ds r) (name : String) :
    (∃ (d : Declaration) (flags : Flags) (p : Pattern), d.name = name ∧ d.Makes flags p ∧
      r.resolve name = .ok ⟨d.name, d.kind, p, flags⟩) ∨
    r.resolve name = match Rule.builtin? name with
      | some rule => .ok rule
      | none => .error (.undefinedRule name) := by
  unfold Registry.resolve
  by_cases declared : ∃ d ∈ ds, d.name = name
  · obtain ⟨before, d, after, split, rfl, last⟩ := last_declaration declared
    obtain ⟨flags, p, made, held⟩ := h.declared before d after split last
    rw [held]
    exact .inl ⟨d, flags, p, rfl, made, rfl⟩
  · rw [h.undeclared name fun d hd same => declared ⟨d, hd, same⟩]
    exact .inr rfl

theorem Enters.compiled (h : Enters ds r) : (Lexicon.of (some r)).Compiled := by
  intro name rule known
  rcases h.resolve name with ⟨d, flags, p, -, made, found⟩ | found
  · cases found.symm.trans known
    exact Pattern.compiled_compile _ _ _ _ made.compiles
  · have known : (match Rule.builtin? name with
      | some rule => Except.ok rule
      | none => .error (Failure.undefinedRule name)) = .ok rule := found.symm.trans known
    split at known
    · rename_i builtin
      cases known
      exact compiled_builtin builtin
    · cases known

/-- Only a name for which there is no rule is not found. -/
theorem Enters.unknown (h : Enters ds r) {name : String} {f : Failure}
    (failed : r.resolve name = .error f) : f = .undefinedRule name := by
  rcases h.resolve name with ⟨d, flags, p, -, made, found⟩ | found
  · cases found.symm.trans failed
  · rw [found] at failed
    split at failed <;> cases failed
    rfl

end Registry

/-- A registry that was loaded holds what the file declares. -/
theorem GrammarFile.enters_load {code : List Char} {path : Option String} {r : Registry}
    (h : load code path = .ok r) : ∃ ds, Registry.Enters ds r := by
  rw [load] at h
  split at h
  · cases h
  · rename_i file reads
    rcases Registry.run_declared Registry.enters_empty (known_read reads) with
      ⟨r', run, enters⟩ | ⟨_, _, _, _, _, _, _, run⟩
    · cases run.symm.trans h
      exact ⟨_, enters⟩
    · cases run.symm.trans h

namespace CommandLine

/-! ## 2. Calls -/

/-- What the program is called for: its options, and the values of those that must not be void;
    both files with their contents. -/
structure Call where
  options : Options
  level : Level
  start : String
  maxDepth : Option Int
  grammar : String
  code : String
  input : String
  text : String

namespace Call

/-- The file for the output, if there is one. -/
def file (c : Call) : Option String := c.options.output.filter (!·.isEmpty)

/-- The program is called for this: the arguments are in order, a limit on nesting is positive, both
    files can be read, and a file for the output can be written. -/
structure Made (c : Call) (files : FileTree) (args : List String) : Prop where
  options : CommandLine.read args = .options c.options
  session : c.options.version = false
  level : c.options.logLevel = .value c.level
  start : c.options.start = .value c.start
  maxDepth : c.options.maxDepth = c.maxDepth.map .value
  positive : ∀ limit ∈ c.maxDepth, 1 ≤ limit
  grammar : c.options.grammar = some c.grammar
  code : files.read c.grammar = .ok c.code
  input : c.options.input = some c.input
  text : files.read c.input = .ok c.text
  writable : ∀ path ∈ c.file, ∃ place, files.target path = .ok place

variable (c : Call)

/-- The characters to be matched. -/
def chars : Text := (plainLines c.text.toList).toArray

/-- What the matching works with: there are no callbacks. -/
def task : Grammar.Task where
  text := c.chars
  start := c.start
  actions := {}
  settings := { maxDepth := c.maxDepth.map Int.toNat }

/-- The registry of the grammar. -/
def registry : Except Failure Registry :=
  GrammarFile.load (plainLines c.code.toList) (some c.grammar)

/-- The captures of the mode, in order. What a scan found before it failed does not count. -/
def sought (r : Registry) : Except Failure (List Capture) :=
  if c.options.scan then
    match (Grammar.scan r c.task).1 with
    | ⟨found, none⟩ => .ok found
    | ⟨_, some f⟩ => .error f
  else if c.options.subparse then
    (Grammar.subparse r c.task 0).1.map fun found => (found.map Found.capture).toList
  else (Grammar.parse r c.task).1.map Option.toList

/-- **What becomes of a call.** -/
def outcome : Except Failure (List Capture) := c.registry.bind c.sought

/-- No rule that the start rule can come to repeats something less than not at all.

    Room is reckoned with only while the text is matched: there the want of it is a failure like
    others, and is reported. What it takes to read and compile the grammar, and to write out
    captures, is set aside. A pattern that is nested so deep that the stack of the machine runs out
    while it is compiled would end the session there, without a report, and so would a capture that
    is nested too deep to be written out. -/
def Sensible : Prop :=
  ∀ r, c.registry = .ok r → ∀ name rule, (Lexicon.of (some r)).Reaches (· = c.start) name →
    (Lexicon.of (some r)).rules name = .ok rule → rule.pattern.NonNegative

/-! ## 3. Failures -/

/-- A failure that is reported. -/
abbrev Foreseen {α : Type} (v : Except Failure α) : Prop := Fails (isReported · = true) v

variable {c}

theorem registry_foreseen : Foreseen c.registry := by
  have loads := GrammarFile.loads (plainLines c.code.toList) (some c.grammar)
  intro f failed
  rw [show GrammarFile.load _ _ = _ from failed] at loads
  cases loads with
  | refused | attributed => rfl

/-- The guard of the matching: what can go wrong are a rule that is missing, a limit on nesting, and
    want of room. -/
def guard (sensible : c.Sensible) {ds : List Registry.Declaration} {r : Registry}
    (loaded : c.registry = .ok r) (enters : Registry.Enters ds r) :
    Guard ⟨c.chars, {}, c.task.settings⟩ (Lexicon.of (some r)) :=
  within _ (· = c.start) (isReported · = true) enters.compiled rfl (sensible r loaded) rfl
    (fun depth pos f failed => by
      unfold Basis.entry at failed
      split at failed
      · split at failed <;> cases failed
        rfl
      · cases failed)
    fun name f _ failed => by
      rw [enters.unknown failed]
      rfl

theorem sought_foreseen (sensible : c.Sensible) {r : Registry} (loaded : c.registry = .ok r) :
    Foreseen (c.sought r) := by
  obtain ⟨ds, enters⟩ := GrammarFile.enters_load loaded
  let G := guard sensible loaded enters
  have keeps : (c.task.matcher r).KeepsTo _ _ :=
    Matcher.keepsTo_start (some r) c.chars {} c.task.settings
  have call : G.call [] 1 c.start := .called rfl
  unfold sought
  split
  · have scanned : ∀ f ∈ (Grammar.scan r c.task).1.failure, isReported f = true :=
      G.scan keeps call
    split
    · exact fails_ok _
    · rename_i f same
      rw [same] at scanned
      exact fails_error (scanned f rfl)
  · split
    · have here : Text.Span c.chars 0 0 := Text.span_self (Int.le_refl 0) c.chars.span_whole.le
      have matched : Foreseen (Grammar.subparse r c.task 0).1 := G.subparse keeps call here
      exact matched.map _
    · have matched : Foreseen (Grammar.parse r c.task).1 := G.parse keeps call
      exact matched.map _

/-- **Every failure is one that is reported**, where nothing is repeated less than not at all. -/
theorem outcome_foreseen (sensible : c.Sensible) : Foreseen c.outcome := by
  intro f failed
  unfold outcome at failed
  cases loaded : c.registry with
  | error f' =>
    rw [loaded] at failed
    cases failed
    exact registry_foreseen _ loaded
  | ok r =>
    rw [loaded] at failed
    exact sought_foreseen sensible loaded f failed

end Call

end CommandLine

end GrammarMatch
