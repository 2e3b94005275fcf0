/-
  File:      GrammarMatch/CommandLine/Session.lean
  Subject:   One call of the program, from its arguments to its report.

  A session reads a grammar file and an input file, matches the input in one
  of three modes and writes the captures as JSON. Nothing is written before
  the matching has come to its end, so a failure leaves no partial result
  behind. Files are those of a tree that is given; the report says how the
  session ended, what it printed, and which files there are afterwards.
-/
import GrammarMatch.CommandLine.FileTree
import GrammarMatch.CommandLine.Options
import GrammarMatch.Datum.Json
import GrammarMatch.Grammar
import GrammarMatch.Grammar.File

namespace GrammarMatch.CommandLine

/-! ## 1. Lines -/

/-- A text with every line end as a line feed: a return, with or without a
    line feed after it, is read as one. -/
def plainLines : List Char → List Char
  | [] => []
  | '\r' :: '\n' :: rest => '\n' :: plainLines rest
  | '\r' :: rest => '\n' :: plainLines rest
  | c :: rest => c :: plainLines rest

/-! ## 2. Messages -/

/-- The parts of a session that take time. -/
inductive Phase where
  | compiling
  | matching
  deriving DecidableEq, Repr

/-- What a session says beside its results. -/
inductive Message where
  | log (level : Level) (text : String)
  | notice (text : String)
  | elapsed (phase : Phase)
  deriving DecidableEq, Repr

/-- A message as a line, where the time that each phase took is given. -/
def Message.render (time : Phase → String) : Message → String
  | .log level text => "[" ++ level.name ++ "] " ++ text ++ "\n"
  | .notice text => text ++ "\n"
  | .elapsed .compiling => "Grammar compile time: " ++ time .compiling ++ "s\n"
  | .elapsed .matching => "Matching time: " ++ time .matching ++ "s\n"

/-! ## 3. Reports -/

/-- A void option, found out where its value is used. -/
inductive VoidOption where
  | start
  | maxDepth
  | logLevel
  deriving DecidableEq, Repr

/-- What is said about a void option. -/
def VoidOption.message : VoidOption → String
  | .start => "unhashable type: 'list'"
  | .maxDepth => "'<' not supported between instances of 'list' and 'int'"
  | .logLevel => "attribute name must be string, not 'list'"

/-- Why a session stops before it has results. -/
inductive Stop where
  | failure (f : Failure)
  | file (path : String) (fault : FileFault)
  | void (option : VoidOption)

/-- How a session ends. -/
inductive Ending where
  /-- With a status of its own: success, no match, or a failure. -/
  | status (code : Nat)
  /-- Before it began, because of its arguments. -/
  | exit (code : Nat)
  /-- For a reason that is no fault of the grammar or the input. -/
  | broken (cause : Stop)

/-- What a session leaves behind. -/
structure Report where
  ending : Ending
  output : String
  messages : List Message
  files : FileTree

/-- The messages of a report as text. -/
def Report.errorText (r : Report) (time : Phase → String) : String :=
  String.join (r.messages.map (Message.render time))

/-! ## 4. Steps -/

/-- A step of a session; messages are kept, the latest first. -/
abbrev Step := EStateM Stop (List Message)

/-- Say something. -/
def say (m : Message) : Step Unit := modify (m :: ·)

/-- Log something. -/
def log (level : Level) (text : String) : Step Unit := say (.log level text)

/-- The outcome of a computation that says nothing. -/
def ofExcept : Except Failure α → Step α
  | .ok a => pure a
  | .error f => throw (.failure f)

/-- The value of an option that must not be void. -/
def Setting.needed (option : VoidOption) : Setting α → Step α
  | .value a => pure a
  | .void => throw (.void option)

/-- The characters of a file. -/
def readFile (files : FileTree) (path : String) : Step (List Char) :=
  match files.read path with
  | .ok content => return plainLines content.toList
  | .error fault => throw (.file path fault)

/-- Define the rules of a grammar file one after the other. -/
def defineAll (r : Registry) : List Registry.Declaration → Step Registry
  | [] => return r
  | d :: rest => do
    let r ← ofExcept (r.defineSpec (.declared d))
    log .debug s!"Defined rule '{d.name}' ({d.kind.name})"
    defineAll r rest

/-- Read and compile a grammar file. -/
def loadGrammar (files : FileTree) (path : String) : Step Registry := do
  let code ← readFile files path
  match GrammarFile.read code (some path) with
  | .error e => throw (.failure (.badSyntax e))
  | .ok file =>
    log .debug s!"Read {file.rules.length} declarations from {path}"
    log .info s!"Loaded grammar file {path} (version {file.version})"
    let r ← defineAll .empty file.rules
    log .info s!"Compiled grammar with {r.size} rules"
    return r

/-- Log the runs of a matcher. -/
def logRuns (m : Matcher) : Step Unit :=
  m.state.trace.reverse.forM fun
    | .ran rule pos matched calls hits depth =>
      let outcome := if matched then "matched" else "failed"
      log .debug (s!"Rule '{rule}' at {pos}: {outcome} ({calls} rule calls, " ++
        s!"{hits} memo hits, peak depth {depth})")
    | _ => pure ()

/-- The name of the rule to start with, as messages show it. -/
def startShown (o : Options) : String :=
  match o.start with
  | .value rule => rule
  | .void => "[]"

/-- What is done in the mode that the options ask for. -/
def activity (o : Options) : String :=
  if o.scan then "Scanning" else if o.subparse then "Subparsing" else "Parsing"

/-- Match the input in the mode that the options ask for. -/
def matchInput (o : Options) (r : Registry) (text : Text) : Step (List Capture) := do
  let maxDepth ← o.maxDepth.mapM (Setting.needed .maxDepth)
  let settings ← ofExcept (Settings.make maxDepth true)
  log .info s!"{activity o} input with rule '{startShown o}'"
  let start ← o.start.needed .start
  let task : Grammar.Task := { text, start, actions := {}, settings }
  if o.scan then
    let (scanned, m) := Grammar.scan r task
    logRuns m
    match scanned.failure with
    | some f => throw (.failure f)
    | none =>
      log .info s!"Scan with '{start}' found {scanned.found.length} matches"
      return scanned.found
  else if o.subparse then
    let (outcome, m) := Grammar.subparse r task 0
    logRuns m
    let found ← ofExcept outcome
    return (found.map Match.Found.capture).toList
  else
    let (outcome, m) := Grammar.parse r task
    logRuns m
    let found ← ofExcept outcome
    let verdict := if found.isSome then "matched" else "no match"
    log .info s!"Parse with '{start}' over {text.size} characters: {verdict}"
    return found.toList

/-- The captures of a session, with the text they belong to. -/
def results (files : FileTree) (o : Options) (grammar input : String) :
    Step (Text × List Capture) := do
  let r ← loadGrammar files grammar
  if o.showTiming then say (.elapsed .compiling)
  let text := (← readFile files input).toArray
  let found ← matchInput o r text
  if o.showTiming then say (.elapsed .matching)
  return (text, found)

/-! ## 5. Sessions -/

/-- Captures as they are written: each on a line, or all as one list. -/
def written (o : Options) (text : Text) (found : List Capture) : String :=
  let data := found.map (·.toDatum text)
  if o.prettyPrint then Json.lines (.list data) ++ "\n"
  else String.join (data.map fun d => Json.line d ++ "\n")

/-- A failure of the grammar, of the match or of its limits, which is reported
    and not passed on. -/
def isReported : Failure → Bool
  | .badSyntax _ | .undefinedRule _ | .depthLimit .. | .stackExhausted | .actionFailed .. => true
  | _ => false

/-- Messages in the order of time, without those below a level. -/
def shown (level : Level) (messages : List Message) : List Message :=
  messages.reverse.filter fun
    | .log l _ => level.rank ≤ l.rank
    | _ => true

/-- A session with both files named, that shows messages from a level on. -/
def session (files : FileTree) (o : Options) (level : Level) (grammar input : String) : Report :=
  let report (ending : Ending) (output : String) (messages : List Message) (files : FileTree) :
      Report := ⟨ending, output, shown level messages, files⟩
  match results files o grammar input [] with
  | .error (.failure f) messages =>
    if isReported f then report (.status 2) "" (.log .error f.message :: messages) files
    else report (.broken (.failure f)) "" messages files
  | .error cause messages => report (.broken cause) "" messages files
  | .ok (_, []) messages =>
    report (.status 1) "" (.notice s!"Input did not match rule '{startShown o}'" :: messages) files
  | .ok (text, found) messages =>
    let output := written o text found
    match o.output.filter (!·.isEmpty) with
    | none => report (.status 0) output messages files
    | some path =>
      match files.write path output with
      | .ok files => report (.status 0) "" messages files
      | .error fault => report (.broken (.file path fault)) "" messages files

/-- The version of the program. -/
def programVersion : String := "0.1.0"

/-- What the program says about its version, where that of the parser of
    patterns is given. -/
def versionText (parser : String) : String :=
  s!"Version information:\n  lark: {parser}\n  pegex: {programVersion}\n  DSL: {formatVersion}\n"

/-- What the program says about its use, line by line. -/
def helpLines : List String :=
  ["usage: pegex [-h] [--start START] [--subparse | --scan]",
   "             [--max-depth MAX_DEPTH] [--pretty-print]",
   "             [--log-level \x7bDEBUG,INFO,WARNING,ERROR,CRITICAL\x7d] [--version]",
   "             [--show-timing] [-o OUTPUT]",
   "             [grammar_file] [input_file]",
   "",
   "Parse an input file with a pegex grammar and emit capture trees as JSON.",
   "",
   "positional arguments:",
   "  grammar_file          Path to grammar source file",
   "  input_file            Path to input text file",
   "",
   "options:",
   "  -h, --help            show this help message and exit",
   "  --start START         Rule to start matching with (default: TOP)",
   "  --subparse            Match the start rule at the beginning of the input",
   "                        without requiring it to consume everything",
   "  --scan                Emit every non-overlapping match of the start rule in",
   "                        the input",
   "  --max-depth MAX_DEPTH",
   "                        Abort when matching nests deeper than this",
   "  --pretty-print        Emit all results in a single pretty-printed JSON array",
   "  --log-level \x7bDEBUG,INFO,WARNING,ERROR,CRITICAL\x7d",
   "                        Set logging level",
   "  --version             Show version and exit",
   "  --show-timing         Show detailed timing information",
   "  -o OUTPUT, --output OUTPUT",
   "                        Write output to this file (UTF-8, LF line endings). If",
   "                        omitted, output goes to stdout."]

/-- What the program says about its use. -/
def helpText : String := String.join (helpLines.map (· ++ "\n"))

/-- A call of the program. -/
def run (files : FileTree) (args : List String) (parser : String) : Report :=
  match read args with
  | .refused => ⟨.exit 2, "", [], files⟩
  | .help => ⟨.exit 0, helpText, [], files⟩
  | .options o =>
    if o.version then ⟨.status 0, versionText parser, [], files⟩
    else match o.grammar.filter (!·.isEmpty), o.input.filter (!·.isEmpty) with
      | some grammar, some input =>
        match o.logLevel with
        | .value level => session files o level grammar input
        | .void => ⟨.broken (.void .logLevel), "", [], files⟩
      | _, _ => ⟨.exit 2, "", [], files⟩

end GrammarMatch.CommandLine
