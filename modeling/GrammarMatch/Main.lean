/-
  File:      GrammarMatch/Main.lean
  Subject:   The program: reads the files that its arguments name, runs a
             session over them and prints the report.
-/
import GrammarMatch.CommandLine.Session

namespace GrammarMatch.CommandLine

/-! ## 1. The files of the machine -/

/-- The place that a path means if all folders on the way are there. -/
def Place.ofPath (current : Place) (path : String) : Place :=
  (FileTree.namesOf path).foldl FileTree.onward (if path.startsWith "/" then [] else current)

/-- The places from which some steps are taken. -/
def Place.passed (here : Place) : List String → List Place
  | [] => []
  | name :: rest => here :: Place.passed (FileTree.onward here name) rest

/-- The folders on the way of a path. -/
def Place.onTheWay (current : Place) (path : String) : List Place :=
  Place.passed (if path.startsWith "/" then [] else current)
    ((FileTree.namesOf path).filter (!·.isEmpty))

/-- The tree with a file of the machine, if it can be read. -/
def fetch (files : FileTree) (path : String) : IO FileTree := do
  try
    let content ← IO.FS.readFile path
    let way := Place.onTheWay files.current path
    return { files.put (Place.ofPath files.current path) content with
      folders := way ++ files.folders }
  catch _ => return files

/-- The files that a session reads. -/
def namedFiles : Outcome → List String
  | .options o => o.grammar.toList ++ o.input.toList
  | _ => []

/-- The files of the machine that a session can see. That the folder of the
    output is there is found out when the output is written. -/
def surroundings (outcome : Outcome) : IO FileTree := do
  let current := Place.ofPath [] (toString (← IO.currentDir))
  let files ← (namedFiles outcome).foldlM fetch { current }
  let way := match outcome with
    | .options o => o.output.toList.flatMap (Place.onTheWay current)
    | _ => []
  return { files with folders := way ++ files.folders }

/-- Write the file that a session has left behind, if there is one. -/
def store (outcome : Outcome) (report : Report) : IO Unit := do
  let .options o := outcome | return
  let some path := o.output | return
  let .ok content := report.files.read path | return
  if report.ending matches .status 0 then IO.FS.writeFile path content

/-! ## 2. What the program says -/

/-- Milliseconds as seconds with three decimals. -/
def seconds (ms : Nat) : String :=
  let fraction := toString (ms % 1000)
  toString (ms / 1000) ++ "." ++ String.ofList (List.replicate (3 - fraction.length) '0') ++ fraction

/-- The lines about use that precede the description. -/
def usageLines : List String := helpLines.takeWhile (!·.isEmpty)

/-- The cause of a broken session in words. -/
def Stop.message : Stop → String
  | .failure f => f.message
  | .file path fault => fault.message ++ ": " ++ path
  | .void option => option.message

end GrammarMatch.CommandLine

open GrammarMatch.CommandLine in
/-- Run a session over the files of the machine. -/
def main (args : List String) : IO UInt32 := do
  let outcome := read args
  let files ← surroundings outcome
  let start ← IO.monoMsNow
  let report ← IO.lazyPure fun _ => run files args "unknown"
  let passed := (← IO.monoMsNow) - start
  IO.print report.output
  IO.eprint (report.errorText fun | .compiling => seconds 0 | .matching => seconds passed)
  match report.ending with
  | .status code =>
    store outcome report
    return code.toUInt32
  | .exit code =>
    unless code = 0 do usageLines.forM IO.eprintln
    return code.toUInt32
  | .broken cause =>
    IO.eprintln cause.message
    return 1
