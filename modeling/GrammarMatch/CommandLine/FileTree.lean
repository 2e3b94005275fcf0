/-
  File:      GrammarMatch/CommandLine/FileTree.lean
  Subject:   Files and folders, and the paths that lead to them.

  A place is the list of names on the way from the root. A path is walked
  name by name, from the root if it starts with a slash and from the current
  folder if not; a step can be taken only from a folder that is there, also
  the step that stays (a dot) and the one back (two dots). What is wrong
  first on the way is the fault of the path.
-/
namespace GrammarMatch.CommandLine

/-- Why a file is not read or not written. -/
inductive FileFault where
  /-- Something on the way, or the file itself, is missing. -/
  | missing
  /-- The path leads to a folder. -/
  | isFolder
  /-- The path leads through a file. -/
  | notFolder
  /-- A name on the path, or the whole path, is too long. -/
  | tooLong
  /-- The path holds a null character. -/
  | nullCharacter
  deriving DecidableEq, Repr

/-- The fault in words. -/
def FileFault.message : FileFault → String
  | .missing => "No such file or directory"
  | .isFolder => "Is a directory"
  | .notFolder => "Not a directory"
  | .tooLong => "File name too long"
  | .nullCharacter => "embedded null byte"

/-- The names on the way from the root. -/
abbrev Place := List String

/-- Files by their places. A folder is there if it is named or if something
    named is inside it. -/
structure FileTree where
  files : List (Place × String) := []
  folders : List Place := []
  current : Place := []

namespace FileTree

/-! ## 1. Places -/

/-- What can be found at a place. -/
inductive Entry where
  | file (content : String)
  | folder
  deriving DecidableEq, Repr

/-- Whether there is a folder at a place. -/
def hasFolder (t : FileTree) (p : Place) : Bool :=
  p.isPrefixOf t.current || t.folders.any p.isPrefixOf ||
    t.files.any fun f => p.isPrefixOf f.1.dropLast

/-- What is found at a place. -/
def entry? (t : FileTree) (p : Place) : Option Entry :=
  match t.files.lookup p with
  | some content => some (.file content)
  | none => if t.hasFolder p then some .folder else none

/-- The folder at a place is there. -/
def inFolder (t : FileTree) (p : Place) : Except FileFault Unit :=
  match t.entry? p with
  | some .folder => .ok ()
  | some (.file _) => .error .notFolder
  | none => .error .missing

/-! ## 2. Paths -/

/-- Most bytes of a name. -/
def maxNameBytes : Nat := 255

/-- Most bytes of a path. -/
def maxPathBytes : Nat := 4095

/-- The names on a path, between its slashes. -/
def namesOf (path : String) : List String := (path.toList.splitOn '/').map String.ofList

/-- The place where a path starts. -/
def origin (t : FileTree) (path : String) : Place :=
  if path.startsWith "/" then [] else t.current

/-- The place one name further on, whatever is there. An empty name stays,
    and nothing is behind the root. -/
def onward (here : Place) (name : String) : Place :=
  if name == "" || name == "." then here
  else if name == ".." then here.dropLast
  else here ++ [name]

/-- A step from a folder. -/
def step (t : FileTree) (here : Place) (name : String) : Except FileFault Place := do
  t.inFolder here
  if maxNameBytes < name.utf8ByteSize then throw .tooLong
  return onward here name

/-- Some steps from a place. -/
def walk (t : FileTree) (here : Place) : List String → Except FileFault Place
  | [] => .ok here
  | name :: rest => do t.walk (← t.step here name) rest

/-- Refuse a path that cannot lead anywhere. -/
def checkPath (path : String) : Except FileFault Unit :=
  if path.toList.contains '\x00' then .error .nullCharacter
  else if maxPathBytes < path.utf8ByteSize then .error .tooLong
  else .ok ()

/-! ## 3. Reading and writing -/

/-- The content of the file that a path leads to. A slash at the end asks
    for a folder. -/
def read (t : FileTree) (path : String) : Except FileFault String := do
  checkPath path
  let place ← t.walk (t.origin path) (namesOf path)
  match t.entry? place with
  | some (.file content) => return content
  | some .folder => throw .isFolder
  | none => throw .missing

/-- The place of a file that is to be written: its folder must be there, and
    no folder may stand in its place. -/
def target (t : FileTree) (path : String) : Except FileFault Place := do
  checkPath path
  let names := (namesOf path).filter (!·.isEmpty)
  let folder ← t.walk (t.origin path) names.dropLast
  let some name := names.getLast? | throw .isFolder
  t.inFolder folder
  if (namesOf path).getLast? == some "" || name == "." || name == ".." then throw .isFolder
  let place ← t.step folder name
  if t.entry? place == some .folder then throw .isFolder
  return place

/-- The tree with a content at a place. -/
def put (t : FileTree) (place : Place) (content : String) : FileTree :=
  { t with files := (place, content) :: t.files.filter (·.1 != place) }

/-- The tree after a file was written. -/
def write (t : FileTree) (path content : String) : Except FileFault FileTree :=
  (t.target path).map (t.put · content)

end FileTree

end GrammarMatch.CommandLine
