import SpendScript.Files.Fault
import SpendScript.Files.Path

/-!
# Trees of files

Directories and text files in memory, as a system without links shows them. Places are lists of
steps from the root.

* `Tree.locate`: the place that a path leads to.
* `Tree.contents?`, `Tree.makeDirectory`, `Tree.openFile`, `Tree.append`: what can be done at the
  end of a path.
-/

namespace SpendScript.Files

/-- Directories and text files. The root is always there. -/
structure Tree where
  /-- The place where paths start that are not absolute. -/
  here : List String
  directories : List (List String)
  files : List (List String × String)
deriving Repr

/-- What is at a place. -/
inductive Node where
  | directory
  | file (text : String)
deriving DecidableEq, Repr

namespace Tree

def node? (t : Tree) (place : List String) : Option Node :=
  if place = [] ∨ place ∈ t.directories then some .directory
  else (t.files.lookup place).map .file

/-! ## Places -/

/-- The bytes of the longest name. -/
def longestName : Nat :=
  255

/-- The bytes of the longest path. -/
def longestPath : Nat :=
  4095

/-- The place that steps lead to. Nothing has to be there, but all steps before the last one lead
to directories. -/
def walk (t : Tree) (place : List String) : List String → Except Fault (List String)
  | [] => .ok place
  | step :: rest =>
    match t.node? place with
    | none => .error .missing
    | some (.file _) => .error .notDirectory
    | some .directory =>
      if step = "." then t.walk place rest
      else if step = ".." then t.walk place.dropLast rest
      else if longestName < step.utf8ByteSize then .error .nameTooLong
      else t.walk (place ++ [step]) rest

/-- The place that a path leads to. -/
def locate (t : Tree) (path : String) : Except Fault (List String) :=
  if path.isEmpty then .error .missing
  else if longestPath < path.utf8ByteSize then .error .nameTooLong
  else t.walk (if isAbsolute path then [] else t.here) (steps path)

/-! ## Files and directories -/

/-- The text of a file, if there is one. -/
def contents? (t : Tree) (path : String) : Option String :=
  match t.locate path with
  | .error _ => none
  | .ok place =>
    match t.node? place with
    | some (.file text) => some text
    | _ => none

/-- Makes a directory, unless there is one. -/
def makeDirectory (t : Tree) (path : String) : Except Fault Tree := do
  let place ← t.locate path
  match t.node? place with
  | none => return { t with directories := place :: t.directories }
  | some (.file _) => throw .alreadyThere
  | some .directory => return t

/-- Makes an empty file, unless there is one. -/
def openFile (t : Tree) (path : String) : Except Fault Tree := do
  let place ← t.locate path
  match t.node? place with
  | none => return { t with files := t.files ++ [(place, "")] }
  | some (.file _) => return t
  | some .directory => throw .isDirectory

/-- Adds text to the end of a file. -/
def append (t : Tree) (path text : String) : Tree :=
  match t.locate path with
  | .error _ => t
  | .ok place =>
    { t with files := t.files.map fun file =>
        if file.1 = place then (place, file.2 ++ text) else file }

/-- The names and texts of the files in a directory. -/
def filesIn (t : Tree) (dir : List String) : List (String × String) :=
  t.files.filterMap fun file =>
    match file.1.getLast? with
    | some name => if file.1 = dir ++ [name] then some (name, file.2) else none
    | none => none

end Tree

end SpendScript.Files
