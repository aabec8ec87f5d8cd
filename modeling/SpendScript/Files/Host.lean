import SpendScript.Files.Tree

/-!
# Hosts

What a program asks of the machine that it runs on.

* `Host.makeDirectories`, `Host.openLog`: a file for appending, with all directories above it.
* `Host.inMemory`: a host that keeps its files in a tree.
-/

namespace SpendScript.Files

/-- What a program asks of the machine that it runs on. -/
structure Host (m : Type → Type) where
  /-- The value of a variable of the environment. -/
  value? : String → m (Option String)
  /-- The text of a file, if it can be read. -/
  contents? : String → m (Option String)
  /-- Makes a directory, unless there is one. -/
  makeDirectory : String → m (Except Fault Unit)
  /-- Makes an empty file, unless there is one that can be written to. -/
  openFile : String → m (Except Fault Unit)
  /-- Adds text to the end of a file. -/
  append : (path text : String) → m Unit

namespace Host

variable {m : Type → Type} [Monad m]

/-- Makes the first of some directories, each of which is in the next one. The others are made
only if they are missing. -/
def makeDirectories (h : Host m) : List String → m (Except Fault Unit)
  | [] => return .ok ()
  | dir :: above => do
    match ← h.makeDirectory dir with
    | .error .missing =>
      match ← h.makeDirectories above with
      | .error f => return .error f
      | .ok _ => h.makeDirectory dir
    | answer => return answer

/-- Opens a file for appending and makes the directories above it. -/
def openLog (h : Host m) (path : String) : m (Except Fault Unit) := do
  if path.toList.contains '\x00' then return .error .zeroInName
  else
    match ← h.makeDirectories (above path) with
    | .error f => return .error f
    | .ok _ => h.openFile path

end Host

/-! ## In memory -/

/-- Changes the tree unless there is a fault. -/
def Tree.change (f : Tree → Except Fault Tree) : StateM Tree (Except Fault Unit) :=
  modifyGet fun t =>
    match f t with
    | .ok changed => (.ok (), changed)
    | .error e => (.error e, t)

/-- A host that keeps its files in a tree. -/
def Host.inMemory (environment : List (String × String)) : Host (StateM Tree) where
  value? name := return environment.lookup name
  contents? path := return (← get).contents? path
  makeDirectory path := Tree.change fun t => t.makeDirectory path
  openFile path := Tree.change fun t => t.openFile path
  append path text := modify fun t => t.append path text

end SpendScript.Files
