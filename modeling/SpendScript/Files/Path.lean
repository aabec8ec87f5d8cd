import SpendScript.Text.Blank

/-!
# Paths

A path is a text whose steps are separated by slashes.

* `steps`: the steps of a path.
* `above`: the paths of the directories that a path leads through.
* `expand`: a path with variables replaced by their values.
-/

namespace SpendScript.Files

/-! ## Steps -/

def isAbsolute (path : String) : Bool :=
  path.toList.head? == some '/'

/-- The steps of a path. A slash at the end asks for a directory, as the step `.` does. -/
def steps (path : String) : List String :=
  let parts := (Text.split '/' path.toList).map String.ofList
  parts.filter (· ≠ "") ++ if parts.getLast? = some "" then ["."] else []

/-- The path of a file in a directory. -/
def join (dir name : String) : String :=
  if dir.isEmpty || dir.toList.getLast? = some '/' then dir ++ name else dir ++ "/" ++ name

/-- The directories that a path leads through, the nearest first, without the one that it starts
from. -/
def above (path : String) : List String :=
  let named := (steps path).filter (· ≠ ".")
  let start := if isAbsolute path then "/" else ""
  ((List.range named.length).drop 1).reverse.map fun n =>
    start ++ String.intercalate "/" (named.take n)

/-! ## Variables -/

/-- What comes before the name of a variable. A brace comes after it. -/
def opening : List Char :=
  "$ENV\x7b".toList

/-- Whether a character can be in the name of a variable. Beyond ASCII every character can. -/
def isNameChar (c : Char) : Bool :=
  c.isAlphanum || c = '_' || c = '.' || 127 < c.toNat

/-- The name of a variable at the start of a text. -/
def name? (cs : List Char) : Option (List Char) :=
  let name := cs.takeWhile isNameChar
  if name.isEmpty || name.head? = some '.' then none
  else if (cs.dropWhile isNameChar).head? = some '\x7d' then some name
  else none

/-- The names of the variables in a text, one for each time that it is there. -/
def names : List Char → List (List Char)
  | [] => []
  | c :: cs =>
    if opening.isPrefixOf (c :: cs) then
      match name? ((c :: cs).drop opening.length) with
      | some name => name :: names cs
      | none => names cs
    else names cs

/-- A text in which another one takes the place of `first :: part`, from left to right. -/
def replace (first : Char) (part other : List Char) : List Char → List Char
  | [] => []
  | c :: cs =>
    if c = first ∧ part.isPrefixOf cs then other ++ replace first part other (cs.drop part.length)
    else c :: replace first part other cs
termination_by cs => cs.length

/-- A text in which a value takes the place of a variable. -/
def replaceVariable (name value : List Char) (cs : List Char) : List Char :=
  match opening ++ name ++ ['\x7d'] with
  | [] => cs
  | first :: part => replace first part value cs

/-- Replaces variables by their values, which `value` looks up. A variable without a value stays. -/
def expandNames {m : Type → Type} [Monad m] (value : String → m (Option String)) :
    (names : List (List Char)) → (path : List Char) → m (List Char)
  | [], path => return path
  | name :: rest, path => do
    match ← value (String.ofList name) with
    | none => expandNames value rest path
    | some v => expandNames value rest (replaceVariable name v.toList path)

/-- A path with its variables replaced by their values. The values may hold variables too, but
only those that the path itself names are replaced. -/
def expand {m : Type → Type} [Monad m] (value : String → m (Option String)) (path : String) :
    m String := do
  return String.ofList (← expandNames value (names path.toList) path.toList)

end SpendScript.Files
