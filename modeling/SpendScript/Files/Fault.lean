/-!
# Faults of files

* `Fault`: why a file or a directory cannot be reached or made.
* `Fault.message`: the fault in words, with the number that the system gives it.
-/

namespace SpendScript.Files

/-- Why a file or a directory cannot be reached or made. -/
inductive Fault where
  | missing
  | alreadyThere
  | notDirectory
  | isDirectory
  | nameTooLong
  /-- A name holds the character zero, with which no name can be given to the system. -/
  | zeroInName
  | other (text : String)
deriving DecidableEq, Repr

def Fault.message : Fault → String
  | .missing => "No such file or directory (os error 2)"
  | .alreadyThere => "File exists (os error 17)"
  | .notDirectory => "Not a directory (os error 20)"
  | .isDirectory => "Is a directory (os error 21)"
  | .nameTooLong => "File name too long (os error 36)"
  | .zeroInName => "file name contained an unexpected NUL byte"
  | .other text => text

end SpendScript.Files
