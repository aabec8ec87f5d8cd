import SpendScript.Cli.Program

/-!
# Command line

The machine as a host: runs the program on it and prints the result.
-/

namespace SpendScript.Cli

/-- The fault that the system reports. -/
def fault : IO.Error → Files.Fault
  | .noFileOrDirectory _ _ _ => .missing
  | .alreadyExists _ _ _ => .alreadyThere
  | .inappropriateType _ code details | .invalidArgument _ code details
  | .permissionDenied _ code details | .resourceExhausted _ code details =>
    .other s!"{details} (os error {code})"
  | e => .other (toString e)

/-- The fault of an action, if it has one. -/
def attempt (action : IO Unit) : IO (Except Files.Fault Unit) := do
  try
    action
    return .ok ()
  catch e => return .error (fault e)

/-- Makes a directory. What is there already may be one, which only making it with all
directories above it tells. -/
def makeDirectory (path : String) : IO (Except Files.Fault Unit) := do
  match ← attempt (IO.FS.createDir path) with
  | .error .missing => return .error .missing
  | .error f =>
    match ← attempt (IO.FS.createDirAll path) with
    | .ok _ => return .ok ()
    | .error _ => return .error f
  | .ok _ => return .ok ()

/-- The files and variables of the machine. -/
def machine : Files.Host IO where
  value? name := IO.getEnv name
  contents? path := do
    try return some (← IO.FS.readFile path)
    catch _ => return none
  makeDirectory path := makeDirectory path
  openFile path := attempt (discard (IO.FS.Handle.mk path .append))
  append path text := do (← IO.FS.Handle.mk path .append).putStr text

end SpendScript.Cli

def main (words : List String) : IO UInt32 := do
  let r ← SpendScript.Cli.execute SpendScript.Cli.machine words
  r.errors.forM fun line => IO.eprintln line
  IO.print r.output
  return UInt32.ofNat r.status
