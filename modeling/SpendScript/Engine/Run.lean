import SpendScript.Engine.Execute
import SpendScript.Script.Class

/-!
# Runs

A run fetches one command after the other. A push before a pay-to-script-hash lock reveals a
script, which is appended to the run once the lock has accepted its hash.

* `Engine.runPlain`, `Engine.runCommand`: one command, without and with revealing.
* `Engine.loop`: all commands, with the check of the stack size after each of them.
* `Script.execute`: a whole run. `Script.evaluate`: its verdict without policy.
-/

namespace SpendScript

namespace Engine

/-! ## One command -/

/-- The next command. The count of operations starts again with each part. -/
def next : Engine (Option Command) := do
  let s ← get
  match s.pending with
  | [] => return none
  | c :: rest =>
    set { s with
      pending := rest
      position := s.position + 1
      operations := if s.position ∈ s.segmentStarts then 0 else s.operations }
    return some c

/-- Whether a push is to be executed. Its size is checked even in a skipped part. -/
def admitPush (env : Env) (p : Push) : Engine Bool := do
  if Limits.elementSize < p.data.length then fail (.elementTooBig p.data.length)
  else if !(← get).isExecuting then return false
  else if env.flags.minimalData && !p.isMinimal then
    fail (.pushNotMinimal p.data p.encoding)
  else return true

/-- Runs a command that reveals no script. -/
def runPlain (env : Env) : Command → Engine Unit
  | .op code => runOpcode env code
  | .push p => do
    if ← admitPush env p then push p.data

/-! ## Revealed scripts -/

/-- Runs up to `n` commands. -/
def runNext (env : Env) : (n : Nat) → Engine Unit
  | 0 => return
  | n + 1 => do
    match ← next with
    | none => return
    | some c =>
      runPlain env c
      runNext env n

/-- Appends the revealed commands as a part of their own. -/
def appendCommands (cs : List Command) : Engine Unit :=
  modify fun s => { s with
    segmentStarts := s.segmentStarts ++ [s.position + s.pending.length]
    pending := s.pending ++ cs }

/-- Runs the three commands of the lock on the revealed bytes and then appends the script that
the bytes spell. -/
def reveal (env : Env) (data : Bytes) : Engine Unit := do
  push data
  runNext env 3
  require (ScriptNumber.truth (← pop))
  let cs ← lift (Command.decode data)
  emit (.runningRedeemScript cs)
  appendCommands cs

/-- Runs a command. -/
def runCommand (env : Env) : Command → Engine Unit
  | .op code => runOpcode env code
  | .push p => do
    if ← admitPush env p then
      if (Script.scriptHashLock? (← get).pending).isSome then reveal env p.data
      else push p.data

/-! ## All commands -/

/-- Fails if the two stacks together hold too many items. -/
def checkStackSize : Engine Unit := do
  let s ← get
  let size := s.alt.length + s.stack.length
  if Limits.stackSize < size then fail (.stackTooBig size)

/-- Runs commands until none is left, at most `n` of them. -/
def loop (env : Env) : (n : Nat) → Engine Unit
  | 0 => return
  | n + 1 => do
    match ← next with
    | none => return
    | some c =>
      runCommand env c
      checkStackSize
      loop env n

/-- The parts of a list of commands whose first command has position `i`. -/
def parts (starts : List Nat) : (i : Nat) → List Command → List (List Command)
  | _, [] => []
  | i, c :: cs =>
    match parts starts (i + 1) cs with
    | [] => [[c]]
    | p :: ps => if i + 1 ∈ starts then [c] :: p :: ps else (c :: p) :: ps

/-- Fails if a part has too many bytes; the first such part is reported. -/
def checkScriptSizes : Engine Unit := do
  let s ← get
  match ((parts s.segmentStarts 0 s.pending).map Command.totalLength).find?
      (Limits.scriptSize < ·) with
  | some size => fail (.scriptTooBig size)
  | none => return

/-- A finished run has closed all conditionals and leaves exactly one item, which is true. -/
def finish : Engine Unit := do
  let s ← get
  if !s.conditions.isEmpty then fail .unbalancedConditional
  else
    match s.stack with
    | [] => fail .emptyStack
    | [item] =>
      setStack []
      if ScriptNumber.truth item then return else fail .evalFalse
    | _ :: extra => fail (.uncleanStack extra.length)

/-- Runs the pending commands. Every command is shorter than what it leaves to be run, so the
number of their bytes bounds the number of steps. -/
def run (env : Env) : Engine Unit := do
  let s ← get
  if s.pending.isEmpty then fail .evalFalse
  else
    checkScriptSizes
    loop env (Command.totalLength s.pending)
    finish

end Engine

/-! ## Scripts -/

/-- How a run ended: without an error or not, and in which state. -/
structure Outcome where
  result : Except Halt Unit
  state : State

namespace Script

/-- Runs a script with remembered signature checks. -/
def execute (script : Script) (env : Env) (cache : SigCache) : Outcome :=
  match Engine.run env (State.start script cache) with
  | .ok _ s => ⟨.ok (), s⟩
  | .error h s => ⟨.error h, s⟩

/-- An empty cache for a number of signature checks. -/
def cacheFor (capacity : Nat) : Except Fault SigCache :=
  if Cache.largest < capacity then .error .tableTooLarge
  else .ok (Cache.empty capacity fun _ => 0)

/-- A cache that remembers nothing. -/
def noCache : SigCache :=
  Cache.empty 0 fun _ => 0

/-- Whether a script is valid for a digest, without policy. -/
def evaluate (script : Script) (digest : Nat) : Bool :=
  match (script.execute ⟨digest, Flags.default⟩ noCache).result with
  | .ok _ => true
  | .error _ => false

/-- Runs scripts one after the other with one cache. -/
def executeAll (cache : SigCache) : List (Script × Env) → List Outcome
  | [] => []
  | (script, env) :: rest =>
    let outcome := script.execute env cache
    outcome :: executeAll outcome.state.cache rest

end Script

end SpendScript
