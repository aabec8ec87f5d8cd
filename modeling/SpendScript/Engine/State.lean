import SpendScript.Cache
import SpendScript.Engine.Stack
import SpendScript.Script.Basic

/-!
# Engine states

What a run reads, what it changes, and how it can stop.

* `Flags`, `Env`: the policy and the signed digest, fixed for a run.
* `State`: stacks, open conditionals, counters and the commands to come.
* `Engine`: computations on states. A failure keeps the state that it found.
-/

namespace SpendScript

/-- Policy checks on top of the rules that every script has to meet. -/
structure Flags where
  /-- A malformed signature or key fails the script, not only the check. -/
  strictEncoding : Bool
  /-- Data pushes have to be minimal. -/
  minimalData : Bool
  /-- Conditions of branches have to be empty or the single byte one. -/
  minimalIf : Bool
  /-- How many results of signature checks are remembered. -/
  cacheSize : Nat
deriving DecidableEq, Repr

namespace Flags

/-- No policy, and ten thousand remembered results. -/
def default : Flags :=
  ⟨false, false, false, 10000⟩

end Flags

/-- What is fixed for a run: the digest that signatures sign, and the policy. -/
structure Env where
  digest : Nat
  flags : Flags

/-- Which part of an open conditional the run is in. -/
inductive Condition where
  /-- A part that is executed. -/
  | taken
  /-- A part that is skipped because of its condition. -/
  | notTaken
  /-- A conditional inside a skipped part. -/
  | skipped
deriving DecidableEq, Repr

/-- The other part of the conditional. -/
def Condition.switch : Condition → Condition
  | .taken => .notTaken
  | .notTaken => .taken
  | .skipped => .skipped

/-- A signature without its last byte, a key and a digest. -/
structure SigCheck where
  signature : Bytes
  key : Bytes
  digest : Nat
deriving DecidableEq

/-- Remembered results of signature checks. -/
abbrev SigCache := Cache SigCheck Bool

/-- Something that a run did and an observer may want to know. -/
inductive Event where
  /-- An opcode is executed on a stack of so many items. -/
  | executing (code : Opcode) (depth : Nat)
  /-- A revealed script is appended to the run. -/
  | runningRedeemScript (commands : List Command)
  /-- A malformed signature or key made a check fail. -/
  | checkFailed (cause : ScriptError)
deriving DecidableEq

/-- Where a run stands. -/
structure State where
  stack : Stack
  alt : Stack
  /-- Open conditionals, the innermost first. -/
  conditions : List Condition
  /-- Counted operations of the current part. -/
  operations : Nat
  /-- Commands fetched so far. -/
  position : Nat
  /-- Commands to come. -/
  pending : List Command
  /-- The positions where a concatenated part or a revealed script begins. -/
  segmentStarts : List Nat
  cache : SigCache
  /-- What happened so far, the latest first. -/
  events : List Event

namespace State

/-- The state before the first command of a script. -/
def start (script : Script) (cache : SigCache) : State :=
  ⟨[], [], [], 0, 0, script.commands, script.segmentStarts, cache, []⟩

/-- Whether the run is in no skipped part. -/
def isExecuting (s : State) : Bool :=
  match s.conditions with
  | [] => true
  | c :: _ => c == .taken

end State

/-- Why a run stops before its end. -/
inductive Halt where
  | error (e : ScriptError)
  | fault (f : Fault)
deriving DecidableEq, Repr

/-- Computations on states that may halt. -/
abbrev Engine := EStateM Halt State

namespace Engine

/-- Stops with an error. -/
def fail {α : Type} (e : ScriptError) : Engine α :=
  throw (.error e)

/-- Stops with the error of a computation, or goes on with its value. -/
def lift {α : Type} : Except ScriptError α → Engine α
  | .ok a => pure a
  | .error e => fail e

/-- Records an event. -/
def emit (e : Event) : Engine Unit :=
  modify fun s => { s with events := e :: s.events }

/-! ## The stack -/

def setStack (stack : Stack) : Engine Unit :=
  modify fun s => { s with stack := stack }

def push (item : Bytes) : Engine Unit :=
  modify fun s => { s with stack := item :: s.stack }

/-- Rearranges the stack. -/
def rearrange (f : Stack → Except ScriptError Stack) : Engine Unit := do
  setStack (← lift (f (← get).stack))

/-- The top item. -/
def pop : Engine Bytes := do
  match (← get).stack with
  | a :: rest => setStack rest; return a
  | [] => fail (.stackTooShort 1 0)

/-- The top two items, the lower one first. -/
def popTwo : Engine (Bytes × Bytes) := do
  match (← get).stack with
  | b :: a :: rest => setStack rest; return (a, b)
  | short => fail (.stackTooShort 2 short.length)

/-- The top three items, the lowest one first. -/
def popThree : Engine (Bytes × Bytes × Bytes) := do
  match (← get).stack with
  | c :: b :: a :: rest => setStack rest; return (a, b, c)
  | short => fail (.stackTooShort 3 short.length)

/-- The top `n` items, the lowest one first. -/
def popMany (n : Nat) : Engine (List Bytes) := do
  let (items, rest) ← lift ((← get).stack.popMany n)
  setStack rest
  return items

end Engine

end SpendScript
