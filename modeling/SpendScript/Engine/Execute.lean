import SpendScript.Engine.Operation
import SpendScript.Engine.Signature

/-!
# Executing operations

The effect of a single operation on a state.

* `Engine.popCondition`, `Engine.openBranch`: conditionals.
* `Engine.perform`: all operations.
* `Engine.runOpcode`: the checks in front of an opcode, and skipping.
-/

namespace SpendScript

/-- The digest of an item. -/
def HashFunction.digest : HashFunction → Bytes → Bytes
  | .ripemd160, item => Digest.ripemd160 item
  | .sha1, item => Digest.sha1 item
  | .sha256, item => Digest.sha256 item
  | .hash160, item => (Digest.hash160 item).bytes
  | .hash256, item => (Digest.hash256 item).bytes

namespace Engine

/-! ## Conditionals -/

/-- Whether the condition of a branch has its minimal form. -/
def isMinimalCondition (item : Bytes) : Bool :=
  item == [] || item == [1]

/-- The condition of a branch. -/
def popCondition (env : Env) : Engine Bool := do
  match (← get).stack with
  | [] => fail .emptyStack
  | item :: rest =>
    setStack rest
    if env.flags.minimalIf && !isMinimalCondition item then fail (.conditionNotMinimal item)
    else return ScriptNumber.truth item

/-- Opens a conditional: a skipped one inside a skipped part, else one whose first part is taken
if the condition differs from `negated`. -/
def openBranch (env : Env) (negated : Bool) : Engine Unit := do
  let condition ←
    if (← get).isExecuting then
      let holds ← popCondition env
      pure (if holds != negated then Condition.taken else Condition.notTaken)
    else pure Condition.skipped
  modify fun s => { s with conditions := condition :: s.conditions }

/-- Goes to the next part of the innermost conditional. -/
def switchBranch : Engine Unit := do
  match (← get).conditions with
  | [] => fail (.invalidState .noOpenConditional)
  | c :: rest => modify fun s => { s with conditions := c.switch :: rest }

/-- Closes the innermost conditional. -/
def closeBranch : Engine Unit := do
  match (← get).conditions with
  | [] => fail (.invalidState .noOpenConditional)
  | _ :: rest => modify fun s => { s with conditions := rest }

/-! ## Parts of operations -/

/-- Fails unless the answer is yes. -/
def require (answer : Bool) : Engine Unit :=
  if answer then pure () else fail .verifyFailed

/-- Pushes an answer, or requires it. -/
def conclude (verify answer : Bool) : Engine Unit :=
  if verify then require answer else push (ScriptNumber.ofBool answer)

/-- The depth that the top item tells. -/
def popDepth : Engine Nat := do
  let depth ← popNumber
  if depth < 0 then fail (.invalidState (.negativeIndex depth)) else return depth.toNat

def toAlt : Engine Unit := do
  let item ← pop
  modify fun s => { s with alt := item :: s.alt }

def fromAlt : Engine Unit := do
  match (← get).alt with
  | [] => fail .emptyStack
  | item :: rest => modify fun s => { s with alt := rest, stack := item :: s.stack }

/-- Copies the top item if it is true. -/
def dupIfTrue : Engine Unit := do
  let item ← pop
  if ScriptNumber.truth item then push item
  push item

/-- Pushes the number of bytes of the top item. -/
def size : Engine Unit := do
  match (← get).stack with
  | [] => fail .emptyStack
  | item :: _ => pushNumber item.length

/-! ## All operations -/

/-- The effect of an operation; `code` is the opcode it belongs to. -/
def perform (env : Env) (code : Opcode) : Operation → Engine Unit
  | .pushNumber n => pushNumber n
  | .nothing => pure ()
  | .invalid => fail (.invalidOpcode code)
  | .reserved => fail (.reservedOpcode code)
  | .disabled => fail (.disabledOpcode code)
  | .openBranch negated => openBranch env negated
  | .switchBranch => switchBranch
  | .closeBranch => closeBranch
  | .verify => do require (ScriptNumber.truth (← pop))
  | .stop => fail .earlyReturn
  | .toAlt => toAlt
  | .fromAlt => fromAlt
  | .drop n => rearrange (Stack.drop n)
  | .dup n => rearrange (Stack.dup n)
  | .copyBelow n => rearrange (Stack.copyBelow n)
  | .rot n => rearrange (Stack.rot n)
  | .swap n => rearrange (Stack.swap n)
  | .dupIfTrue => dupIfTrue
  | .depth => do pushNumber (← get).stack.length
  | .nip => rearrange Stack.nip
  | .pick => do rearrange (Stack.pick (← popDepth))
  | .roll => do rearrange (Stack.roll (← popDepth))
  | .tuck => rearrange Stack.tuck
  | .size => size
  | .equal verify => do
    let (a, b) ← popTwo
    conclude verify (a == b)
  | .unary f => do pushNumber (f.eval (← popNumber))
  | .binary f => do
    let (a, b) ← popTwoNumbers
    pushNumber (f.eval a b)
  | .verifyNumbersEqual => do
    let (a, b) ← popTwoNumbers
    require (a == b)
  | .within => do
    let (x, lower, upper) ← popThreeNumbers
    pushNumber (numberOfBool (decide (lower ≤ x ∧ x < upper)))
  | .hash f => do push (f.digest (← pop))
  | .checkSig verify => do
    let (sig, key) ← popTwo
    conclude verify (← checkSignature env sig key)
  | .checkMultiSig verify => do conclude verify (← checkMultiSig env)

/-- Checks an opcode and executes it. A disabled opcode fails and a counted one is counted even in
a skipped part, where only conditionals are executed. -/
def runOpcode (env : Env) (code : Opcode) : Engine Unit := do
  if code.isDisabled then fail (.disabledOpcode code)
  else
    if code.isCounted then count 1
    let s ← get
    if s.isExecuting || code.isConditional then
      emit (.executing code s.stack.length)
      perform env code (Operation.ofOpcode code)

end Engine

end SpendScript
