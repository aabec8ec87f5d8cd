import SpendScript.Number.Word
import SpendScript.Script.Number
import SpendScript.Engine.State
import SpendScript.Key.Public

/-!
# Signature checks

A check takes a signature with one more byte at its end, which is not interpreted, and a key.

* `SigCheck.verdict`: what a check finds, without policy and memory.
* `Engine.checkSignature`: the check of a run, which remembers what it found.
* `Engine.checkMultiSig`: the signatures are matched with keys in order, each key used at most
  once.
-/

namespace SpendScript

/-- What a signature check finds. -/
inductive Verdict where
  | decided (valid : Bool)
  | malformed (cause : ScriptError)
  | fault (f : Fault)
deriving DecidableEq, Repr

/-- Reads the signature, then the key, and verifies. -/
def SigCheck.verdict (check : SigCheck) : Verdict :=
  match Signature.ofDer check.signature with
  | .error flaw => .malformed (.signatureFormat (.invalidDer flaw))
  | .ok sig =>
    match PublicKey.ofSec check.key with
    | .error (.fault f) => .fault f
    | .error cause => .malformed (.publicKeyFormat cause)
    | .ok key =>
      match key.verify check.digest sig with
      | .ok valid => .decided valid
      | .error f => .fault f

namespace Engine

/-! ## Numbers -/

/-- The top item as a number. -/
def popNumber : Engine Int := do
  lift (ScriptNumber.decode (← pop))

/-- The top two items as numbers; the lower one is read first. -/
def popTwoNumbers : Engine (Int × Int) := do
  let (a, b) ← popTwo
  let a ← lift (ScriptNumber.decode a)
  let b ← lift (ScriptNumber.decode b)
  return (a, b)

/-- The top three items as numbers; the lowest one is read first. -/
def popThreeNumbers : Engine (Int × Int × Int) := do
  let (a, b, c) ← popThree
  let a ← lift (ScriptNumber.decode a)
  let b ← lift (ScriptNumber.decode b)
  let c ← lift (ScriptNumber.decode c)
  return (a, b, c)

/-- Pushes a number, which has to fit in 64 bits. -/
def pushNumber (n : Int) : Engine Unit :=
  if Number.fitsSigned n then push (ScriptNumber.encode n) else throw (.fault .overflow)

/-- Counts operations against the limit. -/
def count (n : Nat) : Engine Unit := do
  modify fun s => { s with operations := s.operations + n }
  if Limits.operations < (← get).operations then fail .tooManyOperations

/-! ## Checks -/

/-- Whether the signature belongs to the key and the digest of the run. An empty signature never
does. A malformed one fails the script only under the strict policy, and is not remembered. -/
def checkSignature (env : Env) (signature key : Bytes) : Engine Bool := do
  if signature.isEmpty then return false
  else
    let check : SigCheck := ⟨signature.dropLast, key, env.digest⟩
    match (← get).cache.get? check with
    | some valid => return valid
    | none =>
      match check.verdict with
      | .decided valid =>
        modify fun s => { s with cache := s.cache.insert check valid }
        return valid
      | .malformed cause =>
        if env.flags.strictEncoding then fail cause
        else
          emit (.checkFailed cause)
          return false
      | .fault f => throw (.fault f)

/-- Whether the signatures match keys in order. Each check uses up a key, and the scan ends early
at an empty signature or when more signatures than keys are left. -/
def matchKeys (check : Bytes → Bytes → Engine Bool) :
    (keys signatures : List Bytes) → Engine Bool
  | _, [] => return true
  | [], _ :: _ => return false
  | key :: keys, sig :: sigs => do
    if sig.isEmpty ∨ keys.length < sigs.length then return false
    else if ← check sig key then matchKeys check keys sigs
    else matchKeys check keys (sig :: sigs)

/-- Takes a count of keys, the keys, a count of signatures, the signatures and one more item off
the stack. The keys count as operations. -/
def checkMultiSig (env : Env) : Engine Bool := do
  let keyCount ← popNumber
  if keyCount < 0 then fail (.invalidKeyCount (.negativeKeys keyCount))
  else if (Limits.multisigKeys : Int) < keyCount then
    fail (.invalidKeyCount (.tooManyKeys keyCount))
  else
    count keyCount.toNat
    let keys ← popMany keyCount.toNat
    let sigCount ← popNumber
    if sigCount < 0 then fail (.invalidSignatureCount (.negativeSignatures sigCount))
    else if keyCount < sigCount then
      fail (.invalidSignatureCount (.moreSignaturesThanKeys sigCount keyCount))
    else
      let signatures ← popMany sigCount.toNat
      let _ ← pop
      matchKeys (checkSignature env) keys signatures

end Engine

end SpendScript
