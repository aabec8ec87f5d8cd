import SpendScript.Number.Word
import SpendScript.Key.Public
import SpendScript.Script.Builder

/-!
# Standard scripts

Locks of the standard forms and the scripts that open them.

* `Lock.toKey`, `Lock.toKeyHash`, `Lock.toScriptHash`, `Lock.multisig`: the locks.
* `Unlock.key`, `Unlock.keyHash`, `Unlock.multisig`, `Unlock.scriptHash`: what opens them.
-/

namespace SpendScript

/-- Data of at most 75 bytes as a push. -/
def Command.short (data : Bytes) (h : data.length ≤ 75) : Command :=
  .push ⟨data, .direct, h⟩

/-- A hash as a push. -/
def Command.ofHash (hash : Digest.Hash160) : Command :=
  .short hash.bytes (by rw [hash.length_eq]; decide)

/-- Why a multisignature lock cannot be made. -/
inductive MultisigError where
  | noRequiredSignatures
  | tooManyRequiredSignatures
  | noKeys
  | tooManyKeys (count : Nat)
  | builder (e : BuilderError)
deriving DecidableEq, Repr

/-- The text of an error. -/
def MultisigError.message : MultisigError → String
  | .noRequiredSignatures => "at least one signature must be required"
  | .tooManyRequiredSignatures => "too many required signatures"
  | .noKeys => "provided public keys should not be empty"
  | .tooManyKeys count =>
    s!"{count} public keys exceed the maximum of {Limits.multisigKeys}"
  | .builder e => e.message

namespace Lock

/-! ## Locks -/

/-- The key, and a check of a signature by it. -/
def toKey (key : PublicKey) (form : SecForm) : Script :=
  .ofCommands [.short (key.sec form) (by rw [key.length_sec]; cases form <;> decide),
    .op Opcode.checkSig]

/-- A check that the hash of a key is the given one, and of a signature by that key. -/
def toKeyHash (hash : Digest.Hash160) : Script :=
  .ofCommands [.op Opcode.dup, .op Opcode.hash160, .ofHash hash, .op Opcode.equalVerify,
    .op Opcode.checkSig]

/-- A check that the hash of a revealed script is the given one. -/
def toScriptHash (hash : Digest.Hash160) : Script :=
  .ofCommands [.op Opcode.hash160, .ofHash hash, .op Opcode.equal]

/-- The lock that a script opens by being revealed. -/
def toScript (redeem : Script) : Script :=
  toScriptHash redeem.hash160

/-- Adds data items one after the other. -/
def addAll (b : Builder) : List Bytes → Except BuilderError Builder
  | [] => .ok b
  | data :: rest => do addAll (← b.addData data) rest

/-- A check of `required` signatures by the keys, in the given order. The counts are checked
after the keys have been added. -/
def multisigInOrder (keys : List Bytes) (required : Nat) : Except MultisigError Script := do
  if required = 0 then throw .noRequiredSignatures
  let b ← (Builder.empty.addInt (Int.bmod required Number.wordSize)).mapError .builder
  let b ← (addAll b keys).mapError .builder
  if keys.isEmpty then throw .noKeys
  if keys.length < required then throw .tooManyRequiredSignatures
  if Limits.multisigKeys < keys.length then throw (.tooManyKeys keys.length)
  let b ← (b.addInt keys.length).mapError .builder
  let b ← (b.addOp Opcode.checkMultiSig).mapError .builder
  return b.toScript

/-- A check of `required` signatures by the keys in the order of their bytes, so that the order
in which they are listed does not matter. -/
def multisig (keys : List Bytes) (required : Nat) : Except MultisigError Script :=
  multisigInOrder (keys.mergeSort Bytes.le) required

end Lock

namespace Unlock

/-! ## What opens locks -/

/-- The last byte of every signature in a script. -/
def signatureKind : UInt8 := 0x01

/-- A signature as scripts push it. -/
def encodeSignature (sig : Signature) : Bytes :=
  sig.toDer ++ [signatureKind]

/-- A signature, for a lock to a key. -/
def key (signature : Bytes) : Except BuilderError Script := do
  return (← Builder.empty.addData signature).toScript

/-- A signature and a key, for a lock to the hash of the key. -/
def keyHash (signature key : Bytes) : Except BuilderError Script := do
  return (← (← Builder.empty.addData signature).addData key).toScript

/-- The extra item that a multisignature check takes, and the signatures in the order of their
keys. -/
def multisig (signatures : List Bytes) : Except BuilderError Script := do
  return (← Lock.addAll (← Builder.empty.addOp Opcode.zero) signatures).toScript

/-- What opens the revealed script, and its bytes. -/
def scriptHash (redeem opening : Script) : Except BuilderError Script := do
  return opening ++ (← Builder.empty.addData redeem.toBytes).toScript

end Unlock

end SpendScript
