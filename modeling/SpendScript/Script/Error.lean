import SpendScript.Curve.Error
import SpendScript.Script.Limits
import SpendScript.Script.Opcode
import SpendScript.Text.Hex

/-!
# Script errors

Why a byte string is no script, and why a run fails.

* `PushEncoding`: how the length of a data push is written, which one of the errors tells.
* `ScriptError`: the errors, with `ScriptError.message`.
-/

namespace SpendScript

/-- How the length of a data push is written. -/
inductive PushEncoding where
  /-- The length is the opcode. -/
  | direct
  /-- One length byte after the opcode. -/
  | pushData1
  /-- Two length bytes after the opcode, lowest first. -/
  | pushData2
deriving DecidableEq, Repr

/-- The name of an encoding. -/
def PushEncoding.name : PushEncoding → String
  | .direct => "Direct"
  | .pushData1 => "PushData1"
  | .pushData2 => "PushData2"

/-- A state in which an opcode cannot go on. -/
inductive StateFlaw where
  | noOpenConditional
  | negativeIndex (index : Int)
deriving DecidableEq, Repr

def StateFlaw.message : StateFlaw → String
  | .noOpenConditional => "condition stack empty"
  | .negativeIndex index => s!"negative stack index {index}"

/-- A count of signatures or keys that a multisignature check refuses. -/
inductive CountFlaw where
  | negativeKeys (count : Int)
  | tooManyKeys (count : Int)
  | negativeSignatures (count : Int)
  | moreSignaturesThanKeys (signatures keys : Int)
deriving DecidableEq, Repr

def CountFlaw.message : CountFlaw → String
  | .negativeKeys count => s!"number of pubkeys {count} is negative"
  | .tooManyKeys count => s!"too many pubkeys {count} > {Limits.multisigKeys}"
  | .negativeSignatures count => s!"number of signatures {count} is negative"
  | .moreSignaturesThanKeys signatures keys =>
    s!"more signatures than pubkeys {signatures} > {keys}"

/-- Why a script cannot be read, or why its run fails. -/
inductive ScriptError where
  | truncatedLength
  | truncatedScript (available declared : Nat)
  | readFailed (reason : String)
  | malformedPushSize (bytes : Bytes)
  | malformedPush (needed available : Nat)
  | pushTooLong (length : Nat)
  | stackTooBig (size : Nat)
  | invalidOpcode (code : Opcode)
  | reservedOpcode (code : Opcode)
  | disabledOpcode (code : Opcode)
  | emptyStack
  | uncleanStack (extra : Nat)
  | evalFalse
  | earlyReturn
  | verifyFailed
  | invalidState (flaw : StateFlaw)
  | signatureFormat (cause : EcError)
  | publicKeyFormat (cause : EcError)
  | tooManyOperations
  | elementTooBig (size : Nat)
  | pushNotMinimal (data : Bytes) (encoding : PushEncoding)
  | numberNotMinimal (bytes : Bytes)
  | conditionNotMinimal (bytes : Bytes)
  | numberTooBig (bytes : Bytes)
  | invalidSignatureCount (flaw : CountFlaw)
  | invalidKeyCount (flaw : CountFlaw)
  | unbalancedConditional
  | stackTooShort (needed available : Nat)
  | scriptTooBig (size : Nat)
deriving DecidableEq, Repr

/-- The text of an error. -/
def ScriptError.message : ScriptError → String
  | .truncatedLength => "script length prefix is truncated"
  | .truncatedScript available declared =>
    s!"script ends after {available} of {declared} declared bytes"
  | .readFailed reason => s!"failed reading script bytes: {reason}"
  | .malformedPushSize bytes => s!"invalid opcode length: {Text.Hex.listPadded bytes}"
  | .malformedPush needed available =>
    s!"opcode requires {needed} bytes, but script only has {available} remaining"
  | .pushTooLong length => s!"data push of {length} bytes cannot be encoded"
  | .stackTooBig size => s!"combined stack size {size} > max allowed {Limits.stackSize}"
  | .invalidOpcode code => s!"attempt to execute invalid opcode {code.text}"
  | .reservedOpcode code => s!"attempt to execute reserved opcode {code.text}"
  | .disabledOpcode code => s!"attempt to execute disabled opcode {code.text}"
  | .emptyStack => "attempt to read from empty stack"
  | .uncleanStack extra => s!"stack contains {extra} unexpected items"
  | .evalFalse => "false stack entry at end of script execution"
  | .earlyReturn => "script returned early"
  | .verifyFailed => "script ran, but verification failed"
  | .invalidState flaw => s!"encountered invalid state while running script: {flaw.message}"
  | .signatureFormat cause => s!"signature encoding invalid: {cause.message}"
  | .publicKeyFormat cause => s!"public key encoding invalid: {cause.message}"
  | .tooManyOperations => s!"exceeded max operation limit of {Limits.operations}"
  | .elementTooBig size => s!"element size {size} exceeds max allowed size {Limits.elementSize}"
  | .pushNotMinimal data encoding =>
    s!"push encoding is not minimal: data push {Text.Hex.list data} is encoded with {encoding.name}"
  | .numberNotMinimal bytes =>
    "push encoding is not minimal: numeric value encoded as " ++ Text.Hex.list bytes ++
      " is not minimally encoded"
  | .conditionNotMinimal bytes =>
    s!"conditional argument {Text.Hex.listPadded bytes} is not minimal"
  | .numberTooBig bytes =>
    s!"Number too big: numeric value encoded as {Text.Hex.list bytes} is {bytes.length} bytes " ++
      s!"which exceeds the max allowed of {Limits.numberSize}"
  | .invalidSignatureCount flaw => s!"invalid signature count: {flaw.message}"
  | .invalidKeyCount flaw => s!"invalid pubkey count: {flaw.message}"
  | .unbalancedConditional => "end of script reached in conditional execution"
  | .stackTooShort needed available =>
    s!"opcode requires at least {needed} but stack has only {available}"
  | .scriptTooBig size =>
    s!"script of size {size} exceeded maximum allowed size of {Limits.scriptSize}"

end SpendScript
