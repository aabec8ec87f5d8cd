import SpendScript.Script.Basic
import SpendScript.Script.CompactSize

/-!
# Serialized scripts

The wire format of a script: its length as a compact size, then its bytes.

* `Script.serialize`: the written form.
* `Script.read`: reads a script from a source, and the source after it.
-/

namespace SpendScript.Script

/-- The length of the bytes, then the bytes. -/
def serialize (s : Script) : Bytes :=
  let bs := s.toBytes
  CompactSize.encode (UInt64.ofNat bs.length) ++ bs

/-- The error of a length that a source does not hold. -/
def lengthError : Ending → ScriptError
  | .broken reason => .readFailed reason
  | .clean | .unexpectedEnd => .truncatedLength

/-- The error of a body of `declared` bytes of which a source holds only `available`. -/
def bodyError (available declared : Nat) : Ending → ScriptError
  | .broken reason => .readFailed reason
  | .clean | .unexpectedEnd => .truncatedScript available declared

/-- The script at the start of a source, and the source after it. -/
def read (source : Source) : Except ScriptError (Script × Source) := do
  let (length, source) ← (CompactSize.read source).mapError lengthError
  let (body, rest) ←
    (source.readExact length.toNat).mapError (bodyError source.bytes.length length.toNat)
  return (← ofBytes body, rest)

end SpendScript.Script
