import SpendScript.Field.Fault

/-!
# Errors of curves, signatures and keys

* `DerFlaw`, `SecFlaw`: what is wrong with an encoded signature or key.
* `EcError`: everything that making a point, a group, a signature or a key can be refused for,
  with `EcError.message`.
-/

namespace SpendScript

/-! ## Flaws of encodings -/

/-- What is wrong with an encoded signature. -/
inductive DerFlaw where
  | tooShort
  | tooLong
  | missingSequenceTag
  | sequenceLengthMismatch
  | truncatedIntegerHeader
  | missingIntegerTag
  | emptyInteger
  | integerOverrun
  | negativeInteger
  | integerNotMinimal
  | zeroInteger
  | trailingBytes
deriving DecidableEq, Repr

def DerFlaw.message : DerFlaw → String
  | .tooShort => "too short"
  | .tooLong => "too long"
  | .missingSequenceTag => "missing sequence tag"
  | .sequenceLengthMismatch => "sequence length mismatch"
  | .truncatedIntegerHeader => "truncated integer header"
  | .missingIntegerTag => "missing integer tag"
  | .emptyInteger => "empty integer"
  | .integerOverrun => "integer overruns the signature"
  | .negativeInteger => "negative integer"
  | .integerNotMinimal => "integer is not minimally encoded"
  | .zeroInteger => "zero integer"
  | .trailingBytes => "trailing bytes"

/-- What is wrong with the form of an encoded public key. -/
inductive SecFlaw where
  | emptyKey
  | uncompressedLength
  | compressedLength
  | noPointAtX
  | unknownTag
deriving DecidableEq, Repr

def SecFlaw.message : SecFlaw → String
  | .emptyKey => "empty key"
  | .uncompressedLength => "uncompressed key must be 65 bytes"
  | .compressedLength => "compressed key must be 33 bytes"
  | .noPointAtX => "x coordinate is not on the curve"
  | .unknownTag => "unknown prefix"

/-! ## Errors -/

/-- Why a point, a group, a signature or a key is refused. Coordinates are kept as written. -/
inductive EcError where
  | notOnCurve (x y : String)
  | scalarOutOfRange (order : Nat)
  | invalidGroup (generator : String) (order : Nat)
  | invalidDer (flaw : DerFlaw)
  | invalidSec (flaw : SecFlaw)
  | infinityPublicKey
  | field (error : Field.FieldError)
  | fault (fault : Fault)
deriving DecidableEq, Repr

/-- The text of an error. -/
def EcError.message : EcError → String
  | .notOnCurve x y => s!"point ({x}, {y}) is not on the curve"
  | .scalarOutOfRange order => s!"scalar is outside of [1, {order})"
  | .invalidGroup generator order =>
    s!"{generator} is not a generator of a group of order {order}"
  | .invalidDer flaw => s!"invalid DER signature: {flaw.message}"
  | .invalidSec flaw => s!"invalid SEC public key: {flaw.message}"
  | .infinityPublicKey => "the point at infinity cannot be used as a public key"
  | .field error => error.message
  | .fault _ => "arithmetic fault"

namespace EcError

/-- A computation that can only fault, among those that can also be refused. -/
def ofFault {α : Type} : Except Fault α → Except EcError α
  | .ok a => .ok a
  | .error f => .error (.fault f)

/-- A computation on numbers, among those that can also be refused for other reasons. -/
def ofField {α : Type} : Except Field.FieldError α → Except EcError α
  | .ok a => .ok a
  | .error e => .error (.field e)

end EcError

end SpendScript
