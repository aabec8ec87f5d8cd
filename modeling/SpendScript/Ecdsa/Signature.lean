import SpendScript.Bytes
import SpendScript.Curve.Error
import SpendScript.Text.Hex

/-!
# Signatures and their DER form

A signature is a pair of numbers. Its DER form is a sequence of two integers.

* `Signature.toDer`: the encoding, for numbers of any size.
* `Signature.ofDer`: a strict reader. It takes encodings of at most 72 bytes whose integers are
  positive and minimal, and nothing after them.
-/

namespace SpendScript

/-- A pair `(r, s)`. -/
structure Signature where
  r : Nat
  s : Nat
deriving DecidableEq, Repr

namespace Signature

/-- Both numbers in hexadecimal. -/
def text (sig : Signature) : String :=
  s!"Signature({Text.Hex.ofNat sig.r}, {Text.Hex.ofNat sig.s})"

/-- Whether both numbers lie in `[1, order)`. -/
def inRange (sig : Signature) (order : Nat) : Bool :=
  decide (0 < sig.r ∧ sig.r < order ∧ 0 < sig.s ∧ sig.s < order)

/-- Refuses a signature with a number outside of `[1, order)`. -/
def checkRange (sig : Signature) (order : Nat) : Except EcError Unit :=
  if sig.inRange order then .ok () else .error (.scalarOutOfRange order)

end Signature

namespace Der

def sequenceTag : UInt8 := 0x30

def integerTag : UInt8 := 0x02

/-! ## Writing -/

/-- A length: one byte below 128, else the number of length bytes and the length in the fewest
bytes. -/
def lengthBytes (n : Nat) : Bytes :=
  if n < 128 then [UInt8.ofNat n]
  else
    let ds := Bytes.digits n
    UInt8.ofNat (128 + ds.length) :: ds

/-- The contents of an integer: the shortest big-endian form whose highest bit is clear. -/
def integerBody (n : Nat) : Bytes :=
  match Bytes.ofNat n with
  | [] => []
  | b :: bs => if 128 ≤ b then 0 :: b :: bs else b :: bs

/-- An integer with its tag and length. -/
def integer (n : Nat) : Bytes :=
  integerTag :: lengthBytes (integerBody n).length ++ integerBody n

/-! ## Strict reading -/

/-- The value of the contents of an integer that has to be positive and minimal. -/
def integerValue : Bytes → Except DerFlaw Nat
  | [] => .error .emptyInteger
  | b :: bs =>
    if 128 ≤ b then .error .negativeInteger
    else if b = 0 ∧ (bs.head?.any (· < 128)) then .error .integerNotMinimal
    else
      let n := Bytes.toNat (b :: bs)
      if n = 0 then .error .zeroInteger else .ok n

/-- An integer with a one-byte length at the start of `bs`, and what follows it. -/
def readInteger : Bytes → Except DerFlaw (Nat × Bytes)
  | tag :: len :: rest =>
    if tag ≠ integerTag then .error .missingIntegerTag
    else if len = 0 then .error .emptyInteger
    else if rest.length < len.toNat then .error .integerOverrun
    else do
      let n ← integerValue (rest.take len.toNat)
      return (n, rest.drop len.toNat)
  | _ => .error .truncatedIntegerHeader

end Der

namespace Signature

/-- The sequence of `r` and `s`. -/
def toDer (sig : Signature) : Bytes :=
  let body := Der.integer sig.r ++ Der.integer sig.s
  Der.sequenceTag :: Der.lengthBytes body.length ++ body

/-- The two integers of a sequence whose contents are `body`. -/
def ofDerBody (body : Bytes) : Except DerFlaw Signature := do
  let (r, rest) ← Der.readInteger body
  let (s, rest) ← Der.readInteger rest
  if rest.isEmpty then return ⟨r, s⟩ else throw .trailingBytes

/-- Reads a strictly encoded signature of 8 to 72 bytes. -/
def ofDer (bs : Bytes) : Except DerFlaw Signature :=
  if bs.length < 8 then .error .tooShort
  else if 72 < bs.length then .error .tooLong
  else
    match bs with
    | tag :: len :: body =>
      if tag ≠ Der.sequenceTag then .error .missingSequenceTag
      else if len.toNat ≠ body.length then .error .sequenceLengthMismatch
      else ofDerBody body
    | _ => .error .tooShort

end Signature

end SpendScript
