import SpendScript.Digest.Hash
import SpendScript.Key.Secp256k1

/-!
# Public keys

A public key is a finite point of secp256k1. Its SEC form is either compressed, a tag for the
parity of `y` before `x`, or uncompressed, the tag `04` before both coordinates.

* `PublicKey.sec`, `PublicKey.ofSec`: the two forms and their reader.
* `PublicKey.ofPoint`: a point as a key.
* `PublicKey.verify`: whether a signature of a digest belongs to the key.
-/

namespace SpendScript

open SpendScript.Field (Modulus Residue)

/-- A finite point of secp256k1. -/
structure PublicKey where
  x : Residue
  y : Residue
  on_curve : Secp256k1.curve.contains x y = .ok true
deriving DecidableEq

/-- The two written forms of a key. -/
inductive SecForm where
  | compressed
  | uncompressed
deriving DecidableEq, Repr

namespace PublicKey

def compressedSize : Nat := 33

def uncompressedSize : Nat := 65

/-- The tag of a compressed key with an even or an odd `y`. -/
def parityTag (even : Bool) : UInt8 :=
  if even then 0x02 else 0x03

def uncompressedTag : UInt8 := 0x04

/-! ## Points -/

theorem cubic_modulus {x z : Residue} (h : Secp256k1.curve.cubic x = .ok z) :
    x.modulus = Secp256k1.field ∧ z.modulus = Secp256k1.field := by
  unfold Curve.cubic at h
  simp only [Field.Arith.add, Field.Arith.mul, Field.Arith.square, bind, Except.bind] at h
  split at h
  · cases h
  split at h
  · cases h
  rename_i ax hax
  split at h
  · cases h
  rename_i sum hsum
  have hx := (Residue.combine_modulus hax).1
  have hs := Residue.combine_modulus hsum
  have hz := Residue.combine_modulus h
  have hb : Secp256k1.curve.b.modulus = Secp256k1.field := rfl
  have ha : Secp256k1.curve.a.modulus = Secp256k1.field := rfl
  rw [hb] at hz
  exact ⟨by rw [← hx, ha], by rw [hz.2, hz.1]⟩

theorem modulus_eq (key : PublicKey) :
    key.x.modulus = Secp256k1.field ∧ key.y.modulus = Secp256k1.field := by
  have h := key.on_curve
  unfold Curve.contains at h
  simp only [bind, Except.bind, pure, Except.pure] at h
  split at h
  · cases h
  rename_i z hz
  have hm := cubic_modulus hz
  have hy : Field.Arith.square key.y = z := by simpa using h
  exact ⟨hm.1, by rw [← hm.2, ← hy]; rfl⟩

def point (key : PublicKey) : Point Residue :=
  .affine Secp256k1.curve key.x key.y key.on_curve

/-- The key with given coordinates, if they are on the curve. -/
def ofCoords (x y : Residue) : Except EcError PublicKey :=
  match h : Secp256k1.curve.contains x y with
  | .ok true => .ok ⟨x, y, h⟩
  | .ok false => .error (.notOnCurve x.text y.text)
  | .error f => .error (.fault f)

/-- A point as a key. The neutral element is refused, and so is a point of another curve. -/
def ofPoint : Point Residue → Except EcError PublicKey
  | .infinity _ => .error .infinityPublicKey
  | .affine c x y h =>
    if hc : c = Secp256k1.curve then .ok ⟨x, y, hc ▸ h⟩
    else .error (.notOnCurve x.text y.text)

/-! ## Written forms -/

/-- The bytes of a key. -/
def sec (key : PublicKey) : SecForm → Bytes
  | .compressed => parityTag key.y.isEven :: key.x.toBytes
  | .uncompressed => uncompressedTag :: key.x.toBytes ++ key.y.toBytes

theorem length_sec (key : PublicKey) (form : SecForm) :
    (key.sec form).length = match form with
      | .compressed => 33
      | .uncompressed => 65 := by
  have hp : Secp256k1.field.byteLength = 32 := rfl
  have hx : key.x.toBytes.length = 32 := by rw [Residue.toBytes_length, key.modulus_eq.1, hp]
  have hy : key.y.toBytes.length = 32 := by rw [Residue.toBytes_length, key.modulus_eq.2, hp]
  cases form <;> simp [sec, hx, hy]

/-- The key with first coordinate `x` and the parity of `y` that the tag tells. -/
def ofX (x : Residue) (even : Bool) : Except EcError PublicKey := do
  let cubic ← EcError.ofFault (Secp256k1.curve.cubic x)
  match cubic.sqrt with
  | none => throw (.invalidSec .noPointAtX)
  | some root => ofCoords x (if root.isEven = even then root else root.neg)

/-- Reads either form. -/
def ofSec : Bytes → Except EcError PublicKey
  | [] => .error (.invalidSec .emptyKey)
  | tag :: body =>
    if tag = uncompressedTag then
      if body.length + 1 ≠ uncompressedSize then .error (.invalidSec .uncompressedLength)
      else do
        let x ← EcError.ofField (Secp256k1.field.ofBytes (body.take 32))
        let y ← EcError.ofField (Secp256k1.field.ofBytes (body.drop 32))
        ofCoords x y
    else if tag = parityTag true ∨ tag = parityTag false then
      if body.length + 1 ≠ compressedSize then .error (.invalidSec .compressedLength)
      else do
        let x ← EcError.ofField (Secp256k1.field.ofBytes body)
        ofX x (tag == parityTag true)
    else .error (.invalidSec .unknownTag)

/-- The hash that names the key in scripts. -/
def hash160 (key : PublicKey) (form : SecForm) : Digest.Hash160 :=
  Digest.hash160 (key.sec form)

/-- The compressed form in hexadecimal. -/
def text (key : PublicKey) : String :=
  Text.Hex.encode (key.sec .compressed)

/-- Whether the signature of the digest belongs to the key. -/
def verify (key : PublicKey) (z : Nat) (sig : Signature) : Except Fault Bool :=
  Secp256k1.group.verify key.point z sig

end PublicKey

end SpendScript
