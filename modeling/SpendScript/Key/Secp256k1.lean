import SpendScript.Ecdsa.Group
import SpendScript.Field.Residue

/-!
# The curve secp256k1

The curve `y² = x³ + 7` over a 256-bit field, with its standard generator.
-/

namespace SpendScript.Secp256k1

open SpendScript.Field (Modulus Residue)

/-- The modulus of the field, `2 ^ 256 - 2 ^ 32 - 977`. -/
def p : Nat :=
  0xfffffffffffffffffffffffffffffffffffffffffffffffffffffffefffffc2f

/-- The order of the generator. -/
def n : Nat :=
  0xfffffffffffffffffffffffffffffffebaaedce6af48a03bbfd25e8cd0364141

def field : Modulus :=
  ⟨p, by decide⟩

def curve : Curve Residue :=
  ⟨field.zero, field.reduce 7⟩

def generatorX : Residue :=
  field.reduce 0x79be667ef9dcbbac55a06295ce870b07029bfcdb2dce28d959f2815b16f81798

def generatorY : Residue :=
  field.reduce 0x483ada7726a3c4655da4fbfc0e1108a8fd17b448a68554199c47d08ffb10d4b8

theorem generator_on_curve : curve.contains generatorX generatorY = .ok true := by
  rfl

def generator : Point Residue :=
  .affine curve generatorX generatorY generator_on_curve

def group : Group Residue :=
  ⟨generator, n⟩

end SpendScript.Secp256k1
