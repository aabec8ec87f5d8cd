import SpendScript.Bytes
import SpendScript.Field.Arith
import SpendScript.Number.Binary
import SpendScript.Text.Hex

/-!
# Residues of any size

Integers modulo a number of any size, which the elements share.

* `Modulus.ofNat`, `Modulus.element`, `Modulus.reduce`, `Modulus.ofBytes`: how elements arise.
* `Residue.add`, `Residue.div`, …: arithmetic that faults on different moduli.
* `Residue.sqrt`: square roots where the modulus is 3 modulo 4.
* `Residue.toBytes`: the fixed-width big-endian form, inverse to `Modulus.ofBytes`.

Nothing checks that a modulus is prime; quotients and roots mean what their names say only if it
is.
-/

namespace SpendScript.Field

/-- A modulus: any number above one. -/
structure Modulus where
  val : Nat
  one_lt : 1 < val
deriving DecidableEq

/-- An integer modulo `modulus`, by its least representative. -/
structure Residue where
  modulus : Modulus
  value : Nat
  value_lt : value < modulus.val
deriving DecidableEq

namespace Modulus

theorem pos (m : Modulus) : 0 < m.val :=
  Nat.lt_of_lt_of_le (by decide) (Nat.le_of_lt m.one_lt)

/-- Refuses zero and one. -/
def ofNat (n : Nat) : Except FieldError Modulus :=
  if h : 1 < n then .ok ⟨n, h⟩ else .error (.invalidModulus n)

/-- Fewest bytes that hold the modulus. Every representative fits into them, though one byte less
is enough for these if the modulus is a power of 256. -/
def byteLength (m : Modulus) : Nat :=
  Number.byteLength m.val

/-- The modulus in hexadecimal, for diagnostics. -/
def debugText (m : Modulus) : String :=
  s!"PrimeField(0x{Text.Hex.ofNat m.val})"

/-! ## Elements -/

/-- The residue of any number. -/
def reduce (m : Modulus) (n : Nat) : Residue :=
  ⟨m, n % m.val, Nat.mod_lt n m.pos⟩

/-- The element with representative `n`, which has to be reduced already. -/
def element (m : Modulus) (n : Nat) : Except FieldError Residue :=
  if h : n < m.val then .ok ⟨m, n, h⟩ else .error (.valueOutOfRange n m.val)

/-- Reads a representative from at most `byteLength` big-endian bytes. -/
def ofBytes (m : Modulus) (bs : Bytes) : Except FieldError Residue :=
  if m.byteLength < bs.length then .error (.byteLength m.byteLength bs.length)
  else m.element (Bytes.toNat bs)

def zero (m : Modulus) : Residue :=
  ⟨m, 0, m.pos⟩

def one (m : Modulus) : Residue :=
  ⟨m, 1, m.one_lt⟩

end Modulus

namespace Residue

/-! ## Arithmetic -/

/-- Gives the residue of `f a b` if `a` and `b` have one modulus. -/
def combine (f : Nat → Nat → Nat) (a b : Residue) : Except Fault Residue :=
  if a.modulus = b.modulus then .ok (a.modulus.reduce (f a.value b.value))
  else .error .mixedModuli

def add (a b : Residue) : Except Fault Residue :=
  combine (· + ·) a b

/-- The difference, lifted by one modulus so that it stays a natural number. -/
def sub (a b : Residue) : Except Fault Residue :=
  combine (fun x y => x + (a.modulus.val - y)) a b

def mul (a b : Residue) : Except Fault Residue :=
  combine (· * ·) a b

/-- The product with the power `modulus - 2` of the divisor. -/
def div (a b : Residue) : Except Fault Residue :=
  if a.modulus ≠ b.modulus then .error .mixedModuli
  else if b.value = 0 then .error .divisionByZero
  else .ok (a.modulus.reduce (a.value * Number.fermatInverse a.modulus.val b.value))

def neg (a : Residue) : Residue :=
  a.modulus.reduce (a.modulus.val - a.value)

def square (a : Residue) : Residue :=
  a.modulus.reduce (a.value * a.value)

def pow (a : Residue) (e : Nat) : Residue :=
  a.modulus.reduce (Number.powMod a.modulus.val a.value e)

def scale (a : Residue) (k : UInt64) : Residue :=
  a.modulus.reduce (a.value * k.toNat)

/-- A square root by the power `(p + 1) / 4`, kept only if its square gives `a` back. There is
none unless the modulus is 3 modulo 4. -/
def sqrt (a : Residue) : Option Residue :=
  if a.modulus.val % 4 = 3 then
    let root := a.pow ((a.modulus.val + 1) / 4)
    if root.square = a then some root else none
  else none

/-! ## Written forms -/

def isEven (a : Residue) : Bool :=
  a.value % 2 == 0

/-- The representative in exactly `byteLength` big-endian bytes. -/
def toBytes (a : Residue) : Bytes :=
  Bytes.padLeft a.modulus.byteLength (Bytes.ofNat a.value)

/-- The shortest spelling of a representative fits into the width, also that of zero. -/
theorem length_ofNat_value_le (a : Residue) :
    (Bytes.ofNat a.value).length ≤ a.modulus.byteLength := by
  have hlt : a.value < Nat.pow 256 a.modulus.byteLength :=
    Nat.lt_trans a.value_lt (Number.lt_pow_byteLength a.modulus.val)
  exact Bytes.length_ofNat_le (Number.byteLength_pos a.modulus.pos) hlt

theorem toBytes_length (a : Residue) : a.toBytes.length = a.modulus.byteLength :=
  Bytes.length_padLeft a.length_ofNat_value_le

theorem combine_modulus {f : Nat → Nat → Nat} {a b c : Residue} (h : combine f a b = .ok c) :
    a.modulus = b.modulus ∧ c.modulus = a.modulus := by
  unfold combine at h
  split at h
  · rename_i hm
    cases h
    exact ⟨hm, rfl⟩
  · cases h

/-- Hexadecimal digits, two for each byte of the fixed width. -/
def text (a : Residue) : String :=
  Text.Hex.ofNatPadded (2 * a.modulus.byteLength) a.value

/-- The representative in hexadecimal, for diagnostics. -/
def debugText (a : Residue) : String :=
  s!"PrimeFieldElement(0x{Text.Hex.ofNat a.value})"

instance : Arith Residue where
  value := Residue.value
  modulus a := a.modulus.val
  zero a := a.modulus.zero
  add := Residue.add
  sub := Residue.sub
  mul := Residue.mul
  div := Residue.div
  neg := Residue.neg
  square := Residue.square
  pow := Residue.pow
  scale := Residue.scale
  text := Residue.text

end Residue

end SpendScript.Field
