import SpendScript.Field.Fault

/-!
# Modular arithmetic

What the curve code asks of a type of residues. Every element knows its modulus, so an operation
on two elements first checks that they belong together.

* `Arith`: the operations.
* `Arith.isZero`: the test for the representative zero.
-/

namespace SpendScript.Field

/-- Arithmetic on the integers modulo the elements' common modulus. Operations on two elements
fault on different moduli; division also faults on a zero divisor. -/
class Arith (F : Type) where
  /-- The representative below the modulus. -/
  value : F → Nat
  modulus : F → Nat
  /-- The zero of the element's own modulus. -/
  zero : F → F
  add : F → F → Except Fault F
  sub : F → F → Except Fault F
  mul : F → F → Except Fault F
  /-- Multiplies by the power `modulus - 2` of the divisor. -/
  div : F → F → Except Fault F
  neg : F → F
  square : F → F
  pow : F → Nat → F
  /-- The element added to itself as often as the scalar says. -/
  scale : F → UInt64 → F
  /-- The written form of the representative. -/
  text : F → String

/-- Whether the representative is zero. -/
def Arith.isZero {F : Type} [Arith F] (x : F) : Bool :=
  Arith.value x == 0

end SpendScript.Field
