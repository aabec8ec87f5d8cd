/-!
# Faults and field errors

A fault is a broken assumption of the arithmetic: operands that do not belong together, a
division by zero, or a result off its curve. It is not an answer about the input, so it is kept
apart from the errors that reading a number can give. A result that a bounded search did not find
is no such answer either.
-/

namespace SpendScript

/-- A broken assumption of the arithmetic. -/
inductive Fault where
  /-- The operands have different moduli. -/
  | mixedModuli
  /-- The divisor is zero. -/
  | divisionByZero
  /-- The points lie on different curves. -/
  | mixedCurves
  /-- The group law gave coordinates that do not satisfy the curve equation. -/
  | offCurve
  /-- A machine integer left its range. -/
  | overflow
  /-- A bounded search for a nonce has used up its candidates. Signing loops without a bound, so
  its result is missing: with more candidates there may be one. -/
  | noncesExhausted
  /-- A table would have more entries than can be addressed. -/
  | tableTooLarge
deriving DecidableEq, Repr

namespace Field

/-- Why a number is no field element, or why a modulus defines no field. -/
inductive FieldError where
  | valueOutOfRange (value modulus : Nat)
  | invalidModulus (modulus : Nat)
  | byteLength (expected actual : Nat)
deriving DecidableEq, Repr

/-- The text of an error. -/
def FieldError.message : FieldError → String
  | .valueOutOfRange value modulus =>
    s!"value {value} is not in the field range [0, {modulus})"
  | .invalidModulus modulus => s!"modulus {modulus} cannot define a field"
  | .byteLength expected actual =>
    s!"expected at most {expected} bytes for a field element, got {actual}"

end Field

end SpendScript
