import SpendScript.Proofs.Field.Laws
import SpendScript.Proofs.Machine.Checked

/-!
# Word arithmetic of the machine

Field elements whose modulus and representative are words of 64 bits. Sums and products are taken in
128 bits, which a modulus close to `2 ^ 64` nearly fills, and differences in 64 bits without a sign;
a step that leaves its range panics.

* `Machine.WordElement`: such an element in memory; `WordResidue.held`: the one that holds a residue.
* `WordElement.add`, `WordElement.pow`, `WordElement.div`, …: the operations, with what they assume.

Results:
* `WordElement.mulMod_eq_ok`: the product of two words modulo a third one stays in range.
* Each operation gives what the operation on residues gives; no step leaves its range, and what is
  left to panic are the faults of the operation on residues.
-/

namespace SpendScript

open SpendScript.Field (WordResidue)

namespace Checked

/-- A result in 128 bits. -/
def wide (n : ℕ) : Checked ℕ :=
  if n < 2 ^ 128 then .ok n else .error .overflow

/-- The difference of two words. -/
def subWord (a b : UInt64) : Checked UInt64 :=
  if b ≤ a then .ok (a - b) else .error .overflow

/-- The remainder of a division by a word that must not be zero. -/
def remWord (a m : UInt64) : Checked UInt64 :=
  if m = 0 then .error (.fault .divisionByZero) else .ok (a % m)

variable {a b m : UInt64} {n : ℕ}

theorem wide_eq_ok (h : n < 2 ^ 128) : wide n = .ok n :=
  if_pos h

theorem subWord_eq_ok (h : b ≤ a) : subWord a b = .ok (a - b) :=
  if_pos h

theorem remWord_eq_ok (h : 0 < m) (a : UInt64) : remWord a m = .ok (a % m) :=
  if_neg fun h0 => by simp [h0] at h

end Checked

namespace Machine

/-- A field element in memory whose parts are words. -/
structure WordElement where
  modulus : UInt64
  value : UInt64
deriving DecidableEq

namespace WordElement

/-- An element of the same field. -/
def withValue (x : WordElement) (value : UInt64) : WordElement :=
  { x with value := value }

/-- The modulus of two elements, which have to be of one field. -/
def sameField (x y : WordElement) : Checked UInt64 :=
  if x.modulus = y.modulus then .ok x.modulus else .error (.fault .mixedModuli)

/-- The product modulo `m`: of its 128 bits, the remainder fits into a word. -/
def mulMod (a b m : UInt64) : Checked UInt64 := do
  let product ← Checked.wide (a.toNat * b.toNat)
  return UInt64.ofNat (← Checked.rem product m.toNat)

/-- Square-and-multiply over the digits of an exponent. -/
def powLadder (m : UInt64) : List Bool → (acc base : UInt64) → Checked UInt64
  | [], acc, _ => .ok acc
  | b :: bs, acc, base => do
    let acc ← if b then mulMod acc base m else .ok acc
    powLadder m bs acc (← mulMod base base m)

def add (x y : WordElement) : Checked WordElement := do
  let m ← sameField x y
  let sum ← Checked.wide (x.value.toNat + y.value.toNat)
  return x.withValue (UInt64.ofNat (← Checked.rem sum m.toNat))

def sub (x y : WordElement) : Checked WordElement := do
  let m ← sameField x y
  if y.value ≤ x.value then return x.withValue (← Checked.subWord x.value y.value)
  else return x.withValue (← Checked.subWord m (← Checked.subWord y.value x.value))

def mul (x y : WordElement) : Checked WordElement := do
  let m ← sameField x y
  return x.withValue (← mulMod x.value y.value m)

def pow (x : WordElement) (e : ℕ) : Checked WordElement := do
  let one ← Checked.remWord 1 x.modulus
  return x.withValue (← powLadder x.modulus (Number.bits e) one x.value)

/-- Multiplies by the power `m - 2` of the divisor. -/
def div (x y : WordElement) : Checked WordElement := do
  let m ← sameField x y
  if y.value = 0 then throw (.fault .divisionByZero)
  else
    let e ← Checked.subWord m 2
    x.mul (← y.pow e.toNat)

/-- The element added to itself as often as the scalar says. -/
def scale (x : WordElement) (k : UInt64) : Checked WordElement := do
  let k ← Checked.remWord k x.modulus
  return x.withValue (← mulMod x.value k x.modulus)

def zero (x : WordElement) : Checked WordElement :=
  x.scale 0

def neg (x : WordElement) : Checked WordElement := do
  (← x.zero).sub x

def square (x : WordElement) : Checked WordElement :=
  x.mul x

end WordElement

end Machine

namespace Field

/-- The element that holds a residue. -/
def WordResidue.held (x : WordResidue) : Machine.WordElement :=
  ⟨x.modulus, x.value⟩

end Field

namespace Machine.WordElement

/-! ## Wide steps -/

section Steps

variable {b m : UInt64}

theorem mulMod_eq_ok (hm : 0 < m) (a b : UInt64) :
    mulMod a b m = .ok (WordResidue.mulMod a b m) := by
  have hpos : 0 < m.toNat := UInt64.lt_iff_toNat_lt.mp hm
  have hproduct : a.toNat * b.toNat < 2 ^ 64 * 2 ^ 64 := Nat.mul_lt_mul'' a.toNat_lt b.toNat_lt
  simp only [mulMod, Checked.wide_eq_ok (by omega : a.toNat * b.toNat < 2 ^ 128), ok_bind,
    Checked.rem_eq_ok hpos, pure, Except.pure]
  rw [← WordResidue.toNat_mulMod a b hm, UInt64.ofNat_toNat]

theorem powLadder_eq_ok (hm : 0 < m) (bits : List Bool) (acc base : UInt64) :
    powLadder m bits acc base = .ok (WordResidue.powLadder m bits acc base) := by
  induction bits generalizing acc base with
  | nil => rfl
  | cons b bits ih =>
    cases b with
    | false => simp [powLadder, WordResidue.powLadder, mulMod_eq_ok hm, ok_bind, ih]
    | true => simp [powLadder, WordResidue.powLadder, mulMod_eq_ok hm, ok_bind, ih]

/-- The difference modulo `m`, by a word below it: what is subtracted is never the greater one. -/
theorem sub_eq_ok (a : UInt64) (hb : b < m) :
    sub ⟨m, a⟩ ⟨m, b⟩ = .ok ⟨m, WordResidue.subMod a b m⟩ := by
  simp only [sub, sameField, if_pos, ok_bind, WordResidue.subMod, withValue]
  by_cases hle : b ≤ a
  · rw [if_pos hle, if_pos hle, Checked.subWord_eq_ok hle]
    rfl
  · have hab : a ≤ b := UInt64.le_of_lt (UInt64.not_le.mp hle)
    have hba : b - a ≤ m := by
      rw [UInt64.le_iff_toNat_le, UInt64.toNat_sub_of_le _ _ hab]
      exact Nat.le_of_lt (Nat.lt_of_le_of_lt (Nat.sub_le _ _) (UInt64.lt_iff_toNat_lt.mp hb))
    rw [if_neg hle, if_neg hle, Checked.subWord_eq_ok hab, ok_bind, Checked.subWord_eq_ok hba]
    rfl

end Steps

/-! ## Operations on one element -/

variable {x y : WordResidue}

theorem pow_held (x : WordResidue) (e : ℕ) : pow x.held e = .ok (x.pow e).held := by
  simp only [pow, WordResidue.held, Checked.remWord_eq_ok x.modulus_pos, ok_bind,
    powLadder_eq_ok x.modulus_pos]
  rfl

theorem scale_held (x : WordResidue) (k : UInt64) : scale x.held k = .ok (x.scale k).held := by
  simp only [scale, WordResidue.held, Checked.remWord_eq_ok x.modulus_pos, ok_bind,
    mulMod_eq_ok x.modulus_pos]
  rfl

theorem zero_held (x : WordResidue) : zero x.held = .ok x.zero.held :=
  scale_held x 0

theorem neg_held (x : WordResidue) : neg x.held = .ok x.neg.held := by
  rw [neg, zero_held]
  exact sub_eq_ok x.zero.value x.value_lt

theorem square_held (x : WordResidue) : square x.held = .ok x.square.held := by
  simp only [square, mul, sameField, if_pos, ok_bind, WordResidue.held, mulMod_eq_ok x.modulus_pos]
  rfl

/-! ## Operations on two elements -/

/-- An operation on elements of one field gives what the operation on residues gives, if that one
refuses different moduli. -/
theorem sameField_bind {f : UInt64 → Checked WordElement} {r : Except Fault WordResidue}
    (hsame : x.modulus = y.modulus → f x.modulus = Checked.ofFault (WordResidue.held <$> r))
    (hmixed : x.modulus ≠ y.modulus → r = .error .mixedModuli) :
    (sameField x.held y.held >>= f) = Checked.ofFault (WordResidue.held <$> r) := by
  have hfield : sameField x.held y.held =
    if x.modulus = y.modulus then .ok x.modulus else .error (.fault .mixedModuli) := rfl
  by_cases hm : x.modulus = y.modulus
  · rw [hfield, if_pos hm, ok_bind, hsame hm]
  · rw [hfield, if_neg hm, hmixed hm]
    rfl

theorem add_held (x y : WordResidue) :
    add x.held y.held = Checked.ofFault (WordResidue.held <$> x.add y) := by
  refine sameField_bind (fun hm => ?_) fun hm => if_neg hm
  have hpos : 0 < x.modulus.toNat := UInt64.lt_iff_toNat_lt.mp x.modulus_pos
  have hx := x.value.toNat_lt
  have hy := y.value.toNat_lt
  have hsum : x.value.toNat + y.value.toNat < 2 ^ 128 := by omega
  rw [WordResidue.add, if_pos hm]
  simp only [WordResidue.held, Checked.wide_eq_ok hsum, ok_bind, Checked.rem_eq_ok hpos]
  rw [← WordResidue.toNat_addMod _ _ x.modulus_pos, UInt64.ofNat_toNat]
  rfl

theorem sub_held (x y : WordResidue) :
    sub x.held y.held = Checked.ofFault (WordResidue.held <$> x.sub y) := by
  refine sameField_bind (fun hm => ?_) fun hm => dif_neg hm
  have hsub := sub_eq_ok x.value (hm ▸ y.value_lt)
  rw [sub, sameField, if_pos rfl, ok_bind] at hsub
  rw [WordResidue.sub, dif_pos hm]
  exact hsub

theorem mul_held (x y : WordResidue) :
    mul x.held y.held = Checked.ofFault (WordResidue.held <$> x.mul y) := by
  refine sameField_bind (fun hm => ?_) fun hm => if_neg hm
  rw [WordResidue.mul, if_pos hm, mulMod_eq_ok x.modulus_pos]
  rfl

theorem div_held (x y : WordResidue) :
    div x.held y.held = Checked.ofFault (WordResidue.held <$> x.div y) := by
  refine sameField_bind (fun hm => ?_) fun hm => if_pos hm
  have htwo : 2 ≤ x.modulus := by
    have h := x.one_lt
    rw [UInt64.lt_iff_toNat_lt] at h
    rwa [UInt64.le_iff_toNat_le]
  have hvalue : y.held.value = y.value := rfl
  rw [WordResidue.div, if_neg (not_not.mpr hm), hvalue]
  by_cases hy : y.value = 0
  · rw [if_pos hy, if_pos hy]
    rfl
  · rw [if_neg hy, if_neg hy, Checked.subWord_eq_ok htwo, ok_bind, pow_held, ok_bind, mul_held]

end Machine.WordElement

end SpendScript
