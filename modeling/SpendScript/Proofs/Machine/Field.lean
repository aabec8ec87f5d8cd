import SpendScript.Field.Residue
import SpendScript.Proofs.Machine.Checked
import SpendScript.Proofs.Number.Power

/-!
# Field arithmetic of the machine

An element in memory is a modulus and a number that nothing but the operations keeps below it. Sums
and differences subtract once at most, and every remainder and power needs a nonzero modulus.

* `Machine.Element`: a field element in memory; `Residue.held`: the one that holds a residue.
* `Element.add`, `Element.sub`, `Element.div`, …: the operations, with what they assume.

Results:
* Each operation gives what the operation on residues gives; no subtraction leaves its range, and
  what is left to panic are the faults of the operation on residues.
-/

namespace SpendScript

open SpendScript.Field (Residue Modulus)

namespace Machine

/-- A field element in memory. -/
structure Element where
  modulus : ℕ
  value : ℕ
deriving DecidableEq

namespace Element

/-- An element of the same field. -/
def withValue (x : Element) (value : ℕ) : Element :=
  { x with value := value }

/-- The modulus of two elements, which have to be of one field. -/
def sameField (x y : Element) : Checked ℕ :=
  if x.modulus = y.modulus then .ok x.modulus else .error (.fault .mixedModuli)

def zero (x : Element) : Element :=
  x.withValue 0

def isZero (x : Element) : Bool :=
  x.value == 0

def isEven (x : Element) : Bool :=
  x.value % 2 == 0

def add (x y : Element) : Checked Element := do
  let p ← sameField x y
  let sum := x.value + y.value
  if p ≤ sum then return x.withValue (← Checked.sub sum p) else return x.withValue sum

def sub (x y : Element) : Checked Element := do
  let p ← sameField x y
  if y.value ≤ x.value then return x.withValue (← Checked.sub x.value y.value)
  else return x.withValue (← Checked.sub p (← Checked.sub y.value x.value))

def mul (x y : Element) : Checked Element := do
  let p ← sameField x y
  return x.withValue (← Checked.rem (x.value * y.value) p)

/-- Multiplies by the power `p - 2` of the divisor. -/
def div (x y : Element) : Checked Element := do
  let p ← sameField x y
  if y.isZero then throw (.fault .divisionByZero)
  else
    let inverse ← Checked.powMod p y.value (← Checked.sub p 2)
    return x.withValue (← Checked.rem (x.value * inverse) p)

def neg (x : Element) : Checked Element :=
  x.zero.sub x

def square (x : Element) : Checked Element := do
  return x.withValue (← Checked.powMod x.modulus x.value 2)

def pow (x : Element) (e : ℕ) : Checked Element := do
  return x.withValue (← Checked.powMod x.modulus x.value e)

/-- The element added to itself as often as the scalar says. -/
def scale (x : Element) (k : UInt64) : Checked Element := do
  return x.withValue (← Checked.rem (x.value * k.toNat) x.modulus)

/-- A square root, where the modulus is 3 modulo 4. -/
def sqrt (x : Element) : Checked (Option Element) :=
  if x.modulus % 4 = 3 then do
    let root ← x.pow ((x.modulus + 1) / 4)
    if (← root.square) = x then return some root else return none
  else return none

/-- Hexadecimal digits, two for each byte of the modulus. -/
def text (x : Element) : String :=
  Text.Hex.ofNatPadded (2 * Number.byteLength x.modulus) x.value

/-- The number in as many bytes as the modulus has, highest first. Zeros fill what its shortest
spelling leaves of that width. -/
def toBytes (x : Element) : Checked Bytes := do
  let spelled := Bytes.ofNat x.value
  let padding ← Checked.sub (Number.byteLength x.modulus) spelled.length
  return List.replicate padding 0 ++ spelled

end Element

end Machine

namespace Field

open Machine (Element)

/-- The element that holds a residue. -/
def Residue.held (x : Residue) : Element :=
  ⟨x.modulus.val, x.value⟩

end Field

namespace Machine.Element

variable {x y : Residue}

theorem held_inj : x.held = y.held ↔ x = y := by
  constructor
  · intro h
    obtain ⟨⟨m, hm⟩, v, hv⟩ := x
    obtain ⟨⟨m', hm'⟩, v', hv'⟩ := y
    obtain ⟨rfl, rfl⟩ := Element.mk.inj h
    rfl
  · rintro rfl
    rfl

theorem modulus_held_inj : x.held.modulus = y.held.modulus ↔ x.modulus = y.modulus := by
  constructor
  · intro h
    obtain ⟨⟨m, hm⟩, v, hv⟩ := x
    obtain ⟨⟨m', hm'⟩, v', hv'⟩ := y
    obtain rfl : m = m' := h
    rfl
  · exact fun h => congrArg Modulus.val h

theorem isZero_held (x : Residue) : x.held.isZero = Field.Arith.isZero x :=
  rfl

/-! ## Operations on one element -/

theorem square_held (x : Residue) : square x.held = .ok x.square.held := by
  have hpos := x.modulus.pos
  simp only [square, Residue.held, Checked.powMod_eq_ok hpos, Number.powMod_eq, withValue, bind,
    Except.bind, pure, Except.pure, Residue.square, Modulus.reduce, sq]

theorem pow_held (x : Residue) (e : ℕ) : pow x.held e = .ok (x.pow e).held := by
  have hpos := x.modulus.pos
  simp only [pow, Residue.held, Checked.powMod_eq_ok hpos, Number.powMod_eq, withValue, bind,
    Except.bind, pure, Except.pure, Residue.pow, Modulus.reduce, Nat.mod_mod]

theorem scale_held (x : Residue) (k : UInt64) : scale x.held k = .ok (x.scale k).held := by
  have hpos := x.modulus.pos
  simp only [scale, Residue.held, Checked.rem_eq_ok hpos, withValue, bind, Except.bind, pure,
    Except.pure, Residue.scale, Modulus.reduce]

theorem toBytes_held (x : Residue) : toBytes x.held = .ok x.toBytes := by
  have hfits : (Bytes.ofNat x.value).length ≤ Number.byteLength x.modulus.val :=
    x.length_ofNat_value_le
  simp only [toBytes, Residue.held, Checked.sub_eq_ok hfits, bind, Except.bind, pure, Except.pure]
  rfl

/-! ## Operations on two elements -/

theorem sameField_eq_error {x y : Element} (h : x.modulus ≠ y.modulus) :
    sameField x y = .error (.fault .mixedModuli) :=
  if_neg h

section Reduced

variable {m v w : ℕ}

theorem add_eq_ok (hv : v < m) (hw : w < m) : add ⟨m, v⟩ ⟨m, w⟩ = .ok ⟨m, (v + w) % m⟩ := by
  simp only [add, sameField, if_pos, bind, Except.bind, pure, Except.pure, withValue]
  by_cases hle : m ≤ v + w
  · rw [if_pos hle, Checked.sub_eq_ok hle, Nat.mod_eq_sub_mod hle, Nat.mod_eq_of_lt (by omega)]
  · rw [if_neg hle, Nat.mod_eq_of_lt (by omega)]

theorem sub_eq_ok (hv : v < m) (hw : w < m) : sub ⟨m, v⟩ ⟨m, w⟩ = .ok ⟨m, (v + (m - w)) % m⟩ := by
  simp only [sub, sameField, if_pos, bind, Except.bind, pure, Except.pure, withValue]
  by_cases hle : w ≤ v
  · rw [if_pos hle, Checked.sub_eq_ok hle, show v + (m - w) = v - w + m by omega,
      Nat.add_mod_right, Nat.mod_eq_of_lt (by omega)]
  · have hlt : v + (m - w) < m := by omega
    rw [if_neg hle, Checked.sub_eq_ok (Nat.le_of_not_le hle), Nat.mod_eq_of_lt hlt]
    simp only [Checked.sub_eq_ok (show w - v ≤ m by omega)]
    rw [show m - (w - v) = v + (m - w) by omega]

end Reduced

theorem neg_held (x : Residue) : neg x.held = .ok x.neg.held := by
  show sub ⟨x.modulus.val, 0⟩ ⟨x.modulus.val, x.value⟩ = _
  rw [sub_eq_ok x.modulus.pos x.value_lt, Nat.zero_add]
  rfl

/-- An operation on elements gives what the combination of residues gives, if it does so in one
field and stops where the fields differ. -/
theorem eq_ofFault_combine {op : Element → Element → Checked Element} {f : ℕ → ℕ → ℕ}
    (hmixed : ∀ x y, x.modulus ≠ y.modulus → op x y = .error (.fault .mixedModuli))
    (hsame : ∀ w < x.modulus.val,
      op x.held ⟨x.modulus.val, w⟩ = .ok ⟨x.modulus.val, f x.value w % x.modulus.val⟩) :
    op x.held y.held = Checked.ofFault (Residue.held <$> Residue.combine f x y) := by
  unfold Residue.combine
  by_cases hm : x.modulus = y.modulus
  · have hy := y.value_lt
    have hheld : y.held = ⟨x.modulus.val, y.value⟩ := by rw [hm]; rfl
    rw [if_pos hm, hheld, hsame y.value (hm ▸ hy)]
    rfl
  · rw [if_neg hm, hmixed _ _ (mt modulus_held_inj.mp hm)]
    rfl

theorem add_held (x y : Residue) :
    add x.held y.held = Checked.ofFault (Residue.held <$> x.add y) :=
  eq_ofFault_combine (fun _ _ h => by rw [add, sameField_eq_error h]; rfl)
    fun _ hw => add_eq_ok x.value_lt hw

theorem sub_held (x y : Residue) :
    sub x.held y.held = Checked.ofFault (Residue.held <$> x.sub y) :=
  eq_ofFault_combine (f := fun v w => v + (x.modulus.val - w))
    (fun _ _ h => by rw [sub, sameField_eq_error h]; rfl) fun _ hw => sub_eq_ok x.value_lt hw

theorem mul_held (x y : Residue) :
    mul x.held y.held = Checked.ofFault (Residue.held <$> x.mul y) := by
  refine eq_ofFault_combine (fun _ _ h => by rw [mul, sameField_eq_error h]; rfl) fun w _ => ?_
  simp only [mul, sameField, Residue.held, if_pos, Checked.rem_eq_ok x.modulus.pos, bind,
    Except.bind, pure, Except.pure, withValue]

theorem div_held (x y : Residue) :
    div x.held y.held = Checked.ofFault (Residue.held <$> x.div y) := by
  have hpos := x.modulus.pos
  unfold Residue.div
  by_cases hm : x.modulus = y.modulus
  · have hsame : sameField x.held y.held = .ok x.modulus.val := if_pos (modulus_held_inj.mpr hm)
    rw [if_neg (not_not.mpr hm), div, hsame]
    by_cases hy : y.value = 0
    · have hz : y.held.isZero = true := beq_iff_eq.mpr hy
      rw [if_pos hy]
      simp only [hz, if_pos, bind, Except.bind]
      rfl
    · have hz : y.held.isZero = false := beq_eq_false_iff_ne.mpr hy
      rw [if_neg hy]
      simp only [hz, Bool.false_eq_true, if_false, bind, Except.bind,
        Checked.sub_eq_ok x.modulus.one_lt, Checked.powMod_eq_ok hpos, Checked.rem_eq_ok hpos]
      rfl
  · rw [if_pos hm, div, sameField_eq_error (mt modulus_held_inj.mp hm)]
    rfl

theorem sqrt_held (x : Residue) : sqrt x.held = .ok (x.sqrt.map Residue.held) := by
  have hmodulus : x.held.modulus = x.modulus.val := rfl
  unfold sqrt Residue.sqrt
  rw [hmodulus]
  by_cases hp : x.modulus.val % 4 = 3
  · rw [if_pos hp, if_pos hp, pow_held]
    simp only [bind, Except.bind, square_held, held_inj]
    by_cases hroot : (x.pow ((x.modulus.val + 1) / 4)).square = x
    · rw [if_pos hroot, if_pos hroot]
      rfl
    · rw [if_neg hroot, if_neg hroot]
      rfl
  · rw [if_neg hp, if_neg hp]
    rfl

end Machine.Element

end SpendScript
