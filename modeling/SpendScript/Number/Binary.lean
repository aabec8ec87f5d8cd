/-!
# Binary digits

The digits of a natural number in base two, lowest first, and the right-to-left
ladder that turns them into a power.

* `bits`: the digits, without a trailing `false`; their number is `bitLength`.
* `byteLength`: the bytes that so many digits take; `lt_pow_byteLength` says that they are enough.
* `powMod`: square-and-multiply over those digits.
-/

namespace SpendScript.Number

/-- The binary digits of `n`, lowest first; zero has none. -/
def bits (n : Nat) : List Bool :=
  if n = 0 then [] else (n % 2 == 1) :: bits (n / 2)
termination_by n

/-- The number of binary digits of `n`. -/
def bitLength (n : Nat) : Nat :=
  if n = 0 then 0 else n.log2 + 1

/-- Fewest bytes that hold every number of as many bits as `n`. -/
def byteLength (n : Nat) : Nat :=
  (bitLength n + 7) / 8

theorem byteLength_pos {n : Nat} (h : 0 < n) : 0 < byteLength n := by
  unfold byteLength bitLength
  rw [if_neg (Nat.ne_of_gt h)]
  omega

theorem lt_two_pow_bitLength (n : Nat) : n < Nat.pow 2 (bitLength n) := by
  unfold bitLength
  split
  · simp_all
  · exact Nat.lt_log2_self

theorem lt_pow_byteLength (n : Nat) : n < Nat.pow 256 (byteLength n) := by
  refine Nat.lt_of_lt_of_le (lt_two_pow_bitLength n) ?_
  have h : Nat.pow 256 (byteLength n) = Nat.pow 2 (8 * byteLength n) :=
    (Nat.pow_mul 2 8 (byteLength n)).symm
  rw [h]
  exact Nat.pow_le_pow_right (by decide) (by unfold byteLength; omega)

/-! ## Powers -/

/-- Multiplies `acc` by the squarings of `base` whose digit is set, all modulo `m`. -/
def powLadder (m : Nat) : List Bool → Nat → Nat → Nat
  | [], acc, _ => acc
  | b :: bs, acc, base =>
    powLadder m bs (if b then acc * base % m else acc) (base * base % m)

/-- The power `base ^ e` modulo `m`, by one squaring for each digit of `e`. -/
def powMod (m base e : Nat) : Nat :=
  powLadder m (bits e) (1 % m) (base % m)

/-- The inverse of `a` modulo a prime `m`, as the power `m - 2`. -/
def fermatInverse (m a : Nat) : Nat :=
  powMod m a (m - 2)

end SpendScript.Number
