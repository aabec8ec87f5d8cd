import Mathlib.FieldTheory.Finite.Basic
import SpendScript.Number.Binary

/-!
# Powers modulo a number

The right-to-left ladder computes powers, and with the exponent `m - 2` it computes inverses
modulo a prime `m`.

Results:
* `ofBits_bits`: the digits of a number spell it.
* `powMod_eq`: square-and-multiply gives `a ^ e % m`.
* `cast_fermatInverse`: modulo a prime, `fermatInverse` inverts every nonzero residue.
-/

namespace SpendScript.Number

/-! ## Digits -/

/-- The number with binary digits `ds`, lowest first. -/
def ofBits : List Bool → ℕ
  | [] => 0
  | b :: bs => b.toNat + 2 * ofBits bs

theorem ofBits_bits (n : ℕ) : ofBits (bits n) = n := by
  induction n using Nat.strong_induction_on with
  | _ n ih =>
    rw [bits]
    split_ifs with h
    · simp [ofBits, h]
    · rw [ofBits, ih (n / 2) (by omega)]
      rcases Nat.mod_two_eq_zero_or_one n with h2 | h2 <;> simp [h2] <;> omega

/-! ## Powers -/

theorem powLadder_modEq (m : ℕ) :
    ∀ (ds : List Bool) (acc base : ℕ),
      powLadder m ds acc base ≡ acc * base ^ ofBits ds [MOD m] := by
  intro ds
  induction ds with
  | nil => intro acc base; simp [powLadder, ofBits, Nat.ModEq.refl]
  | cons b bs ih =>
    intro acc base
    have hsq : (base * base % m) ^ ofBits bs ≡ base ^ (2 * ofBits bs) [MOD m] := by
      rw [pow_mul, sq]
      exact (Nat.mod_modEq _ _).pow _
    refine (ih _ _).trans ?_
    cases b with
    | false => simpa [ofBits] using hsq.mul_left acc
    | true =>
      have hacc : acc * base % m ≡ acc * base [MOD m] := Nat.mod_modEq _ _
      simpa [ofBits, pow_add, mul_assoc] using hacc.mul hsq

theorem powLadder_mod (m : ℕ) :
    ∀ (ds : List Bool) (acc base : ℕ), acc % m = acc →
      powLadder m ds acc base % m = powLadder m ds acc base := by
  intro ds
  induction ds with
  | nil => intro acc base h; exact h
  | cons b bs ih =>
    intro acc base h
    apply ih
    cases b with
    | false => exact h
    | true => exact Nat.mod_mod _ _

theorem powMod_eq (m a e : ℕ) : powMod m a e = a ^ e % m := by
  unfold powMod
  rw [← powLadder_mod m _ _ _ (Nat.mod_mod 1 m)]
  have h := powLadder_modEq m (bits e) (1 % m) (a % m)
  rw [ofBits_bits] at h
  refine h.trans ?_
  simpa using (Nat.mod_modEq 1 m).mul ((Nat.mod_modEq a m).pow e)

/-! ## Inverses -/

theorem cast_fermatInverse {m : ℕ} [Fact m.Prime] {a : ℕ} (ha : (a : ZMod m) ≠ 0) :
    (fermatInverse m a : ZMod m) = (a : ZMod m)⁻¹ := by
  have h2 : 2 ≤ m := (Fact.out : m.Prime).two_le
  rw [fermatInverse, powMod_eq, ZMod.natCast_mod, Nat.cast_pow]
  refine eq_inv_of_mul_eq_one_left ?_
  rw [← pow_succ, show m - 2 + 1 = m - 1 by omega]
  exact ZMod.pow_card_sub_one_eq_one ha

end SpendScript.Number
