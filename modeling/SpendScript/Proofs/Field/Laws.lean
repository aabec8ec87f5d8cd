import SpendScript.Field.Residue
import SpendScript.Field.WordResidue
import SpendScript.Proofs.Number.Power

/-!
# The laws of modular arithmetic

Both implementations of residues compute the same numbers: every operation on elements of one
modulus gives the element with that modulus and the representative that the integers give, and
operands of different moduli are refused.

Results:
* `LawfulArith`: the laws, for elements of any modulus above one, prime or not.
* `LawfulArith Residue`, `LawfulArith WordResidue`: both implementations obey them; in particular
  no 64-bit or 128-bit step leaves its range.
-/

namespace SpendScript.Field

/-- The computation ends in an element with modulus `m` and representative `v`. -/
def Arith.Gives {F : Type} [Arith F] (r : Except Fault F) (m v : ℕ) : Prop :=
  ∃ z, r = .ok z ∧ Arith.modulus z = m ∧ Arith.value z = v

open Arith in
/-- Arithmetic modulo the elements' common modulus, with least representatives. -/
class LawfulArith (F : Type) [Arith F] : Prop where
  one_lt_modulus (x : F) : 1 < modulus x
  value_lt (x : F) : value x < modulus x
  ext {x y : F} : modulus x = modulus y → value x = value y → x = y
  zero_spec (x : F) : modulus (zero x) = modulus x ∧ value (zero x) = 0
  neg_spec (x : F) :
    modulus (neg x) = modulus x ∧ value (neg x) = (modulus x - value x) % modulus x
  square_spec (x : F) : modulus (square x) = modulus x ∧ value (square x) = value x ^ 2 % modulus x
  pow_spec (x : F) (e : ℕ) :
    modulus (pow x e) = modulus x ∧ value (pow x e) = value x ^ e % modulus x
  scale_spec (x : F) (k : UInt64) :
    modulus (scale x k) = modulus x ∧ value (scale x k) = value x * k.toNat % modulus x
  gives_add {x y : F} : modulus x = modulus y →
    Gives (add x y) (modulus x) ((value x + value y) % modulus x)
  gives_sub {x y : F} : modulus x = modulus y →
    Gives (sub x y) (modulus x) ((value x + (modulus x - value y)) % modulus x)
  gives_mul {x y : F} : modulus x = modulus y →
    Gives (mul x y) (modulus x) (value x * value y % modulus x)
  gives_div {x y : F} : modulus x = modulus y → value y ≠ 0 →
    Gives (div x y) (modulus x) (value x * value y ^ (modulus x - 2) % modulus x)
  add_mixed {x y : F} : modulus x ≠ modulus y → add x y = .error .mixedModuli
  sub_mixed {x y : F} : modulus x ≠ modulus y → sub x y = .error .mixedModuli
  mul_mixed {x y : F} : modulus x ≠ modulus y → mul x y = .error .mixedModuli
  div_mixed {x y : F} : modulus x ≠ modulus y → div x y = .error .mixedModuli
  div_zero {x y : F} : modulus x = modulus y → value y = 0 → div x y = .error .divisionByZero

/-! ## Residues of any size -/

namespace Residue

theorem modulus_ext {x y : Residue} (h : x.modulus.val = y.modulus.val) :
    x.modulus = y.modulus := by
  obtain ⟨⟨m, hm⟩, v, hv⟩ := x
  obtain ⟨⟨m', hm'⟩, v', hv'⟩ := y
  simpa using h

theorem gives_combine {f : ℕ → ℕ → ℕ} {x y : Residue} (h : x.modulus.val = y.modulus.val) :
    Arith.Gives (combine f x y) x.modulus.val (f x.value y.value % x.modulus.val) := by
  refine ⟨x.modulus.reduce (f x.value y.value), ?_, rfl, rfl⟩
  rw [combine, if_pos (modulus_ext h)]

theorem combine_mixed {f : ℕ → ℕ → ℕ} {x y : Residue} (h : x.modulus.val ≠ y.modulus.val) :
    combine f x y = .error .mixedModuli := by
  rw [combine, if_neg fun hm => h (congrArg Modulus.val hm)]

instance : LawfulArith Residue where
  one_lt_modulus x := x.modulus.one_lt
  value_lt x := x.value_lt
  ext {x y} hm hv := by
    have := modulus_ext hm
    cases x
    cases y
    simp_all [Arith.value]
  zero_spec _ := ⟨rfl, rfl⟩
  neg_spec _ := ⟨rfl, rfl⟩
  square_spec x := ⟨rfl, by
    simp [Arith.value, Arith.square, Arith.modulus, square, Modulus.reduce, sq]⟩
  pow_spec x e := ⟨rfl, by
    simp [Arith.value, Arith.pow, Arith.modulus, pow, Modulus.reduce, Number.powMod_eq]⟩
  scale_spec _ _ := ⟨rfl, rfl⟩
  gives_add h := gives_combine h
  gives_sub {x y} h := gives_combine (f := fun v w => v + (x.modulus.val - w)) h
  gives_mul h := gives_combine h
  gives_div {x y} h hy := by
    have hm : ¬ x.modulus ≠ y.modulus := not_not.mpr (modulus_ext h)
    have hv : ¬ y.value = 0 := hy
    refine ⟨x.modulus.reduce (x.value * Number.fermatInverse x.modulus.val y.value), ?_, rfl, ?_⟩
    · simp only [Arith.div, div, if_neg hm, if_neg hv]
    · simp [Arith.value, Arith.modulus, Modulus.reduce, Number.fermatInverse, Number.powMod_eq]
  add_mixed h := combine_mixed h
  sub_mixed {x y} h := combine_mixed (f := fun v w => v + (x.modulus.val - w)) h
  mul_mixed h := combine_mixed h
  div_mixed {x y} h := by
    have hm : x.modulus ≠ y.modulus := fun hm => h (congrArg Modulus.val hm)
    simp only [Arith.div, div, if_pos hm]
  div_zero {x y} h hy := by
    have hm : ¬ x.modulus ≠ y.modulus := not_not.mpr (modulus_ext h)
    have hv : y.value = 0 := hy
    simp only [Arith.div, div, if_neg hm, if_pos hv]

end Residue

/-! ## Residues in a machine word -/

namespace WordResidue

theorem toNat_addMod (a b : UInt64) {m : UInt64} (hm : 0 < m) :
    (addMod a b m).toNat = (a.toNat + b.toNat) % m.toNat := by
  have ha := a.toNat_lt
  have hb := b.toNat_lt
  rw [addMod, toNat_reduceWide _ hm, BitVec.toNat_add, toNat_widen, toNat_widen,
    Nat.mod_eq_of_lt (by omega : a.toNat + b.toNat < 2 ^ 128)]

theorem toNat_mulMod (a b : UInt64) {m : UInt64} (hm : 0 < m) :
    (mulMod a b m).toNat = a.toNat * b.toNat % m.toNat := by
  have hab : a.toNat * b.toNat < 2 ^ 64 * 2 ^ 64 :=
    Nat.mul_lt_mul'' a.toNat_lt b.toNat_lt
  rw [mulMod, toNat_reduceWide _ hm, BitVec.toNat_mul, toNat_widen, toNat_widen,
    Nat.mod_eq_of_lt (by omega : a.toNat * b.toNat < 2 ^ 128)]

theorem toNat_subMod {a b m : UInt64} (ha : a < m) (hb : b < m) :
    (subMod a b m).toNat = (a.toNat + (m.toNat - b.toNat)) % m.toNat := by
  rw [UInt64.lt_iff_toNat_lt] at ha hb
  unfold subMod
  split_ifs with h
  · rw [UInt64.toNat_sub_of_le _ _ h]
    rw [UInt64.le_iff_toNat_le] at h
    rw [show a.toNat + (m.toNat - b.toNat) = a.toNat - b.toNat + m.toNat by omega,
      Nat.add_mod_right, Nat.mod_eq_of_lt (by omega)]
  · rw [UInt64.le_iff_toNat_le] at h
    have hab : a ≤ b := by rw [UInt64.le_iff_toNat_le]; omega
    have hsub : (b - a).toNat = b.toNat - a.toNat := UInt64.toNat_sub_of_le _ _ hab
    have hbm : b - a ≤ m := by rw [UInt64.le_iff_toNat_le, hsub]; omega
    rw [UInt64.toNat_sub_of_le _ _ hbm, hsub, Nat.mod_eq_of_lt (by omega)]
    omega

theorem toNat_powLadder {m : UInt64} (hm : 0 < m) :
    ∀ (ds : List Bool) (acc base : UInt64),
      (powLadder m ds acc base).toNat = Number.powLadder m.toNat ds acc.toNat base.toNat := by
  intro ds
  induction ds with
  | nil => intro acc base; rfl
  | cons b bs ih =>
    intro acc base
    rw [powLadder, Number.powLadder, ih, toNat_mulMod _ _ hm]
    cases b with
    | false => rfl
    | true => simp [toNat_mulMod _ _ hm]

theorem toNat_pow (x : WordResidue) (e : ℕ) :
    (x.pow e).value.toNat = x.value.toNat ^ e % x.modulus.toNat := by
  have hv : x.value.toNat < x.modulus.toNat := UInt64.lt_iff_toNat_lt.mp x.value_lt
  rw [← Number.powMod_eq, Number.powMod, Nat.mod_eq_of_lt hv]
  simp [pow, withValue, toNat_powLadder x.modulus_pos]

theorem toNat_two_sub (x : WordResidue) : (x.modulus - 2).toNat = x.modulus.toNat - 2 := by
  have h := x.one_lt
  rw [UInt64.lt_iff_toNat_lt] at h
  refine UInt64.toNat_sub_of_le _ _ ?_
  rw [UInt64.le_iff_toNat_le]
  exact h

theorem value_zero (x : WordResidue) : x.zero.value.toNat = 0 := by
  simp [zero, scale, withValue, toNat_mulMod _ _ x.modulus_pos]

theorem value_neg (x : WordResidue) :
    x.neg.value.toNat = (x.modulus.toNat - x.value.toNat) % x.modulus.toNat := by
  have h := toNat_subMod (m := x.modulus) x.zero.value_lt x.value_lt
  rw [value_zero, zero_add] at h
  exact h

theorem modulus_ext {x y : WordResidue} (h : x.modulus.toNat = y.modulus.toNat) :
    x.modulus = y.modulus :=
  UInt64.toNat_inj.mp h

theorem gives_withValue (x : WordResidue) {v : UInt64} (h : v < x.modulus) {n : ℕ}
    (hv : v.toNat = n) : Arith.Gives (.ok (x.withValue v h)) x.modulus.toNat n :=
  ⟨_, rfl, rfl, hv⟩

theorem gives_mul {x y : WordResidue} (h : x.modulus.toNat = y.modulus.toNat) :
    Arith.Gives (x.mul y) x.modulus.toNat (x.value.toNat * y.value.toNat % x.modulus.toNat) := by
  rw [mul, if_pos (modulus_ext h)]
  exact gives_withValue x _ (toNat_mulMod _ _ x.modulus_pos)

instance : LawfulArith WordResidue where
  one_lt_modulus x := UInt64.lt_iff_toNat_lt.mp x.one_lt
  value_lt x := UInt64.lt_iff_toNat_lt.mp x.value_lt
  ext {x y} hm hv := by
    have hm := modulus_ext hm
    have hv : x.value = y.value := UInt64.toNat_inj.mp hv
    cases x
    cases y
    simp_all
  zero_spec x := ⟨rfl, value_zero x⟩
  neg_spec x := ⟨rfl, value_neg x⟩
  square_spec x := ⟨rfl, by rw [sq]; exact toNat_mulMod _ _ x.modulus_pos⟩
  pow_spec x e := ⟨rfl, toNat_pow x e⟩
  scale_spec x k := ⟨rfl, by
    have h := toNat_mulMod x.value (k % x.modulus) x.modulus_pos
    rw [UInt64.toNat_mod, Nat.mul_mod_mod] at h
    exact h⟩
  gives_add {x y} h := by
    simp only [Arith.add, add, if_pos (modulus_ext h)]
    exact gives_withValue x _ (toNat_addMod _ _ x.modulus_pos)
  gives_sub {x y} h := by
    have hm := modulus_ext h
    simp only [Arith.sub, sub, dif_pos hm]
    exact gives_withValue x _ (toNat_subMod x.value_lt (hm ▸ y.value_lt))
  gives_mul h := gives_mul h
  gives_div {x y} h hy := by
    have hv : ¬ y.value = 0 := fun h0 => hy (by simp [Arith.value, h0])
    have hd : Arith.div x y = x.mul (y.pow (x.modulus - 2).toNat) := by
      simp only [Arith.div, div, if_neg (not_not.mpr (modulus_ext h)), if_neg hv]
    have hm := gives_mul (x := x) (y := y.pow (x.modulus - 2).toNat) h
    rw [toNat_pow, ← show x.modulus.toNat = y.modulus.toNat from h, Nat.mul_mod_mod,
      toNat_two_sub] at hm
    rw [hd, toNat_two_sub]
    exact hm
  add_mixed {x y} h := by
    simp only [Arith.add, add, if_neg fun hm => h (congrArg UInt64.toNat hm)]
  sub_mixed {x y} h := by
    simp only [Arith.sub, sub, dif_neg fun hm => h (congrArg UInt64.toNat hm)]
  mul_mixed {x y} h := by
    simp only [Arith.mul, mul, if_neg fun hm => h (congrArg UInt64.toNat hm)]
  div_mixed {x y} h := by
    have hm : x.modulus ≠ y.modulus := fun hm => h (congrArg UInt64.toNat hm)
    simp only [Arith.div, div, if_pos hm]
  div_zero {x y} h hy := by
    have hv : y.value = 0 := UInt64.toNat_inj.mp hy
    simp only [Arith.div, div, if_neg (not_not.mpr (modulus_ext h)), if_pos hv]

end WordResidue

end SpendScript.Field
