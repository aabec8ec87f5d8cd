import Mathlib.Tactic.FieldSimp
import SpendScript.Proofs.Curve.GroupLaw
import SpendScript.Proofs.Number.Power

/-!
# Multiples without division

On a curve `y² = x³ + b`, doubling and adding in Jacobian coordinates needs no division, so that
large multiples of a point are cheap to compute. The result is right as long as its last coordinate
does not vanish: then none before it did.

Results:
* `Jacobian.multiple`: a multiple of a point.
* `Jacobian.Represents`: the point that Jacobian coordinates stand for; `Jacobian.IsAt`: a check of
  its coordinates.
* `Jacobian.represents_multiple`: `multiple` computes multiples in every group of points.
-/

namespace SpendScript.Curve

open WeierstrassCurve (Affine)

/-- The point `(x / z ^ 2, y / z ^ 3)`. -/
structure Jacobian where
  x : ℤ
  y : ℤ
  z : ℤ

namespace Jacobian

/-! ## Formulas -/

/-- Twice a point. -/
def double (p : ℕ) (P : Jacobian) : Jacobian :=
  let yy := P.y * P.y % p
  let s := 4 * P.x * yy % p
  let m := 3 * P.x * P.x % p
  let x := (m * m - 2 * s) % p
  ⟨x, (m * (s - x) - 8 * yy * yy) % p, 2 * P.y * P.z % p⟩

/-- The sum with the point `(u, v)`. -/
def add (p : ℕ) (u v : ℤ) (P : Jacobian) : Jacobian :=
  let zz := P.z * P.z % p
  let h := (u * zz - P.x) % p
  let r := (v * zz * P.z - P.y) % p
  let hh := h * h % p
  let t := P.x * hh % p
  let x := (r * r - h * hh - 2 * t) % p
  ⟨x, (r * (t - x) - P.y * h * hh) % p, P.z * h % p⟩

/-- The multiple of `(u, v)` by the number with binary digits `ds`, lowest first, below a leading
one. -/
def multiple (p : ℕ) (u v : ℤ) : (ds : List Bool) → Jacobian
  | [] => ⟨u, v, 1⟩
  | d :: ds =>
    let P := double p (multiple p u v ds)
    if d then add p u v P else P

end Jacobian

/-! ## Sums on the curve -/

/-- The curve `y² = x³ + b`. -/
def mordell {K : Type} [Field K] (b : K) : Affine K :=
  ⟨0, 0, 0, 0, b⟩

section Sums

variable {K : Type} [Field K] [DecidableEq K] {b : K}

omit [DecidableEq K] in
theorem mordell_negY (x y : K) : (mordell b).negY x y = -y := by
  simp only [Affine.negY, mordell, zero_mul, sub_zero]

omit [DecidableEq K] in
theorem mordell_addX (x₁ x₂ l : K) : (mordell b).addX x₁ x₂ l = l ^ 2 - x₁ - x₂ := by
  simp only [Affine.addX, mordell, zero_mul, add_zero, sub_zero]

omit [DecidableEq K] in
theorem mordell_addY (x₁ x₂ y₁ l : K) :
    (mordell b).addY x₁ x₂ y₁ l = l * (x₁ - (l ^ 2 - x₁ - x₂)) - y₁ := by
  rw [Affine.addY, mordell_negY, Affine.negAddY, mordell_addX]
  ring

theorem chordSum_tangent (b x₁ : K) {y₁ : K} (h2 : (2 : K) ≠ 0) (hy : y₁ ≠ 0) :
    ∃ l, 2 * y₁ * l = 3 * x₁ ^ 2 ∧ chordSum (mordell b) (some (x₁, y₁)) (some (x₁, y₁)) =
      some (l ^ 2 - x₁ - x₁, l * (x₁ - (l ^ 2 - x₁ - x₁)) - y₁) := by
  have hneg : y₁ ≠ (mordell b).negY x₁ y₁ := by
    rw [mordell_negY]
    intro h
    exact mul_ne_zero h2 hy (by linear_combination h)
  have hsub : y₁ - (mordell b).negY x₁ y₁ ≠ 0 := sub_ne_zero.mpr hneg
  refine ⟨(mordell b).slope x₁ x₁ y₁ y₁, ?_, ?_⟩
  · rw [Affine.slope_of_Y_ne rfl hneg, mul_div_assoc', div_eq_iff hsub, mordell_negY]
    simp only [mordell]
    ring
  · rw [chordSum_some fun h => hneg h.2, mordell_addX, mordell_addY]

theorem chordSum_chord (b y₁ y₂ : K) {x₁ x₂ : K} (hx : x₁ ≠ x₂) :
    ∃ l, (x₁ - x₂) * l = y₁ - y₂ ∧ chordSum (mordell b) (some (x₁, y₁)) (some (x₂, y₂)) =
      some (l ^ 2 - x₁ - x₂, l * (x₁ - (l ^ 2 - x₁ - x₂)) - y₁) := by
  refine ⟨(mordell b).slope x₁ x₂ y₁ y₂, ?_, ?_⟩
  · rw [Affine.slope_of_X_ne hx, mul_div_cancel₀ _ (sub_ne_zero.mpr hx)]
  · rw [chordSum_some fun h => hx h.1, mordell_addX, mordell_addY]

end Sums

namespace Jacobian

/-! ## Points -/

variable {p : ℕ} [Fact p.Prime] {P : Jacobian} {b : ZMod p} {q : Option (ZMod p × ZMod p)}

/-- The coordinates `q` are those that `P` stands for, if its last coordinate does not vanish. -/
def Represents (P : Jacobian) (q : Option (ZMod p × ZMod p)) : Prop :=
  ∃ x y, q = some (x, y) ∧ (P.x : ZMod p) = x * P.z ^ 2 ∧ (P.y : ZMod p) = y * P.z ^ 3

/-- The last coordinate does not vanish, and the point is `(x, y)`. -/
def IsAt (p : ℕ) (P : Jacobian) (x y : ℤ) : Prop :=
  P.z % p ≠ 0 ∧ (P.x - x * P.z ^ 2) % p = 0 ∧ (P.y - y * P.z ^ 3) % p = 0

instance (p : ℕ) (P : Jacobian) (x y : ℤ) : Decidable (P.IsAt p x y) :=
  inferInstanceAs (Decidable (_ ∧ _ ∧ _))

theorem IsAt.z_ne_zero {x y : ℤ} (h : P.IsAt p x y) : (P.z : ZMod p) ≠ 0 := by
  rw [ne_eq, ZMod.intCast_zmod_eq_zero_iff_dvd]
  exact fun hdvd => h.1 (Int.emod_eq_zero_of_dvd hdvd)

theorem Represents.eq_of_isAt {x y : ℤ} (hP : Represents P q) (h : P.IsAt p x y) :
    q = some ((x : ZMod p), (y : ZMod p)) := by
  have hz := h.z_ne_zero
  obtain ⟨-, hx, hy⟩ := h
  have hx' : ((P.x - x * P.z ^ 2 : ℤ) : ZMod p) = 0 :=
    (ZMod.intCast_zmod_eq_zero_iff_dvd _ _).mpr (Int.dvd_of_emod_eq_zero hx)
  have hy' : ((P.y - y * P.z ^ 3 : ℤ) : ZMod p) = 0 :=
    (ZMod.intCast_zmod_eq_zero_iff_dvd _ _).mpr (Int.dvd_of_emod_eq_zero hy)
  obtain ⟨u, v, rfl, hu, hv⟩ := hP
  push_cast at hx' hy'
  have hxu : u = x := by
    apply mul_right_cancel₀ (pow_ne_zero 2 hz)
    linear_combination hx' - hu
  have hyv : v = y := by
    apply mul_right_cancel₀ (pow_ne_zero 3 hz)
    linear_combination hy' - hv
  rw [hxu, hyv]

theorem cast_double_z (P : Jacobian) : ((double p P).z : ZMod p) = 2 * P.y * P.z := by
  simp only [double, ZMod.intCast_mod, Int.cast_mul, Int.cast_ofNat]

theorem cast_add_z (P : Jacobian) (u v : ℤ) :
    ((add p u v P).z : ZMod p) = P.z * (u * P.z ^ 2 - P.x) := by
  simp only [add, ZMod.intCast_mod, Int.cast_mul, Int.cast_sub, sq]

theorem represents_double (h : Represents P q) (hz : ((double p P).z : ZMod p) ≠ 0) :
    Represents (double p P) (chordSum (mordell b) q q) := by
  obtain ⟨x, y, rfl, hx, hy⟩ := h
  rw [cast_double_z, hy] at hz
  have h2 : (2 : ZMod p) ≠ 0 := left_ne_zero_of_mul (left_ne_zero_of_mul hz)
  have hy0 : y ≠ 0 := left_ne_zero_of_mul (right_ne_zero_of_mul (left_ne_zero_of_mul hz))
  obtain ⟨l, hl, hsum⟩ := chordSum_tangent b x h2 hy0
  refine ⟨_, _, hsum, ?_, ?_⟩
  · rw [cast_double_z]
    simp only [double, ZMod.intCast_mod, Int.cast_mul, Int.cast_sub, Int.cast_ofNat, hx, hy]
    linear_combination (-(P.z : ZMod p) ^ 8 * (3 * x ^ 2 + 2 * y * l)) * hl
  · rw [cast_double_z]
    simp only [double, ZMod.intCast_mod, Int.cast_mul, Int.cast_sub, Int.cast_ofNat, hx, hy]
    linear_combination (-(P.z : ZMod p) ^ 12 * (12 * x * y ^ 2 - (3 * x ^ 2) ^ 2 -
      3 * x ^ 2 * (2 * y * l) - (2 * y * l) ^ 2)) * hl

theorem represents_add {u v : ℤ} (h : Represents P q)
    (hz : ((add p u v P).z : ZMod p) ≠ 0) :
    Represents (add p u v P) (chordSum (mordell b) q (some ((u : ZMod p), (v : ZMod p)))) := by
  obtain ⟨x, y, rfl, hx, hy⟩ := h
  rw [cast_add_z, hx] at hz
  have hne : x ≠ u := by
    rintro rfl
    rw [sub_self, mul_zero] at hz
    exact hz rfl
  obtain ⟨l, hl, hsum⟩ := chordSum_chord b y v hne
  refine ⟨_, _, hsum, ?_, ?_⟩
  · rw [cast_add_z]
    simp only [add, ZMod.intCast_mod, Int.cast_mul, Int.cast_sub, Int.cast_ofNat, hx, hy]
    linear_combination ((P.z : ZMod p) ^ 6 * (v - y + (u - x) * l)) * hl
  · rw [cast_add_z]
    simp only [add, ZMod.intCast_mod, Int.cast_mul, Int.cast_sub, Int.cast_ofNat, hx, hy]
    linear_combination ((P.z : ZMod p) ^ 9 * ((u - x) ^ 2 * (2 * x + u) - (v - y) ^ 2 -
      (v - y) * ((u - x) * l) - ((u - x) * l) ^ 2)) * hl

/-- If the last coordinate of a multiple does not vanish, then none before it did, and the multiple
is right. -/
theorem represents_multiple {W : Affine (ZMod p)} (hW : W = mordell b) {G : PointGroup W}
    {g : G.Carrier} {u v : ℤ} (hg : G.coords g = some ((u : ZMod p), (v : ZMod p))) (ds : List Bool)
    (hz : ((multiple p u v ds).z : ZMod p) ≠ 0) :
    Represents (multiple p u v ds) (G.coords (Number.ofBits (ds ++ [true]) • g)) := by
  subst hW
  induction ds with
  | nil =>
    refine ⟨u, v, ?_, ?_, ?_⟩
    · show G.coords ((1 + 2 * 0) • g) = _
      rw [mul_zero, add_zero, one_smul, hg]
    · simp only [multiple, Int.cast_one, one_pow, mul_one]
    · simp only [multiple, Int.cast_one, one_pow, mul_one]
  | cons d ds ih =>
    rw [List.cons_append, Number.ofBits]
    cases d with
    | false =>
      have hz' : ((double p (multiple p u v ds)).z : ZMod p) ≠ 0 := hz
      have hP := ih (right_ne_zero_of_mul (cast_double_z (p := p) _ ▸ hz'))
      rw [Bool.toNat_false, zero_add, mul_smul, two_smul, G.coords_add]
      exact represents_double hP hz'
    | true =>
      have hz' : ((add p u v (double p (multiple p u v ds))).z : ZMod p) ≠ 0 := hz
      have hdouble : ((double p (multiple p u v ds)).z : ZMod p) ≠ 0 :=
        left_ne_zero_of_mul (cast_add_z (p := p) _ u v ▸ hz')
      have hP := ih (right_ne_zero_of_mul (cast_double_z (p := p) _ ▸ hdouble))
      rw [Bool.toNat_true, add_comm, add_smul, one_smul, mul_smul, two_smul, G.coords_add,
        G.coords_add, hg]
      exact represents_add (represents_double hP hdouble) hz'

end Jacobian

end SpendScript.Curve
