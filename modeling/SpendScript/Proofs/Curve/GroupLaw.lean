import SpendScript.Curve.Basic
import SpendScript.Proofs.Curve.Chord
import SpendScript.Proofs.Field.Prime

/-!
# The group law on points

Over a prime modulus, the sum of two points of one curve is their chord-and-tangent sum, and the
check that it lies on the curve never fails.

Results:
* `Curve.contains_denotes`: the membership test decides the Weierstrass equation.
* `Point.image_injective`: a point is known by its curve and its coordinates modulo the prime.
* `Point.exists_add`, `Point.exists_negate`: both operations return, with the coordinates that
  `chordSum` and the reflection give. No curve is excluded; the singular ones are curves too.
-/

namespace SpendScript

open SpendScript.Field (Arith LawfulArith Denotes denotes_value)
open WeierstrassCurve (Affine)

variable {F : Type} [Arith F]

namespace Curve

/-- The coefficients have modulus `p`. -/
structure Over (p : ℕ) (c : Curve F) : Prop where
  modulus_a : Arith.modulus c.a = p
  modulus_b : Arith.modulus c.b = p

/-- The curve with the coefficients modulo `p`. -/
def weierstrass (p : ℕ) (c : Curve F) : Affine (ZMod p) :=
  ⟨0, 0, 0, (Arith.value c.a : ZMod p), (Arith.value c.b : ZMod p)⟩

theorem weierstrass_equation_iff {p : ℕ} {c : Curve F} {x y : ZMod p} :
    (c.weierstrass p).Equation x y ↔
      y ^ 2 = x ^ 2 * x + Arith.value c.a * x + Arith.value c.b := by
  rw [Affine.equation_iff]
  simp only [weierstrass, zero_mul, add_zero]
  rw [← pow_succ]

/-! ## The curve equation -/

section Equation

variable [LawfulArith F] {p : ℕ} {c : Curve F} {x y : F} {a b : ZMod p}

theorem cubic_denotes (hc : c.Over p) (hx : Denotes p x a) :
    ∃ z, c.cubic x = .ok z ∧
      Denotes p z (a ^ 2 * a + Arith.value c.a * a + Arith.value c.b) := by
  obtain ⟨cube, hcube, dcube⟩ := hx.square.mul hx
  obtain ⟨ax, hax, dax⟩ := (denotes_value hc.modulus_a).mul hx
  obtain ⟨s, hs, ds⟩ := dcube.add dax
  obtain ⟨z, hz, dz⟩ := ds.add (denotes_value hc.modulus_b)
  refine ⟨z, ?_, dz⟩
  simp only [cubic, hcube, hax, hs, bind, Except.bind]
  exact hz

/-- A product or a sum is only taken of elements with one modulus. -/
theorem modulus_of_mul_eq_ok {x y z : F} (h : Arith.mul x y = .ok z) :
    Arith.modulus x = Arith.modulus y ∧ Arith.modulus z = Arith.modulus x := by
  by_cases hm : Arith.modulus x = Arith.modulus y
  · obtain ⟨w, hw, hwm, -⟩ := LawfulArith.gives_mul hm
    rw [h, Except.ok.injEq] at hw
    exact ⟨hm, hw ▸ hwm⟩
  · rw [LawfulArith.mul_mixed hm] at h
    cases h

theorem modulus_of_add_eq_ok {x y z : F} (h : Arith.add x y = .ok z) :
    Arith.modulus x = Arith.modulus y ∧ Arith.modulus z = Arith.modulus x := by
  by_cases hm : Arith.modulus x = Arith.modulus y
  · obtain ⟨w, hw, hwm, -⟩ := LawfulArith.gives_add hm
    rw [h, Except.ok.injEq] at hw
    exact ⟨hm, hw ▸ hwm⟩
  · rw [LawfulArith.add_mixed hm] at h
    cases h

variable [DecidableEq F]

theorem contains_denotes (hc : c.Over p) (hx : Denotes p x a) (hy : Denotes p y b) :
    ∃ t, c.contains x y = .ok t ∧ (t = true ↔ (c.weierstrass p).Equation a b) := by
  obtain ⟨z, hz, dz⟩ := cubic_denotes hc hx
  refine ⟨decide (Arith.square y = z), ?_, ?_⟩
  · simp only [contains, hz, bind, Except.bind, pure, Except.pure]
  · rw [decide_eq_true_iff, hy.square.eq_iff dz, weierstrass_equation_iff]

theorem contains_eq_true_iff (hc : c.Over p) (hx : Denotes p x a) (hy : Denotes p y b) :
    c.contains x y = .ok true ↔ (c.weierstrass p).Equation a b := by
  obtain ⟨t, ht, hiff⟩ := contains_denotes hc hx hy
  rw [ht, ← hiff, Except.ok.injEq]

/-- The coordinates of a point have the modulus of the coefficients. -/
theorem moduli_of_contains (h : c.contains x y = .ok true) :
    c.Over (Arith.modulus c.a) ∧ Arith.modulus x = Arith.modulus c.a ∧
      Arith.modulus y = Arith.modulus c.a := by
  unfold contains cubic at h
  cases hcube : Arith.mul (Arith.square x) x with
  | error f => simp [hcube, bind, Except.bind] at h
  | ok cube =>
    cases hax : Arith.mul c.a x with
    | error f => simp [hcube, hax, bind, Except.bind] at h
    | ok ax =>
      cases hs : Arith.add cube ax with
      | error f => simp [hcube, hax, hs, bind, Except.bind] at h
      | ok s =>
        cases hz : Arith.add s c.b with
        | error f => simp [hcube, hax, hs, hz, bind, Except.bind] at h
        | ok z =>
          simp only [hcube, hax, hs, hz, bind, Except.bind, pure, Except.pure, Except.ok.injEq,
            decide_eq_true_iff] at h
          have h1 := modulus_of_mul_eq_ok hcube
          have h2 := modulus_of_mul_eq_ok hax
          have h3 := modulus_of_add_eq_ok hs
          have h4 := modulus_of_add_eq_ok hz
          have hxm := (LawfulArith.square_spec x).1
          have hym := (LawfulArith.square_spec y).1
          rw [h] at hym
          refine ⟨⟨rfl, ?_⟩, ?_, ?_⟩ <;> omega

end Equation

end Curve

namespace Point

variable [DecidableEq F]

/-! ## Coordinates modulo a prime -/

/-- The coordinates modulo `p`; the neutral element has none. -/
def image (p : ℕ) : Point F → Option (ZMod p × ZMod p)
  | .infinity _ => none
  | .affine _ x y _ => some (Arith.value x, Arith.value y)

theorem image_eq_none_iff {p : ℕ} {P : Point F} : P.image p = none ↔ P.isInfinity = true := by
  cases P <;> simp [image, isInfinity]

variable [LawfulArith F]

section Image

variable {p : ℕ} {c : Curve F}

theorem denotes_coords {x y : F} (hc : c.Over p) (h : c.contains x y = .ok true) :
    Denotes p x (Arith.value x : ZMod p) ∧ Denotes p y (Arith.value y : ZMod p) := by
  obtain ⟨-, hx, hy⟩ := Curve.moduli_of_contains h
  rw [hc.modulus_a] at hx hy
  exact ⟨denotes_value hx, denotes_value hy⟩

theorem onCurve_image [Fact p.Prime] (hc : c.Over p) {P : Point F} (hP : P.curve = c) :
    Curve.OnCurve (c.weierstrass p) (P.image p) := by
  subst hP
  cases P with
  | infinity => trivial
  | affine c x y h =>
    obtain ⟨hx, hy⟩ := denotes_coords hc h
    exact (Curve.contains_eq_true_iff hc hx hy).mp h

theorem image_injective (hc : c.Over p) {P Q : Point F} (hP : P.curve = c) (hQ : Q.curve = c)
    (h : P.image p = Q.image p) : P = Q := by
  subst hP
  cases P with
  | infinity c =>
    cases Q with
    | infinity d => exact congrArg Point.infinity hQ.symm
    | affine d x y hd => cases h
  | affine c x y hxy =>
    cases Q with
    | infinity d => cases h
    | affine d x' y' hd =>
      have hdc : d = c := hQ
      subst hdc
      obtain ⟨hx, hy⟩ := denotes_coords hc hxy
      obtain ⟨hx', hy'⟩ := denotes_coords hc hd
      simp only [image, Option.some.injEq, Prod.mk.injEq] at h
      have hxx := (hx.eq_iff hx').mpr h.1
      have hyy := (hy.eq_iff hy').mpr h.2
      subst hxx hyy
      rfl

end Image

/-! ## Sums and negatives -/

section GroupLaw

variable {p : ℕ} [Fact p.Prime] {c : Curve F}

omit [Fact p.Prime] in
theorem exists_ofGroupLaw {x y : F} {a b : ZMod p} (hc : c.Over p) (hx : Denotes p x a)
    (hy : Denotes p y b) (h : (c.weierstrass p).Equation a b) :
    ∃ R, ofGroupLaw c x y = .ok R ∧ R.curve = c ∧ R.image p = some (a, b) := by
  have ht := (Curve.contains_eq_true_iff hc hx hy).mpr h
  refine ⟨.affine c x y ht, ofGroupLaw_eq_ok ht, rfl, ?_⟩
  rw [image, hx.2, hy.2]

theorem exists_ofSlope {s x₁ y₁ x₂ : F} {l a₁ b₁ a₂ : ZMod p} (hc : c.Over p)
    (hs : Denotes p s l) (hx₁ : Denotes p x₁ a₁) (hy₁ : Denotes p y₁ b₁) (hx₂ : Denotes p x₂ a₂)
    (h : (c.weierstrass p).Equation ((c.weierstrass p).addX a₁ a₂ l)
      ((c.weierstrass p).addY a₁ a₂ b₁ l)) :
    ∃ R, ofSlope c s x₁ y₁ x₂ = .ok R ∧ R.curve = c ∧
      R.image p = some ((c.weierstrass p).addX a₁ a₂ l, (c.weierstrass p).addY a₁ a₂ b₁ l) := by
  obtain ⟨u, hu, du⟩ := hs.square.sub hx₁
  obtain ⟨x, hx, dx⟩ := du.sub hx₂
  obtain ⟨v, hv, dv⟩ := hx₁.sub dx
  obtain ⟨w, hw, dw⟩ := hs.mul dv
  obtain ⟨y, hy, dy⟩ := dw.sub hy₁
  have hX : l ^ 2 - a₁ - a₂ = (c.weierstrass p).addX a₁ a₂ l := by
    simp only [Affine.addX, Curve.weierstrass]
    ring
  have hY : l * (a₁ - (l ^ 2 - a₁ - a₂)) - b₁ = (c.weierstrass p).addY a₁ a₂ b₁ l := by
    rw [hX]
    simp only [Affine.addY, Affine.negAddY, Affine.negY, Curve.weierstrass]
    ring
  rw [hX] at dx
  rw [hY] at dy
  obtain ⟨R, hR, hcR, hiR⟩ := exists_ofGroupLaw hc dx dy h
  refine ⟨R, ?_, hcR, hiR⟩
  simp only [ofSlope, hu, hx, hv, hw, hy, bind, Except.bind]
  exact hR

omit [DecidableEq F] in
theorem exists_chordSlope {x₁ y₁ x₂ y₂ : F} {a₁ b₁ a₂ b₂ : ZMod p} (hx₁ : Denotes p x₁ a₁)
    (hy₁ : Denotes p y₁ b₁) (hx₂ : Denotes p x₂ a₂) (hy₂ : Denotes p y₂ b₂) (h : a₁ ≠ a₂) :
    ∃ s, chordSlope x₁ y₁ x₂ y₂ = .ok s ∧
      Denotes p s ((c.weierstrass p).slope a₁ a₂ b₁ b₂) := by
  obtain ⟨u, hu, du⟩ := hy₂.sub hy₁
  obtain ⟨v, hv, dv⟩ := hx₂.sub hx₁
  obtain ⟨s, hs, ds⟩ := du.div dv (sub_ne_zero.mpr h.symm)
  refine ⟨s, ?_, ?_⟩
  · simp only [chordSlope, hu, hv, bind, Except.bind]
    exact hs
  · rw [Affine.slope_of_X_ne h]
    rwa [← neg_sub b₁, ← neg_sub a₁, neg_div_neg_eq] at ds

theorem two_ne_zero_of_odd (hp : p ≠ 2) : (2 : ZMod p) ≠ 0 := by
  have hodd : p % 2 = 1 := (Fact.out : p.Prime).eq_two_or_odd.resolve_left hp
  have h := ZMod.natCast_eq_zero_iff 2 p
  intro h2
  have hdvd := h.mp (by exact_mod_cast h2)
  have := (Nat.dvd_prime Nat.prime_two).mp hdvd
  rcases this with rfl | rfl
  · exact Nat.not_prime_one Fact.out
  · exact hp rfl

omit [DecidableEq F] in
theorem exists_tangentSlope {x₁ y₁ : F} {a₁ b₁ : ZMod p} (hc : c.Over p)
    (hx : Denotes p x₁ a₁) (hy : Denotes p y₁ b₁) (h : b₁ ≠ (c.weierstrass p).negY a₁ b₁) :
    ∃ s, tangentSlope c x₁ y₁ = .ok s ∧ Denotes p s ((c.weierstrass p).slope a₁ a₁ b₁ b₁) := by
  have hb : (2 : ZMod p) * b₁ ≠ 0 := by
    intro h0
    apply h
    simp only [Affine.negY, Curve.weierstrass, zero_mul, sub_zero]
    linear_combination h0
  have d3 : Denotes p (Arith.scale (Arith.square x₁) 3) (3 * a₁ ^ 2) := hx.square.scale 3
  obtain ⟨u, hu, du⟩ := d3.add (denotes_value hc.modulus_a)
  have dv : Denotes p (Arith.scale y₁ 2) (2 * b₁) := hy.scale 2
  obtain ⟨s, hs, ds⟩ := du.div dv hb
  refine ⟨s, ?_, ?_⟩
  · simp only [tangentSlope, hu, bind, Except.bind]
    exact hs
  · rw [Affine.slope_of_Y_ne rfl h]
    convert ds using 2
    · simp only [Curve.weierstrass]
      ring
    · simp only [Affine.negY, Curve.weierstrass]
      ring

/-- `add` returns the point at infinity only for points that are each other's reflection. -/
theorem eq_negY_of_vertical (hc : c.Over p) {x y₁ y₂ : F} (h₁ : c.contains x y₁ = .ok true)
    (h₂ : c.contains x y₂ = .ok true) (hy : y₁ ≠ y₂ ∨ Arith.isZero y₁) :
    (Arith.value y₁ : ZMod p) =
      (c.weierstrass p).negY (Arith.value x) (Arith.value y₂) := by
  obtain ⟨dx, dy₁⟩ := denotes_coords hc h₁
  obtain ⟨-, dy₂⟩ := denotes_coords hc h₂
  have heq₁ := (Curve.contains_eq_true_iff hc dx dy₁).mp h₁
  have heq₂ := (Curve.contains_eq_true_iff hc dx dy₂).mp h₂
  rcases hy with hy | hy
  · have hne := mt (dy₁.eq_iff dy₂).mpr hy
    exact (Affine.Y_eq_of_X_eq heq₁ heq₂ rfl).resolve_left hne
  · have h0 := (dy₁.isZero_iff).mp hy
    by_contra hne
    have h12 := Affine.Y_eq_of_Y_ne heq₁ heq₂ rfl hne
    apply hne
    simp [← h12, h0, Curve.weierstrass]

omit [DecidableEq F] in
/-- Only a point of ordinate zero is its own reflection. -/
theorem ne_negY_of_not_isZero (hp : p ≠ 2) {y : F} {a b : ZMod p} (dy : Denotes p y b)
    (hy : ¬Arith.isZero y) : b ≠ (c.weierstrass p).negY a b := by
  intro h0
  simp only [Affine.negY, Curve.weierstrass, zero_mul, sub_zero] at h0
  apply hy
  rw [dy.isZero_iff]
  have h2 : (2 : ZMod p) * b = 0 := by linear_combination h0
  exact (mul_eq_zero.mp h2).resolve_left (two_ne_zero_of_odd hp)

/-- The sum of two points of one curve returns the chord-and-tangent sum. -/
theorem exists_add (hp : p ≠ 2) (hc : c.Over p) {P Q : Point F} (hP : P.curve = c)
    (hQ : Q.curve = c) :
    ∃ R, P.add Q = .ok R ∧ R.curve = c ∧
      R.image p = Curve.chordSum (c.weierstrass p) (P.image p) (Q.image p) := by
  have hPQ : ¬ P.curve ≠ Q.curve := not_not.mpr (hP.trans hQ.symm)
  unfold add
  rw [if_neg hPQ]
  match P, Q with
  | .infinity _, Q => exact ⟨Q, rfl, hQ, rfl⟩
  | .affine d x y h, .infinity _ => exact ⟨_, rfl, hP, (Curve.chordSum_none_right _).symm⟩
  | .affine d x₁ y₁ h₁, .affine e x₂ y₂ h₂ =>
    obtain rfl : d = c := hP
    obtain rfl : e = d := hQ
    obtain ⟨dx₁, dy₁⟩ := denotes_coords hc h₁
    obtain ⟨dx₂, dy₂⟩ := denotes_coords hc h₂
    have heq₁ := (Curve.contains_eq_true_iff hc dx₁ dy₁).mp h₁
    have heq₂ := (Curve.contains_eq_true_iff hc dx₂ dy₂).mp h₂
    simp only [image]
    -- the cases are those of `add`: a chord, a vertical line, a tangent
    by_cases hx : x₁ = x₂
    · subst hx
      rw [if_neg (not_not.mpr rfl)]
      by_cases hy : y₁ ≠ y₂ ∨ Arith.isZero y₁
      · rw [if_pos hy]
        have hneg := eq_negY_of_vertical hc h₁ h₂ hy
        exact ⟨.infinity _, rfl, rfl, (Curve.chordSum_of_eq_neg ⟨rfl, hneg⟩).symm⟩
      · rw [if_neg hy]
        obtain ⟨hyy, hz⟩ := not_or.mp hy
        obtain rfl : y₁ = y₂ := not_not.mp hyy
        have hne := ne_negY_of_not_isZero (c := e) (a := Arith.value x₁) hp dy₁ hz
        obtain ⟨s, hs, ds⟩ := exists_tangentSlope hc dx₁ dy₁ hne
        rw [Curve.chordSum_some fun h => hne h.2, hs]
        exact exists_ofSlope hc ds dx₁ dy₁ dx₁ (Affine.equation_add heq₁ heq₁ fun h => hne h.2)
    · rw [if_pos hx]
      have hne := mt (dx₁.eq_iff dx₂).mpr hx
      obtain ⟨s, hs, ds⟩ := exists_chordSlope (c := e) dx₁ dy₁ dx₂ dy₂ hne
      rw [Curve.chordSum_some fun h => hne h.1, hs]
      exact exists_ofSlope hc ds dx₁ dy₁ dx₂ (Affine.equation_add heq₁ heq₂ fun h => hne h.1)

omit [Fact p.Prime] in
/-- The negative of a point returns its reflection. -/
theorem exists_negate (hc : c.Over p) {P : Point F} (hP : P.curve = c) :
    ∃ R, P.negate = .ok R ∧ R.curve = c ∧
      R.image p = (P.image p).map fun xy => (xy.1, (c.weierstrass p).negY xy.1 xy.2) := by
  cases P with
  | infinity d => exact ⟨_, rfl, hP, rfl⟩
  | affine d x y h =>
    obtain rfl : d = c := hP
    obtain ⟨dx, dy⟩ := denotes_coords hc h
    have heq := (Curve.contains_eq_true_iff hc dx dy).mp h
    have hneg : (d.weierstrass p).negY (Arith.value x) (Arith.value y) =
        -(Arith.value y : ZMod p) := by
      simp [Affine.negY, Curve.weierstrass]
    obtain ⟨R, hR, hcR, hiR⟩ := exists_ofGroupLaw hc dx dy.neg
      (by rw [← hneg]; exact (Affine.equation_neg _ _).mpr heq)
    exact ⟨R, hR, hcR, by rw [hiR, image, Option.map_some, hneg]⟩

end GroupLaw

end Point

end SpendScript
