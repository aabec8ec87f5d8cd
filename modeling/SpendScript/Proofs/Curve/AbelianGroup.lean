import Mathlib.Tactic.NormNum.Prime
import SpendScript.Proofs.Curve.GroupLaw

/-!
# Points form an abelian group

Over an odd prime modulus the operations on points never fault and obey the laws of an abelian
group. Associativity is the group law of nonsingular points, so it is for curves without singular
points.

Results:
* `Curve.GroupLaws`: the laws.
* `Curve.groupLaws`: every curve over an odd prime modulus obeys them.
-/

namespace SpendScript.Curve

open SpendScript.Field (Arith LawfulArith Residue WordResidue)
open WeierstrassCurve (Affine)

/-! ## Nonsingular curves -/

theorem chordSum_assoc {K : Type} [Field K] [DecidableEq K] {W : Affine K} (hW : W.Δ ≠ 0)
    {p q r : Option (K × K)} (hp : OnCurve W p) (hq : OnCurve W q) (hr : OnCurve W r) :
    chordSum W (chordSum W p q) r = chordSum W p (chordSum W q r) := by
  have hpoint : ∀ {t : Option (K × K)}, OnCurve W t →
      ∃ P : W.Point, PointGroup.affineCoords P = t := by
    intro t ht
    match t with
    | none => exact ⟨.zero, rfl⟩
    | some (x, y) => exact ⟨.some x y ((W.equation_iff_nonsingular_of_Δ_ne_zero hW).mp ht), rfl⟩
  obtain ⟨P, rfl⟩ := hpoint hp
  obtain ⟨Q, rfl⟩ := hpoint hq
  obtain ⟨R, rfl⟩ := hpoint hr
  simp only [← PointGroup.affineCoords_add, add_assoc]

variable {F : Type} [Arith F]

theorem weierstrass_discriminant_ne_zero {p : ℕ} [Fact p.Prime] (hp : p ≠ 2) {c : Curve F}
    (h : (4 * Arith.value c.a ^ 3 + 27 * Arith.value c.b ^ 2) % p ≠ 0) :
    (c.weierstrass p).Δ ≠ 0 := by
  intro h0
  have hd : (c.weierstrass p).Δ = -2 ^ 4 *
      ((4 * Arith.value c.a ^ 3 + 27 * Arith.value c.b ^ 2 : ℕ) : ZMod p) := by
    simp only [WeierstrassCurve.Δ, WeierstrassCurve.b₂, WeierstrassCurve.b₄, WeierstrassCurve.b₆,
      WeierstrassCurve.b₈, weierstrass]
    push_cast
    ring
  rw [hd, mul_eq_zero, ZMod.natCast_eq_zero_iff] at h0
  rcases h0 with h0 | h0
  · exact pow_ne_zero 4 (Point.two_ne_zero_of_odd hp) (neg_eq_zero.mp h0)
  · exact h (Nat.mod_eq_zero_of_dvd h0)

/-! ## The laws -/

variable [DecidableEq F]

/-- The operations on the points of `c` return points of `c`, and obey the laws of an abelian
group; associativity is asked of curves with a nonzero discriminant modulo `p`. -/
structure GroupLaws (p : ℕ) (c : Curve F) : Prop where
  add_returns : ∀ P Q : Point F, P.curve = c → Q.curve = c → ∃ R, P.add Q = .ok R ∧ R.curve = c
  double_returns : ∀ P : Point F, P.curve = c → ∃ R, P.double = .ok R ∧ R.curve = c
  negate_returns : ∀ P : Point F, P.curve = c → ∃ R, P.negate = .ok R ∧ R.curve = c
  add_comm : ∀ P Q : Point F, P.curve = c → Q.curve = c → P.add Q = Q.add P
  add_infinity : ∀ P : Point F, P.curve = c → P.add (.infinity c) = .ok P
  infinity_add : ∀ P : Point F, P.curve = c → (Point.infinity c).add P = .ok P
  add_negate : ∀ P N : Point F, P.curve = c → P.negate = .ok N → P.add N = .ok (.infinity c)
  add_assoc : (4 * Arith.value c.a ^ 3 + 27 * Arith.value c.b ^ 2) % p ≠ 0 →
    ∀ P Q R S T : Point F, P.curve = c → Q.curve = c → R.curve = c →
      P.add Q = .ok S → Q.add R = .ok T → S.add R = P.add T

variable [LawfulArith F]

/-- Two computations of points of one curve with the same coordinates are equal. -/
theorem eq_of_image_eq {p : ℕ} {c : Curve F} (hc : c.Over p) {r s : Except Fault (Point F)}
    {q : Option (ZMod p × ZMod p)} (hr : ∃ R, r = .ok R ∧ R.curve = c ∧ R.image p = q)
    (hs : ∃ S, s = .ok S ∧ S.curve = c ∧ S.image p = q) : r = s := by
  obtain ⟨R, rfl, hR, hRq⟩ := hr
  obtain ⟨S, rfl, hS, hSq⟩ := hs
  rw [Point.image_injective hc hR hS (hRq.trans hSq.symm)]

section Laws

variable {p : ℕ} [Fact p.Prime] {c : Curve F} {P Q R S T : Point F}

theorem exists_add_curve (hodd : p ≠ 2) (hc : c.Over p) (hP : P.curve = c) (hQ : Q.curve = c) :
    ∃ R, P.add Q = .ok R ∧ R.curve = c := by
  obtain ⟨R, hR, hcR, -⟩ := Point.exists_add hodd hc hP hQ
  exact ⟨R, hR, hcR⟩

theorem point_add_comm (hodd : p ≠ 2) (hc : c.Over p) (hP : P.curve = c) (hQ : Q.curve = c) :
    P.add Q = Q.add P := by
  refine eq_of_image_eq hc (Point.exists_add hodd hc hP hQ) ?_
  rw [chordSum_comm (Point.onCurve_image hc hP) (Point.onCurve_image hc hQ)]
  exact Point.exists_add hodd hc hQ hP

theorem point_add_infinity (hodd : p ≠ 2) (hc : c.Over p) (hP : P.curve = c) :
    P.add (.infinity c) = .ok P := by
  refine eq_of_image_eq hc (Point.exists_add hodd hc hP rfl) ⟨P, rfl, hP, ?_⟩
  exact (chordSum_none_right _).symm

theorem infinity_add_point (hodd : p ≠ 2) (hc : c.Over p) (hP : P.curve = c) :
    (Point.infinity c).add P = .ok P :=
  eq_of_image_eq hc (Point.exists_add hodd hc rfl hP) ⟨P, rfl, hP, rfl⟩

theorem point_add_negate (hodd : p ≠ 2) (hc : c.Over p) (hP : P.curve = c)
    (hQ : P.negate = .ok Q) : P.add Q = .ok (.infinity c) := by
  obtain ⟨Q', hQ', hcQ, hiQ⟩ := Point.exists_negate hc hP
  obtain rfl : Q = Q' := by rw [hQ] at hQ'; exact Except.ok.inj hQ'
  refine eq_of_image_eq hc (Point.exists_add hodd hc hP hcQ) ⟨_, rfl, rfl, ?_⟩
  exact (chordSum_eq_none_iff.mpr hiQ).symm

theorem point_add_assoc (hodd : p ≠ 2) (hc : c.Over p) (hΔ : (c.weierstrass p).Δ ≠ 0)
    (hP : P.curve = c) (hQ : Q.curve = c) (hR : R.curve = c) (hS : P.add Q = .ok S)
    (hT : Q.add R = .ok T) : S.add R = P.add T := by
  obtain ⟨S', hS', hcS, hiS⟩ := Point.exists_add hodd hc hP hQ
  obtain rfl : S = S' := by rw [hS] at hS'; exact Except.ok.inj hS'
  obtain ⟨T', hT', hcT, hiT⟩ := Point.exists_add hodd hc hQ hR
  obtain rfl : T = T' := by rw [hT] at hT'; exact Except.ok.inj hT'
  refine eq_of_image_eq hc (Point.exists_add hodd hc hcS hR) ?_
  rw [hiS, chordSum_assoc hΔ (Point.onCurve_image hc hP) (Point.onCurve_image hc hQ)
    (Point.onCurve_image hc hR), ← hiT]
  exact Point.exists_add hodd hc hP hcT

end Laws

/-- The points of a curve over an odd prime modulus form an abelian group: sums, doubles and
negatives always return, sums commute, the point at infinity is neutral, negatives cancel, and
unless the curve is singular sums associate. -/
theorem groupLaws {p : ℕ} (hp : p.Prime) (hodd : p ≠ 2) {c : Curve F} (hc : c.Over p) :
    c.GroupLaws p := by
  have : Fact p.Prime := ⟨hp⟩
  constructor
  · intro P Q hP hQ
    exact exists_add_curve hodd hc hP hQ
  · intro P hP
    exact exists_add_curve hodd hc hP hP
  · intro P hP
    obtain ⟨R, hR, hcR, -⟩ := Point.exists_negate hc hP
    exact ⟨R, hR, hcR⟩
  · intro P Q hP hQ
    exact point_add_comm hodd hc hP hQ
  · intro P hP
    exact point_add_infinity hodd hc hP
  · intro P hP
    exact infinity_add_point hodd hc hP
  · intro P N hP hN
    exact point_add_negate hodd hc hP hN
  · intro hΔ P Q R S T hP hQ hR hS hT
    exact point_add_assoc hodd hc (weierstrass_discriminant_ne_zero hodd hΔ) hP hQ hR hS hT

/-- The curve `y² = x³ + 7` over `F_223`, by both kinds of residues. -/
theorem groupLaws_mod_223 :
    Nat.Prime 223 ∧ 223 ≠ 2 ∧ (4 * 0 ^ 3 + 27 * 7 ^ 2) % 223 ≠ 0 ∧
      (⟨⟨223, 0, by decide, by decide⟩, ⟨223, 7, by decide, by decide⟩⟩ :
        Curve WordResidue).GroupLaws 223 ∧
      (⟨⟨⟨223, by decide⟩, 0, by decide⟩, ⟨⟨223, by decide⟩, 7, by decide⟩⟩ :
        Curve Residue).GroupLaws 223 := by
  have hp : Nat.Prime 223 := by norm_num
  exact ⟨hp, by decide, by decide, groupLaws hp (by decide) ⟨rfl, rfl⟩,
    groupLaws hp (by decide) ⟨rfl, rfl⟩⟩

end SpendScript.Curve
