import SpendScript.Proofs.Curve.AbelianGroup
import SpendScript.Proofs.Curve.Multiples

/-!
# Doubling and adding

The two accumulators of the doubling loop stand for elements of one group of points, so what the
loop returns is the point added up that many times, for scalars of any size, also where the point
at infinity comes up on the way and where the curve is singular.

Results:
* `Point.addedTimes`: a point added to the point at infinity some times.
* `Curve.Returns`: a computation that returns a given element of a group of points.
* `Curve.MultipleLaws`: the laws of multiples; `Curve.multipleLaws`: every curve over an odd prime
  modulus obeys them.
-/

namespace SpendScript

open SpendScript.Field (Arith LawfulArith Residue WordResidue)
open SpendScript.Curve (PointGroup)

variable {F : Type} [Arith F] [DecidableEq F]

/-- The point added `k` times to the point at infinity, one after the other. -/
def Point.addedTimes (P : Point F) : (k : ℕ) → Except Fault (Point F)
  | 0 => .ok (.infinity P.curve)
  | k + 1 => do (← P.addedTimes k).add P

namespace Curve

/-- Multiples of the points of `c`, computed by doubling and adding, are points of `c`. They are
what repeated addition gives, turn sums and products of scalars into sums and repeated multiples,
and commute with negation. -/
structure MultipleLaws (c : Curve F) : Prop where
  smul_returns : ∀ (P : Point F) (k : ℕ), P.curve = c → ∃ R, P.smul k = .ok R ∧ R.curve = c
  smul_eq_addedTimes : ∀ (P : Point F) (k : ℕ), P.curve = c → P.smul k = P.addedTimes k
  smul_add : ∀ (P : Point F) (j k : ℕ), P.curve = c →
    P.smul (j + k) = do (← P.smul j).add (← P.smul k)
  smul_mul : ∀ (P : Point F) (j k : ℕ), P.curve = c → P.smul (j * k) = do (← P.smul j).smul k
  negate_smul : ∀ (P : Point F) (k : ℕ), P.curve = c →
    ∃ R, (do (← P.negate).smul k) = .ok R ∧ (do (← P.smul k).negate) = .ok R

variable {p : ℕ} {c : Curve F}

/-! ## Computations in a group of points -/

section Group

variable [Fact p.Prime]

/-- The computation returns the point of `c` that is the element `a` of a group of points. -/
def Returns (G : PointGroup (c.weierstrass p)) (r : Except Fault (Point F)) (a : G.Carrier) :
    Prop :=
  ∃ R, r = .ok R ∧ R.curve = c ∧ R.image p = G.coords a

variable {G : PointGroup (c.weierstrass p)} {r r' : Except Fault (Point F)} {a b : G.Carrier}

theorem Returns.bind {f : Point F → Except Fault (Point F)} (h : Returns G r a)
    (hf : ∀ R : Point F, R.curve = c → R.image p = G.coords a → Returns G (f R) b) :
    Returns G (r >>= f) b := by
  obtain ⟨R, rfl, hR, ha⟩ := h
  exact hf R hR ha

variable [LawfulArith F]

/-- An element is returned as one point only. -/
theorem Returns.eq (hc : c.Over p) (h : Returns G r a) (h' : Returns G r' a) : r = r' :=
  eq_of_image_eq hc h h'

/-! ## Multiples in a group of points -/

variable {P : Point F} (hodd : p ≠ 2) (hc : c.Over p) (hP : P.curve = c)
  (ha : P.image p = G.coords a)

include hodd hc hP ha

theorem returns_smul (k : ℕ) : Returns G (P.smul k) (k • a) :=
  Point.exists_smul hodd hc hP ha k

theorem returns_addedTimes (k : ℕ) : Returns G (P.addedTimes k) (k • a) := by
  induction k with
  | zero =>
    rw [zero_nsmul]
    exact ⟨.infinity P.curve, rfl, hP, G.coords_zero.symm⟩
  | succ k ih =>
    rw [succ_nsmul]
    exact ih.bind fun R hR hr => Point.exists_add_coords hodd hc hR hP hr ha

theorem returns_add_smul (j k : ℕ) :
    Returns G (do (← P.smul j).add (← P.smul k)) ((j + k) • a) := by
  rw [add_nsmul]
  refine (returns_smul hodd hc hP ha j).bind fun Q hQ hq => ?_
  refine (returns_smul hodd hc hP ha k).bind fun R hR hr => ?_
  exact Point.exists_add_coords hodd hc hQ hR hq hr

theorem returns_smul_smul (j k : ℕ) : Returns G (do (← P.smul j).smul k) ((j * k) • a) := by
  rw [mul_nsmul]
  exact (returns_smul hodd hc hP ha j).bind fun Q hQ hq => returns_smul hodd hc hQ hq k

theorem returns_negate_smul (k : ℕ) : Returns G (do (← P.negate).smul k) (-(k • a)) := by
  rw [← neg_nsmul]
  have hneg : Returns G P.negate (-a) := Point.exists_negate_coords hc hP ha
  exact hneg.bind fun N hN hn => returns_smul hodd hc hN hn k

theorem returns_smul_negate (k : ℕ) : Returns G (do (← P.smul k).negate) (-(k • a)) :=
  (returns_smul hodd hc hP ha k).bind fun _ hQ hq => Point.exists_negate_coords hc hQ hq

end Group

/-! ## The laws -/

variable [LawfulArith F]

/-- Over an odd prime modulus, doubling and adding computes the integer multiples of every point:
the computation always returns, with what repeated addition gives. The point lies in a group of
points, whether it is singular or not, and there the laws are those of multiples in a group. -/
theorem multipleLaws (hp : p.Prime) (hodd : p ≠ 2) (hc : c.Over p) : c.MultipleLaws := by
  have : Fact p.Prime := ⟨hp⟩
  have hgroup : ∀ P : Point F, P.curve = c →
      ∃ (G : PointGroup (c.weierstrass p)) (a : G.Carrier), P.image p = G.coords a := by
    intro P hP
    obtain ⟨G, a, ha⟩ := PointGroup.exists_coords_eq (Point.onCurve_image hc hP)
    exact ⟨G, a, ha.symm⟩
  constructor
  · intro P k hP
    obtain ⟨G, a, ha⟩ := hgroup P hP
    obtain ⟨R, hR, hcR, -⟩ := returns_smul hodd hc hP ha k
    exact ⟨R, hR, hcR⟩
  · intro P k hP
    obtain ⟨G, a, ha⟩ := hgroup P hP
    exact (returns_smul hodd hc hP ha k).eq hc (returns_addedTimes hodd hc hP ha k)
  · intro P j k hP
    obtain ⟨G, a, ha⟩ := hgroup P hP
    exact (returns_smul hodd hc hP ha (j + k)).eq hc
      (returns_add_smul hodd hc hP ha j k)
  · intro P j k hP
    obtain ⟨G, a, ha⟩ := hgroup P hP
    exact (returns_smul hodd hc hP ha (j * k)).eq hc
      (returns_smul_smul hodd hc hP ha j k)
  · intro P k hP
    obtain ⟨G, a, ha⟩ := hgroup P hP
    have hneg := returns_negate_smul hodd hc hP ha k
    obtain ⟨R, hR, -⟩ := id hneg
    exact ⟨R, hR, ((returns_smul_negate hodd hc hP ha k).eq hc hneg).trans hR⟩

/-- The curve `y² = x³` over `F_223`, which is singular at the origin, by both kinds of
residues. -/
theorem multipleLaws_mod_223 :
    Nat.Prime 223 ∧ 223 ≠ 2 ∧
      (⟨⟨223, 0, by decide, by decide⟩, ⟨223, 0, by decide, by decide⟩⟩ :
        Curve WordResidue).MultipleLaws ∧
      (⟨⟨⟨223, by decide⟩, 0, by decide⟩, ⟨⟨223, by decide⟩, 0, by decide⟩⟩ :
        Curve Residue).MultipleLaws := by
  have hp : Nat.Prime 223 := by norm_num
  exact ⟨hp, by decide, multipleLaws hp (by decide) ⟨rfl, rfl⟩,
    multipleLaws hp (by decide) ⟨rfl, rfl⟩⟩

end Curve

end SpendScript
