import SpendScript.Proofs.Curve.GroupLaw

/-!
# Multiples of a point

Doubling and adding computes integer multiples. Every point lies in a group of points, so this
holds on singular curves too.

Results:
* `Point.exists_smul`: `smul k` returns the point whose coordinates are those of `k • a`, where
  `a` is the point in its group.
-/

namespace SpendScript.Point

open SpendScript.Field (Arith LawfulArith)
open SpendScript.Curve (PointGroup chordSum)

variable {F : Type} [Arith F] [DecidableEq F] [LawfulArith F] {p : ℕ} [Fact p.Prime] {c : Curve F}
  {G : PointGroup (c.weierstrass p)}

/-- The sum of two points of a group of points. -/
theorem exists_add_coords (hp : p ≠ 2) (hc : c.Over p) {P Q : Point F} {a b : G.Carrier}
    (hP : P.curve = c) (hQ : Q.curve = c) (ha : P.image p = G.coords a)
    (hb : Q.image p = G.coords b) :
    ∃ R, P.add Q = .ok R ∧ R.curve = c ∧ R.image p = G.coords (a + b) := by
  rw [G.coords_add, ← ha, ← hb]
  exact exists_add hp hc hP hQ

/-- The negative of a point is its negative in a group of points. -/
theorem exists_negate_coords (hc : c.Over p) {P : Point F} {a : G.Carrier} (hP : P.curve = c)
    (ha : P.image p = G.coords a) :
    ∃ R, P.negate = .ok R ∧ R.curve = c ∧ R.image p = G.coords (-a) := by
  rw [G.coords_neg, ← ha]
  exact exists_negate hc hP

theorem exists_ladder (hp : p ≠ 2) (hc : c.Over p) (ds : List Bool) :
    ∀ {A B : Point F} {a b : G.Carrier}, A.curve = c → B.curve = c → A.image p = G.coords a →
      B.image p = G.coords b →
      ∃ R, ladder ds A B = .ok R ∧ R.curve = c ∧
        R.image p = G.coords (a + Number.ofBits ds • b) := by
  induction ds with
  | nil =>
    intro A B a b hA _ ha _
    exact ⟨A, rfl, hA, by rw [ha, Number.ofBits, zero_smul, add_zero]⟩
  | cons d ds ih =>
    intro A B a b hA hB ha hb
    obtain ⟨D, hD, hcD, hiD⟩ := exists_add_coords hp hc hB hB hb hb
    have hdbl : B.double = .ok D := hD
    rw [← two_nsmul] at hiD
    cases d with
    | false =>
      obtain ⟨R, hR, hcR, hiR⟩ := ih hA hcD ha hiD
      refine ⟨R, ?_, hcR, ?_⟩
      · simp only [ladder, hdbl, bind, Except.bind]
        exact hR
      · rw [hiR, Number.ofBits, smul_smul, Bool.toNat_false, zero_add, mul_comm]
    | true =>
      obtain ⟨S, hS, hcS, hiS⟩ := exists_add_coords hp hc hA hB ha hb
      obtain ⟨R, hR, hcR, hiR⟩ := ih hcS hcD hiS hiD
      refine ⟨R, ?_, hcR, ?_⟩
      · simp only [ladder, if_pos, hS, hdbl, bind, Except.bind]
        exact hR
      · rw [hiR, Number.ofBits, smul_smul, Bool.toNat_true, add_smul, one_smul, mul_comm,
          add_assoc]

/-- The multiple of a point by doubling and adding is its multiple in a group of points. -/
theorem exists_smul (hp : p ≠ 2) (hc : c.Over p) {P : Point F} {a : G.Carrier} (hP : P.curve = c)
    (ha : P.image p = G.coords a) (k : ℕ) :
    ∃ R, P.smul k = .ok R ∧ R.curve = c ∧ R.image p = G.coords (k • a) := by
  obtain ⟨R, hR, hcR, hiR⟩ := exists_ladder (a := 0) hp hc (Number.bits k)
    (A := .infinity P.curve) hP hP G.coords_zero.symm ha
  rw [zero_add, Number.ofBits_bits] at hiR
  exact ⟨R, hR, hcR, hiR⟩

end SpendScript.Point
