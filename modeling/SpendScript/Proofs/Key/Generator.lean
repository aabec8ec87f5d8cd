import SpendScript.Proofs.Curve.Jacobian
import SpendScript.Proofs.Ecdsa.CyclicGroup
import SpendScript.Proofs.Key.Coding

/-!
# The order of the generator

The multiple of the generator by its order is the neutral element: the multiple before it is the
generator's negative.

Results:
* `Secp256k1.coords_smul_generator`: multiples of the generator, told by Jacobian coordinates.
* `Secp256k1.order_smul_eq_zero`: the order annihilates the generator.
* `Secp256k1.exists_cyclic`: the group of signatures is cyclic of prime order.
-/

namespace SpendScript.Secp256k1

open SpendScript.Field (Arith)
open SpendScript.Curve (Jacobian PointGroup mordell chordSum)

def generatorU : ℤ :=
  (Arith.value generatorX : ℕ)

def generatorV : ℤ :=
  (Arith.value generatorY : ℕ)

theorem weierstrass_eq : curve.weierstrass p = mordell (Arith.value curve.b : ZMod p) := by
  have ha : Arith.value curve.a = 0 := by decide
  rw [Curve.weierstrass, ha, Nat.cast_zero]
  rfl

section Multiples

variable {G : PointGroup (curve.weierstrass p)} {g : G.Carrier}
  (hg : generator.image p = G.coords g)
include hg

theorem coords_generator : G.coords g = some ((generatorU : ZMod p), (generatorV : ZMod p)) := by
  rw [← hg, generatorU, generatorV, Int.cast_natCast, Int.cast_natCast]
  rfl

/-- The multiple of the generator by the number with the binary digits `ds` below a leading one. -/
theorem coords_smul_generator {ds : List Bool} {x y : ℤ}
    (h : (Jacobian.multiple p generatorU generatorV ds).IsAt p x y) :
    G.coords (Number.ofBits (ds ++ [true]) • g) = some ((x : ZMod p), (y : ZMod p)) :=
  (Jacobian.represents_multiple weierstrass_eq (coords_generator hg) ds h.z_ne_zero).eq_of_isAt h

end Multiples

/-- The binary digits of `n - 1` below the leading one. -/
def complementDigits : List Bool :=
  (Number.bits (n - 1)).dropLast

theorem ofBits_complementDigits : Number.ofBits (complementDigits ++ [true]) = n - 1 := by
  decide +kernel

/-- The multiple of the generator by `n - 1` is its negative. -/
theorem isAt_complement : (Jacobian.multiple p generatorU generatorV complementDigits).IsAt p
    generatorU (-generatorV) := by
  decide +kernel

/-- The negative of the generator is added to it last. -/
theorem order_smul_eq_zero {G : PointGroup (curve.weierstrass p)} {g : G.Carrier}
    (hg : generator.image p = G.coords g) : n • g = 0 := by
  have hcomplement := coords_smul_generator hg isAt_complement
  rw [ofBits_complementDigits] at hcomplement
  apply G.coords_injective
  rw [show n = n - 1 + 1 by decide, add_smul, one_smul, G.coords_add, hcomplement,
    coords_generator hg, G.coords_zero, weierstrass_eq]
  apply Curve.chordSum_of_eq_neg
  rw [Curve.mordell_negY]
  exact ⟨rfl, Int.cast_neg _⟩

/-- The signatures of secp256k1 are made in a cyclic group of prime order. -/
theorem exists_cyclic : Nonempty (group.Cyclic p) := by
  obtain ⟨G, g, hg⟩ := PointGroup.exists_coords_eq (Point.onCurve_image curve_over
    (show generator.curve = curve from rfl))
  refine ⟨⟨curve_over, G, g, hg.symm, ?_, order_smul_eq_zero hg.symm⟩⟩
  rintro rfl
  rw [G.coords_zero] at hg
  cases hg

end SpendScript.Secp256k1
