import SpendScript.Key.Public
import SpendScript.Proofs.Curve.GroupLaw
import SpendScript.Proofs.Field.FixedWidth
import SpendScript.Proofs.Field.SquareRoot
import SpendScript.Proofs.Key.Primes

/-!
# Keys and their written forms

Results:
* `PublicKey.ofSec_sec`: either form of a key reads back as the key.
-/

namespace SpendScript

open SpendScript.Field (Arith Residue Denotes denotes_value)

namespace Secp256k1

theorem curve_over : curve.Over p :=
  ⟨rfl, rfl⟩

theorem p_mod_four : p % 4 = 3 := by
  decide

theorem p_ne_two : p ≠ 2 := by
  decide

end Secp256k1

namespace PublicKey

theorem ofCoords_of_contains {x y : Residue} (h : Secp256k1.curve.contains x y = .ok true) :
    ofCoords x y = .ok ⟨x, y, h⟩ := by
  unfold ofCoords
  split
  · rfl
  · rename_i h'
    rw [h] at h'
    cases h'
  · rename_i h'
    rw [h] at h'
    cases h'

/-- The coordinates of a key are read back from their bytes. -/
theorem ofBytes_x (key : PublicKey) : Secp256k1.field.ofBytes key.x.toBytes = .ok key.x := by
  have h := Residue.ofBytes_toBytes key.x
  rw [key.modulus_eq.1] at h
  exact h

theorem ofBytes_y (key : PublicKey) : Secp256k1.field.ofBytes key.y.toBytes = .ok key.y := by
  have h := Residue.ofBytes_toBytes key.y
  rw [key.modulus_eq.2] at h
  exact h

theorem length_x (key : PublicKey) : key.x.toBytes.length = 32 := by
  rw [Residue.toBytes_length, key.modulus_eq.1]
  rfl

theorem length_y (key : PublicKey) : key.y.toBytes.length = 32 := by
  rw [Residue.toBytes_length, key.modulus_eq.2]
  rfl

/-- The first coordinate and the parity of the second one determine a key. -/
theorem ofX_x (key : PublicKey) : ofX key.x key.y.isEven = .ok key := by
  have hmx : Arith.modulus key.x = Secp256k1.p := congrArg Field.Modulus.val key.modulus_eq.1
  have hmy : Arith.modulus key.y = Secp256k1.p := congrArg Field.Modulus.val key.modulus_eq.2
  have dx := denotes_value hmx
  have dy := denotes_value hmy
  obtain ⟨z, hz, dz⟩ := Curve.cubic_denotes Secp256k1.curve_over dx
  have heq := (Curve.contains_eq_true_iff Secp256k1.curve_over dx dy).mp key.on_curve
  rw [Curve.weierstrass_equation_iff] at heq
  rw [← heq] at dz
  obtain ⟨r, c, hr, dr, hc⟩ := Residue.exists_sqrt Secp256k1.p_mod_four dz
  have hroot : (if r.isEven = key.y.isEven then r else r.neg) = key.y := by
    rcases hc with rfl | rfl
    · rw [(dr.eq_iff dy).mpr rfl, if_pos rfl]
    · have hneg : r = key.y.neg := (dr.eq_iff dy.neg).mpr rfl
      by_cases hzero : key.y.value = 0
      · have hry : r = key.y := by
          refine (dr.eq_iff dy).mpr ?_
          show -((key.y.value : ℕ) : ZMod Secp256k1.p) = (key.y.value : ℕ)
          rw [hzero, Nat.cast_zero, neg_zero]
        rw [hry, if_pos rfl]
      · have hodd : key.y.modulus.val % 2 = 1 := by
          rw [key.modulus_eq.2]
          decide
        have hparity := Residue.isEven_neg hodd hzero
        rw [← hneg] at hparity
        rw [if_neg (by rw [hparity]; cases key.y.isEven <;> decide)]
        refine (Denotes.eq_iff dr.neg dy).mpr ?_
        rw [neg_neg]
  unfold ofX
  simp only [hz, EcError.ofFault, bind, Except.bind, hr, hroot]
  exact ofCoords_of_contains key.on_curve

theorem ofSec_sec (key : PublicKey) (form : SecForm) : ofSec (key.sec form) = .ok key := by
  cases form with
  | compressed =>
    have htag : ∀ even, parityTag even ≠ uncompressedTag := by decide
    have htags : ∀ even, parityTag even = parityTag true ∨ parityTag even = parityTag false := by
      decide
    have heven : ∀ even, (parityTag even == parityTag true) = even := by decide
    simp only [sec, ofSec]
    rw [if_neg (htag _), if_pos (htags _), if_neg (by rw [length_x]; decide), ofBytes_x, heven]
    exact key.ofX_x
  | uncompressed =>
    have htake : (key.x.toBytes ++ key.y.toBytes).take 32 = key.x.toBytes := by
      rw [← key.length_x, List.take_left]
    have hdrop : (key.x.toBytes ++ key.y.toBytes).drop 32 = key.y.toBytes := by
      rw [← key.length_x, List.drop_left]
    simp only [sec, ofSec, List.cons_append]
    rw [if_pos trivial, if_neg (by rw [List.length_append, length_x, length_y]; decide), htake,
      hdrop, ofBytes_x, ofBytes_y]
    exact ofCoords_of_contains key.on_curve

end PublicKey

end SpendScript
