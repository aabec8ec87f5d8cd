import SpendScript.Engine.Signature
import SpendScript.Proofs.Key.Signing

/-!
# Keys without faults

The moduli of secp256k1 are prime and its coordinates are reduced, so no operation on keys breaks an
assumption of the arithmetic, whatever the bytes of the key and of the signature are.

Results:
* `PublicKey.ofSec_ne_fault`: reading a key gives a key or a flaw of its bytes.
* `PublicKey.exists_verify`: verification under any key returns.
* `SigCheck.verdict_ne_fault`: so does a whole check.
* `Secp256k1.exists_order_smul`: the order annihilates the generator.
-/

namespace SpendScript

open SpendScript.Field (Arith Residue Denotes denotes_value)

namespace Secp256k1

variable {x y : Residue}

/-- The multiple of the generator by its order is the neutral element. -/
theorem exists_order_smul : ∃ c, generator.smul n = .ok (.infinity c) := by
  obtain ⟨C⟩ := exists_cyclic
  obtain ⟨R, hR, hmul⟩ := C.isMultiple_generator.exists_smul p_ne_two n
  have hzero : (n : ZMod group.order) * 1 = 0 := by
    rw [mul_one]
    exact ZMod.natCast_self n
  rw [hzero] at hmul
  cases R with
  | infinity c => exact ⟨c, hR⟩
  | affine c x y h => cases hmul.isInfinity_iff.mpr rfl

/-- The curve equation can be tested at reduced coordinates. -/
theorem exists_contains (hx : x.modulus = field) (hy : y.modulus = field) :
    ∃ t, curve.contains x y = .ok t := by
  have dx : Denotes p x _ := denotes_value (congrArg Field.Modulus.val hx)
  have dy : Denotes p y _ := denotes_value (congrArg Field.Modulus.val hy)
  obtain ⟨t, ht, -⟩ := Curve.contains_denotes curve_over dx dy
  exact ⟨t, ht⟩

theorem exists_cubic (hx : x.modulus = field) :
    ∃ z, curve.cubic x = .ok z ∧ z.modulus = field := by
  obtain ⟨z, hz, dz⟩ := Curve.cubic_denotes curve_over
    (denotes_value (p := p) (congrArg Field.Modulus.val hx))
  exact ⟨z, hz, (PublicKey.cubic_modulus hz).2⟩

end Secp256k1

namespace PublicKey

variable {x y : Residue}

open Secp256k1 (field)

/-- Coordinates are those of a key, or they are not on the curve. -/
theorem ofCoords_cases (hx : x.modulus = field) (hy : y.modulus = field) :
    (∃ h, ofCoords x y = .ok ⟨x, y, h⟩) ∨
      Secp256k1.curve.contains x y = .ok false ∧
        ofCoords x y = .error (.notOnCurve x.text y.text) := by
  obtain ⟨t, ht⟩ := Secp256k1.exists_contains hx hy
  cases t with
  | true => exact Or.inl ⟨ht, ofCoords_of_contains ht⟩
  | false =>
    refine Or.inr ⟨ht, ?_⟩
    unfold ofCoords
    split
    · rename_i h
      rw [ht] at h
      cases h
    · rfl
    · rename_i h
      rw [ht] at h
      cases h

theorem ofCoords_ne_fault (hx : x.modulus = field) (hy : y.modulus = field) (f : Fault) :
    ofCoords x y ≠ .error (.fault f) := by
  rcases ofCoords_cases hx hy with ⟨h, hok⟩ | ⟨-, herror⟩
  · rw [hok]
    rintro ⟨⟩
  · rw [herror]
    rintro ⟨⟩

theorem modulus_sqrt {z root : Residue} (h : z.sqrt = some root) : root.modulus = z.modulus := by
  unfold Residue.sqrt at h
  split at h
  · simp only [Option.ite_none_right_eq_some, Option.some.injEq] at h
    rw [← h.2]
    rfl
  · cases h

theorem ofX_ne_fault (hx : x.modulus = field) (even : Bool) (f : Fault) :
    ofX x even ≠ .error (.fault f) := by
  obtain ⟨z, hz, hmz⟩ := Secp256k1.exists_cubic hx
  simp only [ofX, hz, EcError.ofFault, bind, Except.bind]
  cases hroot : z.sqrt with
  | none => rintro ⟨⟩
  | some root =>
    refine ofCoords_ne_fault hx ?_ f
    split_ifs
    · rw [modulus_sqrt hroot, hmz]
    · exact (modulus_sqrt hroot).trans hmz

theorem ofBytes_modulus {m : Field.Modulus} {bs : Bytes} (h : m.ofBytes bs = .ok x) :
    x.modulus = m :=
  (Field.Modulus.ofBytes_eq_ok_iff.mp h).2.1

theorem ofSec_ne_fault (bs : Bytes) (f : Fault) : ofSec bs ≠ .error (.fault f) := by
  cases bs with
  | nil => rintro ⟨⟩
  | cons tag body =>
    simp only [ofSec]
    split_ifs
    · rintro ⟨⟩
    · cases hx : field.ofBytes (body.take 32) with
      | error e => rintro ⟨⟩
      | ok x =>
        cases hy : field.ofBytes (body.drop 32) with
        | error e => rintro ⟨⟩
        | ok y => exact ofCoords_ne_fault (ofBytes_modulus hx) (ofBytes_modulus hy) f
    · rintro ⟨⟩
    · cases hx : field.ofBytes body with
      | error e => rintro ⟨⟩
      | ok x => exact ofX_ne_fault (ofBytes_modulus hx) _ f
    · rintro ⟨⟩

/-- Verification under any key returns: multiples and sums of points of the curve do. -/
theorem exists_verify (key : PublicKey) (z : ℕ) (sig : Signature) :
    ∃ valid, key.verify z sig = .ok valid := by
  have hcurve : key.point.curve = Secp256k1.curve := rfl
  have hsmul : ∀ {P : Point Residue} (k : ℕ), P.curve = Secp256k1.curve →
      ∃ R, P.smul k = .ok R ∧ R.curve = Secp256k1.curve := by
    intro P k hP
    obtain ⟨G, a, ha⟩ := Curve.PointGroup.exists_coords_eq
      (Point.onCurve_image Secp256k1.curve_over hP)
    obtain ⟨R, hR, hcR, -⟩ := Point.exists_smul Secp256k1.p_ne_two Secp256k1.curve_over hP ha.symm k
    exact ⟨R, hR, hcR⟩
  unfold verify Group.verify
  split_ifs
  · exact ⟨false, rfl⟩
  · obtain ⟨P, hP, hcP⟩ := hsmul (P := Secp256k1.generator)
      (z * Number.fermatInverse Secp256k1.n sig.s % Secp256k1.n) rfl
    obtain ⟨Q, hQ, hcQ⟩ := hsmul (sig.r * Number.fermatInverse Secp256k1.n sig.s % Secp256k1.n)
      hcurve
    obtain ⟨R, hR, -⟩ := Point.exists_add Secp256k1.p_ne_two Secp256k1.curve_over hcP hcQ
    refine ⟨Secp256k1.group.xModOrder R == some sig.r, ?_⟩
    simp only [Secp256k1.group, hP, hQ, hR, bind, Except.bind, pure, Except.pure]

end PublicKey

namespace SigCheck

theorem verdict_ne_fault (check : SigCheck) (f : Fault) : check.verdict ≠ .fault f := by
  unfold verdict
  split
  · rintro ⟨⟩
  · rename_i sig _
    split
    · rename_i f' h
      exact absurd h (PublicKey.ofSec_ne_fault check.key f')
    · rintro ⟨⟩
    · rename_i key _
      obtain ⟨valid, hvalid⟩ := key.exists_verify check.digest sig
      rw [hvalid]
      rintro ⟨⟩

end SigCheck

end SpendScript
