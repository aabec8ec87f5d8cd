import SpendScript.Key.Private
import SpendScript.Proofs.Ecdsa.Der
import SpendScript.Proofs.Ecdsa.Verification
import SpendScript.Proofs.Key.Generator

/-!
# Keys that sign

Results:
* `Secp256k1.abscissa_of_isAt`: the abscissa of a nonce, by a multiple in Jacobian coordinates.
* `PrivateKey.exists_ofSecret`, `PrivateKey.ofSecret_eq_ok`: every secret in range has a key, whose
  point is its multiple of the generator.
* `PrivateKey.signs_of_sign`: what signing returns, it returns without a bound on the nonces.
* `PrivateKey.verify_returns`, `PrivateKey.verify_of_signs`: verification under the public key
  always returns, and takes the signatures of the private key.
-/

namespace SpendScript

namespace Secp256k1

open SpendScript.Curve (Jacobian)

instance fact_prime_order : Fact (Nat.Prime group.order) :=
  fact_prime_n

theorem n_lt : n < 256 ^ 32 := by
  decide

/-- The abscissa of a nonce that has the binary digits `ds` below a leading one. -/
theorem abscissa_of_isAt (C : group.Cyclic p) {ds : List Bool} {k x : ℕ} {y : ℤ}
    (hk : Number.ofBits (ds ++ [true]) = k) (hx : x < p)
    (h : (Jacobian.multiple p generatorU generatorV ds).IsAt p x y) :
    C.abscissa (k : ZMod group.order) = some (x % n) := by
  have hcoords : C.points.coords (k • C.base) = some (((x : ℤ) : ZMod p), ((y : ℤ) : ZMod p)) :=
    hk ▸ coords_smul_generator C.image_generator h
  rw [Group.Cyclic.abscissa, C.multiple_natCast, hcoords, Option.map_some, Option.map_some,
    Int.cast_natCast, ZMod.val_cast_of_lt hx]
  rfl

end Secp256k1

namespace PrivateKey

open Secp256k1 (group p n)

variable (C : group.Cyclic p) {key : PrivateKey} {d : ℕ}

theorem natCast_ne_zero (hpos : 0 < d) (hlt : d < n) : (d : ZMod group.order) ≠ 0 := by
  rw [ne_eq, ZMod.natCast_eq_zero_iff]
  exact Nat.not_dvd_of_pos_of_lt hpos hlt

/-- Every secret in range has a key. -/
theorem exists_ofSecret (hpos : 0 < d) (hlt : d < n) :
    ∃ key, ofSecret d = .ok key ∧ key.secret = d ∧ C.IsMultiple key.publicKey.point d := by
  obtain ⟨P, hP, hmul⟩ := C.isMultiple_generator.exists_smul Secp256k1.p_ne_two d
  rw [mul_one] at hmul
  have hpoint : group.publicPoint d = .ok P := hP
  have hcheck : group.checkSecret d = .ok () := if_pos ⟨hpos, hlt⟩
  cases P with
  | infinity c => exact absurd (hmul.isInfinity_iff.mp rfl) (natCast_ne_zero hpos hlt)
  | affine c x y hxy =>
    obtain rfl : c = Secp256k1.curve := hmul.1
    refine ⟨⟨d, x, y, hxy⟩, ?_, rfl, hmul⟩
    simp only [ofSecret, hcheck, hpoint, EcError.ofFault, PublicKey.ofPoint, bind, Except.bind,
      dif_pos, pure, Except.pure]

theorem ofSecret_eq_ok (h : ofSecret d = .ok key) :
    0 < d ∧ d < n ∧ key.secret = d ∧ C.IsMultiple key.publicKey.point d := by
  by_cases hrange : 0 < d ∧ d < n
  · obtain ⟨key', hkey, hsecret, hmul⟩ := exists_ofSecret C hrange.1 hrange.2
    rw [h, Except.ok.injEq] at hkey
    rw [hkey]
    exact ⟨hrange.1, hrange.2, hsecret, hmul⟩
  · have hcheck : group.checkSecret d = .error (.scalarOutOfRange group.order) := if_neg hrange
    simp [ofSecret, hcheck, bind, Except.bind] at h

/-- Verification under the key of a secret always returns. -/
theorem verify_returns (h : ofSecret d = .ok key) (z : ℕ) (sig : Signature) :
    ∃ accepted, key.publicKey.verify z sig = .ok accepted := by
  obtain ⟨C⟩ := Secp256k1.exists_cyclic
  obtain ⟨hpos, hlt, -, hmul⟩ := ofSecret_eq_ok C h
  exact ⟨_, C.verify_eq Secp256k1.p_ne_two hmul (natCast_ne_zero hpos hlt) z sig⟩

theorem signs_of_sign {z : ℕ} {sig : Signature} (h : key.sign z = .ok sig) : key.Signs z sig :=
  Group.signs_of_signUnchecked h

/-- The signatures of a private key are accepted, and their numbers are in range. -/
theorem verify_of_signs (h : ofSecret d = .ok key) {z : ℕ} {sig : Signature}
    (hsig : key.Signs z sig) :
    key.publicKey.verify z sig = .ok true ∧ sig.inRange n = true := by
  obtain ⟨C⟩ := Secp256k1.exists_cyclic
  obtain ⟨hpos, hlt, hsecret, hmul⟩ := ofSecret_eq_ok C h
  have hd := natCast_ne_zero hpos hlt
  rw [Signs, hsecret] at hsig
  obtain ⟨hverify, -⟩ := C.verify_of_signs Secp256k1.p_ne_two hmul hd hsig
  exact ⟨hverify, ((C.verify_eq_true_iff Secp256k1.p_ne_two hmul hd z sig).mp hverify).1⟩

end PrivateKey

namespace Signature

variable {sig : Signature}

theorem lt_of_inRange (h : sig.inRange Secp256k1.n = true) :
    (0 < sig.r ∧ sig.r < 256 ^ 32) ∧ 0 < sig.s ∧ sig.s < 256 ^ 32 := by
  have hn := Secp256k1.n_lt
  simp only [inRange, decide_eq_true_iff] at h
  omega

end Signature

end SpendScript
