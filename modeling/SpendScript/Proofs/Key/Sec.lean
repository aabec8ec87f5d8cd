import SpendScript.Proofs.Key.Faultless

/-!
# The SEC forms of keys

No point of the curve has the ordinate zero, since minus seven is no cube. So an abscissa belongs to
no point or to two, whose ordinates differ in parity, and a tag tells them apart.

* `Secp256k1.OnCurve`: the representatives of the coordinates of a point.
* `PublicKey.IsSec`: the byte strings of the two forms.

Results:
* `Secp256k1.exists_parity`: an abscissa with an ordinate has one of each parity.
* `PublicKey.sec_of_ofSec`: what is read as a key is the form of that key which the tag tells.
* `PublicKey.secExact`: reading and writing keys is exact.
-/

namespace SpendScript

open SpendScript.Field (Residue denotes_value)

namespace Secp256k1

variable {x y : ℕ}

/-! ## The curve equation on representatives -/

/-- The numbers are the representatives of the coordinates of a point. -/
def OnCurve (x y : ℕ) : Prop :=
  x < p ∧ y < p ∧ y ^ 2 ≡ x ^ 3 + 7 [MOD p]

theorem equation_iff : y ^ 2 ≡ x ^ 3 + 7 [MOD p] ↔ (y : ZMod p) ^ 2 = (x : ZMod p) ^ 3 + 7 := by
  rw [← ZMod.natCast_eq_natCast_iff]
  push_cast
  rfl

theorem contains_iff {x y : Residue} (hx : x.modulus = field) (hy : y.modulus = field) :
    curve.contains x y = .ok true ↔ y.value ^ 2 ≡ x.value ^ 3 + 7 [MOD p] := by
  have ha : (Field.Arith.value curve.a : ZMod p) = 0 := Nat.cast_zero
  have hb : (Field.Arith.value curve.b : ZMod p) = 7 := by
    show ((7 % p : ℕ) : ZMod p) = 7
    rw [ZMod.natCast_mod]
    rfl
  rw [Curve.contains_eq_true_iff curve_over (denotes_value (congrArg Field.Modulus.val hx))
    (denotes_value (congrArg Field.Modulus.val hy)), Curve.weierstrass_equation_iff, ha, hb,
    zero_mul, add_zero, ← pow_succ, equation_iff]
  rfl

/-- Minus seven is no cube: its power by a third of `p - 1` is not one, as that of a cube would
be. -/
theorem cube_add_seven_ne_zero (a : ZMod p) : a ^ 3 + 7 ≠ 0 := by
  intro h
  have hcube : a ^ 3 = ((p - 7 : ℕ) : ZMod p) := by
    rw [Nat.cast_sub (by decide), ZMod.natCast_self, zero_sub]
    exact eq_neg_of_add_eq_zero_left h
  have hne : a ≠ 0 := by
    rintro rfl
    rw [zero_pow (by decide), eq_comm, ZMod.natCast_eq_zero_iff] at hcube
    exact absurd (Nat.le_of_dvd (by decide) hcube) (by decide)
  have hfermat : ((p - 7 : ℕ) : ZMod p) ^ ((p - 1) / 3) = 1 := by
    rw [← hcube, ← pow_mul, show 3 * ((p - 1) / 3) = p - 1 by decide]
    exact ZMod.pow_card_sub_one_eq_one hne
  rw [Number.LucasEntry.cast_pow_eq_one_iff (by decide)] at hfermat
  exact absurd hfermat (by decide +kernel)

theorem ne_zero_of_equation (h : y ^ 2 ≡ x ^ 3 + 7 [MOD p]) : ¬p ∣ y := by
  intro hdvd
  rw [equation_iff, (ZMod.natCast_eq_zero_iff y p).mpr hdvd, zero_pow (by decide)] at h
  exact cube_add_seven_ne_zero x h.symm

/-- An abscissa with an ordinate has one of each parity. -/
theorem exists_parity (hx : x < p) (h : y ^ 2 ≡ x ^ 3 + 7 [MOD p]) (even : Bool) :
    ∃ y', OnCurve x y' ∧ (y' % 2 == 0) = even := by
  have hlt : y % p < p := Nat.mod_lt y field.pos
  have hpos : 0 < y % p := Nat.pos_of_ne_zero fun h0 => ne_zero_of_equation h
    (Nat.dvd_of_mod_eq_zero h0)
  have hroot : (y % p) ^ 2 ≡ x ^ 3 + 7 [MOD p] := ((Nat.mod_modEq y p).pow 2).trans h
  have hneg : (p - y % p) ^ 2 ≡ x ^ 3 + 7 [MOD p] := by
    rw [equation_iff] at hroot ⊢
    rw [Nat.cast_sub hlt.le, ZMod.natCast_self, zero_sub, neg_sq, hroot]
  have hodd : p % 2 = 1 := by decide
  by_cases hparity : (y % p % 2 == 0) = even
  · exact ⟨y % p, ⟨hx, hlt, hroot⟩, hparity⟩
  · refine ⟨p - y % p, ⟨hx, by omega, hneg⟩, ?_⟩
    cases even with
    | true =>
      rw [beq_iff_eq] at hparity ⊢
      omega
    | false =>
      rw [beq_eq_false_iff_ne] at hparity ⊢
      omega

end Secp256k1

open Secp256k1 (OnCurve field p)

namespace PublicKey

variable {x : Residue} {bs : Bytes} {key : PublicKey}

/-! ## Keys by their coordinates -/

theorem onCurve (key : PublicKey) : OnCurve key.x.value key.y.value := by
  obtain ⟨hx, hy⟩ := key.modulus_eq
  have hxlt := key.x.value_lt
  have hylt := key.y.value_lt
  rw [hx] at hxlt
  rw [hy] at hylt
  exact ⟨hxlt, hylt, (Secp256k1.contains_iff hx hy).mp key.on_curve⟩

/-- Every point of the curve is held by a key. -/
theorem exists_of_onCurve {x y : ℕ} (h : OnCurve x y) :
    ∃ key : PublicKey, key.x.value = x ∧ key.y.value = y := by
  obtain ⟨hx, hy, heq⟩ := h
  exact ⟨⟨⟨field, x, hx⟩, ⟨field, y, hy⟩, (Secp256k1.contains_iff rfl rfl).mpr heq⟩, rfl, rfl⟩

theorem y_value_ne_zero (key : PublicKey) : key.y.value ≠ 0 := by
  intro h
  refine Secp256k1.ne_zero_of_equation key.onCurve.2.2 ?_
  rw [h]
  exact Nat.dvd_zero p

/-- The bytes of a coordinate are the only ones of their width that spell it. -/
theorem toBytes_x {x : Bytes} (hlen : x.length = 32) (h : key.x.value = Bytes.toNat x) :
    key.x.toBytes = x :=
  Residue.toBytes_eq (by rw [hlen, key.modulus_eq.1]; rfl) h

theorem toBytes_y {y : Bytes} (hlen : y.length = 32) (h : key.y.value = Bytes.toNat y) :
    key.y.toBytes = y :=
  Residue.toBytes_eq (by rw [hlen, key.modulus_eq.2]; rfl) h

/-! ## What is read -/

/-- What goes on after a coordinate was read goes on with the element that its bytes spell. -/
theorem exists_of_ofBytes {f : Residue → Except EcError PublicKey}
    (h : (EcError.ofField (field.ofBytes bs) >>= f) = .ok key) :
    ∃ x, x.modulus = field ∧ x.value = Bytes.toNat bs ∧ f x = .ok key := by
  cases hx : field.ofBytes bs with
  | error e =>
    rw [hx] at h
    cases h
  | ok x =>
    rw [hx] at h
    obtain ⟨-, hmodulus, hvalue⟩ := Field.Modulus.ofBytes_eq_ok_iff.mp hx
    exact ⟨x, hmodulus, hvalue, h⟩

theorem eq_of_ofCoords {y : Residue} (h : ofCoords x y = .ok key) : key.x = x ∧ key.y = y := by
  unfold ofCoords at h
  split at h
  · obtain rfl := Except.ok.inj h
    exact ⟨rfl, rfl⟩
  · cases h
  · cases h

/-- The key that is found has the given abscissa and an ordinate of the given parity. -/
theorem eq_of_ofX (hx : x.modulus = field) {even : Bool} (h : ofX x even = .ok key) :
    key.x = x ∧ key.y.isEven = even := by
  obtain ⟨z, hz, hmz⟩ := Secp256k1.exists_cubic hx
  simp only [ofX, hz, EcError.ofFault, bind, Except.bind] at h
  cases hroot : z.sqrt with
  | none =>
    rw [hroot] at h
    cases h
  | some root =>
    rw [hroot] at h
    obtain ⟨hkx, hky⟩ := eq_of_ofCoords h
    refine ⟨hkx, ?_⟩
    split_ifs at hky with heven
    · rw [hky, heven]
    · have hm : root.modulus = field := (modulus_sqrt hroot).trans hmz
      have hne : root.value ≠ 0 := by
        intro h0
        refine key.y_value_ne_zero ?_
        rw [hky]
        show (root.modulus.val - root.value) % root.modulus.val = 0
        rw [h0, Nat.sub_zero, Nat.mod_self]
      rw [hky, Residue.isEven_neg (by rw [hm]; decide) hne]
      revert heven
      cases root.isEven <;> cases even <;> decide

end PublicKey

/-- The form that a tag tells. -/
def SecForm.ofTag (tag : UInt8) : SecForm :=
  if tag = PublicKey.uncompressedTag then .uncompressed else .compressed

namespace PublicKey

variable {bs : Bytes} {key : PublicKey}

/-- What is read as a key is the form of that key which the tag tells. -/
theorem sec_of_ofSec (h : ofSec bs = .ok key) :
    ∃ tag body, bs = tag :: body ∧ key.sec (.ofTag tag) = bs := by
  match bs with
  | [] => cases h
  | tag :: body =>
    refine ⟨tag, body, rfl, ?_⟩
    simp only [ofSec] at h
    by_cases htag : tag = uncompressedTag
    · rw [if_pos htag] at h
      split_ifs at h with hsize
      have hlen : body.length = 64 := by
        rw [uncompressedSize] at hsize
        omega
      obtain ⟨x, -, hx, h⟩ := exists_of_ofBytes h
      obtain ⟨y, -, hy, h⟩ := exists_of_ofBytes h
      obtain ⟨rfl, rfl⟩ := eq_of_ofCoords h
      rw [SecForm.ofTag, if_pos htag, sec, toBytes_x (by rw [List.length_take]; omega) hx,
        toBytes_y (by rw [List.length_drop]; omega) hy, List.cons_append, List.take_append_drop,
        htag]
    · rw [if_neg htag] at h
      split_ifs at h with hparity hsize
      have hlen : body.length = 32 := by
        rw [compressedSize] at hsize
        omega
      obtain ⟨x, hmodulus, hx, h⟩ := exists_of_ofBytes h
      obtain ⟨rfl, heven⟩ := eq_of_ofX hmodulus h
      rw [SecForm.ofTag, if_neg htag, sec, heven, toBytes_x hlen hx]
      rcases hparity with rfl | rfl <;> rfl

/-! ## The forms -/

/-- The byte strings of the two forms: the coordinates of a point, or an abscissa whose value in the
curve equation is a square, each coordinate in 32 bytes and below the modulus. -/
inductive IsSec : Bytes → Prop where
  | uncompressed (x y : Bytes) : x.length = 32 → y.length = 32 →
      OnCurve (Bytes.toNat x) (Bytes.toNat y) → IsSec (0x04 :: (x ++ y))
  | compressed (tag : UInt8) (x : Bytes) : tag = 0x02 ∨ tag = 0x03 → x.length = 32 →
      Bytes.toNat x < p → (∃ y, y ^ 2 ≡ Bytes.toNat x ^ 3 + 7 [MOD p]) → IsSec (tag :: x)

theorem isSec_sec (key : PublicKey) (form : SecForm) : IsSec (key.sec form) := by
  have h := key.onCurve
  cases form with
  | compressed =>
    refine .compressed _ _ ?_ key.length_x ?_ ?_
    · cases key.y.isEven
      · exact Or.inr rfl
      · exact Or.inl rfl
    · rw [Residue.toNat_toBytes]
      exact h.1
    · rw [Residue.toNat_toBytes]
      exact ⟨_, h.2.2⟩
  | uncompressed =>
    refine .uncompressed _ _ key.length_x key.length_y ?_
    rw [Residue.toNat_toBytes, Residue.toNat_toBytes]
    exact h

/-- Every string of a form is that form of a key. -/
theorem exists_sec_of_isSec (h : IsSec bs) : ∃ key : PublicKey, ∃ form, key.sec form = bs := by
  cases h with
  | uncompressed x y hxlen hylen hcurve =>
    obtain ⟨key, hx, hy⟩ := exists_of_onCurve hcurve
    refine ⟨key, .uncompressed, ?_⟩
    rw [sec, toBytes_x hxlen hx, toBytes_y hylen hy]
    rfl
  | compressed tag x htag hlen hlt hsquare =>
    obtain ⟨y, hy⟩ := hsquare
    obtain ⟨y', hcurve, hparity⟩ := Secp256k1.exists_parity hlt hy (tag == parityTag true)
    obtain ⟨key, hkx, hky⟩ := exists_of_onCurve hcurve
    have heven : key.y.isEven = (tag == parityTag true) := by rw [Residue.isEven, hky, hparity]
    refine ⟨key, .compressed, ?_⟩
    rw [sec, toBytes_x hlen hkx, heven]
    rcases htag with rfl | rfl <;> rfl

/-- Reading and writing keys is exact. Both forms of a key read back as the key. What is read is a
point of the curve, written in the form that the tag tells. And what is read are the strings of the
two forms; in particular every square has its root found. All else is refused. -/
theorem secExact :
    (∀ (key : PublicKey) (form : SecForm), ofSec (key.sec form) = .ok key) ∧
      (∀ (bs : Bytes) (key : PublicKey), ofSec bs = .ok key →
        OnCurve key.x.value key.y.value ∧
          ∃ tag body, bs = tag :: body ∧ key.sec (.ofTag tag) = bs) ∧
      ∀ bs : Bytes, ((∃ key, ofSec bs = .ok key) ↔ IsSec bs) ∧
        ∀ f, ofSec bs ≠ .error (.fault f) := by
  refine ⟨ofSec_sec, fun bs key h => ⟨key.onCurve, sec_of_ofSec h⟩, fun bs => ⟨?_, ?_⟩⟩
  · constructor
    · rintro ⟨key, h⟩
      obtain ⟨tag, body, -, hsec⟩ := sec_of_ofSec h
      rw [← hsec]
      exact key.isSec_sec _
    · intro h
      obtain ⟨key, form, rfl⟩ := exists_sec_of_isSec h
      exact ⟨key, key.ofSec_sec form⟩
  · exact ofSec_ne_fault bs

/-- The point below the generator, which has the same abscissa and an odd ordinate, and the abscissa
five, which no point has. -/
theorem secExact_belowGenerator :
    (∃ key, ofSec (0x03 :: Secp256k1.generatorX.toBytes) = .ok key ∧
        key.sec .compressed = 0x03 :: Secp256k1.generatorX.toBytes) ∧
      ¬IsSec (0x02 :: (List.replicate 31 0 ++ [5])) := by
  constructor
  · have hsec : IsSec (0x03 :: Secp256k1.generatorX.toBytes) := by
      refine .compressed _ _ (Or.inr rfl) (by decide +kernel) ?_ ⟨Secp256k1.generatorY.value, ?_⟩
      · rw [Residue.toNat_toBytes]
        exact Secp256k1.generatorX.value_lt
      · rw [Residue.toNat_toBytes]
        exact (Secp256k1.contains_iff rfl rfl).mp Secp256k1.generator_on_curve
    obtain ⟨key, hkey⟩ := (secExact.2.2 _).1.mpr hsec
    obtain ⟨-, tag, body, hbytes, hform⟩ := secExact.2.1 _ key hkey
    obtain ⟨rfl, -⟩ := List.cons.inj hbytes
    exact ⟨key, hkey, hform⟩
  · intro h
    obtain ⟨key, hkey⟩ := (secExact.2.2 _).1.mpr h
    have hrefused : (ofSec (0x02 :: (List.replicate 31 0 ++ [5]))).isOk = false := by decide +kernel
    rw [hkey] at hrefused
    cases hrefused

end PublicKey

end SpendScript
