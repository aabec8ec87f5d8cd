import SpendScript.Proofs.Field.Prime

/-!
# Square roots

Results:
* `Residue.exists_sqrt`: modulo a prime that is 3 modulo 4, every square has its root.
* `Residue.sqrtExact`: there a root is found if and only if there is one, up to its sign; modulo
  any number, what is found is a root.
* `Residue.isEven_neg`: modulo an odd number, an element and its negative differ in parity.
-/

namespace SpendScript.Field

namespace Residue

variable {p : ℕ} {x y : Residue} {a b : ZMod p}

/-- Fermat's little theorem for the exponent `(p + 1) / 4`, squared. -/
theorem pow_quarter_sq [Fact p.Prime] (hp : p % 4 = 3) (b : ZMod p) :
    ((b ^ 2) ^ ((p + 1) / 4)) ^ 2 = b ^ 2 := by
  have hexp : 2 * ((p + 1) / 4 * 2) = p + 1 := by omega
  rw [← pow_mul, ← pow_mul, hexp, pow_succ, ZMod.pow_card, sq]

theorem exists_sqrt [Fact p.Prime] (hp : p % 4 = 3) (hx : Denotes p x (b ^ 2)) :
    ∃ r c, x.sqrt = some r ∧ Denotes p r c ∧ (c = b ∨ c = -b) := by
  have hm : x.modulus.val = p := hx.1
  have hroot : Denotes p (x.pow ((p + 1) / 4)) ((b ^ 2) ^ ((p + 1) / 4)) := Denotes.pow hx _
  have hsq : (x.pow ((p + 1) / 4)).square = x := by
    have hsquare : Denotes p (x.pow ((p + 1) / 4)).square _ := Denotes.square hroot
    rw [pow_quarter_sq hp] at hsquare
    exact (hsquare.eq_iff hx).mpr rfl
  refine ⟨_, _, ?_, hroot, sq_eq_sq_iff_eq_or_eq_neg.mp (pow_quarter_sq hp b)⟩
  unfold sqrt
  rw [hm, if_pos hp]
  exact if_pos hsq

theorem mul_self (r : Residue) : r.mul r = .ok r.square := by
  rw [mul, combine, if_pos rfl]
  rfl

/-- Whatever the modulus is, the square of the candidate has been compared. -/
theorem sqrt_eq_some {a r : Residue} (h : a.sqrt = some r) :
    a.modulus.val % 4 = 3 ∧ r.mul r = .ok a := by
  unfold sqrt at h
  dsimp only at h
  split_ifs at h with hmod hsquare
  obtain rfl := Option.some.inj h
  exact ⟨hmod, by rw [mul_self, hsquare]⟩

/-- Modulo a prime that is 3 modulo 4, an element with a root has a root that is found, and it is
the given one or its negative. -/
theorem sqrt_of_mul_self {a b : Residue} (hprime : a.modulus.val.Prime)
    (hmod : a.modulus.val % 4 = 3) (h : b.mul b = .ok a) :
    ∃ r, a.sqrt = some r ∧ (b = r ∨ b = r.neg) := by
  have : Fact a.modulus.val.Prime := ⟨hprime⟩
  have hb : Denotes a.modulus.val b (b.value : ZMod a.modulus.val) :=
    denotes_value (congrArg Modulus.val (combine_modulus h).2.symm)
  obtain ⟨z, hz, hsquare⟩ := hb.mul hb
  obtain rfl : a = z := Except.ok.inj (h.symm.trans hz)
  rw [← sq] at hsquare
  obtain ⟨r, c, hr, hc, hsign⟩ := exists_sqrt hmod hsquare
  refine ⟨r, hr, hsign.imp (fun heq => ?_) fun heq => ?_⟩
  · exact (hb.eq_iff hc).mpr heq.symm
  · refine (hb.eq_iff hc.neg).mpr ?_
    rw [heq, neg_neg]

/-- The root that is found squares to the element, for any modulus, and none is found unless the
modulus is 3 modulo 4. If the modulus is a prime besides, one is found for all squares, and it is
every root of the element but for the sign. -/
theorem sqrtExact (a : Residue) :
    (∀ r, a.sqrt = some r → r.mul r = .ok a) ∧
    (a.modulus.val % 4 ≠ 3 → a.sqrt = none) ∧
    (a.modulus.val.Prime → a.modulus.val % 4 = 3 →
      ((∃ r, a.sqrt = some r ∧ r.mul r = .ok a) ↔ ∃ b : Residue, b.mul b = .ok a) ∧
      ∀ r b : Residue, a.sqrt = some r → b.mul b = .ok a → b = r ∨ b = r.neg) := by
  refine ⟨fun r h => (sqrt_eq_some h).2, fun hmod => if_neg hmod, fun hprime hmod => ⟨?_, ?_⟩⟩
  · constructor
    · rintro ⟨r, -, hr⟩
      exact ⟨r, hr⟩
    · rintro ⟨b, hb⟩
      obtain ⟨r, hr, -⟩ := sqrt_of_mul_self hprime hmod hb
      exact ⟨r, hr, (sqrt_eq_some hr).2⟩
  · intro r b hr hb
    obtain ⟨r', hr', hsign⟩ := sqrt_of_mul_self hprime hmod hb
    obtain rfl : r = r' := Option.some.inj (hr.symm.trans hr')
    exact hsign

/-- Seven has the roots 26 and 197 modulo 223. Modulo 221, which is 1 modulo 4, none is found for
four. -/
theorem sqrtExact_instance :
    let m : Modulus := ⟨223, by decide⟩
    (∃ r, (m.reduce 7).sqrt = some r ∧ r.mul r = .ok (m.reduce 7) ∧
      (m.reduce 26 = r ∨ m.reduce 26 = r.neg)) ∧
    (Modulus.reduce ⟨221, by decide⟩ 4).sqrt = none := by
  intro m
  have hprime : Nat.Prime (m.reduce 7).modulus.val := by
    show Nat.Prime 223
    decide +kernel
  obtain ⟨hsound, -, hcomplete⟩ := sqrtExact (m.reduce 7)
  obtain ⟨hfound, hsign⟩ := hcomplete hprime (by decide)
  have hroot : (m.reduce 26).mul (m.reduce 26) = .ok (m.reduce 7) := by
    simp [mul_self, square, Modulus.reduce, m]
  obtain ⟨r, hr, -⟩ := hfound.mpr ⟨_, hroot⟩
  exact ⟨⟨r, hr, hsound r hr, hsign r _ hr hroot⟩, (sqrtExact _).2.1 (by decide)⟩

/-- The negative of a nonzero element has the other parity. -/
theorem isEven_neg (hodd : x.modulus.val % 2 = 1) (hx : x.value ≠ 0) :
    x.neg.isEven = !x.isEven := by
  have hlt := x.value_lt
  have hneg : x.neg.value = x.modulus.val - x.value := Nat.mod_eq_of_lt (by omega)
  unfold isEven
  rw [hneg]
  rcases Nat.mod_two_eq_zero_or_one x.value with h | h
  · rw [h, show (x.modulus.val - x.value) % 2 = 1 by omega]
    rfl
  · rw [h, show (x.modulus.val - x.value) % 2 = 0 by omega]
    rfl

end Residue

end SpendScript.Field
