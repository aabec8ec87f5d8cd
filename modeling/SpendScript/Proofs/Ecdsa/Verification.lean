import Mathlib.Tactic.NormNum.Prime
import SpendScript.Proofs.Ecdsa.CyclicGroup

/-!
# Verification accepts what signing produces

In a group of prime order, signing and verification are both computations modulo the order: a
signature with nonce `k` has the abscissa of `k` as `r` and `(z + r * d) / k` as `s`, and
verification compares `r` with the abscissa of `(z + r * d) / s`. The abscissas of `k` and `-k`
agree, so the sign of `s` does not matter.

Results:
* `Cyclic.signWithNonce_eq`, `Cyclic.verify_eq`: signing and verification modulo the order.
* `Nonce.search_succ`: what a search of any length does with its first candidate.
* `Nonce.search_eq_some`: a search returns an accepted candidate in range; `Nonce.search_of_le`:
  more candidates do not change what it finds.
* `Cyclic.verify_of_signs`: what signing returns is accepted, with any bound on the candidates.
* `Group.VerifiesSigned`: what verification accepts; `Group.verifiesSigned`: it does, in every
  accepted group of prime order over an odd prime modulus.
-/

namespace SpendScript

open SpendScript.Field (Arith LawfulArith)

/-! ## The search for a nonce -/

namespace Nonce

variable {α : Type} {mac : KeyedHash} {order : ℕ} {accept : ℕ → Except Fault (Option α)}

/-- A candidate in range that is accepted ends the search. -/
theorem search_succ_of_accepted {s : State} {k : ℕ} {a : α} (hk : (candidate mac order s).1 = k)
    (hrange : 0 < k ∧ k < order) (hacc : accept k = .ok (some a)) (n : ℕ) :
    search mac order accept (n + 1) s = .ok (some a) := by
  subst hk
  simp only [search, if_pos hrange, hacc]
  rfl

/-- A search of any length passes over the next candidate, or the candidate is in range and ends the
search. -/
theorem search_succ (s : State) :
    (∀ n, search mac order accept (n + 1) s =
      search mac order accept n (advance mac (candidate mac order s).2)) ∨
    ∃ k, 0 < k ∧ k < order ∧ ∀ n, search mac order accept (n + 1) s = accept k := by
  by_cases hk : 0 < (candidate mac order s).1 ∧ (candidate mac order s).1 < order
  · cases hacc : accept (candidate mac order s).1 with
    | error f =>
      refine .inr ⟨_, hk.1, hk.2, fun n => ?_⟩
      simp only [search, if_pos hk, hacc]
      rfl
    | ok found =>
      cases found with
      | none =>
        refine .inl fun n => ?_
        simp only [search, if_pos hk, hacc]
        rfl
      | some a =>
        exact .inr ⟨_, hk.1, hk.2, fun n => (search_succ_of_accepted rfl hk hacc n).trans hacc.symm⟩
  · refine .inl fun n => ?_
    simp only [search, if_neg hk]
    rfl

theorem search_eq_some {a : α} {n : ℕ} {s : State}
    (h : search mac order accept n s = .ok (some a)) :
    ∃ k, 0 < k ∧ k < order ∧ accept k = .ok (some a) := by
  induction n generalizing s with
  | zero => cases h
  | succ n ih =>
    rcases search_succ s with hnext | ⟨k, hpos, hlt, hk⟩
    · rw [hnext] at h
      exact ih h
    · rw [hk] at h
      exact ⟨k, hpos, hlt, h⟩

/-- What a search finds, it finds with more candidates too. -/
theorem search_of_le {r : Except Fault (Option α)} (hr : r ≠ .ok none) {n m : ℕ} (hle : n ≤ m)
    {s : State} (h : search mac order accept n s = r) : search mac order accept m s = r := by
  induction n generalizing m s with
  | zero => exact absurd h.symm hr
  | succ n ih =>
    obtain ⟨m, rfl⟩ := Nat.exists_eq_succ_of_ne_zero (Nat.ne_zero_of_lt hle)
    rcases search_succ s with hnext | ⟨k, -, -, hk⟩
    · rw [hnext] at h ⊢
      exact ih (Nat.le_of_succ_le_succ hle) h
    · rw [hk] at h ⊢
      exact h

end Nonce

namespace Group

variable {F : Type} [Arith F] [DecidableEq F] {g : Group F}

/-! ## Any number of candidates -/

theorem orExhausted_eq_ok {α : Type} {found : Except Fault (Option α)} {a : α} :
    orExhausted found = .ok a ↔ found = .ok (some a) := by
  cases found with
  | error f => exact iff_of_false nofun nofun
  | ok found =>
    cases found with
    | none => exact iff_of_false nofun nofun
    | some b =>
      show Except.ok b = .ok a ↔ Except.ok (some b) = .ok (some a)
      rw [Except.ok.injEq, Except.ok.injEq, Option.some.injEq]

/-- A bound only decides whether there is a result, and not which one. -/
theorem signWithin_of_le {secret z n m : ℕ} {sig : Signature} (hle : n ≤ m)
    (h : g.signWithin n secret z = .ok sig) : g.signWithin m secret z = .ok sig :=
  orExhausted_eq_ok.mpr (Nonce.search_of_le (r := .ok (some sig)) nofun hle
    (orExhausted_eq_ok.mp h))

/-- The first candidate is the nonce if it is in range and gives a signature. -/
theorem signWithin_of_first {secret z k : ℕ} {sig : Signature}
    (hk : (Nonce.candidate Digest.hmacSha256 g.order
      (Nonce.start Digest.hmacSha256 g.order secret z)).1 = k)
    (hrange : 0 < k ∧ k < g.order) (hsig : g.signWithNonce secret z k = .ok (some sig)) (n : ℕ) :
    g.signWithin (n + 1) secret z = .ok sig :=
  orExhausted_eq_ok.mpr (Nonce.search_succ_of_accepted hk hrange hsig n)

theorem signs_of_signUnchecked {secret z : ℕ} {sig : Signature}
    (h : g.signUnchecked secret z = .ok sig) : g.Signs secret z sig :=
  ⟨Nonce.attempts, h⟩

/-! ## The lower value -/

theorem lowS_eq_min {s : ℕ} (hs : s ≤ g.order) : g.lowS s = min s (g.order - s) := by
  unfold lowS
  split_ifs <;> omega

theorem lowS_le_half {s : ℕ} (hs : s ≤ g.order) : g.lowS s ≤ g.order / 2 := by
  rw [lowS_eq_min hs]
  omega

/-- Two values below the order have one lower value only if they are equal or opposite. -/
theorem eq_or_eq_neg_of_lowS_eq [NeZero g.order] {s t : ZMod g.order}
    (h : g.lowS s.val = g.lowS t.val) : s = t ∨ s = -t := by
  have hs := ZMod.val_lt s
  have ht := ZMod.val_lt t
  rw [lowS_eq_min hs.le, lowS_eq_min ht.le] at h
  have hcases : s.val = t.val ∨ s.val + t.val = g.order := by omega
  rcases hcases with heq | hsum
  · exact Or.inl (ZMod.val_injective _ heq)
  · right
    rw [eq_neg_iff_add_eq_zero, ← ZMod.natCast_zmod_val s, ← ZMod.natCast_zmod_val t,
      ← Nat.cast_add, hsum, ZMod.natCast_self]

namespace Cyclic

variable {p : ℕ} [Fact p.Prime] [hn : Fact g.order.Prime] (C : g.Cyclic p)

/-! ## Signing modulo the order -/

/-- The signature of `z` with secret `d` and nonce `k`, all modulo the order. -/
def signature (d z k : ZMod g.order) : Option Signature :=
  (C.abscissa k).bind fun r =>
    if r = 0 ∨ (z + r * d) / k = 0 then none else some ⟨r, g.lowS ((z + r * d) / k).val⟩

theorem signature_eq_some_iff {d z k : ZMod g.order} {sig : Signature} :
    C.signature d z k = some sig ↔ C.abscissa k = some sig.r ∧ sig.r ≠ 0 ∧
      (z + sig.r * d) / k ≠ 0 ∧ sig.s = g.lowS ((z + sig.r * d) / k).val := by
  obtain ⟨r, s⟩ := sig
  unfold signature
  cases hr : C.abscissa k with
  | none => simp
  | some r' =>
    rw [Option.bind_some, Option.some.injEq]
    split_ifs with h0
    · simp only [false_iff]
      rintro ⟨rfl, hr0, hs0, -⟩
      exact h0.elim hr0 hs0
    · simp only [Option.some.injEq, Signature.mk.injEq]
      constructor
      · rintro ⟨rfl, rfl⟩
        exact ⟨rfl, fun h => h0 (Or.inl h), fun h => h0 (Or.inr h), rfl⟩
      · rintro ⟨rfl, -, -, rfl⟩
        exact ⟨rfl, rfl⟩

theorem val_mul_fermatInverse {k : ℕ} (hk : (k : ZMod g.order) ≠ 0) (a : ℕ) :
    a * Number.fermatInverse g.order k % g.order = ((a : ZMod g.order) / k).val := by
  rw [← ZMod.val_natCast, Nat.cast_mul, Number.cast_fermatInverse hk, div_eq_mul_inv]

variable [LawfulArith F]

/-- Where the abscissa of the nonce is known, no point has to be computed. -/
theorem signWithNonce_of_abscissa (hodd : p ≠ 2) (d z k : ℕ) :
    g.signWithNonce d z k = .ok ((C.abscissa (k : ZMod g.order)).bind fun r =>
      let s := (z + r * d) * Number.fermatInverse g.order k % g.order
      if r = 0 ∨ s = 0 then none else some ⟨r, g.lowS s⟩) := by
  obtain ⟨R, hR, hmul⟩ := C.isMultiple_generator.exists_smul hodd k
  rw [mul_one] at hmul
  simp only [signWithNonce, hR, bind, Except.bind, hmul.xModOrder]
  cases C.abscissa (k : ZMod g.order) with
  | none => rfl
  | some r =>
    dsimp only [Option.bind_some]
    split_ifs <;> rfl

/-- Signing with a nonce is signing modulo the order. -/
theorem signWithNonce_eq (hodd : p ≠ 2) (d z k : ℕ) :
    g.signWithNonce d z k = .ok (C.signature d z k) := by
  rw [C.signWithNonce_of_abscissa hodd, signature]
  cases hr : C.abscissa (k : ZMod g.order) with
  | none => rfl
  | some r =>
    have hk : (k : ZMod g.order) ≠ 0 := by
      rw [ne_eq, ← C.abscissa_eq_none_iff, hr]
      exact Option.some_ne_none r
    have : NeZero g.order := ⟨hn.out.ne_zero⟩
    simp only [Option.bind_some, val_mul_fermatInverse hk, ZMod.val_eq_zero, Nat.cast_add,
      Nat.cast_mul]

/-! ## Verifying modulo the order -/

theorem verify_eq (hodd : p ≠ 2) {key : Point F} {d : ZMod g.order} (hkey : C.IsMultiple key d)
    (hd : d ≠ 0) (z : ℕ) (sig : Signature) :
    g.verify key z sig =
      .ok (sig.inRange g.order && C.abscissa ((z + sig.r * d) / sig.s) == some sig.r) := by
  have hfinite : key.isInfinity = false := by
    rw [← Bool.not_eq_true, hkey.isInfinity_iff]
    exact hd
  unfold verify
  cases hrange : sig.inRange g.order with
  | false => rfl
  | true =>
    have hs : (sig.s : ZMod g.order) ≠ 0 := by
      rw [ne_eq, ZMod.natCast_eq_zero_iff]
      intro hdvd
      simp only [Signature.inRange, decide_eq_true_iff] at hrange
      have := Nat.le_of_dvd hrange.2.2.1 hdvd
      omega
    obtain ⟨P, hP, hmP⟩ := C.isMultiple_generator.exists_smul hodd
      (z * Number.fermatInverse g.order sig.s % g.order)
    obtain ⟨Q, hQ, hmQ⟩ := hkey.exists_smul hodd
      (sig.r * Number.fermatInverse g.order sig.s % g.order)
    obtain ⟨R, hR, hmR⟩ := hmP.exists_add hodd hmQ
    have : NeZero g.order := ⟨hn.out.ne_zero⟩
    have hsum : ((z * Number.fermatInverse g.order sig.s % g.order : ℕ) : ZMod g.order) * 1 +
        ((sig.r * Number.fermatInverse g.order sig.s % g.order : ℕ) : ZMod g.order) * d =
        (z + sig.r * d) / sig.s := by
      rw [val_mul_fermatInverse hs, val_mul_fermatInverse hs, ZMod.natCast_zmod_val,
        ZMod.natCast_zmod_val]
      field_simp
    rw [hsum] at hmR
    simp only [hfinite, Bool.not_true, Bool.or_self, Bool.false_eq_true, if_false, hP, hQ, hR,
      bind, Except.bind, pure, Except.pure, hmR.xModOrder, Bool.true_and]

theorem verify_eq_true_iff (hodd : p ≠ 2) {key : Point F} {d : ZMod g.order}
    (hkey : C.IsMultiple key d) (hd : d ≠ 0) (z : ℕ) (sig : Signature) :
    g.verify key z sig = .ok true ↔
      sig.inRange g.order = true ∧ C.abscissa ((z + sig.r * d) / sig.s) = some sig.r := by
  rw [C.verify_eq hodd hkey hd, Except.ok.injEq, Bool.and_eq_true, beq_iff_eq]

/-- A signature is accepted if and only if its `r` and the lower value of its `s` come from a
nonce: it is the nonce `(z + r * d) / s`, or any with the same signature. -/
theorem verify_iff_exists_nonce (hodd : p ≠ 2) {key : Point F} {d : ℕ}
    (hkey : C.IsMultiple key d) (hd : (d : ZMod g.order) ≠ 0) (z : ℕ) {sig : Signature}
    (hrange : sig.inRange g.order = true) :
    g.verify key z sig = .ok true ↔ ∃ k, 0 < k ∧ k < g.order ∧
      g.signWithNonce d z k = .ok (some ⟨sig.r, min sig.s (g.order - sig.s)⟩) := by
  have : NeZero g.order := ⟨hn.out.ne_zero⟩
  have hbounds := hrange
  simp only [Signature.inRange, decide_eq_true_iff] at hbounds
  obtain ⟨hr0, -, hs0, hsn⟩ := hbounds
  have hval : (sig.s : ZMod g.order).val = sig.s := ZMod.val_cast_of_lt hsn
  have hs : (sig.s : ZMod g.order) ≠ 0 := by
    rw [ne_eq, ← ZMod.val_eq_zero, hval]
    omega
  rw [C.verify_eq_true_iff hodd hkey hd, and_iff_right hrange]
  set u : ZMod g.order := z + sig.r * d with hu
  constructor
  · intro hx
    have hus : u / sig.s ≠ 0 := by
      rw [ne_eq, ← C.abscissa_eq_none_iff, hx]
      exact Option.some_ne_none _
    have hu0 : u ≠ 0 := by
      intro h0
      exact hus (by rw [h0, zero_div])
    refine ⟨(u / sig.s).val, ?_, ZMod.val_lt _, ?_⟩
    · exact Nat.pos_of_ne_zero (mt (ZMod.val_eq_zero _).mp hus)
    · rw [C.signWithNonce_eq hodd, ZMod.natCast_zmod_val, Except.ok.injEq,
        C.signature_eq_some_iff, ← hu, div_div_cancel₀ hu0, hval]
      exact ⟨hx, hr0.ne', hs, (lowS_eq_min hsn.le).symm⟩
  · rintro ⟨k, hk0, hkn, hk⟩
    rw [C.signWithNonce_eq hodd, Except.ok.injEq, C.signature_eq_some_iff, ← hu] at hk
    obtain ⟨hx, -, huk, hlow⟩ := hk
    have hu0 : u ≠ 0 := by
      intro h0
      exact huk (by rw [h0, zero_div])
    have hsame : g.lowS (sig.s : ZMod g.order).val = g.lowS (u / k).val := by
      rw [← hlow, hval, lowS_eq_min hsn.le]
    rcases eq_or_eq_neg_of_lowS_eq hsame with heq | heq
    · rw [heq, div_div_cancel₀ hu0]
      exact hx
    · rw [heq, div_neg, div_div_cancel₀ hu0, C.abscissa_neg]
      exact hx

include C in
theorem inRange_of_signWithNonce (hodd : p ≠ 2) {d z k : ℕ} {sig : Signature}
    (hsig : g.signWithNonce d z k = .ok (some sig)) :
    sig.inRange g.order = true ∧ sig.s ≤ g.order / 2 := by
  have : NeZero g.order := ⟨hn.out.ne_zero⟩
  rw [C.signWithNonce_eq hodd, Except.ok.injEq, C.signature_eq_some_iff] at hsig
  obtain ⟨hx, hr0, hs0, hlow⟩ := hsig
  have hlt := ZMod.val_lt ((z + sig.r * d) / k : ZMod g.order)
  have hpos := Nat.pos_of_ne_zero (mt (ZMod.val_eq_zero _).mp hs0)
  have hhalf : sig.s ≤ g.order / 2 := hlow ▸ lowS_le_half hlt.le
  have hr := C.abscissa_lt hn.out.pos hx
  rw [lowS_eq_min hlt.le] at hlow
  refine ⟨?_, hhalf⟩
  simp only [Signature.inRange, decide_eq_true_iff]
  omega

/-- The signature with a nonce in range is accepted. -/
theorem verify_of_signWithNonce (hodd : p ≠ 2) {key : Point F} {d : ℕ}
    (hkey : C.IsMultiple key d) (hd : (d : ZMod g.order) ≠ 0) {z k : ℕ} {sig : Signature}
    (hk0 : 0 < k) (hkn : k < g.order) (hsig : g.signWithNonce d z k = .ok (some sig)) :
    g.verify key z sig = .ok true ∧ sig.s ≤ g.order / 2 := by
  obtain ⟨hrange, hhalf⟩ := C.inRange_of_signWithNonce hodd hsig
  refine ⟨?_, hhalf⟩
  rw [C.verify_iff_exists_nonce hodd hkey hd z hrange]
  refine ⟨k, hk0, hkn, ?_⟩
  rw [show min sig.s (g.order - sig.s) = sig.s by omega]
  exact hsig

/-- What signing returns is accepted, whichever candidate nonce gave it. -/
theorem verify_of_signs (hodd : p ≠ 2) {key : Point F} {d : ℕ}
    (hkey : C.IsMultiple key d) (hd : (d : ZMod g.order) ≠ 0) {z : ℕ} {sig : Signature}
    (hsig : g.Signs d z sig) : g.verify key z sig = .ok true ∧ sig.s ≤ g.order / 2 := by
  obtain ⟨bound, hsig⟩ := hsig
  obtain ⟨k, hk0, hkn, hk⟩ := Nonce.search_eq_some (orExhausted_eq_ok.mp hsig)
  exact C.verify_of_signWithNonce hodd hkey hd hk0 hkn hk

/-- A signature and its mirror image, with the negative of `s`, are accepted together. -/
theorem verify_mirror (hodd : p ≠ 2) {key : Point F} {d : ZMod g.order}
    (hkey : C.IsMultiple key d) (hd : d ≠ 0) (z r s : ℕ) (hs : s ≤ g.order) :
    g.verify key z ⟨r, g.order - s⟩ = g.verify key z ⟨r, s⟩ := by
  rw [C.verify_eq hodd hkey hd, C.verify_eq hodd hkey hd]
  have hrange : Signature.inRange ⟨r, g.order - s⟩ g.order = Signature.inRange ⟨r, s⟩ g.order := by
    simp only [Signature.inRange, decide_eq_decide]
    omega
  rw [hrange, Nat.cast_sub hs, ZMod.natCast_self, zero_sub, div_neg, C.abscissa_neg]

end Cyclic

/-! ## Accepted groups -/

/-- The signature of a secret in range is the one that skips the check of the secret. -/
theorem sign_eq_ok_iff {secret z : ℕ} {sig : Signature}
    (h : 0 < secret ∧ secret < g.order) :
    g.sign secret z = .ok sig ↔ g.signUnchecked secret z = .ok sig := by
  have hcheck : g.checkSecret secret = .ok () := if_pos h
  simp only [sign, hcheck, bind, Except.bind]
  cases g.signUnchecked secret z with
  | error f => simp [EcError.ofFault]
  | ok found => simp [EcError.ofFault]

/-- What verification decides under the public point `key` of `secret`, and how the signatures of
`secret` fare. -/
structure VerifiesSigned (g : Group F) (secret z : ℕ) (key : Point F) : Prop where
  verify_iff : ∀ r s, 0 < r → r < g.order → 0 < s → s < g.order →
    (g.verify key z ⟨r, s⟩ = .ok true ↔ ∃ k, 0 < k ∧ k < g.order ∧
      g.signWithNonce secret z k = .ok (some ⟨r, min s (g.order - s)⟩))
  verify_returns : ∀ sig, ∃ accepted, g.verify key z sig = .ok accepted
  verify_out_of_range : ∀ r s, ¬(0 < r ∧ r < g.order ∧ 0 < s ∧ s < g.order) →
    g.verify key z ⟨r, s⟩ = .ok false
  sign_accepted : ∀ sig, g.sign secret z = .ok sig →
    g.verify key z sig = .ok true ∧ sig.s ≤ g.order / 2
  signUnchecked_accepted : ∀ sig, g.signUnchecked secret z = .ok sig →
    g.verify key z sig = .ok true ∧ sig.s ≤ g.order / 2
  /-- However many candidate nonces are rejected before. -/
  signs_accepted : ∀ sig, g.Signs secret z sig →
    g.verify key z sig = .ok true ∧ sig.s ≤ g.order / 2
  verify_mirror : ∀ r s, s ≤ g.order → g.verify key z ⟨r, g.order - s⟩ = g.verify key z ⟨r, s⟩

variable [LawfulArith F]

/-- In every accepted group of prime order over an odd prime modulus, the public point of a secret
exists, and verification under it accepts the signatures of the secret and their mirror images,
and no other. -/
theorem verifiesSigned {generator : Point F} {order secret : ℕ}
    (hg : ofGenerator generator order = .ok g) (hp : (Arith.modulus generator.curve.a).Prime)
    (hodd : Arith.modulus generator.curve.a ≠ 2) (hn : order.Prime) (hpos : 0 < secret)
    (hlt : secret < order) (z : ℕ) :
    ∃ key, g.publicPoint secret = .ok key ∧ g.VerifiesSigned secret z key := by
  have : Fact (Arith.modulus generator.curve.a).Prime := ⟨hp⟩
  obtain ⟨C⟩ := exists_cyclic rfl hodd hg
  obtain ⟨rfl, -, -⟩ := ofGenerator_eq_ok hg
  have : Fact (Group.mk generator order).order.Prime := ⟨hn⟩
  obtain ⟨key, hkey, hmul⟩ := C.isMultiple_generator.exists_smul hodd secret
  rw [mul_one] at hmul
  have hd : (secret : ZMod order) ≠ 0 := by
    rw [ne_eq, ZMod.natCast_eq_zero_iff]
    exact Nat.not_dvd_of_pos_of_lt hpos hlt
  refine ⟨key, hkey, ?_⟩
  constructor
  · intro r s hr hrn hs hsn
    have hrange : Signature.inRange ⟨r, s⟩ order = true := decide_eq_true ⟨hr, hrn, hs, hsn⟩
    exact C.verify_iff_exists_nonce hodd hmul hd z hrange
  · intro sig
    exact ⟨_, C.verify_eq hodd hmul hd z sig⟩
  · intro r s hout
    have hrange : Signature.inRange ⟨r, s⟩ order = false := decide_eq_false hout
    rw [C.verify_eq hodd hmul hd, hrange, Bool.false_and]
  · intro sig hsig
    rw [sign_eq_ok_iff ⟨hpos, hlt⟩] at hsig
    exact C.verify_of_signs hodd hmul hd (signs_of_signUnchecked hsig)
  · intro sig hsig
    exact C.verify_of_signs hodd hmul hd (signs_of_signUnchecked hsig)
  · intro sig hsig
    exact C.verify_of_signs hodd hmul hd hsig
  · intro r s hs
    exact C.verify_mirror hodd hmul hd z r s hs

/-- The point `(15, 86)` of `y² = x³ + 7` over `F_223` and its order. -/
def orderSeven : Group Field.WordResidue where
  generator := .affine ⟨⟨223, 0, by decide, by decide⟩, ⟨223, 7, by decide, by decide⟩⟩
    ⟨223, 15, by decide, by decide⟩ ⟨223, 86, by decide, by decide⟩ (by rfl)
  order := 7

/-- In the group of order seven, the secret 5 signs the digest 4 by `(6, 2)`. -/
theorem verifiesSigned_orderSeven :
    ofGenerator orderSeven.generator 7 = .ok orderSeven ∧
      orderSeven.signWithNonce 5 4 4 = .ok (some ⟨6, 2⟩) ∧
      ∃ key, orderSeven.publicPoint 5 = .ok key ∧ orderSeven.VerifiesSigned 5 4 key := by
  have hg : ofGenerator orderSeven.generator 7 = .ok orderSeven := by cbv
  have hk : orderSeven.signWithNonce 5 4 4 = .ok (some ⟨6, 2⟩) := by cbv
  have hp : Nat.Prime (Arith.modulus orderSeven.generator.curve.a) := by
    show Nat.Prime 223
    norm_num
  exact ⟨hg, hk, verifiesSigned hg hp (by decide) (by norm_num) (by decide) (by decide) 4⟩

end Group

end SpendScript
