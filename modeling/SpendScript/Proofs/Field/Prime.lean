import SpendScript.Proofs.Field.Laws

/-!
# Residues modulo a prime as field elements

An element with modulus `p` denotes an element of `ZMod p`, and the operations denote the field
operations.

Results:
* `Denotes`: the correspondence; `Denotes.eq_iff`: it is one to one.
* `Denotes.add`, `Denotes.div`, …: an operation on elements that denote `a` and `b` returns, and
  denotes the operation on `a` and `b`; division needs a prime and a nonzero divisor.
-/

namespace SpendScript.Field

/-- `x` is the representative of `a` modulo `p`. -/
def Denotes {F : Type} [Arith F] (p : ℕ) (x : F) (a : ZMod p) : Prop :=
  Arith.modulus x = p ∧ (Arith.value x : ZMod p) = a

theorem denotes_value {F : Type} [Arith F] {p : ℕ} {x : F} (h : Arith.modulus x = p) :
    Denotes p x (Arith.value x : ZMod p) :=
  ⟨h, rfl⟩

namespace Denotes

variable {F : Type} [Arith F] [LawfulArith F] {p : ℕ} {x y : F} {a b : ZMod p}

theorem value_lt (h : Denotes p x a) : Arith.value x < p :=
  h.1 ▸ LawfulArith.value_lt x

theorem val_eq (h : Denotes p x a) : a.val = Arith.value x := by
  rw [← h.2, ZMod.val_natCast, Nat.mod_eq_of_lt h.value_lt]

theorem eq_iff (hx : Denotes p x a) (hy : Denotes p y b) : x = y ↔ a = b := by
  constructor
  · rintro rfl
    rw [← hx.2, hy.2]
  · rintro rfl
    exact LawfulArith.ext (hx.1.trans hy.1.symm) (hx.val_eq.symm.trans hy.val_eq)

theorem isZero_iff (hx : Denotes p x a) : Arith.isZero x = true ↔ a = 0 := by
  have : NeZero p := ⟨by have := hx.value_lt; omega⟩
  rw [Arith.isZero, beq_iff_eq, ← hx.val_eq, ZMod.val_eq_zero]

/-! ## Operations -/

omit [LawfulArith F] in
theorem of_gives {r : Except Fault F} {m v : ℕ} (h : Arith.Gives r m v) (hm : m = p)
    (hv : (v : ZMod p) = a) : ∃ z, r = .ok z ∧ Denotes p z a := by
  obtain ⟨z, hz, hzm, hzv⟩ := h
  exact ⟨z, hz, hzm.trans hm, by rw [hzv, hv]⟩

theorem add (hx : Denotes p x a) (hy : Denotes p y b) :
    ∃ z, Arith.add x y = .ok z ∧ Denotes p z (a + b) := by
  refine of_gives (LawfulArith.gives_add (hx.1.trans hy.1.symm)) hx.1 ?_
  rw [hx.1, ZMod.natCast_mod, Nat.cast_add, hx.2, hy.2]

theorem sub (hx : Denotes p x a) (hy : Denotes p y b) :
    ∃ z, Arith.sub x y = .ok z ∧ Denotes p z (a - b) := by
  refine of_gives (LawfulArith.gives_sub (hx.1.trans hy.1.symm)) hx.1 ?_
  rw [hx.1, ZMod.natCast_mod, Nat.cast_add, Nat.cast_sub hy.value_lt.le, hx.2, hy.2,
    ZMod.natCast_self]
  ring

theorem mul (hx : Denotes p x a) (hy : Denotes p y b) :
    ∃ z, Arith.mul x y = .ok z ∧ Denotes p z (a * b) := by
  refine of_gives (LawfulArith.gives_mul (hx.1.trans hy.1.symm)) hx.1 ?_
  rw [hx.1, ZMod.natCast_mod, Nat.cast_mul, hx.2, hy.2]

theorem div [Fact p.Prime] (hx : Denotes p x a) (hy : Denotes p y b) (hb : b ≠ 0) :
    ∃ z, Arith.div x y = .ok z ∧ Denotes p z (a / b) := by
  have hv : Arith.value y ≠ 0 := by
    intro h0
    rw [← hy.2, h0, Nat.cast_zero] at hb
    exact hb rfl
  refine of_gives (LawfulArith.gives_div (hx.1.trans hy.1.symm) hv) hx.1 ?_
  have hinv := Number.cast_fermatInverse (m := p) (a := Arith.value y) (by rwa [hy.2])
  rw [Number.fermatInverse, Number.powMod_eq, ZMod.natCast_mod, hy.2] at hinv
  rw [hx.1, ZMod.natCast_mod, Nat.cast_mul, hx.2, hinv, div_eq_mul_inv]

theorem square (hx : Denotes p x a) : Denotes p (Arith.square x) (a ^ 2) := by
  obtain ⟨hm, hv⟩ := LawfulArith.square_spec x
  exact ⟨hm.trans hx.1, by rw [hv, hx.1, ZMod.natCast_mod, Nat.cast_pow, hx.2]⟩

theorem neg (hx : Denotes p x a) : Denotes p (Arith.neg x) (-a) := by
  obtain ⟨hm, hv⟩ := LawfulArith.neg_spec x
  refine ⟨hm.trans hx.1, ?_⟩
  rw [hv, hx.1, ZMod.natCast_mod, Nat.cast_sub hx.value_lt.le, hx.2, ZMod.natCast_self, zero_sub]

theorem pow (hx : Denotes p x a) (e : ℕ) : Denotes p (Arith.pow x e) (a ^ e) := by
  obtain ⟨hm, hv⟩ := LawfulArith.pow_spec x e
  exact ⟨hm.trans hx.1, by rw [hv, hx.1, ZMod.natCast_mod, Nat.cast_pow, hx.2]⟩

theorem scale (hx : Denotes p x a) (k : UInt64) :
    Denotes p (Arith.scale x k) (k.toNat * a) := by
  obtain ⟨hm, hv⟩ := LawfulArith.scale_spec x k
  refine ⟨hm.trans hx.1, ?_⟩
  rw [hv, hx.1, ZMod.natCast_mod, Nat.cast_mul, hx.2, mul_comm]

end Denotes

end SpendScript.Field
