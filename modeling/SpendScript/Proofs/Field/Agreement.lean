import SpendScript.Proofs.Field.Laws

/-!
# Two implementations of one arithmetic

The laws of modular arithmetic leave no choice: from elements with the same moduli and the same
representatives, two lawful implementations compute elements that are the same again, or fault for
the same reason. Nothing here asks for a prime modulus.

* `SameResult`: both computations give related values, or both fault for the same reason.
* `Arith.Same`: elements of two implementations with one modulus and one representative.

Results:
* `SameResult.bind`, `SameResult.ite`: sequences and branches of computations with the same results
  have the same result.
* `Arith.Same.add`, `Arith.Same.div`, `Arith.Same.pow`, …: each operation on the same elements.
* `Arith.Same.eq_iff`, `Arith.Same.isZero_eq`: tests on the same elements.
-/

namespace SpendScript

/-- Both computations give values in the relation, or both fault for the same reason. -/
inductive SameResult {α β : Type} (R : α → β → Prop) : Except Fault α → Except Fault β → Prop where
  | ok {a : α} {b : β} (h : R a b) : SameResult R (.ok a) (.ok b)
  | error (f : Fault) : SameResult R (.error f) (.error f)

theorem SameResult.bind {α β α' β' : Type} {R : α → β → Prop} {S : α' → β' → Prop}
    {m : Except Fault α} {n : Except Fault β} {f : α → Except Fault α'} {g : β → Except Fault β'}
    (h : SameResult R m n) (hfg : ∀ {a b}, R a b → SameResult S (f a) (g b)) :
    SameResult S (m >>= f) (n >>= g) := by
  cases h with
  | ok hab => exact hfg hab
  | error e => exact .error e

theorem SameResult.eq_iff {α : Type} {m n : Except Fault α} :
    SameResult (· = ·) m n ↔ m = n := by
  constructor
  · rintro (h | _)
    · exact congrArg Except.ok h
    · rfl
  · rintro rfl
    cases m with
    | ok a => exact .ok rfl
    | error f => exact .error f

/-- Both computations take the same branch. -/
theorem SameResult.ite {α β : Type} {R : α → β → Prop} {p q : Prop} [Decidable p] [Decidable q]
    {m m' : Except Fault α} {n n' : Except Fault β} (hpq : p ↔ q)
    (h : SameResult R m n) (h' : SameResult R m' n') :
    SameResult R (if p then m else m') (if q then n else n') := by
  by_cases hp : p
  · rwa [if_pos hp, if_pos (hpq.mp hp)]
  · rwa [if_neg hp, if_neg (mt hpq.mpr hp)]

namespace Field.Arith

/-- The elements have one modulus and one representative. -/
structure Same {F G : Type} [Arith F] [Arith G] (x : F) (x' : G) : Prop where
  modulus_eq : modulus x = modulus x'
  value_eq : value x = value x'

variable {F G : Type} [Arith F] [Arith G] {x y : F} {x' y' : G}

theorem Gives.sameResult {r : Except Fault F} {s : Except Fault G} {m v : ℕ} (hr : Gives r m v)
    (hs : Gives s m v) : SameResult Same r s := by
  obtain ⟨z, rfl, hmz, hvz⟩ := hr
  obtain ⟨z', rfl, hmz', hvz'⟩ := hs
  exact .ok ⟨hmz.trans hmz'.symm, hvz.trans hvz'.symm⟩

/-- An operation on two elements is determined by what it gives in one field, if it faults for
different ones. -/
theorem sameResult_combine {op : F → F → Except Fault F} {op' : G → G → Except Fault G}
    {f : ℕ → ℕ → ℕ → ℕ} (hx : Same x x') (hy : Same y y')
    (gives : modulus x = modulus y → Gives (op x y) (modulus x) (f (modulus x) (value x) (value y)))
    (gives' : modulus x' = modulus y' →
      Gives (op' x' y') (modulus x') (f (modulus x') (value x') (value y')))
    (mixed : modulus x ≠ modulus y → op x y = .error .mixedModuli)
    (mixed' : modulus x' ≠ modulus y' → op' x' y' = .error .mixedModuli) :
    SameResult Same (op x y) (op' x' y') := by
  have hmodulus : modulus x = modulus y ↔ modulus x' = modulus y' := by
    rw [hx.modulus_eq, hy.modulus_eq]
  by_cases h : modulus x = modulus y
  · have h' := gives' (hmodulus.mp h)
    rw [← hx.modulus_eq, ← hx.value_eq, ← hy.value_eq] at h'
    exact (gives h).sameResult h'
  · rw [mixed h, mixed' (mt hmodulus.mpr h)]
    exact .error _

namespace Same

/-- An element that is determined by the modulus and the representative of another one. -/
theorem map (h : Same x x') (f : ℕ → ℕ → ℕ) {z : F} {z' : G}
    (hz : modulus z = modulus x ∧ value z = f (modulus x) (value x))
    (hz' : modulus z' = modulus x' ∧ value z' = f (modulus x') (value x')) : Same z z' where
  modulus_eq := by rw [hz.1, hz'.1, h.modulus_eq]
  value_eq := by rw [hz.2, hz'.2, h.modulus_eq, h.value_eq]

theorem isZero_eq (h : Same x x') : isZero x = isZero x' := by
  rw [isZero, isZero, h.value_eq]

variable [LawfulArith F] [LawfulArith G]

theorem eq_iff (hx : Same x x') (hy : Same y y') : x = y ↔ x' = y' := by
  constructor
  · rintro rfl
    exact LawfulArith.ext (hx.modulus_eq.symm.trans hy.modulus_eq)
      (hx.value_eq.symm.trans hy.value_eq)
  · rintro rfl
    exact LawfulArith.ext (hx.modulus_eq.trans hy.modulus_eq.symm)
      (hx.value_eq.trans hy.value_eq.symm)

/-! ## Operations on one element -/

theorem zero (h : Same x x') : Same (zero x) (zero x') :=
  h.map (fun _ _ => 0) (LawfulArith.zero_spec x) (LawfulArith.zero_spec x')

theorem neg (h : Same x x') : Same (neg x) (neg x') :=
  h.map (fun m v => (m - v) % m) (LawfulArith.neg_spec x) (LawfulArith.neg_spec x')

theorem square (h : Same x x') : Same (square x) (square x') :=
  h.map (fun m v => v ^ 2 % m) (LawfulArith.square_spec x) (LawfulArith.square_spec x')

theorem pow (h : Same x x') (e : ℕ) : Same (pow x e) (pow x' e) :=
  h.map (fun m v => v ^ e % m) (LawfulArith.pow_spec x e) (LawfulArith.pow_spec x' e)

theorem scale (h : Same x x') (k : UInt64) : Same (scale x k) (scale x' k) :=
  h.map (fun m v => v * k.toNat % m) (LawfulArith.scale_spec x k) (LawfulArith.scale_spec x' k)

/-! ## Operations on two elements -/

theorem add (hx : Same x x') (hy : Same y y') : SameResult Same (add x y) (add x' y') :=
  sameResult_combine (f := fun m v w => (v + w) % m) hx hy LawfulArith.gives_add
    LawfulArith.gives_add LawfulArith.add_mixed LawfulArith.add_mixed

theorem sub (hx : Same x x') (hy : Same y y') : SameResult Same (sub x y) (sub x' y') :=
  sameResult_combine (f := fun m v w => (v + (m - w)) % m) hx hy LawfulArith.gives_sub
    LawfulArith.gives_sub LawfulArith.sub_mixed LawfulArith.sub_mixed

theorem mul (hx : Same x x') (hy : Same y y') : SameResult Same (mul x y) (mul x' y') :=
  sameResult_combine (f := fun m v w => v * w % m) hx hy LawfulArith.gives_mul
    LawfulArith.gives_mul LawfulArith.mul_mixed LawfulArith.mul_mixed

/-- Quotients by zero fault in both. A divisor without an inverse does not fault: its power by
`m - 2` is the same in both. -/
theorem div (hx : Same x x') (hy : Same y y') : SameResult Same (div x y) (div x' y') := by
  by_cases hv : value y = 0
  · by_cases hm : modulus x = modulus y
    · have hm' : modulus x' = modulus y' := by rw [← hx.modulus_eq, hm, hy.modulus_eq]
      rw [LawfulArith.div_zero hm hv, LawfulArith.div_zero hm' (hy.value_eq ▸ hv)]
      exact .error _
    · have hm' : modulus x' ≠ modulus y' := by rwa [← hx.modulus_eq, ← hy.modulus_eq]
      rw [LawfulArith.div_mixed hm, LawfulArith.div_mixed hm']
      exact .error _
  · have hv' : value y' ≠ 0 := hy.value_eq ▸ hv
    exact sameResult_combine (f := fun m v w => v * w ^ (m - 2) % m) hx hy
      (LawfulArith.gives_div · hv) (LawfulArith.gives_div · hv') LawfulArith.div_mixed
      LawfulArith.div_mixed

end Same

end Field.Arith

end SpendScript
