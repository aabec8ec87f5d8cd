import SpendScript.Ecdsa.Group
import SpendScript.Proofs.Curve.Multiples

/-!
# The group that a generator generates

A group of signatures sits inside a group of points: its generator is a point other than the
neutral element, and the order annihilates it. If the order is prime, the multiples of the
generator are a copy of the integers modulo the order.

Results:
* `Group.Cyclic`: the generator as an element of a group of points; `Group.exists_cyclic`: every
  group that `Group.ofGenerator` accepts has one.
* `Cyclic.multiple`: multiples by integers modulo the order, a one-to-one homomorphism.
* `Cyclic.abscissa`: the first coordinate modulo the order; `Cyclic.abscissa_neg`,
  `Cyclic.abscissa_eq_none_iff`.
* `Cyclic.IsMultiple`: the points that are multiples, closed under `Point.smul` and `Point.add`.
-/

namespace SpendScript.Group

open SpendScript.Field (Arith LawfulArith)
open SpendScript.Curve (PointGroup)

variable {F : Type} [Arith F] [DecidableEq F] {p : ℕ} [Fact p.Prime] {g : Group F}

/-- The generator as an element `base` of a group of points modulo `p`. -/
structure Cyclic (p : ℕ) [Fact p.Prime] (g : Group F) where
  curve_over : g.generator.curve.Over p
  points : PointGroup (g.generator.curve.weierstrass p)
  base : points.Carrier
  image_generator : g.generator.image p = points.coords base
  base_ne_zero : base ≠ 0
  order_smul_base : g.order • base = 0

namespace Cyclic

variable (C : g.Cyclic p)

/-! ## Multiples of the generator -/

/-- The multiple of the generator by an integer modulo the order. -/
def multiple (k : ZMod g.order) : C.points.Carrier :=
  k.val • C.base

theorem mod_order_smul (k : ℕ) : (k % g.order) • C.base = k • C.base := by
  conv_rhs => rw [← Nat.mod_add_div k g.order]
  rw [add_smul, mul_comm, mul_smul, C.order_smul_base, smul_zero, add_zero]

theorem multiple_natCast (k : ℕ) : C.multiple k = k • C.base := by
  rw [multiple, ZMod.val_natCast, mod_order_smul]

theorem multiple_zero : C.multiple 0 = 0 := by
  rw [multiple, ZMod.val_zero, zero_smul]

variable [hn : Fact g.order.Prime]

theorem multiple_natCast_mul (k : ℕ) (a : ZMod g.order) :
    C.multiple (k * a) = k • C.multiple a := by
  have : NeZero g.order := ⟨hn.out.ne_zero⟩
  rw [multiple, multiple, smul_smul, ← C.mod_order_smul (k * a.val), ZMod.val_mul,
    ZMod.val_natCast, Nat.mod_mul_mod]

theorem multiple_add (a b : ZMod g.order) :
    C.multiple (a + b) = C.multiple a + C.multiple b := by
  have : NeZero g.order := ⟨hn.out.ne_zero⟩
  rw [multiple, multiple, multiple, ZMod.val_add, mod_order_smul, add_smul]

theorem multiple_neg (a : ZMod g.order) : C.multiple (-a) = -C.multiple a := by
  rw [eq_neg_iff_add_eq_zero, ← multiple_add, neg_add_cancel, multiple_zero]

/-- As the order is prime, no smaller multiple of the generator is neutral. -/
theorem multiple_eq_zero_iff {a : ZMod g.order} : C.multiple a = 0 ↔ a = 0 := by
  have : NeZero g.order := ⟨hn.out.ne_zero⟩
  constructor
  · intro h
    have hdvd : addOrderOf C.base ∣ a.val := addOrderOf_dvd_of_nsmul_eq_zero h
    rw [addOrderOf_eq_prime C.order_smul_base C.base_ne_zero] at hdvd
    rw [← ZMod.val_eq_zero]
    exact Nat.eq_zero_of_dvd_of_lt hdvd (ZMod.val_lt a)
  · rintro rfl
    exact C.multiple_zero

/-! ## First coordinates -/

/-- The first coordinate of a multiple, modulo the order. -/
def abscissa (k : ZMod g.order) : Option ℕ :=
  ((C.points.coords (C.multiple k)).map Prod.fst).map fun x => x.val % g.order

theorem abscissa_neg (k : ZMod g.order) : C.abscissa (-k) = C.abscissa k := by
  rw [abscissa, abscissa, multiple_neg, C.points.fst_coords_neg]

theorem abscissa_eq_none_iff {k : ZMod g.order} : C.abscissa k = none ↔ k = 0 := by
  rw [abscissa, Option.map_eq_none_iff, Option.map_eq_none_iff, ← C.points.coords_zero,
    C.points.coords_injective.eq_iff, multiple_eq_zero_iff]

omit hn in
theorem abscissa_lt {k : ZMod g.order} {r : ℕ} (hpos : 0 < g.order) (h : C.abscissa k = some r) :
    r < g.order := by
  rw [abscissa, Option.map_eq_some_iff] at h
  obtain ⟨x, -, rfl⟩ := h
  exact Nat.mod_lt _ hpos

/-! ## Multiples of points -/

/-- `P` is the multiple of the generator by `k`. -/
def IsMultiple (P : Point F) (k : ZMod g.order) : Prop :=
  P.curve = g.generator.curve ∧ P.image p = C.points.coords (C.multiple k)

theorem isMultiple_generator : C.IsMultiple g.generator 1 := by
  refine ⟨rfl, ?_⟩
  rw [C.image_generator, ← Nat.cast_one, multiple_natCast, one_smul]

variable {C}

theorem IsMultiple.isInfinity_iff {P : Point F} {k : ZMod g.order} (hP : C.IsMultiple P k) :
    P.isInfinity = true ↔ k = 0 := by
  rw [← Point.image_eq_none_iff (p := p), hP.2, ← C.points.coords_zero,
    C.points.coords_injective.eq_iff, multiple_eq_zero_iff]

variable [LawfulArith F]

omit hn in
/-- The abscissa is what `xModOrder` reads off a point. -/
theorem IsMultiple.xModOrder {P : Point F} {k : ZMod g.order} (hP : C.IsMultiple P k) :
    g.xModOrder P = C.abscissa k := by
  rw [abscissa, ← hP.2]
  cases P with
  | infinity c => rfl
  | affine c x y hxy =>
    obtain rfl : c = g.generator.curve := hP.1
    obtain ⟨hx, -⟩ := Point.denotes_coords C.curve_over hxy
    simp only [Group.xModOrder, Point.coords, Point.image, Option.map_some, hx.val_eq]

theorem IsMultiple.exists_smul {P : Point F} {a : ZMod g.order} (hodd : p ≠ 2)
    (hP : C.IsMultiple P a) (k : ℕ) : ∃ R, P.smul k = .ok R ∧ C.IsMultiple R (k * a) := by
  obtain ⟨R, hR, hcR, hiR⟩ := Point.exists_smul hodd C.curve_over hP.1 hP.2 k
  exact ⟨R, hR, hcR, by rw [hiR, multiple_natCast_mul]⟩

theorem IsMultiple.exists_add {P Q : Point F} {a b : ZMod g.order} (hodd : p ≠ 2)
    (hP : C.IsMultiple P a) (hQ : C.IsMultiple Q b) :
    ∃ R, P.add Q = .ok R ∧ C.IsMultiple R (a + b) := by
  obtain ⟨R, hR, hcR, hiR⟩ := Point.exists_add_coords hodd C.curve_over hP.1 hQ.1 hP.2 hQ.2
  exact ⟨R, hR, hcR, by rw [hiR, multiple_add]⟩

end Cyclic

/-! ## Accepted groups -/

/-- What `ofGenerator` checks. -/
theorem ofGenerator_eq_ok {generator : Point F} {order : ℕ}
    (h : ofGenerator generator order = .ok g) :
    g = ⟨generator, order⟩ ∧ generator.isInfinity = false ∧
      ∃ q, generator.smul order = .ok q ∧ q.isInfinity = true := by
  unfold ofGenerator at h
  split at h
  · cases h
  · rename_i hchecks
    split at h
    · rename_i q hq
      split at h
      · rename_i hinf
        exact ⟨(Except.ok.inj h).symm, by simp_all, q, hq, hinf⟩
      · cases h
    · cases h

/-- The generator of an accepted group is not neutral and annihilated by the order. -/
theorem exists_cyclic [LawfulArith F] {generator : Point F} {order : ℕ}
    (hp : Arith.modulus generator.curve.a = p) (hodd : p ≠ 2)
    (h : ofGenerator generator order = .ok g) : Nonempty (g.Cyclic p) := by
  obtain ⟨rfl, hfinite, q, hq, hinf⟩ := ofGenerator_eq_ok h
  have hover : generator.curve.Over p := by
    cases generator with
    | infinity c => cases hfinite
    | affine c x y hxy => exact hp ▸ (Curve.moduli_of_contains hxy).1
  obtain ⟨G, a, ha⟩ := PointGroup.exists_coords_eq (Point.onCurve_image hover rfl)
  refine ⟨⟨hover, G, a, ha.symm, ?_, ?_⟩⟩
  · rintro rfl
    rw [G.coords_zero] at ha
    rw [Point.image_eq_none_iff.mp ha.symm] at hfinite
    cases hfinite
  · obtain ⟨R, hR, -, hiR⟩ := Point.exists_smul hodd hover rfl ha.symm order
    rw [hq, Except.ok.injEq] at hR
    apply G.coords_injective
    rw [G.coords_zero, ← hiR, ← hR]
    exact Point.image_eq_none_iff.mpr hinf

end SpendScript.Group
