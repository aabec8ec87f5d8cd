import SpendScript.Key.Secp256k1
import SpendScript.Proofs.Machine.Field

/-!
# Curve arithmetic of the machine

Points in memory are coordinates that nothing but the check in front of them keeps on their curve.
A sum asserts that the curves are the same and that the result is on the curve, and a signature is
verified with sums.

* `Machine.Point`: a point in memory; `Point.held`: the one that holds a point of a curve.
* `Machine.Group`: a generator and its order.
* `Machine.add`, `Machine.smul`, `Group.verify`: sums, multiples and verification.

Results:
* `Machine.add_held`, `Machine.smul_held`, `Group.verify_held`: what is left to panic are the faults
  of the operations on points of curves.
-/

namespace SpendScript

open SpendScript.Field (Residue)
open SpendScript.Machine (Element)

/-- The curve with the coefficients in memory. -/
def Curve.held (c : Curve Residue) : Curve Element :=
  ⟨c.a.held, c.b.held⟩

namespace Machine

/-! ## The curve equation -/

/-- The right-hand side `x³ + ax + b`. -/
def cubic (c : Curve Element) (x : Element) : Checked Element := do
  let square ← x.square
  let cube ← square.mul x
  let ax ← c.a.mul x
  let sum ← cube.add ax
  sum.add c.b

/-- Whether the coordinates satisfy the equation. -/
def contains (c : Curve Element) (x y : Element) : Checked Bool := do
  let square ← y.square
  let cubic ← cubic c x
  return decide (square = cubic)

/-! ## Points -/

/-- A point in memory. -/
inductive Point where
  | infinity (curve : Curve Element)
  | affine (curve : Curve Element) (x y : Element)

namespace Point

def curve : Point → Curve Element
  | .infinity c => c
  | .affine c _ _ => c

def isInfinity : Point → Bool
  | .infinity _ => true
  | .affine .. => false

/-- The first coordinate of a finite point. -/
def x? : Point → Option Element
  | .infinity _ => none
  | .affine _ x _ => some x

end Point

/-- A point that the group law gives; it is asserted to be on the curve. -/
def ofGroupLaw (c : Curve Element) (x y : Element) : Checked Point := do
  if ← contains c x y then return .affine c x y else throw (.fault .offCurve)

/-- The slope of the line through two points with different x coordinates. -/
def chordSlope (x₁ y₁ x₂ y₂ : Element) : Checked Element := do
  let rise ← y₂.sub y₁
  let run ← x₂.sub x₁
  rise.div run

/-- The slope of the tangent, `(3x² + a) / 2y`. -/
def tangentSlope (c : Curve Element) (x y : Element) : Checked Element := do
  let square ← x.square
  let triple ← square.scale 3
  let rise ← triple.add c.a
  let run ← y.scale 2
  rise.div run

/-- The sum of two points on a line. -/
def ofSlope (c : Curve Element) (slope x₁ y₁ x₂ : Element) : Checked Point := do
  let square ← slope.square
  let left ← square.sub x₁
  let x ← left.sub x₂
  let run ← x₁.sub x
  let rise ← slope.mul run
  let y ← rise.sub y₁
  ofGroupLaw c x y

/-- The sum; the points are asserted to lie on one curve. -/
def add (p q : Point) : Checked Point :=
  if p.curve ≠ q.curve then .error (.fault .mixedCurves)
  else
    match p, q with
    | .infinity _, q => .ok q
    | p, .infinity _ => .ok p
    | .affine c x₁ y₁, .affine _ x₂ y₂ =>
      if x₁ ≠ x₂ then do
        ofSlope c (← chordSlope x₁ y₁ x₂ y₂) x₁ y₁ x₂
      else if y₁ ≠ y₂ ∨ y₁.isZero then .ok (.infinity c)
      else do
        ofSlope c (← tangentSlope c x₁ y₁) x₁ y₁ x₂

/-- Adds the doublings of `base` whose digit is set to `acc`. -/
def ladder : List Bool → (acc base : Point) → Checked Point
  | [], acc, _ => .ok acc
  | b :: bs, acc, base => do
    let acc ← if b then add acc base else .ok acc
    let base ← add base base
    ladder bs acc base

/-- The point added to itself `k` times. -/
def smul (k : ℕ) (p : Point) : Checked Point :=
  ladder (Number.bits k) (.infinity p.curve) p

/-! ## Groups -/

/-- A generator in memory and its order. -/
structure Group where
  generator : Point
  order : ℕ

namespace Group

/-- The inverse modulo the order. -/
def inverse (g : Group) (a : ℕ) : Checked ℕ := do
  let e ← Checked.sub g.order 2
  Checked.powMod g.order a e

/-- Whether `sig` is a signature of `z` under the public point `key`. -/
def verify (g : Group) (key : Point) (z : ℕ) (sig : Signature) : Checked Bool :=
  if !sig.inRange g.order || key.isInfinity then .ok false
  else do
    let inverse ← g.inverse sig.s
    let u ← Checked.rem (z * inverse) g.order
    let v ← Checked.rem (sig.r * inverse) g.order
    let p ← smul u g.generator
    let q ← smul v key
    let total ← add p q
    match total.x? with
    | none => return false
    | some x => return (← Checked.rem x.value g.order) == sig.r

end Group

end Machine

/-! ## Points of curves in memory -/

/-- The point in memory that holds a point of a curve. -/
def Point.held : Point Residue → Machine.Point
  | .infinity c => .infinity c.held
  | .affine c x y _ => .affine c.held x.held y.held

def Group.held (g : Group Residue) : Machine.Group :=
  ⟨g.generator.held, g.order⟩

namespace Machine

open SpendScript.Field (Arith)

variable {c d : SpendScript.Curve Residue} {x y : Residue} {p q : SpendScript.Point Residue}

theorem curve_held_inj : c.held = d.held ↔ c = d := by
  obtain ⟨a, b⟩ := c
  obtain ⟨a', b'⟩ := d
  simp only [Curve.held, Curve.mk.injEq, Element.held_inj]

theorem curve_held (p : SpendScript.Point Residue) : p.held.curve = p.curve.held := by
  cases p <;> rfl

theorem isInfinity_held (p : SpendScript.Point Residue) : p.held.isInfinity = p.isInfinity := by
  cases p <;> rfl

theorem cubic_held (c : SpendScript.Curve Residue) (x : Residue) :
    cubic c.held x.held = Checked.ofFault (Residue.held <$> c.cubic x) := by
  show (Element.square x.held >>= fun square => square.mul x.held >>= fun cube =>
    c.a.held.mul x.held >>= fun ax => cube.add ax >>= fun sum => sum.add c.b.held) = _
  rw [Element.square_held]
  show (x.square.held.mul x.held >>= _) = _
  rw [Element.mul_held]
  refine Checked.ofFault_bind_map fun cube => ?_
  rw [Element.mul_held]
  refine Checked.ofFault_bind_map fun ax => ?_
  rw [Element.add_held]
  refine Checked.ofFault_bind_map fun sum => ?_
  exact Element.add_held sum c.b

theorem contains_held (c : SpendScript.Curve Residue) (x y : Residue) :
    contains c.held x.held y.held = Checked.ofFault (c.contains x y) := by
  unfold contains Curve.contains
  rw [Element.square_held, cubic_held]
  cases c.cubic x with
  | error f => rfl
  | ok z => exact congrArg Except.ok (decide_eq_decide.mpr Element.held_inj)

/-! ## Sums -/

theorem ofGroupLaw_held (c : SpendScript.Curve Residue) (x y : Residue) :
    ofGroupLaw c.held x.held y.held =
      Checked.ofFault (Point.held <$> SpendScript.Point.ofGroupLaw c x y) := by
  have hc := contains_held c x y
  unfold ofGroupLaw SpendScript.Point.ofGroupLaw
  split
  all_goals
    rename_i h
    rw [h] at hc
    rw [hc]
    rfl

theorem chordSlope_held (x₁ y₁ x₂ y₂ : Residue) :
    chordSlope x₁.held y₁.held x₂.held y₂.held =
      Checked.ofFault (Residue.held <$> SpendScript.Point.chordSlope x₁ y₁ x₂ y₂) := by
  unfold chordSlope
  rw [Element.sub_held]
  refine Checked.ofFault_bind_map fun rise => ?_
  rw [Element.sub_held]
  refine Checked.ofFault_bind_map fun run => ?_
  exact Element.div_held rise run

theorem tangentSlope_held (c : SpendScript.Curve Residue) (x y : Residue) :
    tangentSlope c.held x.held y.held =
      Checked.ofFault (Residue.held <$> SpendScript.Point.tangentSlope c x y) := by
  unfold tangentSlope
  rw [Element.square_held]
  show (x.square.held.scale 3 >>= _) = _
  rw [Element.scale_held]
  show ((x.square.scale 3).held.add c.a.held >>= _) = _
  rw [Element.add_held]
  refine Checked.ofFault_bind_map fun rise => ?_
  rw [Element.scale_held]
  exact Element.div_held rise (y.scale 2)

theorem ofSlope_held (c : SpendScript.Curve Residue) (slope x₁ y₁ x₂ : Residue) :
    ofSlope c.held slope.held x₁.held y₁.held x₂.held =
      Checked.ofFault (Point.held <$> SpendScript.Point.ofSlope c slope x₁ y₁ x₂) := by
  unfold ofSlope
  rw [Element.square_held]
  show (slope.square.held.sub x₁.held >>= _) = _
  rw [Element.sub_held]
  refine Checked.ofFault_bind_map fun left => ?_
  rw [Element.sub_held]
  refine Checked.ofFault_bind_map fun x => ?_
  rw [Element.sub_held]
  refine Checked.ofFault_bind_map fun run => ?_
  rw [Element.mul_held]
  refine Checked.ofFault_bind_map fun rise => ?_
  rw [Element.sub_held]
  refine Checked.ofFault_bind_map fun y => ?_
  exact ofGroupLaw_held c x y

theorem add_held (p q : SpendScript.Point Residue) :
    add p.held q.held = Checked.ofFault (Point.held <$> p.add q) := by
  unfold add SpendScript.Point.add
  simp only [curve_held, ne_eq, curve_held_inj]
  by_cases hc : p.curve = q.curve
  · rw [if_neg (not_not.mpr hc), if_neg (not_not.mpr hc)]
    match p, q with
    | .infinity _, q => rfl
    | .affine .., .infinity _ => rfl
    | .affine c x₁ y₁ _, .affine d x₂ y₂ _ =>
      simp only [Point.held, Element.held_inj, Element.isZero_held]
      by_cases hx : x₁ = x₂
      · rw [if_neg (not_not.mpr hx), if_neg (not_not.mpr hx)]
        by_cases hy : ¬y₁ = y₂ ∨ Arith.isZero y₁ = true
        · rw [if_pos hy, if_pos hy]
          rfl
        · rw [if_neg hy, if_neg hy, tangentSlope_held]
          exact Checked.ofFault_bind_map fun slope => ofSlope_held c slope x₁ y₁ x₂
      · rw [if_pos hx, if_pos hx, chordSlope_held]
        exact Checked.ofFault_bind_map fun slope => ofSlope_held c slope x₁ y₁ x₂
  · rw [if_pos hc, if_pos hc]
    rfl

/-! ## Multiples -/

theorem ladder_held (ds : List Bool) (acc base : SpendScript.Point Residue) :
    ladder ds acc.held base.held =
      Checked.ofFault (Point.held <$> SpendScript.Point.ladder ds acc base) := by
  induction ds generalizing acc base with
  | nil => rfl
  | cons b ds ih =>
    have hdouble : ∀ acc : SpendScript.Point Residue,
        (add base.held base.held >>= fun base => ladder ds acc.held base) =
          Checked.ofFault (Point.held <$> do SpendScript.Point.ladder ds acc (← base.double)) := by
      intro acc
      rw [add_held]
      exact Checked.ofFault_bind_map fun base => ih acc base
    cases b with
    | false => exact hdouble acc
    | true =>
      show (add acc.held base.held >>= _) = _
      rw [add_held]
      exact Checked.ofFault_bind_map hdouble

theorem smul_held (k : ℕ) (p : SpendScript.Point Residue) :
    smul k p.held = Checked.ofFault (Point.held <$> p.smul k) := by
  unfold smul SpendScript.Point.smul
  rw [curve_held]
  exact ladder_held (Number.bits k) (.infinity p.curve) p

/-! ## Verification -/

namespace Group

variable {g : SpendScript.Group Residue}

theorem inverse_held (h : 2 ≤ g.order) (a : ℕ) :
    g.held.inverse a = .ok (Number.fermatInverse g.order a) := by
  show (Checked.sub g.order 2 >>= fun e => Checked.powMod g.order a e) = _
  rw [Checked.sub_eq_ok h]
  exact Checked.powMod_eq_ok (Nat.lt_of_lt_of_le Nat.two_pos h) a (g.order - 2)

/-- Verification in memory. The order is at least two in every group that is made. -/
theorem verify_held (h : 2 ≤ g.order) (key : SpendScript.Point Residue) (z : ℕ) (sig : Signature) :
    g.held.verify key.held z sig = Checked.ofFault (g.verify key z sig) := by
  have hpos : 0 < g.order := Nat.lt_of_lt_of_le Nat.two_pos h
  unfold verify SpendScript.Group.verify
  rw [isInfinity_held]
  show (if !sig.inRange g.order || key.isInfinity then _ else _) = _
  by_cases hrefused : (!sig.inRange g.order || key.isInfinity) = true
  · rw [if_pos hrefused, if_pos hrefused]
    rfl
  · rw [if_neg hrefused, if_neg hrefused, inverse_held h]
    show (Checked.rem (z * Number.fermatInverse g.order sig.s) g.order >>= _) = _
    rw [Checked.rem_eq_ok hpos]
    show (Checked.rem (sig.r * Number.fermatInverse g.order sig.s) g.order >>= _) = _
    rw [Checked.rem_eq_ok hpos]
    show (smul _ g.generator.held >>= _) = _
    rw [smul_held]
    refine Checked.ofFault_bind fun p => ?_
    rw [smul_held]
    refine Checked.ofFault_bind fun q => ?_
    rw [add_held]
    refine Checked.ofFault_bind fun total => ?_
    cases total with
    | infinity c => rfl
    | affine c x y h =>
      show (Checked.rem x.value g.order >>= _) = _
      rw [Checked.rem_eq_ok hpos]
      rfl

end Group

end Machine

end SpendScript
