import SpendScript.Curve.Error
import SpendScript.Field.Arith
import SpendScript.Number.Binary

/-!
# Points of a short Weierstrass curve

The curve `y² = x³ + ax + b` over any type of residues, its points and the chord-and-tangent law.

* `Curve.contains`: the curve equation. A finite `Point` carries a proof of it.
* `Point.add`, `Point.negate`: the group law. A result off the curve, which a composite modulus
  can give, is a fault.
* `Point.smul`: multiples by doubling and adding.
-/

namespace SpendScript

open SpendScript.Field (Arith)

variable {F : Type} [Arith F] [DecidableEq F]

/-- The coefficients of `y² = x³ + ax + b`. -/
structure Curve (F : Type) where
  a : F
  b : F
deriving DecidableEq

namespace Curve

/-- The right-hand side `x³ + ax + b`. -/
def cubic (c : Curve F) (x : F) : Except Fault F := do
  let cube ← Arith.mul (Arith.square x) x
  let ax ← Arith.mul c.a x
  Arith.add (← Arith.add cube ax) c.b

/-- Whether the coordinates satisfy the equation. -/
def contains (c : Curve F) (x y : F) : Except Fault Bool := do
  return decide (Arith.square y = (← c.cubic x))

end Curve

/-- A point of a curve: the neutral element or a pair of coordinates on the curve. -/
inductive Point (F : Type) [Arith F] [DecidableEq F] where
  | infinity (curve : Curve F)
  | affine (curve : Curve F) (x y : F) (on_curve : curve.contains x y = .ok true)

instance : DecidableEq (Point F)
  | .infinity c, .infinity d =>
    if h : c = d then isTrue (by rw [h]) else isFalse (by simpa using h)
  | .infinity _, .affine .. => isFalse (by simp)
  | .affine .., .infinity _ => isFalse (by simp)
  | .affine c x₁ y₁ _, .affine d x₂ y₂ _ =>
    if h : c = d ∧ x₁ = x₂ ∧ y₁ = y₂ then isTrue (by simpa using h)
    else isFalse (by simpa using h)

/-- The point with given coordinates, if they are on the curve. -/
def Curve.point (c : Curve F) (x y : F) : Except EcError (Point F) :=
  match h : c.contains x y with
  | .ok true => .ok (.affine c x y h)
  | .ok false => .error (.notOnCurve (Arith.text x) (Arith.text y))
  | .error f => .error (.fault f)

namespace Point

/-! ## Parts -/

def curve : Point F → Curve F
  | .infinity c => c
  | .affine c _ _ _ => c

def isInfinity : Point F → Bool
  | .infinity _ => true
  | .affine .. => false

/-- The coordinates of a finite point. -/
def coords : Point F → Option (F × F)
  | .infinity _ => none
  | .affine _ x y _ => some (x, y)

/-- The coordinates and the coefficients of the curve. -/
def text : Point F → String
  | .infinity _ => "Point(infinity)"
  | .affine c x y _ =>
    s!"Point({Arith.text x}, {Arith.text y})_{Arith.text c.a}_{Arith.text c.b}"

/-! ## Group law -/

/-- A point that the group law gives; it has to be on the curve. -/
def ofGroupLaw (c : Curve F) (x y : F) : Except Fault (Point F) :=
  match h : c.contains x y with
  | .ok true => .ok (.affine c x y h)
  | .ok false => .error .offCurve
  | .error f => .error f

theorem ofGroupLaw_eq_ok {c : Curve F} {x y : F} (h : c.contains x y = .ok true) :
    ofGroupLaw c x y = .ok (.affine c x y h) := by
  unfold ofGroupLaw
  split
  · rfl
  · simp_all
  · simp_all

theorem ofGroupLaw_eq_error {c : Curve F} {x y : F} (h : c.contains x y ≠ .ok true) :
    ofGroupLaw c x y = c.contains x y >>= fun _ => .error .offCurve := by
  unfold ofGroupLaw
  split
  · contradiction
  · simp_all [bind, Except.bind]
  · simp_all [bind, Except.bind]

/-- The reflection in the x axis. -/
def negate : Point F → Except Fault (Point F)
  | .infinity c => .ok (.infinity c)
  | .affine c x y _ => ofGroupLaw c x (Arith.neg y)

/-- The slope of the line through two points with different x coordinates. -/
def chordSlope (x₁ y₁ x₂ y₂ : F) : Except Fault F := do
  Arith.div (← Arith.sub y₂ y₁) (← Arith.sub x₂ x₁)

/-- The slope of the tangent, `(3x² + a) / 2y`. -/
def tangentSlope (c : Curve F) (x y : F) : Except Fault F := do
  Arith.div (← Arith.add (Arith.scale (Arith.square x) 3) c.a) (Arith.scale y 2)

/-- The sum of two points on a line: the reflection of its third point on the curve. -/
def ofSlope (c : Curve F) (slope x₁ y₁ x₂ : F) : Except Fault (Point F) := do
  let x ← Arith.sub (← Arith.sub (Arith.square slope) x₁) x₂
  let y ← Arith.sub (← Arith.mul slope (← Arith.sub x₁ x)) y₁
  ofGroupLaw c x y

/-- The sum. A vertical line, through inverse points or at a point of order two, gives the
neutral element. -/
def add (p q : Point F) : Except Fault (Point F) :=
  if p.curve ≠ q.curve then .error .mixedCurves
  else
    match p, q with
    | .infinity _, q => .ok q
    | p, .infinity _ => .ok p
    | .affine c x₁ y₁ _, .affine _ x₂ y₂ _ =>
      if x₁ ≠ x₂ then do
        ofSlope c (← chordSlope x₁ y₁ x₂ y₂) x₁ y₁ x₂
      else if y₁ ≠ y₂ ∨ Arith.isZero y₁ then .ok (.infinity c)
      else do
        ofSlope c (← tangentSlope c x₁ y₁) x₁ y₁ x₂

def double (p : Point F) : Except Fault (Point F) :=
  p.add p

/-- Adds the doublings of `base` whose digit is set to `acc`; `base` is doubled once for each
digit. -/
def ladder : List Bool → (acc base : Point F) → Except Fault (Point F)
  | [], acc, _ => .ok acc
  | b :: bs, acc, base => do
    let acc ← if b then acc.add base else .ok acc
    ladder bs acc (← base.double)

/-- The point added to itself `k` times. -/
def smul (k : Nat) (p : Point F) : Except Fault (Point F) :=
  ladder (Number.bits k) (.infinity p.curve) p

end Point

end SpendScript
