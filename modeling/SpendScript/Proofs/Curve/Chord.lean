import Mathlib.Algebra.Field.ZMod
import Mathlib.AlgebraicGeometry.EllipticCurve.Affine.Point

/-!
# The chord-and-tangent sum

The sum of two points of a Weierstrass curve by their coordinates, also where the curve is
singular. The nonsingular points form a group under it, and so do a point of order two and the
neutral element.

Results:
* `chordSum`: the sum; `chordSum_comm`: it is commutative.
* `chordSum_eq_none_iff`: only a point and its reflection sum to the neutral element.
* `PointGroup`: a group of points under `chordSum`; `PointGroup.nonsingular`, `PointGroup.pair`:
  the two kinds of groups, and `PointGroup.exists_coords_eq`: every point lies in one of them.
* `PointGroup.coords_neg`: the negative in a group is the reflection.
-/

namespace SpendScript.Curve

open WeierstrassCurve (Affine)

variable {K : Type} [Field K] [DecidableEq K] {W : Affine K}

/-! ## Sums by coordinates -/

/-- The sum of two points given by their coordinates; the neutral element has none. -/
def chordSum (W : Affine K) : Option (K × K) → Option (K × K) → Option (K × K)
  | none, q => q
  | p, none => p
  | some (x₁, y₁), some (x₂, y₂) =>
    if x₁ = x₂ ∧ y₁ = W.negY x₂ y₂ then none
    else some (W.addX x₁ x₂ (W.slope x₁ x₂ y₁ y₂), W.addY x₁ x₂ y₁ (W.slope x₁ x₂ y₁ y₂))

/-- The coordinates satisfy the curve equation, or there are none. -/
def OnCurve (W : Affine K) : Option (K × K) → Prop
  | none => True
  | some (x, y) => W.Equation x y

theorem chordSum_none (q : Option (K × K)) : chordSum W none q = q :=
  rfl

theorem chordSum_none_right (q : Option (K × K)) : chordSum W q none = q := by
  cases q <;> rfl

theorem chordSum_some {x₁ y₁ x₂ y₂ : K} (h : ¬(x₁ = x₂ ∧ y₁ = W.negY x₂ y₂)) :
    chordSum W (some (x₁, y₁)) (some (x₂, y₂)) =
      some (W.addX x₁ x₂ (W.slope x₁ x₂ y₁ y₂), W.addY x₁ x₂ y₁ (W.slope x₁ x₂ y₁ y₂)) :=
  if_neg h

theorem chordSum_of_eq_neg {x₁ y₁ x₂ y₂ : K} (h : x₁ = x₂ ∧ y₁ = W.negY x₂ y₂) :
    chordSum W (some (x₁, y₁)) (some (x₂, y₂)) = none :=
  if_pos h

/-- The point below or above a point, on the same vertical line. -/
def reflect (W : Affine K) (q : Option (K × K)) : Option (K × K) :=
  q.map fun xy => (xy.1, W.negY xy.1 xy.2)

theorem chordSum_eq_none_iff {p q : Option (K × K)} :
    chordSum W p q = none ↔ q = reflect W p := by
  match p, q with
  | none, q => rfl
  | some (x₁, y₁), none => exact ⟨nofun, nofun⟩
  | some (x₁, y₁), some (x₂, y₂) =>
    by_cases h : x₁ = x₂ ∧ y₁ = W.negY x₂ y₂
    · obtain ⟨rfl, rfl⟩ := h
      refine iff_of_true (chordSum_of_eq_neg ⟨rfl, rfl⟩) ?_
      rw [reflect, Option.map_some, Affine.negY_negY]
    · rw [chordSum_some h]
      refine iff_of_false (Option.some_ne_none _) fun hreflect => h ?_
      obtain ⟨rfl, rfl⟩ := Prod.mk.inj (Option.some.inj hreflect)
      exact ⟨rfl, (Affine.negY_negY _ _).symm⟩

theorem chordSum_comm {p q : Option (K × K)} (hp : OnCurve W p) (hq : OnCurve W q) :
    chordSum W p q = chordSum W q p := by
  match p, q with
  | none, q => rw [chordSum_none, chordSum_none_right]
  | some p, none => rw [chordSum_none, chordSum_none_right]
  | some (x₁, y₁), some (x₂, y₂) =>
    by_cases hx : x₁ = x₂
    · subst hx
      by_cases hy : y₁ = W.negY x₁ y₂
      · rw [chordSum_of_eq_neg ⟨rfl, hy⟩, chordSum_of_eq_neg ⟨rfl, by rw [hy, Affine.negY_negY]⟩]
      · have : y₁ = y₂ := Affine.Y_eq_of_Y_ne hp hq rfl hy
        rw [this]
    · rw [chordSum_some fun h => hx h.1, chordSum_some fun h => hx h.1.symm,
        Affine.slope_of_X_ne hx, Affine.slope_of_X_ne (Ne.symm hx)]
      have hd : x₁ - x₂ ≠ 0 := sub_ne_zero.mpr hx
      have hs : (y₂ - y₁) / (x₂ - x₁) = (y₁ - y₂) / (x₁ - x₂) := by
        rw [← neg_sub y₁, ← neg_sub x₁, neg_div_neg_eq]
      rw [hs]
      set l := (y₁ - y₂) / (x₁ - x₂) with hl
      have hline : l * (x₁ - x₂) = y₁ - y₂ := div_mul_cancel₀ _ hd
      have hX : W.addX x₂ x₁ l = W.addX x₁ x₂ l := by simp only [Affine.addX]; ring
      have hY : W.negAddY x₂ x₁ y₂ l = W.negAddY x₁ x₂ y₁ l := by
        rw [Affine.negAddY, Affine.negAddY, hX]
        linear_combination hline
      rw [Affine.addY, Affine.addY, hX, hY]

/-! ## Groups of points -/

/-- A group whose elements are points of a curve, added by `chordSum`. -/
structure PointGroup (W : Affine K) where
  Carrier : Type
  [group : AddCommGroup Carrier]
  coords : Carrier → Option (K × K)
  coords_zero : coords 0 = none
  coords_injective : Function.Injective coords
  coords_add : ∀ a b, coords (a + b) = chordSum W (coords a) (coords b)
  /-- A point and its negative lie above one another. -/
  fst_coords_neg : ∀ a, (coords (-a)).map Prod.fst = (coords a).map Prod.fst

attribute [instance] PointGroup.group

namespace PointGroup

/-- The coordinates of a nonsingular point. -/
def affineCoords : W.Point → Option (K × K)
  | .zero => none
  | .some x y _ => some (x, y)

theorem affineCoords_add (P Q : W.Point) :
    affineCoords (P + Q) = chordSum W (affineCoords P) (affineCoords Q) := by
  match P, Q with
  | .zero, Q => rw [← Affine.Point.zero_def, zero_add]; rfl
  | .some x y h, .zero =>
    rw [← Affine.Point.zero_def, add_zero]
    exact (chordSum_none_right _).symm
  | .some x₁ y₁ h₁, .some x₂ y₂ h₂ =>
    by_cases h : x₁ = x₂ ∧ y₁ = W.negY x₂ y₂
    · rw [Affine.Point.add_of_Y_eq h.1 h.2]
      exact (chordSum_of_eq_neg h).symm
    · rw [Affine.Point.add_some h]
      exact (chordSum_some h).symm

/-- The nonsingular points. -/
def nonsingular (W : Affine K) : PointGroup W where
  Carrier := W.Point
  coords := affineCoords
  coords_zero := rfl
  coords_injective := by
    rintro (_ | ⟨x, y, _⟩) (_ | ⟨x', y', _⟩) h <;> simp_all [affineCoords]
  coords_add := affineCoords_add
  fst_coords_neg := by rintro (_ | _) <;> rfl

theorem zmod_two_cases (a : ZMod 2) : a = 0 ∨ a = 1 := by
  revert a
  decide

/-- The neutral element and a point that is its own negative. -/
def pair (W : Affine K) (x y : K) (h : y = W.negY x y) : PointGroup W where
  Carrier := ZMod 2
  coords a := if a = 0 then none else some (x, y)
  coords_zero := if_pos rfl
  coords_injective := by
    intro a b hab
    rcases zmod_two_cases a with rfl | rfl <;> rcases zmod_two_cases b with rfl | rfl
    · rfl
    · cases hab
    · cases hab
    · rfl
  coords_add := by
    intro a b
    rcases zmod_two_cases a with rfl | rfl <;> rcases zmod_two_cases b with rfl | rfl
    · rfl
    · rfl
    · rfl
    · exact (chordSum_of_eq_neg ⟨rfl, h⟩).symm
  fst_coords_neg := by
    intro a
    rw [ZMod.neg_eq_self_mod_two]

theorem coords_neg (G : PointGroup W) (a : G.Carrier) : G.coords (-a) = reflect W (G.coords a) := by
  rw [← chordSum_eq_none_iff, ← G.coords_add, add_neg_cancel, G.coords_zero]

/-- Every point of a curve lies in a group of points: a singular one has order two. -/
theorem exists_coords_eq {p : Option (K × K)} (hp : OnCurve W p) :
    ∃ (G : PointGroup W) (a : G.Carrier), G.coords a = p := by
  match p with
  | none => exact ⟨nonsingular W, 0, rfl⟩
  | some (x, y) =>
    by_cases hn : W.Nonsingular x y
    · exact ⟨nonsingular W, .some x y hn, rfl⟩
    · have hy : y = W.negY x y := by
        rw [Affine.nonsingular_iff] at hn
        by_contra hne
        exact hn ⟨hp, Or.inr hne⟩
      exact ⟨pair W x y hy, (1 : ZMod 2), rfl⟩

end PointGroup

end SpendScript.Curve
