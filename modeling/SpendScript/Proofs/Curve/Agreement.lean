import SpendScript.Curve.Basic
import SpendScript.Proofs.Field.Agreement

/-!
# Two implementations of one curve

Curve code only asks its field elements for their operations, so over two lawful implementations it
goes the same way: the same points have the same reflections, sums and multiples, or both
computations fault for the same reason. Over a composite modulus a sum may leave its curve; then it
does so in both.

* `Curve.Same`, `Point.Same`: curves and points over two implementations.

Results:
* `Point.Same.negate`, `Point.Same.add`, `Point.Same.smul`: reflections, sums and multiples of the
  same points.
-/

namespace SpendScript

open SpendScript.Field (Arith LawfulArith)

/-- The curves have the same coefficients. -/
structure Curve.Same {F G : Type} [Arith F] [Arith G] (c : Curve F) (d : Curve G) : Prop where
  a : Arith.Same c.a d.a
  b : Arith.Same c.b d.b

variable {F G : Type} [Arith F] [DecidableEq F] [Arith G] [DecidableEq G]

/-- The points are both neutral or have the same coordinates, on the same curves. -/
inductive Point.Same : Point F → Point G → Prop where
  | infinity {c : Curve F} {d : Curve G} (curve : c.Same d) : Same (.infinity c) (.infinity d)
  | affine {c : Curve F} {d : Curve G} {x y : F} {x' y' : G} (curve : c.Same d)
    (same_x : Arith.Same x x') (same_y : Arith.Same y y') (h : c.contains x y = .ok true)
    (h' : d.contains x' y' = .ok true) : Same (.affine c x y h) (.affine d x' y' h')

theorem Point.Same.curve {P : Point F} {Q : Point G} (h : P.Same Q) : P.curve.Same Q.curve := by
  cases h with
  | infinity curve => exact curve
  | affine curve => exact curve

variable [LawfulArith F] [LawfulArith G]

/-! ## Curves -/

namespace Curve.Same

variable {c c' : Curve F} {d d' : Curve G} {x y : F} {x' y' : G}

omit [DecidableEq F] [DecidableEq G] in
theorem eq_iff (h : c.Same d) (h' : c'.Same d') : c = c' ↔ d = d' := by
  obtain ⟨a, b⟩ := c
  obtain ⟨a', b'⟩ := c'
  obtain ⟨u, v⟩ := d
  obtain ⟨u', v'⟩ := d'
  rw [Curve.mk.injEq, Curve.mk.injEq, h.a.eq_iff h'.a, h.b.eq_iff h'.b]

omit [DecidableEq F] [DecidableEq G] in
theorem cubic (h : c.Same d) (hx : Arith.Same x x') :
    SameResult Arith.Same (c.cubic x) (d.cubic x') :=
  (hx.square.mul hx).bind fun hcube =>
    (h.a.mul hx).bind fun hax => (hcube.add hax).bind fun hsum => hsum.add h.b

theorem contains_eq (h : c.Same d) (hx : Arith.Same x x') (hy : Arith.Same y y') :
    c.contains x y = d.contains x' y' :=
  SameResult.eq_iff.mp <| (h.cubic hx).bind fun hcubic =>
    .ok (decide_eq_decide.mpr (hy.square.eq_iff hcubic))

end Curve.Same

/-! ## Sums -/

namespace Point

variable {c : Curve F} {d : Curve G} {x y x₁ y₁ x₂ y₂ s : F} {x' y' x₁' y₁' x₂' y₂' s' : G}

/-- The result of the group law is on its curve in both implementations or in neither. -/
theorem sameResult_ofGroupLaw (h : c.Same d) (hx : Arith.Same x x') (hy : Arith.Same y y') :
    SameResult Same (ofGroupLaw c x y) (ofGroupLaw d x' y') := by
  have hcontains := h.contains_eq hx hy
  by_cases hc : c.contains x y = .ok true
  · have hd : d.contains x' y' = .ok true := hcontains ▸ hc
    rw [ofGroupLaw_eq_ok hc, ofGroupLaw_eq_ok hd]
    exact .ok (.affine h hx hy hc hd)
  · have hd : d.contains x' y' ≠ .ok true := hcontains ▸ hc
    rw [ofGroupLaw_eq_error hc, ofGroupLaw_eq_error hd]
    exact (SameResult.eq_iff.mpr hcontains).bind fun _ => .error _

omit [DecidableEq F] [DecidableEq G] in
theorem sameResult_chordSlope (hx₁ : Arith.Same x₁ x₁') (hy₁ : Arith.Same y₁ y₁')
    (hx₂ : Arith.Same x₂ x₂') (hy₂ : Arith.Same y₂ y₂') :
    SameResult Arith.Same (chordSlope x₁ y₁ x₂ y₂) (chordSlope x₁' y₁' x₂' y₂') :=
  (hy₂.sub hy₁).bind fun hrise => (hx₂.sub hx₁).bind fun hrun => hrise.div hrun

omit [DecidableEq F] [DecidableEq G] in
theorem sameResult_tangentSlope (h : c.Same d) (hx : Arith.Same x x') (hy : Arith.Same y y') :
    SameResult Arith.Same (tangentSlope c x y) (tangentSlope d x' y') :=
  ((hx.square.scale 3).add h.a).bind fun hrise => hrise.div (hy.scale 2)

theorem sameResult_ofSlope (h : c.Same d) (hs : Arith.Same s s') (hx₁ : Arith.Same x₁ x₁')
    (hy₁ : Arith.Same y₁ y₁') (hx₂ : Arith.Same x₂ x₂') :
    SameResult Same (ofSlope c s x₁ y₁ x₂) (ofSlope d s' x₁' y₁' x₂') :=
  (hs.square.sub hx₁).bind fun hu =>
    (hu.sub hx₂).bind fun hx =>
      (hx₁.sub hx).bind fun hv =>
        (hs.mul hv).bind fun hw =>
          (hw.sub hy₁).bind fun hy => sameResult_ofGroupLaw h hx hy

namespace Same

variable {P P' : Point F} {Q Q' : Point G}

theorem negate (h : P.Same Q) : SameResult Same P.negate Q.negate := by
  cases h with
  | infinity curve => exact .ok (.infinity curve)
  | affine curve hx hy => exact sameResult_ofGroupLaw curve hx hy.neg

theorem add (h : P.Same Q) (h' : P'.Same Q') : SameResult Same (P.add P') (Q.add Q') := by
  unfold Point.add
  refine .ite (not_congr (h.curve.eq_iff h'.curve)) (.error _) ?_
  cases h with
  | infinity curve => exact .ok h'
  | affine curve hx₁ hy₁ hP hQ =>
    cases h' with
    | infinity _ => exact .ok (.affine curve hx₁ hy₁ hP hQ)
    | affine _ hx₂ hy₂ =>
      have hvertical := or_congr (not_congr (hy₁.eq_iff hy₂)) (Bool.eq_iff_iff.mp hy₁.isZero_eq)
      -- a chord, a vertical line or a tangent
      refine .ite (not_congr (hx₁.eq_iff hx₂)) ?_ (.ite hvertical (.ok (.infinity curve)) ?_)
      · exact (sameResult_chordSlope hx₁ hy₁ hx₂ hy₂).bind fun hs =>
          sameResult_ofSlope curve hs hx₁ hy₁ hx₂
      · exact (sameResult_tangentSlope curve hx₁ hy₁).bind fun hs =>
          sameResult_ofSlope curve hs hx₁ hy₁ hx₂

theorem double (h : P.Same Q) : SameResult Same P.double Q.double :=
  h.add h

/-- Over the digits of the factor: what is added up and what is doubled stay the same points. -/
theorem ladder (bits : List Bool) (h : P.Same Q) (h' : P'.Same Q') :
    SameResult Same (Point.ladder bits P P') (Point.ladder bits Q Q') := by
  induction bits generalizing P P' Q Q' with
  | nil => exact .ok h
  | cons b bits ih =>
    have hrest {R : Point F} {S : Point G} (hacc : R.Same S) :
        SameResult Same (P'.double >>= Point.ladder bits R) (Q'.double >>= Point.ladder bits S) :=
      h'.double.bind fun hbase => ih hacc hbase
    unfold Point.ladder
    exact .ite Iff.rfl ((h.add h').bind hrest) (hrest h)

theorem smul (h : P.Same Q) (k : ℕ) : SameResult Same (P.smul k) (Q.smul k) :=
  ladder _ (.infinity h.curve) h

end Same

end Point

end SpendScript
