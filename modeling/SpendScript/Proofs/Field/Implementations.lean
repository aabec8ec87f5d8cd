import SpendScript.Proofs.Curve.Agreement
import SpendScript.Proofs.Machine.Field
import SpendScript.Proofs.Machine.Word

/-!
# The same arithmetic in words and in numbers of any size

For every modulus that fits into a word, prime or not, the residues in machine words and the
residues of any size compute the same numbers, and the points over them have the same sums and
multiples. In memory neither implementation leaves the range of its integers on the way.

* `Represent`: the elements of both implementations with one representative.
* `OneResult`: an operation ends in a given number in both implementations, for residues and in
  memory.

Results:
* `SameArithmetic`, `sameArithmetic`: the operations on elements and on points, modulo any number
  from 2 to `2 ^ 64 - 1`.
-/

namespace SpendScript.Field

open SpendScript.Machine (Element WordElement)

/-- The elements of both implementations whose representative modulo `m` is `a`. -/
structure Represent (m a : ℕ) (x : WordResidue) (x' : Residue) : Prop where
  word_modulus : x.modulus.toNat = m
  word_value : x.value.toNat = a
  modulus : x'.modulus.val = m
  value : x'.value = a

/-- An operation modulo `m` ends in the representative `c`: on words, on numbers of any size, and
for both with the steps that they take in memory. -/
structure OneResult (m c : ℕ) (word : Except Fault WordResidue) (number : Except Fault Residue)
    (wordHeld : Checked WordElement) (numberHeld : Checked Element) : Prop where
  lt : c < m
  eq_ok : ∃ z z', Represent m c z z' ∧ word = .ok z ∧ number = .ok z' ∧
    wordHeld = .ok z.held ∧ numberHeld = .ok z'.held

/-- What the two implementations have in common modulo `m`. An element is multiplied by a word, a
point by any number; over a composite modulus a quotient need not undo a product, and a sum of
points may be off its curve. -/
structure SameArithmetic (m : ℕ) : Prop where
  element : ∀ a < m, ∃ M x x', Modulus.ofNat m = .ok M ∧ M.element a = .ok x' ∧
    WordResidue.ofNat (.ofNat a) (.ofNat m) = .ok x ∧ Represent m a x x'
  add : ∀ {a b x x' y y'}, Represent m a x x' → Represent m b y y' →
    OneResult m ((a + b) % m) (x.add y) (x'.add y') (WordElement.add x.held y.held)
      (Element.add x'.held y'.held)
  sub : ∀ {a b x x' y y'}, Represent m a x x' → Represent m b y y' →
    OneResult m ((a + (m - b)) % m) (x.sub y) (x'.sub y') (WordElement.sub x.held y.held)
      (Element.sub x'.held y'.held)
  mul : ∀ {a b x x' y y'}, Represent m a x x' → Represent m b y y' →
    OneResult m (a * b % m) (x.mul y) (x'.mul y') (WordElement.mul x.held y.held)
      (Element.mul x'.held y'.held)
  div : ∀ {a b x x' y y'}, Represent m a x x' → Represent m b y y' → b ≠ 0 →
    OneResult m (a * b ^ (m - 2) % m) (x.div y) (x'.div y') (WordElement.div x.held y.held)
      (Element.div x'.held y'.held)
  pow : ∀ {a x x'} (e : ℕ), Represent m a x x' →
    OneResult m (a ^ e % m) (.ok (x.pow e)) (.ok (x'.pow e)) (WordElement.pow x.held e)
      (Element.pow x'.held e)
  scale : ∀ {a x x'} (k : UInt64), Represent m a x x' →
    OneResult m (a * k.toNat % m) (.ok (x.scale k)) (.ok (x'.scale k))
      (WordElement.scale x.held k) (Element.scale x'.held k)
  neg : ∀ {a x x'}, Represent m a x x' →
    OneResult m ((m - a) % m) (.ok x.neg) (.ok x'.neg) (WordElement.neg x.held)
      (Element.neg x'.held)
  square : ∀ {a x x'}, Represent m a x x' →
    OneResult m (a ^ 2 % m) (.ok x.square) (.ok x'.square) (WordElement.square x.held)
      (Element.square x'.held)
  zero : ∀ {a x x'}, Represent m a x x' →
    OneResult m 0 (.ok x.zero) (.ok x'.modulus.zero) (WordElement.zero x.held)
      (.ok (Element.zero x'.held))
  isZero : ∀ {a x x'}, Represent m a x x' → Arith.isZero x = Arith.isZero x'
  eq : ∀ {a b x x' y y'}, Represent m a x x' → Represent m b y y' → (x = y ↔ x' = y')
  point_negate : ∀ {P : Point WordResidue} {P' : Point Residue}, P.Same P' →
    SameResult Point.Same P.negate P'.negate
  point_add : ∀ {P Q : Point WordResidue} {P' Q' : Point Residue}, P.Same P' → Q.Same Q' →
    SameResult Point.Same (P.add Q) (P'.add Q')
  point_smul : ∀ {P : Point WordResidue} {P' : Point Residue} (k : ℕ), P.Same P' →
    SameResult Point.Same (P.smul k) (P'.smul k)

namespace Represent

variable {m a : ℕ} {x : WordResidue} {x' : Residue}

theorem same (h : Represent m a x x') : Arith.Same x x' where
  modulus_eq := h.word_modulus.trans h.modulus.symm
  value_eq := h.word_value.trans h.value.symm

/-- Numbers below a modulus above one have their elements in both implementations. -/
theorem exists_element (hm : 1 < m) (hsize : m < 2 ^ 64) (ha : a < m) :
    ∃ M x x', Modulus.ofNat m = .ok M ∧ M.element a = .ok x' ∧
      WordResidue.ofNat (.ofNat a) (.ofNat m) = .ok x ∧ Represent m a x x' := by
  have hmodulus : (UInt64.ofNat m).toNat = m := UInt64.toNat_ofNat_of_lt hsize
  have hvalue : (UInt64.ofNat a).toNat = a := UInt64.toNat_ofNat_of_lt (ha.trans hsize)
  have hone : (1 : UInt64) < .ofNat m := by
    rw [UInt64.lt_iff_toNat_lt, hmodulus]
    exact hm
  have hlt : UInt64.ofNat a < .ofNat m := by
    rwa [UInt64.lt_iff_toNat_lt, hmodulus, hvalue]
  refine ⟨⟨m, hm⟩, ⟨_, _, hone, hlt⟩, ⟨⟨m, hm⟩, a, ha⟩, dif_pos hm, dif_pos ha, ?_,
    hmodulus, hvalue, rfl, rfl⟩
  rw [WordResidue.ofNat, dif_pos hone, dif_pos hlt]

end Represent

namespace OneResult

variable {m a b : ℕ} {x y : WordResidue} {x' y' : Residue}
variable {word : Except Fault WordResidue} {number : Except Fault Residue}
variable {wordHeld : Checked WordElement} {numberHeld : Checked Element}

/-- An operation on one element: `f` is the number that the laws say, and the steps in memory give
the element that the operation on residues gives. -/
theorem of_spec {z : WordResidue} {z' : Residue} (f : ℕ → ℕ → ℕ) (h : Represent m a x x')
    (spec : Arith.modulus z = Arith.modulus x ∧ Arith.value z = f (Arith.modulus x) (Arith.value x))
    (spec' : Arith.modulus z' = Arith.modulus x' ∧
      Arith.value z' = f (Arith.modulus x') (Arith.value x'))
    (hword : wordHeld = .ok z.held) (hnumber : numberHeld = .ok z'.held) :
    OneResult m (f m a) (.ok z) (.ok z') wordHeld numberHeld := by
  have hlt := LawfulArith.value_lt z
  obtain ⟨rfl, rfl, hm, hv⟩ := h
  rw [spec.1, spec.2] at hlt
  rw [show Arith.modulus x' = Arith.modulus x from hm,
    show Arith.value x' = Arith.value x from hv] at spec'
  exact ⟨hlt, z, z', ⟨spec.1, spec.2, spec'.1, spec'.2⟩, rfl, rfl, hword, hnumber⟩

/-- An operation on two elements. -/
theorem of_gives (f : ℕ → ℕ → ℕ → ℕ) (h : Represent m a x x') (h' : Represent m b y y')
    (gives : Arith.modulus x = Arith.modulus y →
      Arith.Gives word (Arith.modulus x) (f (Arith.modulus x) (Arith.value x) (Arith.value y)))
    (gives' : Arith.modulus x' = Arith.modulus y' →
      Arith.Gives number (Arith.modulus x')
        (f (Arith.modulus x') (Arith.value x') (Arith.value y')))
    (hword : wordHeld = Checked.ofFault (WordResidue.held <$> word))
    (hnumber : numberHeld = Checked.ofFault (Residue.held <$> number)) :
    OneResult m (f m a b) word number wordHeld numberHeld := by
  obtain ⟨z, rfl, hmz, hvz⟩ := gives (h.word_modulus.trans h'.word_modulus.symm)
  obtain ⟨z', rfl, hmz', hvz'⟩ := gives' (h.modulus.trans h'.modulus.symm)
  have hlt := LawfulArith.value_lt z
  obtain ⟨rfl, rfl, hm, hv⟩ := h
  obtain ⟨-, rfl, -, hw⟩ := h'
  rw [hmz, hvz] at hlt
  rw [show Arith.modulus x' = Arith.modulus x from hm] at hmz' hvz'
  rw [show Arith.value x' = Arith.value x from hv,
    show Arith.value y' = Arith.value y from hw] at hvz'
  exact ⟨hlt, z, z', ⟨hmz, hvz, hmz', hvz'⟩, rfl, rfl, hword, hnumber⟩

end OneResult

open LawfulArith in
/-- Modulo every number that fits into a word, the two implementations compute the same. -/
theorem sameArithmetic (m : ℕ) (hm : 2 ≤ m) (hsize : m < 2 ^ 64) : SameArithmetic m where
  element _ ha := Represent.exists_element hm hsize ha
  add h h' := .of_gives (fun m v w => (v + w) % m) h h' gives_add gives_add
    (WordElement.add_held _ _) (Element.add_held _ _)
  sub h h' := .of_gives (fun m v w => (v + (m - w)) % m) h h' gives_sub gives_sub
    (WordElement.sub_held _ _) (Element.sub_held _ _)
  mul h h' := .of_gives (fun m v w => v * w % m) h h' gives_mul gives_mul
    (WordElement.mul_held _ _) (Element.mul_held _ _)
  div h h' hb := .of_gives (fun m v w => v * w ^ (m - 2) % m) h h'
    (gives_div · (h'.word_value.trans_ne hb)) (gives_div · (h'.value.trans_ne hb))
    (WordElement.div_held _ _) (Element.div_held _ _)
  pow e h := .of_spec (fun m v => v ^ e % m) h (pow_spec _ e) (pow_spec _ e)
    (WordElement.pow_held _ e) (Element.pow_held _ e)
  scale k h := .of_spec (fun m v => v * k.toNat % m) h (scale_spec _ k) (scale_spec _ k)
    (WordElement.scale_held _ k) (Element.scale_held _ k)
  neg h := .of_spec (fun m v => (m - v) % m) h (neg_spec _) (neg_spec _)
    (WordElement.neg_held _) (Element.neg_held _)
  square h := .of_spec (fun m v => v ^ 2 % m) h (square_spec _) (square_spec _)
    (WordElement.square_held _) (Element.square_held _)
  zero h := .of_spec (fun _ _ => 0) h (zero_spec _) (zero_spec _) (WordElement.zero_held _) rfl
  isZero h := h.same.isZero_eq
  eq h h' := h.same.eq_iff h'.same
  point_negate h := h.negate
  point_add h h' := h.add h'
  point_smul k h := h.smul k

/-- The greatest modulus, which is a multiple of three. -/
theorem sameArithmetic_greatestWord :
    2 ≤ 2 ^ 64 - 1 ∧ 2 ^ 64 - 1 < 2 ^ 64 ∧ SameArithmetic (2 ^ 64 - 1) :=
  ⟨by decide, by decide, sameArithmetic _ (by decide) (by decide)⟩

end SpendScript.Field
