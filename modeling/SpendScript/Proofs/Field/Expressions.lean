import Mathlib.FieldTheory.Finite.Basic
import SpendScript.Proofs.Field.Prime
import SpendScript.Proofs.Machine.Field
import SpendScript.Proofs.Machine.Word

/-!
# Expressions of field elements

An expression that is built from elements by the operations has the value that the integers give,
reduced modulo the modulus. Each operation keeps the representative below the modulus in its own
way, so the value is followed through the expression by what it denotes.

* `Expression`: literals and operations; `Expression.integer`: what one says over the integers.
* `Implementation`: how elements are made and the operations on them; `residues`, `words`,
  `elements`, `wordElements`: numbers of any size and words of 64 bits, as functions and in memory.
* `Implementation.Exact`: expressions are exact, and division is exact modulo a prime.
* `Evaluates`: an evaluation ends in an element that denotes a given residue class.

Results:
* `Expression.evaluates`: every operation keeps what an expression denotes.
* `Expression.eval_hold`: steps in memory that hold the elements evaluate an expression alike.
* `expressionsExact`: all implementations are exact, modulo any number above one.
-/

namespace SpendScript.Field

open Machine (Element WordElement)

variable {L F X : Type}

/-! ## Expressions -/

/-- An expression over elements that literals make. -/
inductive Expression (L : Type) where
  | literal (l : L)
  | add (a b : Expression L)
  | sub (a b : Expression L)
  | mul (a b : Expression L)
  | neg (a : Expression L)
  | square (a : Expression L)
  | pow (a : Expression L) (e : ℕ)
  | scale (a : Expression L) (k : UInt64)

/-- How elements are made, what they hold, and the operations on them. -/
structure Implementation (L X : Type) where
  make : L → Except FieldError X
  modulus : X → ℕ
  value : X → ℕ
  add : X → X → Checked X
  sub : X → X → Checked X
  mul : X → X → Checked X
  div : X → X → Checked X
  neg : X → Checked X
  square : X → Checked X
  pow : X → ℕ → Checked X
  scale : X → UInt64 → Checked X

/-- The result of an operation on the values of two expressions, the left one first. -/
def binary (f : X → X → Checked X) (x y : Attempt FieldError X) : Attempt FieldError X := do
  let x ← x
  let y ← y
  .check (f x y)

/-- The result of an operation on the value of an expression. -/
def unary (f : X → Checked X) (x : Attempt FieldError X) : Attempt FieldError X := do
  let x ← x
  .check (f x)

namespace Expression

/-- What the expression says over the integers. -/
def integer (number : L → ℕ) : Expression L → ℤ
  | literal l => number l
  | add a b => a.integer number + b.integer number
  | sub a b => a.integer number - b.integer number
  | mul a b => a.integer number * b.integer number
  | neg a => -a.integer number
  | square a => a.integer number ^ 2
  | pow a e => a.integer number ^ e
  | scale a k => k.toNat * a.integer number

/-- The literals of the expression have the property. -/
def All (P : L → Prop) : Expression L → Prop
  | literal l => P l
  | add a b | sub a b | mul a b => a.All P ∧ b.All P
  | neg a | square a | pow a _ | scale a _ => a.All P

/-- The value of the expression. -/
def eval (I : Implementation L X) : Expression L → Attempt FieldError X
  | literal l => .ofExcept (I.make l)
  | add a b => binary I.add (a.eval I) (b.eval I)
  | sub a b => binary I.sub (a.eval I) (b.eval I)
  | mul a b => binary I.mul (a.eval I) (b.eval I)
  | neg a => unary I.neg (a.eval I)
  | square a => unary I.square (a.eval I)
  | pow a e => unary (I.pow · e) (a.eval I)
  | scale a k => unary (I.scale · k) (a.eval I)

end Expression

theorem binary_eq_ok {f : X → X → Checked X} {x y : Attempt FieldError X} {a b c : X}
    (hx : x = .ok a) (hy : y = .ok b) (hf : f a b = .ok c) : binary f x y = .ok c := by
  rw [binary, hx, hy, ok_bind, ok_bind, hf]
  rfl

theorem unary_eq_ok {f : X → Checked X} {x : Attempt FieldError X} {a b : X}
    (hx : x = .ok a) (hf : f a = .ok b) : unary f x = .ok b := by
  rw [unary, hx, ok_bind, hf]
  rfl

/-! ## What an implementation has to do -/

namespace Implementation

/-- An element of the field that `m` defines. -/
structure IsElement (I : Implementation L X) (m : ℕ) (x : X) : Prop where
  modulus_eq : I.modulus x = m
  value_lt : I.value x < m

/-- Expressions over literals that fit have the value of the integer expression, reduced modulo `m`.
If `m` is a prime, the quotient by a nonzero element is the only element whose product with it is
the dividend, and the power `m - 1` of a nonzero element is one. -/
structure Exact (I : Implementation L X) (m : ℕ) (number : L → ℕ) (Fits : L → Prop) : Prop where
  expression : ∀ e : Expression L, e.All Fits → ∃ x, e.eval I = .ok x ∧ I.IsElement m x ∧
    (I.value x : ℤ) = e.integer number % m
  quotient : m.Prime → ∀ a b, I.IsElement m a → I.IsElement m b → I.value b ≠ 0 →
    ∃ c, I.div a b = .ok c ∧ I.IsElement m c ∧ I.mul c b = .ok a ∧
      ∀ c', I.IsElement m c' → I.mul c' b = .ok a → c' = c
  power : m.Prime → ∀ b, I.IsElement m b → I.value b ≠ 0 →
    ∃ c, I.pow b (m - 1) = .ok c ∧ I.IsElement m c ∧ I.value c = 1

/-- The operations of a type of residues. -/
def ofArith [Arith F] (make : L → Except FieldError F) : Implementation L F where
  make := make
  modulus := Arith.modulus
  value := Arith.value
  add x y := .ofFault (Arith.add x y)
  sub x y := .ofFault (Arith.sub x y)
  mul x y := .ofFault (Arith.mul x y)
  div x y := .ofFault (Arith.div x y)
  neg x := .ok (Arith.neg x)
  square x := .ok (Arith.square x)
  pow x e := .ok (Arith.pow x e)
  scale x k := .ok (Arith.scale x k)

end Implementation

/-! ## Residues -/

section Residues

variable [Arith F] [LawfulArith F] {m : ℕ} {number : L → ℕ} {Fits : L → Prop}
variable {make : L → Except FieldError F}

/-- The evaluation ends in an element that denotes `a`. -/
def Evaluates (m : ℕ) (r : Attempt FieldError F) (a : ZMod m) : Prop :=
  ∃ x, r = .ok x ∧ Denotes m x a

omit [LawfulArith F] in
theorem Evaluates.binary {r r' : Attempt FieldError F} {a b c : ZMod m}
    {f : F → F → Except Fault F} (h : Evaluates m r a) (h' : Evaluates m r' b)
    (hf : ∀ x y, Denotes m x a → Denotes m y b → ∃ z, f x y = .ok z ∧ Denotes m z c) :
    Evaluates m (Field.binary (fun x y => .ofFault (f x y)) r r') c := by
  obtain ⟨x, hx, hxa⟩ := h
  obtain ⟨y, hy, hyb⟩ := h'
  obtain ⟨z, hz, hzc⟩ := hf x y hxa hyb
  exact ⟨z, binary_eq_ok hx hy (congrArg Checked.ofFault hz), hzc⟩

omit [LawfulArith F] in
theorem Evaluates.unary {r : Attempt FieldError F} {a c : ZMod m} {f : F → F}
    (h : Evaluates m r a) (hf : ∀ x, Denotes m x a → Denotes m (f x) c) :
    Evaluates m (Field.unary (fun x => .ok (f x)) r) c := by
  obtain ⟨x, hx, hxa⟩ := h
  exact ⟨f x, unary_eq_ok hx rfl, hf x hxa⟩

/-- Every operation keeps what the expression denotes. -/
theorem Expression.evaluates
    (hmake : ∀ l, Fits l → ∃ x, make l = .ok x ∧ Denotes m x (number l : ZMod m))
    (e : Expression L) (he : e.All Fits) :
    Evaluates m (e.eval (.ofArith make)) (e.integer number : ZMod m) := by
  induction e with
  | literal l =>
    obtain ⟨x, hx, hd⟩ := hmake l he
    rw [integer, Int.cast_natCast]
    exact ⟨x, congrArg Attempt.ofExcept hx, hd⟩
  | add a b iha ihb =>
    rw [integer, Int.cast_add]
    exact (iha he.1).binary (ihb he.2) fun x y hx hy => hx.add hy
  | sub a b iha ihb =>
    rw [integer, Int.cast_sub]
    exact (iha he.1).binary (ihb he.2) fun x y hx hy => hx.sub hy
  | mul a b iha ihb =>
    rw [integer, Int.cast_mul]
    exact (iha he.1).binary (ihb he.2) fun x y hx hy => hx.mul hy
  | neg a ih =>
    rw [integer, Int.cast_neg]
    exact (ih he).unary fun x hx => hx.neg
  | square a ih =>
    rw [integer, Int.cast_pow]
    exact (ih he).unary fun x hx => hx.square
  | pow a e ih =>
    rw [integer, Int.cast_pow]
    exact (ih he).unary fun x hx => hx.pow e
  | scale a k ih =>
    rw [integer, Int.cast_mul, Int.cast_natCast]
    exact (ih he).unary fun x hx => hx.scale k

/-- The representative of what an integer denotes is its remainder. -/
theorem Denotes.value_eq_emod {x : F} {n : ℤ} (h : Denotes m x (n : ZMod m)) :
    (Arith.value x : ℤ) = n % m := by
  have hlt := h.value_lt
  have hcong : ((Arith.value x : ℤ) : ZMod m) = (n : ZMod m) := by
    rw [Int.cast_natCast, h.2]
  rw [← (ZMod.intCast_eq_intCast_iff _ _ m).mp hcong, Int.emod_eq_of_lt (by omega) (by omega)]

omit [LawfulArith F] in
theorem Implementation.IsElement.denotes {x : F} (h : (ofArith make).IsElement m x) :
    Denotes m x (Arith.value x : ZMod m) :=
  denotes_value h.modulus_eq

theorem Denotes.isElement {x : F} {a : ZMod m} (h : Denotes m x a) :
    (Implementation.ofArith make).IsElement m x :=
  ⟨h.1, h.value_lt⟩

/-- A representative other than zero denotes an element other than zero. -/
theorem Denotes.ne_zero {x : F} {a : ZMod m} (h : Denotes m x a) (hx : Arith.value x ≠ 0) :
    a ≠ 0 := by
  rintro rfl
  apply hx
  rw [← h.val_eq, ZMod.val_zero]

theorem Implementation.exact_ofArith
    (hmake : ∀ l, Fits l → ∃ x, make l = .ok x ∧ Denotes m x (number l : ZMod m)) :
    (ofArith make).Exact m number Fits where
  expression e he := by
    obtain ⟨x, hx, hd⟩ := e.evaluates hmake he
    exact ⟨x, hx, hd.isElement, hd.value_eq_emod⟩
  quotient hprime a b ha hb hne := by
    have : Fact m.Prime := ⟨hprime⟩
    have hb0 := hb.denotes.ne_zero hne
    obtain ⟨c, hc, hcd⟩ := ha.denotes.div hb.denotes hb0
    -- the product of an element with `b` denotes what the dividend does only for the quotient
    have hmul : ∀ {x : F} {d : ZMod m}, Denotes m x d →
        (Arith.mul x b = .ok a ↔ d = (Arith.value a : ZMod m) / (Arith.value b : ZMod m)) := by
      intro x d hx
      obtain ⟨z, hz, hzd⟩ := hx.mul hb.denotes
      rw [hz, Except.ok.injEq, hzd.eq_iff ha.denotes, eq_div_iff hb0]
    refine ⟨c, congrArg Checked.ofFault hc, hcd.isElement, ?_, fun c' hc' hprod => ?_⟩
    · exact congrArg Checked.ofFault ((hmul hcd).mpr rfl)
    · exact (hc'.denotes.eq_iff hcd).mpr ((hmul hc'.denotes).mp (Checked.ofFault_eq_ok.mp hprod))
  power hprime b hb hne := by
    have : Fact m.Prime := ⟨hprime⟩
    have hpow := hb.denotes.pow (m - 1)
    rw [ZMod.pow_card_sub_one_eq_one (hb.denotes.ne_zero hne)] at hpow
    refine ⟨_, rfl, hpow.isElement, ?_⟩
    exact hpow.val_eq.symm.trans (ZMod.val_one m)

end Residues

/-! ## Steps in memory -/

/-- The elements of one implementation are held by those of another one, which does with them what
the first one does. -/
structure Holds (J : Implementation L F) (I : Implementation L X) (hold : F → X) : Prop where
  injective : Function.Injective hold
  onto : ∀ {m : ℕ} {x : X}, 1 < m → I.IsElement m x → ∃ y, hold y = x
  make : ∀ l, I.make l = hold <$> J.make l
  modulus : ∀ x, I.modulus (hold x) = J.modulus x
  value : ∀ x, I.value (hold x) = J.value x
  add : ∀ x y, I.add (hold x) (hold y) = hold <$> J.add x y
  sub : ∀ x y, I.sub (hold x) (hold y) = hold <$> J.sub x y
  mul : ∀ x y, I.mul (hold x) (hold y) = hold <$> J.mul x y
  div : ∀ x y, I.div (hold x) (hold y) = hold <$> J.div x y
  neg : ∀ x, I.neg (hold x) = hold <$> J.neg x
  square : ∀ x, I.square (hold x) = hold <$> J.square x
  pow : ∀ x e, I.pow (hold x) e = hold <$> J.pow x e
  scale : ∀ x k, I.scale (hold x) k = hold <$> J.scale x k

section Holds

variable {J : Implementation L F} {I : Implementation L X} {hold : F → X} {m : ℕ}
variable {number : L → ℕ} {Fits : L → Prop}

theorem binary_hold {f : X → X → Checked X} {g : F → F → Checked F}
    (h : ∀ x y, f (hold x) (hold y) = hold <$> g x y) (x y : Attempt FieldError F) :
    binary f (hold <$> x) (hold <$> y) = hold <$> binary g x y := by
  cases x with
  | error e => rfl
  | ok x =>
    cases y with
    | error e => rfl
    | ok y =>
      show Attempt.check (f (hold x) (hold y)) = hold <$> Attempt.check (g x y)
      rw [h]
      cases g x y <;> rfl

theorem unary_hold {f : X → Checked X} {g : F → Checked F}
    (h : ∀ x, f (hold x) = hold <$> g x) (x : Attempt FieldError F) :
    unary f (hold <$> x) = hold <$> unary g x := by
  cases x with
  | error e => rfl
  | ok x =>
    show Attempt.check (f (hold x)) = hold <$> Attempt.check (g x)
    rw [h]
    cases g x <;> rfl

/-- Both implementations evaluate an expression alike. -/
theorem Expression.eval_hold (h : Holds J I hold) (e : Expression L) :
    e.eval I = hold <$> e.eval J := by
  induction e with
  | literal l =>
    rw [eval, eval, h.make]
    cases J.make l <;> rfl
  | add a b iha ihb => rw [eval, eval, iha, ihb, binary_hold h.add]
  | sub a b iha ihb => rw [eval, eval, iha, ihb, binary_hold h.sub]
  | mul a b iha ihb => rw [eval, eval, iha, ihb, binary_hold h.mul]
  | neg a ih => rw [eval, eval, ih, unary_hold h.neg]
  | square a ih => rw [eval, eval, ih, unary_hold h.square]
  | pow a k ih => rw [eval, eval, ih, unary_hold (h.pow · k)]
  | scale a k ih => rw [eval, eval, ih, unary_hold (h.scale · k)]

theorem Holds.isElement_iff (h : Holds J I hold) {x : F} :
    I.IsElement m (hold x) ↔ J.IsElement m x := by
  constructor
  · rintro ⟨hmodulus, hlt⟩
    exact ⟨h.modulus x ▸ hmodulus, h.value x ▸ hlt⟩
  · rintro ⟨hmodulus, hlt⟩
    exact ⟨(h.modulus x).trans hmodulus, (h.value x).trans_lt hlt⟩

theorem Holds.map_eq_ok (h : Holds J I hold) {r : Checked F} {x : F} :
    hold <$> r = .ok (hold x) ↔ r = .ok x := by
  cases r with
  | error e => simp
  | ok y => simp [h.injective.eq_iff]

/-- What holds the elements of an exact implementation is exact. -/
theorem Holds.exact (h : Holds J I hold) (hJ : J.Exact m number Fits) : I.Exact m number Fits where
  expression e he := by
    obtain ⟨x, hx, hel, hvalue⟩ := hJ.expression e he
    refine ⟨hold x, ?_, h.isElement_iff.mpr hel, ?_⟩
    · rw [e.eval_hold h, hx]
      rfl
    · rw [h.value, hvalue]
  quotient hprime a b ha hb hne := by
    obtain ⟨a, rfl⟩ := h.onto hprime.one_lt ha
    obtain ⟨b, rfl⟩ := h.onto hprime.one_lt hb
    rw [h.isElement_iff] at ha hb
    rw [h.value] at hne
    obtain ⟨c, hc, hel, hprod, hunique⟩ := hJ.quotient hprime a b ha hb hne
    refine ⟨hold c, ?_, h.isElement_iff.mpr hel, ?_, fun c' hc' hprod' => ?_⟩
    · rw [h.div, hc]
      rfl
    · rw [h.mul, hprod]
      rfl
    · obtain ⟨c', rfl⟩ := h.onto hprime.one_lt hc'
      rw [h.isElement_iff] at hc'
      rw [h.mul] at hprod'
      exact congrArg hold (hunique c' hc' (h.map_eq_ok.mp hprod'))
  power hprime b hb hne := by
    obtain ⟨b, rfl⟩ := h.onto hprime.one_lt hb
    rw [h.isElement_iff] at hb
    rw [h.value] at hne
    obtain ⟨c, hc, hel, hone⟩ := hJ.power hprime b hb hne
    refine ⟨hold c, ?_, h.isElement_iff.mpr hel, (h.value c).trans hone⟩
    rw [h.pow, hc]
    rfl

end Holds

/-! ## The implementations -/

/-- The ways to make a residue of any size: from a number that is reduced already, from any number,
and from a word. -/
inductive Literal where
  | element (n : ℕ)
  | reduce (n : ℕ)
  | word (k : UInt64)

namespace Literal

def number : Literal → ℕ
  | element n | reduce n => n
  | word k => k.toNat

/-- Only the first way refuses numbers. -/
def Fits (m : ℕ) : Literal → Prop
  | element n => n < m
  | reduce _ | word _ => True

def make (M : Modulus) : Literal → Except FieldError Residue
  | element n => M.element n
  | reduce n => .ok (M.reduce n)
  | word k => .ok (M.reduce k.toNat)

theorem exists_make {M : Modulus} {l : Literal} (h : l.Fits M.val) :
    ∃ x, l.make M = .ok x ∧ Denotes M.val x (l.number : ZMod M.val) := by
  cases l with
  | element n => exact ⟨_, dif_pos h, rfl, rfl⟩
  | reduce n => exact ⟨_, rfl, rfl, ZMod.natCast_mod n M.val⟩
  | word k => exact ⟨_, rfl, rfl, ZMod.natCast_mod k.toNat M.val⟩

end Literal

/-- Residues of any size. -/
def residues (M : Modulus) : Implementation Literal Residue :=
  .ofArith (Literal.make M)

/-- Residues in words, made from numbers that are reduced already. -/
def words (m : UInt64) : Implementation UInt64 WordResidue :=
  .ofArith (WordResidue.ofNat · m)

/-- Residues of any size in memory. -/
def elements (M : Modulus) : Implementation Literal Element where
  make l := Residue.held <$> l.make M
  modulus := Element.modulus
  value := Element.value
  add := Element.add
  sub := Element.sub
  mul := Element.mul
  div := Element.div
  neg := Element.neg
  square := Element.square
  pow := Element.pow
  scale := Element.scale

/-- Residues in words in memory. -/
def wordElements (m : UInt64) : Implementation UInt64 WordElement where
  make v := WordResidue.held <$> WordResidue.ofNat v m
  modulus x := x.modulus.toNat
  value x := x.value.toNat
  add := WordElement.add
  sub := WordElement.sub
  mul := WordElement.mul
  div := WordElement.div
  neg := WordElement.neg
  square := WordElement.square
  pow := WordElement.pow
  scale := WordElement.scale

theorem elements_hold (M : Modulus) : Holds (residues M) (elements M) Residue.held where
  injective _ _ h := Element.held_inj.mp h
  onto {m x} hm hx := by
    obtain ⟨rfl, hlt⟩ := hx
    exact ⟨⟨⟨x.modulus, hm⟩, x.value, hlt⟩, rfl⟩
  make _ := rfl
  modulus _ := rfl
  value _ := rfl
  add x y := (Element.add_held x y).trans (Checked.ofFault_map _ _)
  sub x y := (Element.sub_held x y).trans (Checked.ofFault_map _ _)
  mul x y := (Element.mul_held x y).trans (Checked.ofFault_map _ _)
  div x y := (Element.div_held x y).trans (Checked.ofFault_map _ _)
  neg x := Element.neg_held x
  square x := Element.square_held x
  pow x e := Element.pow_held x e
  scale x k := Element.scale_held x k

theorem wordElements_hold (m : UInt64) : Holds (words m) (wordElements m) WordResidue.held where
  injective x y h := by
    obtain ⟨hm, hv⟩ := WordElement.mk.inj h
    exact LawfulArith.ext (congrArg UInt64.toNat hm) (congrArg UInt64.toNat hv)
  onto {m x} hm hx := by
    obtain ⟨rfl, hlt⟩ := hx
    exact ⟨⟨x.modulus, x.value, UInt64.lt_iff_toNat_lt.mpr hm, UInt64.lt_iff_toNat_lt.mpr hlt⟩, rfl⟩
  make _ := rfl
  modulus _ := rfl
  value _ := rfl
  add x y := (WordElement.add_held x y).trans (Checked.ofFault_map _ _)
  sub x y := (WordElement.sub_held x y).trans (Checked.ofFault_map _ _)
  mul x y := (WordElement.mul_held x y).trans (Checked.ofFault_map _ _)
  div x y := (WordElement.div_held x y).trans (Checked.ofFault_map _ _)
  neg x := WordElement.neg_held x
  square x := WordElement.square_held x
  pow x e := WordElement.pow_held x e
  scale x k := WordElement.scale_held x k

theorem exists_word {m v : UInt64} (hm : 1 < m) (hv : v.toNat < m.toNat) :
    ∃ x, WordResidue.ofNat v m = .ok x ∧ Denotes m.toNat x (v.toNat : ZMod m.toNat) := by
  have hlt : v < m := UInt64.lt_iff_toNat_lt.mpr hv
  refine ⟨⟨m, v, hm, hlt⟩, ?_, rfl, rfl⟩
  rw [WordResidue.ofNat, dif_pos hm, dif_pos hlt]

/-- Field elements are exact modulo every number above one, as residues of any size, and, if the
modulus fits into a word, as residues in words; so are the steps in memory, none of which leaves its
range. -/
theorem expressionsExact (m : ℕ) (hm : 2 ≤ m) :
    (∃ M, Modulus.ofNat m = .ok M ∧ (residues M).Exact m Literal.number (Literal.Fits m) ∧
      (elements M).Exact m Literal.number (Literal.Fits m)) ∧
    ∀ w : UInt64, w.toNat = m → (words w).Exact m UInt64.toNat (fun v => v.toNat < m) ∧
      (wordElements w).Exact m UInt64.toNat fun v => v.toNat < m := by
  constructor
  · have hexact : (residues ⟨m, hm⟩).Exact m Literal.number (Literal.Fits m) :=
      Implementation.exact_ofArith fun l => Literal.exists_make (M := ⟨m, hm⟩) (l := l)
    exact ⟨⟨m, hm⟩, dif_pos hm, hexact, (elements_hold _).exact hexact⟩
  · rintro w rfl
    have hw : 1 < w := UInt64.lt_iff_toNat_lt.mpr hm
    have hexact : (words w).Exact w.toNat UInt64.toNat fun v => v.toNat < w.toNat :=
      Implementation.exact_ofArith fun v => exists_word hw
    exact ⟨hexact, (wordElements_hold w).exact hexact⟩

/-- Modulo 31, the negative cube of 100 is 29, and three by 24 is four. -/
theorem expressionsExact_thirtyOne :
    let cube : Expression Literal := .neg (.pow (.literal (.reduce 100)) 3)
    let three : WordResidue := ⟨31, 3, by decide, by decide⟩
    let four : WordResidue := ⟨31, 4, by decide, by decide⟩
    let twentyFour : WordResidue := ⟨31, 24, by decide, by decide⟩
    2 ≤ 31 ∧ (∃ M, Modulus.ofNat 31 = .ok M ∧
      ∃ x, cube.eval (residues M) = .ok x ∧ (x.value : ℤ) = 29) ∧
    (words 31).div three twentyFour = .ok four := by
  intro cube three four twentyFour
  have hm : 2 ≤ 31 := by decide
  obtain ⟨⟨M, hM, hresidues, -⟩, hwords⟩ := expressionsExact 31 hm
  refine ⟨hm, ⟨M, hM, ?_⟩, ?_⟩
  · obtain ⟨x, hx, -, hvalue⟩ := hresidues.expression cube trivial
    exact ⟨x, hx, hvalue.trans (by decide)⟩
  · obtain ⟨c, hc, -, -, hunique⟩ := (hwords 31 rfl).1.quotient (by decide +kernel) three twentyFour
      ⟨rfl, by decide⟩ ⟨rfl, by decide⟩ (by decide)
    rw [hc, hunique four ⟨rfl, by decide⟩ (by decide +kernel)]

end SpendScript.Field
