import SpendScript.Field.Arith
import SpendScript.Number.Binary

/-!
# Residues in a machine word

Integers modulo a number that fits in 64 bits. Sums and products are taken in 128 bits and then
reduced, so that no step overflows even for a modulus close to `2 ^ 64`.

* `WordResidue.ofNat`: the range check.
* `WordResidue.mulMod`, `WordResidue.addMod`: the two wide steps.
-/

namespace SpendScript.Field

/-- An integer modulo a 64-bit `modulus`, by its least representative. -/
structure WordResidue where
  modulus : UInt64
  value : UInt64
  one_lt : 1 < modulus
  value_lt : value < modulus
deriving DecidableEq

namespace WordResidue

/-! ## Wide steps -/

/-- A 128-bit intermediate result. -/
abbrev Wide := BitVec 128

/-- A word in 128 bits. -/
def widen (a : UInt64) : Wide :=
  a.toBitVec.setWidth 128

/-- The low 64 bits. -/
def narrow (w : Wide) : UInt64 :=
  UInt64.ofBitVec (w.setWidth 64)

/-- The remainder of a wide number by a word. -/
def reduceWide (w : Wide) (m : UInt64) : UInt64 :=
  narrow (w % widen m)

theorem toNat_widen (a : UInt64) : (widen a).toNat = a.toNat := by
  have h : a.toNat < 2 ^ 128 := Nat.lt_trans a.toNat_lt (by decide)
  unfold widen
  rw [BitVec.toNat_setWidth]
  exact Nat.mod_eq_of_lt h

theorem toNat_reduceWide (w : Wide) {m : UInt64} (hm : 0 < m) :
    (reduceWide w m).toNat = w.toNat % m.toNat := by
  have hpos : 0 < m.toNat := by simpa [UInt64.lt_iff_toNat_lt] using hm
  have hlt : w.toNat % m.toNat < 2 ^ 64 := Nat.lt_trans (Nat.mod_lt _ hpos) m.toNat_lt
  have : (reduceWide w m).toNat = (w.toNat % (widen m).toNat) % 2 ^ 64 := by
    simp [reduceWide, narrow, BitVec.toNat_umod]
  rw [this, toNat_widen, Nat.mod_eq_of_lt hlt]

theorem reduceWide_lt (w : Wide) {m : UInt64} (hm : 0 < m) : reduceWide w m < m := by
  have hpos : 0 < m.toNat := by simpa [UInt64.lt_iff_toNat_lt] using hm
  rw [UInt64.lt_iff_toNat_lt, toNat_reduceWide w hm]
  exact Nat.mod_lt _ hpos

/-- The sum modulo `m`. -/
def addMod (a b m : UInt64) : UInt64 :=
  reduceWide (widen a + widen b) m

/-- The product modulo `m`. -/
def mulMod (a b m : UInt64) : UInt64 :=
  reduceWide (widen a * widen b) m

/-- The difference modulo `m` of two words below `m`, without leaving the word. -/
def subMod (a b m : UInt64) : UInt64 :=
  if b ≤ a then a - b else m - (b - a)

theorem subMod_lt {a b m : UInt64} (ha : a < m) (hb : b < m) : subMod a b m < m := by
  rw [UInt64.lt_iff_toNat_lt] at ha hb ⊢
  unfold subMod
  split
  · rename_i h
    rw [UInt64.toNat_sub_of_le _ _ h]
    omega
  · rename_i h
    rw [UInt64.le_iff_toNat_le] at h
    have hab : a ≤ b := by rw [UInt64.le_iff_toNat_le]; omega
    have hsub : (b - a).toNat = b.toNat - a.toNat := UInt64.toNat_sub_of_le _ _ hab
    have hbm : b - a ≤ m := by rw [UInt64.le_iff_toNat_le, hsub]; omega
    rw [UInt64.toNat_sub_of_le _ _ hbm, hsub]
    omega

/-- Square-and-multiply over the digits of an exponent. -/
def powLadder (m : UInt64) : List Bool → UInt64 → UInt64 → UInt64
  | [], acc, _ => acc
  | b :: bs, acc, base =>
    powLadder m bs (if b then mulMod acc base m else acc) (mulMod base base m)

theorem powLadder_lt {m : UInt64} (hm : 0 < m) :
    ∀ (ds : List Bool) {acc base : UInt64}, acc < m → powLadder m ds acc base < m
  | [], _, _, h => h
  | b :: bs, acc, base, h => by
    refine powLadder_lt hm bs ?_
    cases b
    · exact h
    · exact reduceWide_lt _ hm

/-! ## Elements -/

theorem modulus_pos (a : WordResidue) : 0 < a.modulus := by
  have h := a.one_lt
  rw [UInt64.lt_iff_toNat_lt] at h ⊢
  exact Nat.lt_of_le_of_lt (Nat.zero_le _) h

/-- The element with representative `value`, which has to be reduced already. -/
def ofNat (value modulus : UInt64) : Except FieldError WordResidue :=
  if hm : 1 < modulus then
    if hv : value < modulus then .ok ⟨modulus, value, hm, hv⟩
    else .error (.valueOutOfRange value.toNat modulus.toNat)
  else .error (.invalidModulus modulus.toNat)

/-- The element of the same modulus with another representative. -/
def withValue (a : WordResidue) (value : UInt64) (h : value < a.modulus) : WordResidue :=
  ⟨a.modulus, value, a.one_lt, h⟩

/-! ## Arithmetic -/

def add (a b : WordResidue) : Except Fault WordResidue :=
  if a.modulus = b.modulus then
    .ok (a.withValue (addMod a.value b.value a.modulus) (reduceWide_lt _ a.modulus_pos))
  else .error .mixedModuli

def sub (a b : WordResidue) : Except Fault WordResidue :=
  if h : a.modulus = b.modulus then
    .ok (a.withValue (subMod a.value b.value a.modulus) (subMod_lt a.value_lt (h ▸ b.value_lt)))
  else .error .mixedModuli

def mul (a b : WordResidue) : Except Fault WordResidue :=
  if a.modulus = b.modulus then
    .ok (a.withValue (mulMod a.value b.value a.modulus) (reduceWide_lt _ a.modulus_pos))
  else .error .mixedModuli

theorem one_mod_lt (a : WordResidue) : 1 % a.modulus < a.modulus := by
  have h := a.modulus_pos
  rw [UInt64.lt_iff_toNat_lt] at h ⊢
  rw [UInt64.toNat_mod]
  exact Nat.mod_lt _ h

def pow (a : WordResidue) (e : Nat) : WordResidue :=
  a.withValue (powLadder a.modulus (Number.bits e) (1 % a.modulus) a.value)
    (powLadder_lt a.modulus_pos _ a.one_mod_lt)

/-- The product with the power `modulus - 2` of the divisor. -/
def div (a b : WordResidue) : Except Fault WordResidue :=
  if a.modulus ≠ b.modulus then .error .mixedModuli
  else if b.value = 0 then .error .divisionByZero
  else a.mul (b.pow (a.modulus - 2).toNat)

def scale (a : WordResidue) (k : UInt64) : WordResidue :=
  a.withValue (mulMod a.value (k % a.modulus) a.modulus) (reduceWide_lt _ a.modulus_pos)

/-- The product with the scalar zero. -/
def zero (a : WordResidue) : WordResidue :=
  a.scale 0

def neg (a : WordResidue) : WordResidue :=
  a.withValue (subMod a.zero.value a.value a.modulus) (subMod_lt a.zero.value_lt a.value_lt)

def square (a : WordResidue) : WordResidue :=
  a.withValue (mulMod a.value a.value a.modulus) (reduceWide_lt _ a.modulus_pos)

/-- Decimal digits. -/
def text (a : WordResidue) : String :=
  toString a.value.toNat

instance : Arith WordResidue where
  value a := a.value.toNat
  modulus a := a.modulus.toNat
  zero := WordResidue.zero
  add := WordResidue.add
  sub := WordResidue.sub
  mul := WordResidue.mul
  div := WordResidue.div
  neg := WordResidue.neg
  square := WordResidue.square
  pow := WordResidue.pow
  scale := WordResidue.scale
  text := WordResidue.text

end WordResidue

end SpendScript.Field
