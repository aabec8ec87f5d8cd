import Mathlib.Algebra.Group.Nat.Defs
import Mathlib.Data.List.Basic
import Mathlib.Data.List.Induction
import Mathlib.Data.Nat.Notation
import Mathlib.Data.Nat.Size
import SpendScript.Bytes
import SpendScript.Number.Binary

/-!
# Numbers and their bytes

Results:
* `Bytes.toNat_digits`, `Bytes.toNat_ofNat`, `Bytes.toNat_padLeft`: the bytes of a number spell it,
  also after padding.
* `Bytes.head_digits`: the first digit is not zero. `Bytes.digits_toNat`: and bytes whose first one
  is not zero are the digits of what they spell.
* `Bytes.toNat_inj`, `Bytes.padLeft_ofNat_toNat`: byte strings of one length with the same value are
  the same, so padding to a width does not lose how the value was spelled.
* `Bytes.toNatLE_ofNatLE`, `Bytes.ofNatLE_toNatLE`: in a fixed width, lowest byte first, numbers and
  byte strings are the same.
* `Bytes.toNatLE_reverse`: the two orders are reverse to each other.
* `Number.byteLength_le_iff`: the byte length of a number is the fewest bytes that hold it.
-/

namespace SpendScript

namespace Bytes

theorem toNat_append (bs cs : Bytes) :
    toNat (bs ++ cs) = cs.foldl (fun n b => n * 256 + b.toNat) (toNat bs) :=
  List.foldl_append

theorem toNat_concat (bs : Bytes) (b : UInt8) : toNat (bs ++ [b]) = toNat bs * 256 + b.toNat := by
  rw [toNat_append]
  rfl

theorem toNat_zero_cons (bs : Bytes) : toNat (0 :: bs) = toNat bs := by
  show List.foldl _ (0 * 256 + 0) bs = _
  rw [Nat.zero_mul]
  rfl

theorem digits_zero : digits 0 = [] := by
  unfold digits
  rfl

theorem digits_of_pos {n : ℕ} (h : 0 < n) : digits n = digits (n / 256) ++ [UInt8.ofNat n] := by
  rw [digits, if_neg (by omega)]

theorem toNat_digits (n : ℕ) : toNat (digits n) = n := by
  induction n using Nat.strongRecOn with
  | ind n ih =>
    by_cases h : n = 0
    · rw [h, digits_zero]
      rfl
    · rw [digits_of_pos (by omega), toNat_concat, ih (n / 256) (by omega), UInt8.toNat_ofNat']
      omega

theorem toNat_ofNat (n : ℕ) : toNat (ofNat n) = n := by
  unfold ofNat
  split_ifs with h
  · rw [h]
    rfl
  · exact toNat_digits n

theorem toNat_padLeft (width : ℕ) (bs : Bytes) : toNat (padLeft width bs) = toNat bs := by
  have hzeros : ∀ k, toNat (List.replicate k 0) = 0 := by
    intro k
    induction k with
    | zero => rfl
    | succ k ih =>
      rw [List.replicate_succ', toNat_concat, ih]
      rfl
  rw [padLeft, toNat_append, hzeros]
  rfl

theorem digits_ne_nil {n : ℕ} (h : 0 < n) : digits n ≠ [] := by
  rw [digits_of_pos h]
  exact List.append_ne_nil_of_right_ne_nil _ (List.cons_ne_nil _ _)

/-- The first digit of a number is not zero. -/
theorem head_digits {n : ℕ} {b : UInt8} {bs : Bytes} (h : digits n = b :: bs) : b ≠ 0 := by
  induction n using Nat.strongRecOn generalizing b bs with
  | ind n ih =>
    have hpos : 0 < n := by
      by_contra h0
      rw [show n = 0 by omega, digits_zero] at h
      cases h
    rw [digits_of_pos hpos] at h
    by_cases hsmall : n / 256 = 0
    · rw [hsmall, digits_zero, List.nil_append, List.cons.injEq] at h
      rw [← h.1, ne_eq, ← UInt8.toNat_inj, UInt8.toNat_ofNat']
      have : (0 : UInt8).toNat = 0 := rfl
      omega
    · obtain ⟨c, cs, hcs⟩ := List.exists_cons_of_ne_nil (digits_ne_nil (n := n / 256) (by omega))
      rw [hcs, List.cons_append, List.cons.injEq] at h
      rw [← h.1]
      exact ih (n / 256) (by omega) hcs

theorem toNat_lt (bs : Bytes) : toNat bs < 256 ^ bs.length := by
  induction bs using List.reverseRecOn with
  | nil => decide
  | append_singleton bs b ih =>
    have := b.toNat_lt
    rw [toNat_concat, List.length_append, List.length_singleton, pow_succ]
    omega

/-- Byte strings of one length spell different numbers. -/
theorem toNat_inj {bs cs : Bytes} (hlen : bs.length = cs.length) (h : toNat bs = toNat cs) :
    bs = cs := by
  induction bs using List.reverseRecOn generalizing cs with
  | nil => exact (List.length_eq_zero_iff.mp hlen.symm).symm
  | append_singleton bs b ih =>
    rcases List.eq_nil_or_concat' cs with rfl | ⟨cs, c, rfl⟩
    · simp at hlen
    · have hb := b.toNat_lt
      have hc := c.toNat_lt
      rw [toNat_concat, toNat_concat] at h
      rw [List.length_append, List.length_append, List.length_singleton, List.length_singleton,
        Nat.add_right_cancel_iff] at hlen
      rw [ih hlen (by omega), UInt8.toNat.inj (show b.toNat = c.toNat by omega)]

/-- Bytes that do not begin with zero are the digits of their value, which is positive. -/
theorem digits_toNat {b : UInt8} (hb : b ≠ 0) (bs : Bytes) :
    0 < toNat (b :: bs) ∧ digits (toNat (b :: bs)) = b :: bs := by
  induction bs using List.reverseRecOn with
  | nil =>
    have hpos : 0 < b.toNat := Nat.pos_of_ne_zero fun h => hb (UInt8.toNat.inj h)
    have hlt := b.toNat_lt
    have hvalue : toNat [b] = b.toNat := Nat.zero_add _
    rw [hvalue]
    refine ⟨hpos, ?_⟩
    rw [digits_of_pos hpos, Nat.div_eq_of_lt hlt, digits_zero, UInt8.ofNat_toNat]
    rfl
  | append_singleton bs c ih =>
    have hc := c.toNat_lt
    have hvalue : toNat (b :: (bs ++ [c])) = toNat (b :: bs) * 256 + c.toNat :=
      toNat_concat (b :: bs) c
    have hlow : UInt8.ofNat (toNat (b :: bs) * 256 + c.toNat) = c := by
      apply UInt8.toNat.inj
      rw [UInt8.toNat_ofNat']
      omega
    have hhigh : (toNat (b :: bs) * 256 + c.toNat) / 256 = toNat (b :: bs) := by omega
    rw [hvalue]
    refine ⟨by omega, ?_⟩
    rw [digits_of_pos (by omega), hhigh, ih.2, hlow]
    rfl

/-- A number in a fixed width is spelled as any string of at most that width that has its value,
after padding. -/
theorem padLeft_ofNat_toNat {width : ℕ} {bs : Bytes} (hpos : 0 < width) (hlen : bs.length ≤ width) :
    padLeft width (ofNat (toNat bs)) = padLeft width bs := by
  have hlt : toNat bs < Nat.pow 256 width :=
    Nat.lt_of_lt_of_le (toNat_lt bs) (Nat.pow_le_pow_right (by decide) hlen)
  refine toNat_inj ?_ ?_
  · rw [length_padLeft (length_ofNat_le hpos hlt), length_padLeft hlen]
  · rw [toNat_padLeft, toNat_padLeft, toNat_ofNat]

/-! ## Lowest byte first -/

theorem length_ofNatLE (width n : ℕ) : (ofNatLE width n).length = width := by
  induction width generalizing n with
  | zero => rfl
  | succ width ih => rw [ofNatLE, List.length_cons, ih]

theorem toNatLE_ofNatLE {width n : ℕ} (h : n < 256 ^ width) : toNatLE (ofNatLE width n) = n := by
  induction width generalizing n with
  | zero =>
    rw [pow_zero, Nat.lt_one_iff] at h
    rw [h]
    rfl
  | succ width ih =>
    have hdiv : n / 256 < 256 ^ width := Nat.div_lt_of_lt_mul (by rwa [← pow_succ'])
    rw [ofNatLE, toNatLE, ih hdiv, UInt8.toNat_ofNat']
    omega

theorem toNatLE_lt (bs : Bytes) : toNatLE bs < 256 ^ bs.length := by
  induction bs with
  | nil => decide
  | cons b bs ih =>
    have := b.toNat_lt
    rw [toNatLE, List.length_cons, pow_succ']
    omega

theorem ofNatLE_toNatLE (bs : Bytes) : ofNatLE bs.length (toNatLE bs) = bs := by
  induction bs with
  | nil => rfl
  | cons b bs ih =>
    have hb := b.toNat_lt
    have hdiv : (b.toNat + 256 * toNatLE bs) / 256 = toNatLE bs := by omega
    have hlow : UInt8.ofNat (b.toNat + 256 * toNatLE bs) = b := by
      apply UInt8.toNat.inj
      rw [UInt8.toNat_ofNat']
      omega
    rw [List.length_cons, toNatLE, ofNatLE, hdiv, ih, hlow]

theorem toNatLE_concat (bs : Bytes) (b : UInt8) :
    toNatLE (bs ++ [b]) = toNatLE bs + 256 ^ bs.length * b.toNat := by
  induction bs with
  | nil =>
    rw [List.nil_append, toNatLE, List.length_nil, pow_zero, Nat.one_mul, Nat.add_comm]
    rfl
  | cons c bs ih =>
    rw [List.cons_append, toNatLE, ih, toNatLE, List.length_cons, pow_succ', Nat.mul_add,
      Nat.mul_assoc, Nat.add_assoc]

/-! ## Both orders -/

theorem toNatLE_reverse (bs : Bytes) : toNatLE bs.reverse = toNat bs := by
  induction bs using List.reverseRecOn with
  | nil => rfl
  | append_singleton bs b ih =>
    rw [List.reverse_append, List.reverse_singleton, List.singleton_append, toNatLE, ih,
      toNat_concat]
    omega

theorem toNat_reverse (bs : Bytes) : toNat bs.reverse = toNatLE bs := by
  rw [← toNatLE_reverse, List.reverse_reverse]

/-- Bytes that do not end with zero are the digits of what they spell, lowest first. -/
theorem reverse_digits_toNatLE {b : UInt8} (hb : b ≠ 0) (bs : Bytes) :
    (digits (toNatLE (bs ++ [b]))).reverse = bs ++ [b] := by
  have h := (digits_toNat hb bs.reverse).2
  rw [← List.reverse_concat, toNat_reverse] at h
  rw [h, List.reverse_reverse]

/-- The digits of a positive number, lowest first, end with one that is not zero. -/
theorem exists_reverse_digits {n : ℕ} (h : 0 < n) : ∃ init last, last ≠ 0 ∧
    (digits n).reverse = init ++ [last] ∧ n = toNatLE init + 256 ^ init.length * last.toNat := by
  obtain ⟨last, rest, hdigits⟩ := List.exists_cons_of_ne_nil (digits_ne_nil h)
  refine ⟨rest.reverse, last, head_digits hdigits, ?_, ?_⟩
  · rw [hdigits, List.reverse_cons]
  · rw [← toNatLE_concat, ← List.reverse_cons, ← hdigits, toNatLE_reverse, toNat_digits]

end Bytes

/-! ## Lengths of numbers -/

namespace Number

theorem bitLength_eq_size (n : ℕ) : bitLength n = n.size := by
  unfold bitLength
  split_ifs with h
  · rw [h]
    rfl
  · exact Nat.le_antisymm (Nat.lt_size.mpr (Nat.log2_self_le h)) (Nat.size_le.mpr Nat.lt_log2_self)

theorem byteLength_le_iff {n k : ℕ} : byteLength n ≤ k ↔ n < 256 ^ k := by
  have hbits : byteLength n ≤ k ↔ bitLength n ≤ 8 * k := by
    unfold byteLength
    omega
  have hpow : 2 ^ (8 * k) = 256 ^ k := pow_mul 2 8 k
  rw [hbits, bitLength_eq_size, Nat.size_le, hpow]

end Number

end SpendScript
