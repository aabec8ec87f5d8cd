import Mathlib.Algebra.Group.Int.Defs
import Mathlib.Algebra.Group.Nat.Defs
import Mathlib.Data.List.Basic
import Mathlib.Tactic.SplitIfs
import SpendScript.Engine.Operation
import SpendScript.Proofs.Machine.Checked
import SpendScript.Script.Number

/-!
# Numbers of the machine

The machine reads a number from its highest byte down and calculates in 64 bits. Its operands have
four bytes at most, so neither the reader nor an opcode leaves the range.

* `Machine.readNumber`: the reader of operands, with its index and its sums.
* `Machine.unary`, `Machine.binary`: the functions of the numeric opcodes in 64 bits.

Results:
* `Machine.readNumber_eq`: the reader gives what `ScriptNumber.decode` gives.
* `ScriptNumber.natAbs_lt_of_decode`: operands have 31 bits and a sign.
* `Machine.unary_eq`, `Machine.binary_eq`: on operands the functions stay in 64 bits.
-/

namespace SpendScript

namespace ScriptNumber

variable {bs : Bytes} {n : ℤ}

/-! ## The last byte -/

theorem isShortest_concat_concat (init : Bytes) (a b : UInt8) :
    isShortest (init ++ [a, b]) = (b.toNat % 128 != 0 || decide (128 ≤ a)) := by
  induction init with
  | nil => rfl
  | cons c init ih =>
    obtain ⟨d, e, rest, hrest⟩ : ∃ d e rest, init ++ [a, b] = d :: e :: rest := by
      match init with
      | [] => exact ⟨a, b, [], rfl⟩
      | [d] => exact ⟨d, a, [b], rfl⟩
      | d :: e :: init => exact ⟨d, e, init ++ [a, b], rfl⟩
    rw [List.cons_append, ← ih, hrest]
    rfl

theorem isNegative_concat (init : Bytes) (b : UInt8) :
    isNegative (init ++ [b]) = decide (128 ≤ b) := by
  induction init with
  | nil => rfl
  | cons c init ih =>
    rw [List.cons_append, isNegative]
    · exact ih
    · simp

theorem magnitude_cons_concat (c : UInt8) (init : Bytes) (b : UInt8) :
    magnitude (c :: (init ++ [b])) = c.toNat + 256 * magnitude (init ++ [b]) := by
  rw [magnitude]
  simp

theorem magnitude_concat_lt (init : Bytes) (b : UInt8) :
    magnitude (init ++ [b]) < 128 * 256 ^ init.length := by
  induction init with
  | nil => exact Nat.mod_lt _ (by decide)
  | cons c init ih =>
    have hc := c.toNat_lt
    rw [List.cons_append, magnitude_cons_concat, List.length_cons, Nat.pow_succ]
    omega

theorem decode_eq_ok (h : decode bs = .ok n) : bs.length ≤ Limits.numberSize ∧ n = value bs := by
  unfold decode at h
  split_ifs at h with hlen
  rw [Except.ok.injEq] at h
  exact ⟨Nat.not_lt.mp hlen, h.symm⟩

/-- Operands have 31 bits and a sign. -/
theorem natAbs_lt_of_decode (h : decode bs = .ok n) : n.natAbs < 0x80000000 := by
  obtain ⟨hlen, rfl⟩ := decode_eq_ok h
  have hmagnitude : magnitude bs < 0x80000000 := by
    rcases List.eq_nil_or_concat' bs with rfl | ⟨init, last, rfl⟩
    · exact Nat.two_pow_pos 31
    · rw [List.length_append, List.length_singleton, Limits.numberSize] at hlen
      have hlt := magnitude_concat_lt init last
      have hpow : 256 ^ init.length ≤ 256 ^ 3 := Nat.pow_le_pow_right (by decide) (by omega)
      omega
  unfold value
  split_ifs
  · rwa [Int.natAbs_neg, Int.natAbs_natCast]
  · rwa [Int.natAbs_natCast]

/-! ## Lengths -/

theorem length_withSign_le (negative : Bool) (bs : Bytes) :
    (withSign negative bs).length ≤ bs.length + 1 := by
  induction bs with
  | nil => exact Nat.zero_le 1
  | cons b bs ih =>
    cases bs with
    | nil =>
      rw [withSign]
      split_ifs <;> simp
    | cons c bs =>
      rw [withSign]
      · exact Nat.succ_le_succ ih
      · exact nofun

theorem length_encode_le (h : n.natAbs < Nat.pow 256 8) : (encode n).length ≤ 9 := by
  have hsign := length_withSign_le (n < 0) (Bytes.digits n.natAbs).reverse
  have hdigits := Bytes.length_digits_le h
  rw [List.length_reverse] at hsign
  unfold encode
  omega

end ScriptNumber

namespace Machine

open SpendScript.Attempt (fail check check_ok ofExcept)
open SpendScript.Checked (int64)

/-! ## Operands -/

/-- Refuses a number whose last byte is not needed. -/
def checkMinimal (bs : Bytes) : Attempt ScriptError Unit :=
  match bs.getLast? with
  | none => return
  | some last =>
    if last.toNat % 128 = 0 then
      if bs.length = 1 then fail (.numberNotMinimal bs)
      else do
        let i ← check (Checked.sub bs.length 2)
        let below ← check (Checked.item bs i)
        if below < 128 then fail (.numberNotMinimal bs) else return
    else return

/-- A shift by one byte in 64 bits, of which one is for the sign. What is shifted out is lost. -/
def shift (n : ℤ) : ℤ :=
  (n * 256).bmod Number.wordSize

/-- The number with the given last byte and the bytes `rest` below it. -/
def assemble (rest : Bytes) (last : UInt8) : Checked ℤ := do
  let negative ← int64 (2 * (last.toNat / 128 : ℕ))
  let sign ← int64 (1 - negative)
  let magnitude ← rest.reverse.foldlM (fun (n : ℤ) b => int64 (shift n + b.toNat))
    (last.toNat % 128 : ℕ)
  int64 (magnitude * sign)

/-- Reads an operand. -/
def readNumber (bs : Bytes) : Attempt ScriptError ℤ :=
  if Limits.numberSize < bs.length then fail (.numberTooBig bs)
  else do
    checkMinimal bs
    match bs.getLast? with
    | none => return 0
    | some last => check (assemble bs.dropLast last)

/-- Reads an operand of 32 bits. That it may not fit is an error of its own, which would not be
reported as one of the others: here it counts as a panic. -/
def readInt32 (bs : Bytes) : Attempt ScriptError ℤ := do
  check (Checked.int32 (← readNumber bs))

theorem int64_eq_ok {n : ℤ} (h : n.natAbs < 0x8000000000000000) : int64 n = .ok n := by
  refine Checked.int64_eq_ok ?_
  simp only [Number.fitsSigned, Bool.and_eq_true, decide_eq_true_iff]
  omega

theorem checkMinimal_eq (bs : Bytes) : checkMinimal bs =
    if ScriptNumber.isShortest bs then .ok () else fail (.numberNotMinimal bs) := by
  rcases List.eq_nil_or_concat' bs with rfl | ⟨init, last, rfl⟩
  · rfl
  rw [checkMinimal, List.getLast?_concat]
  simp only []
  by_cases hlast : last.toNat % 128 = 0
  · rw [if_pos hlast]
    rcases List.eq_nil_or_concat' init with rfl | ⟨init, below, rfl⟩
    · have hshortest : ScriptNumber.isShortest [last] = false := by
        simp [ScriptNumber.isShortest, hlast]
      rw [List.nil_append, hshortest]
      rfl
    · have hlen : (init ++ [below] ++ [last]).length = init.length + 2 := by simp
      have hitem : (init ++ [below] ++ [last])[init.length]? = some below := by simp
      rw [if_neg (by omega), hlen, Checked.sub_eq_ok (by omega), Nat.add_sub_cancel,
        check_ok, ok_bind, Checked.item_eq_ok hitem, check_ok, ok_bind, List.append_assoc,
        List.singleton_append, ScriptNumber.isShortest_concat_concat]
      show (if below < 128 then _ else _) = _
      have hshortest : (last.toNat % 128 != 0 || decide (128 ≤ below)) = !decide (below < 128) := by
        simp [hlast, ← UInt8.not_lt]
      rw [hshortest]
      by_cases hbelow : below < 128
      · rw [if_pos hbelow, decide_eq_true hbelow]
        rfl
      · rw [if_neg hbelow, decide_eq_false hbelow]
        rfl
  · have hshortest : ScriptNumber.isShortest (init ++ [last]) = true := by
      rcases List.eq_nil_or_concat' init with rfl | ⟨init, below, rfl⟩
      · simp [ScriptNumber.isShortest, hlast]
      · rw [List.append_assoc, List.singleton_append, ScriptNumber.isShortest_concat_concat]
        simp [hlast]
    rw [if_neg hlast, hshortest]
    rfl

theorem shift_eq {n : ℤ} (h : n.natAbs < 0x80000000) : shift n = n * 256 := by
  rw [shift, Int.bmod_eq_of_le] <;> unfold Number.wordSize <;> omega

/-- The bytes are added from the highest one down. -/
theorem foldlM_eq (last : UInt8) (rest : Bytes) (h : rest.length ≤ 3) :
    rest.reverse.foldlM (fun (n : ℤ) b => int64 (shift n + b.toNat)) (last.toNat % 128 : ℕ) =
      .ok (ScriptNumber.magnitude (rest ++ [last]) : ℤ) := by
  induction rest with
  | nil => rfl
  | cons b rest ih =>
    rw [List.length_cons] at h
    have hlt := ScriptNumber.magnitude_concat_lt rest last
    have hpow : 256 ^ rest.length ≤ 256 ^ 2 := Nat.pow_le_pow_right (by decide) (by omega)
    have hb := b.toNat_lt
    rw [List.reverse_cons, List.foldlM_append, ih (by omega), ok_bind, List.foldlM_cons,
      shift_eq (by omega), int64_eq_ok (by omega), ok_bind, List.foldlM_nil, List.cons_append,
      ScriptNumber.magnitude_cons_concat]
    rw [Int.natCast_add, Int.natCast_mul]
    congr 1
    omega

theorem assemble_eq {rest : Bytes} {last : UInt8} (h : rest.length ≤ 3) :
    assemble rest last = .ok (ScriptNumber.value (rest ++ [last])) := by
  have hlast := last.toNat_lt
  have hlt := ScriptNumber.magnitude_concat_lt rest last
  have hpow : 256 ^ rest.length ≤ 256 ^ 3 := Nat.pow_le_pow_right (by decide) h
  rw [assemble, int64_eq_ok (by omega), ok_bind, int64_eq_ok (by omega), ok_bind, foldlM_eq last rest h,
    ok_bind, ScriptNumber.value, ScriptNumber.isNegative_concat]
  by_cases hneg : 128 ≤ last
  · have : 128 ≤ last.toNat := UInt8.le_iff_toNat_le.mp hneg
    rw [decide_eq_true hneg, if_pos rfl, show last.toNat / 128 = 1 by omega]
    rw [int64_eq_ok (by push_cast; omega)]
    congr 1
    omega
  · have : ¬128 ≤ last.toNat := fun h => hneg (UInt8.le_iff_toNat_le.mpr h)
    rw [decide_eq_false hneg, if_neg Bool.false_ne_true, show last.toNat / 128 = 0 by omega]
    rw [int64_eq_ok (by push_cast; omega)]
    congr 1
    omega

theorem readNumber_eq (bs : Bytes) : readNumber bs = ofExcept (ScriptNumber.decode bs) := by
  unfold readNumber ScriptNumber.decode
  by_cases hlen : Limits.numberSize < bs.length
  · rw [if_pos hlen, if_pos hlen]
    rfl
  · rw [if_neg hlen, if_neg hlen, checkMinimal_eq]
    cases hshortest : ScriptNumber.isShortest bs with
    | false => rfl
    | true =>
      rcases List.eq_nil_or_concat' bs with rfl | ⟨init, last, rfl⟩
      · rfl
      · rw [List.length_append, List.length_singleton, Limits.numberSize] at hlen
        rw [if_pos rfl, if_pos rfl, ok_bind, List.getLast?_concat]
        simp only [List.dropLast_concat]
        rw [assemble_eq (by omega)]
        rfl

theorem readInt32_eq (bs : Bytes) : readInt32 bs = ofExcept (ScriptNumber.decode bs) := by
  rw [readInt32, readNumber_eq]
  cases h : ScriptNumber.decode bs with
  | error e => rfl
  | ok n =>
    have hlt := ScriptNumber.natAbs_lt_of_decode h
    show check (Checked.int32 n) = _
    rw [Checked.int32_eq_ok (by omega) (by omega)]
    rfl

/-! ## Functions of numbers -/

/-- The functions of one number in 64 bits. -/
def unary : Unary → ℤ → Checked ℤ
  | .increment, n => int64 (n + 1)
  | .decrement, n => int64 (n - 1)
  | .negate, n => int64 (-n)
  | .absolute, n => int64 n.natAbs
  | f, n => .ok (f.eval n)

/-- The functions of two numbers in 64 bits. -/
def binary : Binary → ℤ → ℤ → Checked ℤ
  | .add, a, b => int64 (a + b)
  | .subtract, a, b => int64 (a - b)
  | f, a, b => .ok (f.eval a b)

theorem numberOfBool_natAbs_le (b : Bool) : (numberOfBool b).natAbs ≤ 1 := by
  cases b <;> decide

theorem natAbs_unary_lt (f : Unary) {n : ℤ} (h : n.natAbs < 0x80000000) :
    (f.eval n).natAbs ≤ 0x80000000 := by
  have hbool := fun b => numberOfBool_natAbs_le b
  cases f with
  | isZero => exact Nat.le_trans (hbool _) (by decide)
  | isNonzero => exact Nat.le_trans (hbool _) (by decide)
  | _ => simp only [Unary.eval]; omega

theorem natAbs_binary_lt (f : Binary) {a b : ℤ} (ha : a.natAbs < 0x80000000)
    (hb : b.natAbs < 0x80000000) : (f.eval a b).natAbs ≤ 0x100000000 := by
  have hbool := fun b => numberOfBool_natAbs_le b
  cases f with
  | add => simp only [Binary.eval]; omega
  | subtract => simp only [Binary.eval]; omega
  | minimum => simp only [Binary.eval]; omega
  | maximum => simp only [Binary.eval]; omega
  | _ => exact Nat.le_trans (hbool _) (by decide)

theorem unary_eq (f : Unary) {n : ℤ} (h : n.natAbs < 0x80000000) : unary f n = .ok (f.eval n) := by
  have hlt := natAbs_unary_lt f h
  cases f with
  | isZero => rfl
  | isNonzero => rfl
  | _ => exact int64_eq_ok (Nat.lt_of_le_of_lt hlt (by decide))

theorem binary_eq (f : Binary) {a b : ℤ} (ha : a.natAbs < 0x80000000)
    (hb : b.natAbs < 0x80000000) : binary f a b = .ok (f.eval a b) := by
  have hlt := natAbs_binary_lt f ha hb
  cases f with
  | add => exact int64_eq_ok (Nat.lt_of_le_of_lt hlt (by decide))
  | subtract => exact int64_eq_ok (Nat.lt_of_le_of_lt hlt (by decide))
  | _ => rfl

end Machine

end SpendScript
