import Mathlib.Algebra.Order.Group.Unbundled.Int
import SpendScript.Proofs.Engine.Opcodes
import SpendScript.Proofs.Script.Number

/-!
# Numeric opcodes

A numeric opcode takes integers off the stack and leaves an integer. Its operands have 31 bits and
a sign, so the integer that it leaves is exact.

* `Opcode.arithmetic?`: the integer that a numeric opcode leaves.

Results:
* `Opcode.leaves_of_arithmetic`: the numeric opcodes are the unary and the binary operations and
  the interval test; `Opcode.Leaves.natAbs_le`: they stay in 64 bits.
* `Engine.runOpcode_arithmetic`: a numeric opcode leaves the shortest form of the exact integer.
* `Engine.numbersExact`: script numbers are canonical and numeric opcodes are exact.
-/

namespace SpendScript

/-- The integer that a numeric opcode leaves for the operands that it takes, the lowest one first.
`OP_NUMEQUALVERIFY` is not among them: it leaves none. -/
def Opcode.arithmetic? (code : Opcode) (operands : List ℤ) : Option ℤ :=
  match code, operands with
  | 0x8b, [n] => some (n + 1)
  | 0x8c, [n] => some (n - 1)
  | 0x8f, [n] => some (-n)
  | 0x90, [n] => some |n|
  | 0x91, [n] => some (if n = 0 then 1 else 0)
  | 0x92, [n] => some (if n ≠ 0 then 1 else 0)
  | 0x93, [a, b] => some (a + b)
  | 0x94, [a, b] => some (a - b)
  | 0x9a, [a, b] => some (if a ≠ 0 ∧ b ≠ 0 then 1 else 0)
  | 0x9b, [a, b] => some (if a ≠ 0 ∨ b ≠ 0 then 1 else 0)
  | 0x9c, [a, b] => some (if a = b then 1 else 0)
  | 0x9e, [a, b] => some (if a ≠ b then 1 else 0)
  | 0x9f, [a, b] => some (if a < b then 1 else 0)
  | 0xa0, [a, b] => some (if a > b then 1 else 0)
  | 0xa1, [a, b] => some (if a ≤ b then 1 else 0)
  | 0xa2, [a, b] => some (if a ≥ b then 1 else 0)
  | 0xa3, [a, b] => some (min a b)
  | 0xa4, [a, b] => some (max a b)
  | 0xa5, [x, lower, upper] => some (if lower ≤ x ∧ x < upper then 1 else 0)
  | _, _ => none

theorem numberOfBool_eq (b : Bool) {p : Prop} [Decidable p] (h : b = true ↔ p) :
    numberOfBool b = if p then 1 else 0 :=
  if_congr h rfl rfl

namespace Opcode

variable {code : Opcode} {operands : List ℤ} {result : ℤ}

/-- The integer that an operation leaves for the operands that it takes. -/
inductive Leaves : Operation → List ℤ → ℤ → Prop
  | unary (f : Unary) (n : ℤ) : Leaves (.unary f) [n] (f.eval n)
  | binary (f : Binary) (a b : ℤ) : Leaves (.binary f) [a, b] (f.eval a b)
  | within (x lower upper : ℤ) :
      Leaves .within [x, lower, upper] (numberOfBool (decide (lower ≤ x ∧ x < upper)))

theorem leaves_unary (f : Unary) {n result : ℤ} (h : f.eval n = result) :
    Leaves (.unary f) [n] result :=
  h ▸ .unary f n

theorem leaves_binary (f : Binary) {a b result : ℤ} (h : f.eval a b = result) :
    Leaves (.binary f) [a, b] result :=
  h ▸ .binary f a b

theorem leaves_of_arithmetic (h : code.arithmetic? operands = some result) :
    code.isDisabled = false ∧ code.isCounted = true ∧
      Leaves (Operation.ofOpcode code) operands result := by
  unfold arithmetic? at h
  split at h <;> cases h
  · exact ⟨rfl, rfl, .unary .increment _⟩
  · exact ⟨rfl, rfl, .unary .decrement _⟩
  · exact ⟨rfl, rfl, .unary .negate _⟩
  · exact ⟨rfl, rfl, leaves_unary .absolute (Int.natCast_natAbs _)⟩
  · exact ⟨rfl, rfl, leaves_unary .isZero (numberOfBool_eq _ beq_iff_eq)⟩
  · exact ⟨rfl, rfl, leaves_unary .isNonzero (numberOfBool_eq _ bne_iff_ne)⟩
  · exact ⟨rfl, rfl, .binary .add _ _⟩
  · exact ⟨rfl, rfl, .binary .subtract _ _⟩
  · exact ⟨rfl, rfl, leaves_binary .both (numberOfBool_eq _ (by simp))⟩
  · exact ⟨rfl, rfl, leaves_binary .either (numberOfBool_eq _ (by simp))⟩
  · exact ⟨rfl, rfl, leaves_binary .equal (numberOfBool_eq _ beq_iff_eq)⟩
  · exact ⟨rfl, rfl, leaves_binary .different (numberOfBool_eq _ bne_iff_ne)⟩
  · exact ⟨rfl, rfl, leaves_binary .less (numberOfBool_eq _ decide_eq_true_iff)⟩
  · exact ⟨rfl, rfl, leaves_binary .greater (numberOfBool_eq _ decide_eq_true_iff)⟩
  · exact ⟨rfl, rfl, leaves_binary .atMost (numberOfBool_eq _ decide_eq_true_iff)⟩
  · exact ⟨rfl, rfl, leaves_binary .atLeast (numberOfBool_eq _ decide_eq_true_iff)⟩
  · exact ⟨rfl, rfl, .binary .minimum _ _⟩
  · exact ⟨rfl, rfl, .binary .maximum _ _⟩
  · refine ⟨rfl, rfl, ?_⟩
    rw [← numberOfBool_eq _ decide_eq_true_iff]
    exact .within _ _ _

/-- From `OP_1ADD` to `OP_WITHIN`, all opcodes leave an integer, but for the disabled ones and
`OP_NUMEQUALVERIFY`. -/
theorem exists_arithmetic (hfirst : 0x8b ≤ code) (hlast : code ≤ 0xa5)
    (hd : code.isDisabled = false) (hverify : code ≠ 0x9d) :
    ∃ operands result, code.arithmetic? operands = some result := by
  have htable : ∀ n ∈ List.range' 0x8b 27, Opcode.isDisabled (UInt8.ofNat n) = false →
      UInt8.ofNat n ≠ 0x9d → ∃ operands ∈ [[0], [0, 0], [0, 0, 0]],
        (arithmetic? (UInt8.ofNat n) operands).isSome := by
    decide
  have hmem : code.toNat ∈ List.range' 0x8b 27 := by
    have hle : 0x8b ≤ code.toNat := UInt8.le_iff_toNat_le.mp hfirst
    have hge : code.toNat ≤ 0xa5 := UInt8.le_iff_toNat_le.mp hlast
    rw [List.mem_range'_1]
    omega
  have hcode := htable code.toNat hmem
  rw [UInt8.ofNat_toNat] at hcode
  obtain ⟨operands, -, hsome⟩ := hcode hd hverify
  exact ⟨operands, Option.isSome_iff_exists.mp hsome⟩

/-- Operands have 31 bits and a sign, and what is left for them has 33 bits at most. -/
theorem Leaves.natAbs_le {op : Operation} (h : Leaves op operands result)
    (hsmall : ∀ n ∈ operands, n.natAbs < 0x80000000) : result.natAbs ≤ 0x100000000 := by
  cases h with
  | unary f n =>
    have := Machine.natAbs_unary_lt f (hsmall n (by simp))
    omega
  | binary f a b => exact Machine.natAbs_binary_lt f (hsmall a (by simp)) (hsmall b (by simp))
  | within x lower upper => exact (Machine.numberOfBool_natAbs_le _).trans (by decide)

end Opcode

namespace Engine

variable {env : Env} {s : State} {code : Opcode} {operands : List ℤ} {result : ℤ}
  {items : List Bytes} {rest : Stack}

open Opcode (Leaves)

/-! ## Executing them -/

/-- The items spell the operands. -/
abbrev Operands (items : List Bytes) (operands : List ℤ) : Prop :=
  List.Forall₂ (fun item n => ScriptNumber.decode item = .ok n) items operands

theorem Operands.natAbs_lt (h : Operands items operands) :
    ∀ n ∈ operands, n.natAbs < 0x80000000 := by
  induction h with
  | nil => exact List.forall_mem_nil _
  | cons hitem _ ih =>
    exact List.forall_mem_cons.mpr ⟨ScriptNumber.natAbs_lt_of_decode hitem, ih⟩

theorem Operands.fits {op : Operation} (h : Operands items operands)
    (hleaves : Leaves op operands result) : Number.fitsSigned result = true := by
  have := hleaves.natAbs_le h.natAbs_lt
  simp only [Number.fitsSigned, Bool.and_eq_true, decide_eq_true_iff]
  omega

theorem popTwoNumbers_apply {a b : Bytes} {m n : ℤ} (hs : s.stack = b :: a :: rest)
    (ha : ScriptNumber.decode a = .ok m) (hb : ScriptNumber.decode b = .ok n) :
    popTwoNumbers s = .ok (m, n) { s with stack := rest } := by
  refine bind_eq_ok.mpr ⟨(a, b), _, popTwo_eq_ok.mpr ⟨rest, hs, rfl⟩, ?_⟩
  refine bind_eq_ok.mpr ⟨m, _, lift_eq_ok.mpr ⟨ha, rfl⟩, ?_⟩
  exact bind_eq_ok.mpr ⟨n, _, lift_eq_ok.mpr ⟨hb, rfl⟩, rfl⟩

theorem popThreeNumbers_apply {a b c : Bytes} {l m n : ℤ} (hs : s.stack = c :: b :: a :: rest)
    (ha : ScriptNumber.decode a = .ok l) (hb : ScriptNumber.decode b = .ok m)
    (hc : ScriptNumber.decode c = .ok n) :
    popThreeNumbers s = .ok (l, m, n) { s with stack := rest } := by
  have hpop : popThree s = .ok (a, b, c) { s with stack := rest } := by
    unfold popThree
    rw [get_bind, hs]
    rfl
  refine bind_eq_ok.mpr ⟨(a, b, c), _, hpop, ?_⟩
  refine bind_eq_ok.mpr ⟨l, _, lift_eq_ok.mpr ⟨ha, rfl⟩, ?_⟩
  refine bind_eq_ok.mpr ⟨m, _, lift_eq_ok.mpr ⟨hb, rfl⟩, ?_⟩
  exact bind_eq_ok.mpr ⟨n, _, lift_eq_ok.mpr ⟨hc, rfl⟩, rfl⟩

/-- The operands are taken off the stack, and the exact integer is pushed. -/
theorem perform_leaves {op : Operation} (h : Leaves op operands result)
    (hitems : Operands items operands) (hs : s.stack = items.reverse ++ rest) :
    perform env code op s =
      .ok () { s with stack := ScriptNumber.encode result :: rest } := by
  have hfits := hitems.fits h
  cases h with
  | unary f n =>
    obtain ⟨_, _, hn, ⟨⟩, rfl⟩ := List.forall₂_cons_right_iff.mp hitems
    have hpop := popNumber_eq_ok.mpr ⟨_, _, hs, hn, rfl⟩
    exact (bind_of_eq_ok hpop).trans (pushNumber_of_fits hfits _)
  | binary f a b =>
    obtain ⟨_, _, ha, htail, rfl⟩ := List.forall₂_cons_right_iff.mp hitems
    obtain ⟨_, _, hb, ⟨⟩, rfl⟩ := List.forall₂_cons_right_iff.mp htail
    have hpop := popTwoNumbers_apply hs ha hb
    exact (bind_of_eq_ok hpop).trans (pushNumber_of_fits hfits _)
  | within x lower upper =>
    obtain ⟨_, _, hx, hbounds, rfl⟩ := List.forall₂_cons_right_iff.mp hitems
    obtain ⟨_, _, hlower, hlast, rfl⟩ := List.forall₂_cons_right_iff.mp hbounds
    obtain ⟨_, _, hupper, ⟨⟩, rfl⟩ := List.forall₂_cons_right_iff.mp hlast
    have hpop := popThreeNumbers_apply hs hx hlower hupper
    exact (bind_of_eq_ok hpop).trans (pushNumber_of_fits hfits _)

/-- Where it is executed and may be counted, a numeric opcode replaces its operands by the shortest
form of the exact integer. -/
theorem runOpcode_arithmetic (h : code.arithmetic? operands = some result)
    (hitems : Operands items operands) (hs : s.stack = items.reverse ++ rest)
    (hexec : s.isExecuting = true) (hops : s.operations < Limits.operations) :
    runOpcode env code s = .ok () { s with
      stack := ScriptNumber.encode result :: rest
      operations := s.operations + 1
      events := .executing code s.stack.length :: s.events } := by
  obtain ⟨hd, hcount, hleaves⟩ := Opcode.leaves_of_arithmetic h
  refine (runOpcode_executing hd hexec).mpr ⟨fun _ => hops, ?_⟩
  rw [perform_leaves (s := started s code) hleaves hitems hs, started, hcount]
  rfl

/-! ## Canonical numbers, exact opcodes -/

/-- Script numbers are canonical and numeric opcodes are exact.

The reader of operands, also where 32 bits are asked for, takes exactly the shortest forms of the
integers of 31 bits and a sign. Every integer has a form of its own, which has it as its value, and
a byte string of any length is true if its value is not zero. The numeric opcodes are those from
`OP_1ADD` to `OP_WITHIN` that are not disabled; `OP_NUMEQUALVERIFY` leaves nothing. Where another
one is executed, operands that can be read are replaced by the form of the exact integer, which fits
in 64 bits; it can be read again if it has 31 bits, and is too big otherwise. -/
theorem numbersExact :
    (∀ bs n, ScriptNumber.decode bs = .ok n ↔
      n.natAbs ≤ 2 ^ 31 - 1 ∧ bs = ScriptNumber.encode n) ∧
    (∀ bs, Machine.readInt32 bs = Attempt.ofExcept (ScriptNumber.decode bs)) ∧
    Function.Injective ScriptNumber.encode ∧
    (∀ n, ScriptNumber.signMagnitude (ScriptNumber.encode n) = n) ∧
    (∀ bs, ScriptNumber.truth bs = true ↔ ScriptNumber.signMagnitude bs ≠ 0) ∧
    (∀ code : Opcode, 0x8b ≤ code → code ≤ 0xa5 → code.isDisabled = false → code ≠ 0x9d →
      ∃ operands result, code.arithmetic? operands = some result) ∧
    ∀ (env : Env) (code : Opcode) (operands : List ℤ) (result : ℤ),
      code.arithmetic? operands = some result →
      ∀ (s : State) (items : List Bytes) (rest : Stack), Operands items operands →
        s.stack = items.reverse ++ rest → s.isExecuting = true →
        s.operations < Limits.operations →
        runOpcode env code s = .ok () { s with
          stack := ScriptNumber.encode result :: rest
          operations := s.operations + 1
          events := .executing code s.stack.length :: s.events } ∧
        Number.fitsSigned result = true ∧
        ScriptNumber.decode (ScriptNumber.encode result) =
          if result.natAbs ≤ 2 ^ 31 - 1 then .ok result
          else .error (.numberTooBig (ScriptNumber.encode result)) := by
  refine ⟨fun _ _ => ScriptNumber.decode_eq_ok_iff, Machine.readInt32_eq,
    ScriptNumber.encode_injective, fun n => ?_, ScriptNumber.truth_iff,
    fun _ => Opcode.exists_arithmetic, ?_⟩
  · rw [← ScriptNumber.value_eq_signMagnitude, ScriptNumber.value_encode]
  · intro env code operands result h s items rest hitems hs hexec hops
    obtain ⟨-, -, hleaves⟩ := Opcode.leaves_of_arithmetic h
    exact ⟨runOpcode_arithmetic h hitems hs hexec hops, hitems.fits hleaves,
      ScriptNumber.decode_encode result⟩

/-- The greatest operand plus one needs a fifth byte, and no opcode reads it again. -/
theorem numbersExact_carry :
    let s : State := { State.start Script.empty Script.noCache with
      stack := [[1], [0xff, 0xff, 0xff, 0x7f]] }
    runOpcode ⟨0, Flags.default⟩ 0x93 s = .ok () { s with
        stack := [[0, 0, 0, 0x80, 0]]
        operations := 1
        events := [.executing 0x93 2] } ∧
      ScriptNumber.decode [0, 0, 0, 0x80, 0] = .error (.numberTooBig [0, 0, 0, 0x80, 0]) := by
  have hone : ScriptNumber.decode [1] = .ok 1 := rfl
  have hmax : ScriptNumber.decode [0xff, 0xff, 0xff, 0x7f] = .ok 0x7fffffff := rfl
  have hsum : ScriptNumber.encode 0x80000000 = [0, 0, 0, 0x80, 0] := by decide +kernel
  intro s
  obtain ⟨-, -, -, -, -, -, hexact⟩ := numbersExact
  obtain ⟨hrun, -, hagain⟩ := hexact ⟨0, Flags.default⟩ 0x93 [0x7fffffff, 1] 0x80000000 rfl s
    [[0xff, 0xff, 0xff, 0x7f], [1]] [] (.cons hmax (.cons hone .nil)) rfl rfl (by decide)
  rw [hsum] at hrun hagain
  exact ⟨hrun, hagain⟩

end Engine

end SpendScript
