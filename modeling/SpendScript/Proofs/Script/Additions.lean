import SpendScript.Proofs.Script.Builder
import SpendScript.Proofs.Script.Number

/-!
# Single additions to a builder

Data is added as the one command that its canonical form is, and an integer as the data that spells
it: the short way for small integers and the one for data find the same opcodes.

* `Builder.canonical`: the command that data is added as.

Results:
* `Builder.byteLength_canonical`, `Builder.adds_canonical`: its size is the one that the builder
  calculates, and executing it pushes the data.
* `Builder.addData_eq_ok_iff`, `Builder.addData_eq_error_iff`: which data is added, and why other
  data is refused.
* `Builder.addInt_eq`: an integer is added as its shortest form.
* `Builder.integersPushed`: executing an added integer pushes it, and an opcode reads it again if it
  has 31 bits.
-/

namespace SpendScript.Builder

variable {b b' : Builder} {data : Bytes} {c : Command} {e : BuilderError} {n : ℤ}

/-! ## Data -/

/-- The command that data is added as: the opcode that stands for it, or the shortest push. -/
def canonical (data : Bytes) : Except ScriptError Command :=
  match opcodeFor? data with
  | some code => .ok (.op code)
  | none => Command.ofData data

theorem exists_canonical (data : Bytes) (hlen : data.length ≤ 65535) : ∃ c, canonical data = .ok c := by
  unfold canonical
  cases opcodeFor? data with
  | some code => exact ⟨_, rfl⟩
  | none =>
    obtain ⟨p, hp⟩ := Push.exists_ofBytes hlen
    exact ⟨.push p, by simp only [Command.ofData, hp]; rfl⟩

/-- Either an opcode stands for the data, or it is pushed in the shortest encoding. -/
theorem canonical_cases (h : canonical data = .ok c) :
    (∃ code, opcodeFor? data = some code ∧ c = .op code) ∨
      ∃ p, opcodeFor? data = none ∧ Push.ofBytes data = .ok p ∧ c = .push p := by
  unfold canonical at h
  cases hcode : opcodeFor? data with
  | some code =>
    simp only [hcode] at h
    cases h
    exact Or.inl ⟨code, rfl, rfl⟩
  | none =>
    simp only [hcode] at h
    unfold Command.ofData at h
    cases hp : Push.ofBytes data with
    | error e =>
      rw [hp] at h
      cases h
    | ok p =>
      rw [hp] at h
      cases h
      exact Or.inr ⟨p, rfl, rfl, rfl⟩

theorem data_of_canonical {p : Push} (h : canonical data = .ok (.push p)) : p.data = data := by
  rcases canonical_cases h with ⟨code, -, hc⟩ | ⟨p', -, hp, hc⟩
  · cases hc
  · cases hc
    exact (Push.ofBytes_eq_ok hp).1

theorem byteLength_canonical (h : canonical data = .ok c) : c.byteLength = canonicalSize data := by
  rcases canonical_cases h with ⟨code, hcode, rfl⟩ | ⟨p, hcode, hp, rfl⟩
  · rw [canonicalSize, hcode]
    rfl
  · obtain ⟨hdata, hencoding⟩ := Push.ofBytes_eq_ok hp
    rw [canonicalSize, hcode, Command.byteLength, Push.byteLength, hdata]
    rw [if_neg (by simp), Nat.add_comm]
    unfold PushEncoding.shortest? at hencoding
    split_ifs at hencoding with h₁ h₂ h₃
    · rw [← Option.some.inj hencoding, if_pos h₁, PushEncoding.headerLength]
    · rw [← Option.some.inj hencoding, if_neg h₁, if_pos h₂, PushEncoding.headerLength]
    · rw [← Option.some.inj hencoding, if_neg h₁, if_neg h₂, if_pos h₃, PushEncoding.headerLength]

/-- Executing the command pushes the data, or the number zero for a zero byte. -/
theorem adds_canonical (hlen : data.length ≤ Limits.elementSize) (h : canonical data = .ok c) :
    c.Adds (pushedFor data) := by
  rcases canonical_cases h with ⟨code, hcode, rfl⟩ | ⟨p, hcode, hp, rfl⟩
  · exact adds_of_opcodeFor hcode
  · rw [pushedFor_of_opcodeFor_eq_none hcode]
    exact (pushes_of_ofBytes hcode hlen hp).adds

theorem pushData_of_canonical (b : Builder) (h : canonical data = .ok c) :
    b.pushData data = .ok ⟨b.commands ++ [c], b.byteLength + canonicalSize data⟩ := by
  rw [← byteLength_canonical h, pushData]
  rcases canonical_cases h with ⟨code, hcode, rfl⟩ | ⟨p, hcode, hp, rfl⟩
  · rw [hcode]
    rfl
  · rw [hcode, hp]
    rfl

theorem addData_eq_ok_iff : b.addData data = .ok b' ↔
    b.byteLength + canonicalSize data ≤ Limits.scriptSize ∧ data.length ≤ Limits.elementSize ∧
      ∃ c, canonical data = .ok c ∧
        b' = ⟨b.commands ++ [c], b.byteLength + canonicalSize data⟩ := by
  unfold addData
  split_ifs with hscript helement
  · exact iff_of_false (fun h => by cases h) (fun h => by omega)
  · exact iff_of_false (fun h => by cases h) (fun h => by omega)
  · have hmax : Limits.elementSize = 520 := rfl
    obtain ⟨c, hc⟩ := exists_canonical data (by omega)
    rw [pushData_of_canonical b hc, Except.ok.injEq]
    constructor
    · rintro rfl
      exact ⟨by omega, by omega, c, hc, rfl⟩
    · rintro ⟨-, -, c', hc', rfl⟩
      rw [hc, Except.ok.injEq] at hc'
      rw [hc']

/-- The size of the script is looked at before the size of the element. -/
theorem addData_eq_error_iff : b.addData data = .error e ↔
    Limits.scriptSize < b.byteLength + canonicalSize data ∧ e = .dataRejected (canonicalSize data) ∨
      b.byteLength + canonicalSize data ≤ Limits.scriptSize ∧ Limits.elementSize < data.length ∧
        e = .elementTooBig data.length := by
  unfold addData
  split_ifs with hscript helement
  · rw [Except.error.injEq]
    constructor
    · rintro rfl
      exact Or.inl ⟨hscript, rfl⟩
    · rintro (⟨-, rfl⟩ | ⟨hle, -⟩)
      · rfl
      · omega
  · rw [Except.error.injEq]
    constructor
    · rintro rfl
      exact Or.inr ⟨by omega, helement, rfl⟩
    · rintro (⟨hlt, -⟩ | ⟨-, -, rfl⟩)
      · omega
      · rfl
  · have hmax : Limits.elementSize = 520 := rfl
    obtain ⟨c, hc⟩ := exists_canonical data (by omega)
    rw [pushData_of_canonical b hc]
    exact iff_of_false (fun h => by cases h) (fun h => by omega)

/-! ## Integers -/

/-- A byte that an opcode stands for spells minus one or a small integer. -/
theorem value_of_opcodeFor {byte : UInt8} {code : Opcode} (h : opcodeFor? [byte] = some code) :
    -1 ≤ ScriptNumber.value [byte] ∧ ScriptNumber.value [byte] ≤ 16 := by
  simp only [opcodeFor?] at h
  split_ifs at h with hzero hsmall hminus
  · rw [hzero]
    decide
  · have hle : byte.toNat ≤ 16 := UInt8.le_iff_toNat_le.mp hsmall
    have hvalue := ScriptNumber.value_concat [] byte
    rw [if_neg (by rw [ScriptNumber.signBit_iff]; omega)] at hvalue
    rw [← List.nil_append [byte], hvalue, ScriptNumber.magnitude_concat]
    simp only [Bytes.toNatLE, List.length_nil, pow_zero]
    omega
  · rw [hminus]
    decide

/-- Only small integers and minus one are spelled by bytes that an opcode stands for. -/
theorem opcodeForInt_eq (n : ℤ) : opcodeForInt? n = opcodeFor? (ScriptNumber.encode n) := by
  by_cases hsmall : -1 ≤ n ∧ n ≤ 16
  · obtain ⟨hle, hge⟩ := hsmall
    interval_cases n <;> decide +kernel
  · have hnone : opcodeForInt? n = none := by
      unfold opcodeForInt?
      rw [if_neg (by omega), if_neg (by omega), if_neg (by omega)]
    have hvalue := ScriptNumber.value_encode n
    rw [hnone, eq_comm, Option.eq_none_iff_forall_ne_some]
    intro code hcode
    apply hsmall
    match hitem : ScriptNumber.encode n with
    | [] =>
      rw [hitem] at hvalue
      rw [← hvalue]
      decide
    | [byte] =>
      rw [hitem] at hvalue hcode
      rw [← hvalue]
      exact value_of_opcodeFor hcode
    | _ :: _ :: _ =>
      rw [hitem] at hcode
      cases hcode

theorem length_of_opcodeFor {code : Opcode} (h : opcodeFor? data = some code) :
    data.length ≤ 1 := by
  match data with
  | [] => exact Nat.zero_le 1
  | [_] => exact Nat.le_refl 1
  | _ :: _ :: _ => cases h

/-- An integer is added as the data that spells it. -/
theorem addInt_eq (b : Builder) (n : ℤ) : b.addInt n =
    if Limits.scriptSize < b.byteLength + 1 then .error (.integerRejected n)
    else b.addData (ScriptNumber.encode n) := by
  unfold addInt
  split_ifs with hfull
  · rfl
  rw [opcodeForInt_eq]
  cases hcode : opcodeFor? (ScriptNumber.encode n) with
  | none => rfl
  | some code =>
    have hlen := length_of_opcodeFor hcode
    have hsize : canonicalSize (ScriptNumber.encode n) = 1 := by
      rw [canonicalSize, hcode]
      rfl
    have hmax : Limits.elementSize = 520 := rfl
    rw [addData, hsize, if_neg hfull, if_neg (by omega), pushData, hcode]

theorem pushedFor_encode (n : ℤ) :
    pushedFor (ScriptNumber.encode n) = ScriptNumber.encode n := by
  refine if_neg fun hzero => ?_
  have hshortest := ScriptNumber.isShortest_encode n
  rw [hzero] at hshortest
  exact absurd hshortest (by decide)

theorem length_encode_of_fits (hn : Number.fitsSigned n = true) :
    (ScriptNumber.encode n).length ≤ Limits.elementSize := by
  have hlen : (ScriptNumber.encode n).length ≤ 9 := by
    refine ScriptNumber.length_encode_le ?_
    have hpow : Nat.pow 256 8 = 0x10000000000000000 := rfl
    simp only [Number.fitsSigned, Bool.and_eq_true, decide_eq_true_iff] at hn
    omega
  exact hlen.trans (by decide)

theorem canonicalSize_pos (data : Bytes) : 0 < canonicalSize data := by
  unfold canonicalSize
  split_ifs <;> omega

theorem addInt_eq_ok_iff (hn : Number.fitsSigned n = true) : b.addInt n = .ok b' ↔
    b.byteLength + canonicalSize (ScriptNumber.encode n) ≤ Limits.scriptSize ∧
      ∃ c, canonical (ScriptNumber.encode n) = .ok c ∧
        b' = ⟨b.commands ++ [c], b.byteLength + canonicalSize (ScriptNumber.encode n)⟩ := by
  have hpos := canonicalSize_pos (ScriptNumber.encode n)
  rw [addInt_eq]
  split_ifs with hfull
  · exact iff_of_false (fun h => by cases h) (fun h => by omega)
  · rw [addData_eq_ok_iff, and_iff_right (length_encode_of_fits hn)]

/-! ## Reading added integers -/

/-- The reader of a single operand. -/
theorem popNumber_encode {s : State} {rest : Stack} (hs : s.stack = ScriptNumber.encode n :: rest) :
    Engine.popNumber s =
      if n.natAbs ≤ 2 ^ 31 - 1 then .ok n { s with stack := rest }
      else .error (.error (.numberTooBig (ScriptNumber.encode n))) { s with stack := rest } := by
  unfold Engine.popNumber
  rw [Engine.bind_of_eq_ok (Engine.pop_eq_ok.mpr ⟨rest, hs, rfl⟩), ScriptNumber.decode_encode]
  split_ifs <;> rfl

/-- An integer of 64 bits is added, as one command, if and only if there is room for its shortest
form. Under every policy, executing the command pushes the shortest form. An opcode that reads it
obtains the integer if that has 31 bits and a sign, and refuses it for its size otherwise. -/
theorem integersPushed (b : Builder) {n : ℤ} (hn : Number.fitsSigned n = true) :
    ((∃ b', b.addInt n = .ok b') ↔
      b.byteLength + canonicalSize (ScriptNumber.encode n) ≤ Limits.scriptSize) ∧
    ∀ b', b.addInt n = .ok b' → ∃ c, b'.commands = b.commands ++ [c] ∧
      b'.byteLength = b.byteLength + c.byteLength ∧ c.Adds (ScriptNumber.encode n) ∧
      ScriptNumber.decode (ScriptNumber.encode n) =
        (if n.natAbs ≤ 2 ^ 31 - 1 then .ok n
          else .error (.numberTooBig (ScriptNumber.encode n))) ∧
      ∀ (s : State) (rest : Stack), s.stack = ScriptNumber.encode n :: rest →
        Engine.popNumber s =
          if n.natAbs ≤ 2 ^ 31 - 1 then .ok n { s with stack := rest }
          else .error (.error (.numberTooBig (ScriptNumber.encode n)))
            { s with stack := rest } := by
  have hlen := length_encode_of_fits hn
  constructor
  · constructor
    · rintro ⟨b', hb'⟩
      exact ((addInt_eq_ok_iff hn).mp hb').1
    · intro hroom
      have hmax : Limits.elementSize = 520 := rfl
      obtain ⟨c, hc⟩ := exists_canonical (ScriptNumber.encode n) (by omega)
      exact ⟨_, (addInt_eq_ok_iff hn).mpr ⟨hroom, c, hc, rfl⟩⟩
  · intro b' hb'
    obtain ⟨-, c, hc, rfl⟩ := (addInt_eq_ok_iff hn).mp hb'
    have hadds := adds_canonical hlen hc
    rw [pushedFor_encode] at hadds
    exact ⟨c, rfl, by rw [byteLength_canonical hc], hadds, ScriptNumber.decode_encode n,
      fun _ _ => popNumber_encode⟩

/-- The least integer of 64 bits is pushed with nine bytes, and too big for an operand. -/
theorem integersPushed_least :
    let n : ℤ := -0x8000000000000000
    let item : Bytes := [0, 0, 0, 0, 0, 0, 0, 0x80, 0x80]
    Number.fitsSigned n = true ∧ ∃ b', empty.addInt n = .ok b' ∧
      ∃ c, b'.commands = [c] ∧ b'.byteLength = c.byteLength ∧ c.Adds item ∧
        ∀ (s : State) (rest : Stack), s.stack = item :: rest →
          Engine.popNumber s = .error (.error (.numberTooBig item)) { s with stack := rest } := by
  intro n item
  have hn : Number.fitsSigned n = true := by decide
  have hitem : ScriptNumber.encode n = item := by decide +kernel
  obtain ⟨hadded, hpushed⟩ := integersPushed empty hn
  obtain ⟨b', hb'⟩ := hadded.mpr (by rw [hitem]; decide)
  obtain ⟨c, hcommands, hlength, hadds, -, hread⟩ := hpushed b' hb'
  rw [hitem] at hadds hread
  refine ⟨hn, b', hb', c, hcommands, ?_, hadds, fun s rest hs => hread s rest hs⟩
  rw [hlength]
  exact Nat.zero_add _

end SpendScript.Builder
