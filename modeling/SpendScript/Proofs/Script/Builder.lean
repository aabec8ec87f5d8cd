import Mathlib.Tactic.IntervalCases
import SpendScript.Proofs.Engine.Opcodes
import SpendScript.Script.Builder

/-!
# What builders add

Results:
* `Builder.addData_eq_ok`, `Builder.addInt_eq_ok`: data of at least two bytes and counts up to
  twenty are added as commands that push them.
* `Builder.exists_addData`, `Builder.exists_addInt`: they are, if there is room for them.
* `Command.Adds`: executing a command adds an item and changes nothing else.
* `Builder.addData_adds`: accepted data is added as one command, and executing it pushes the data;
  only for the single zero byte it pushes the empty item.
-/

namespace SpendScript

/-! ## Pushes -/

namespace Push

theorem ofBytes_eq_ok {data : Bytes} {p : Push} (h : ofBytes data = .ok p) :
    p.data = data ∧ PushEncoding.shortest? data.length = some p.encoding := by
  unfold ofBytes at h
  split at h
  · rename_i encoding henc
    unfold withEncoding at h
    split_ifs at h
    cases h
    exact ⟨rfl, henc⟩
  · cases h

theorem exists_ofBytes {data : Bytes} (h : data.length ≤ 65535) : ∃ p, ofBytes data = .ok p := by
  unfold ofBytes withEncoding PushEncoding.shortest?
  split_ifs with h₁ h₂
  · exact ⟨_, dif_pos h₁⟩
  · exact ⟨_, dif_pos h₂⟩
  · exact ⟨_, dif_pos h⟩

theorem byteLength_le (p : Push) : p.byteLength ≤ p.data.length + 3 := by
  have : p.encoding.headerLength ≤ 3 := by cases p.encoding <;> decide
  unfold byteLength
  omega

/-- Data in the shortest encoding is minimal, unless an opcode pushes it. -/
theorem isMinimal_of_ofBytes {data : Bytes} {p : Push} (h : ofBytes data = .ok p)
    (hdata : ∀ b, data = [b] → hasOpcode b = false) : p.isMinimal = true := by
  obtain ⟨hp, henc⟩ := ofBytes_eq_ok h
  unfold isMinimal
  match data with
  | [] =>
    have hdirect : p.encoding = .direct := (Option.some.inj henc).symm
    simp only [hp, hdirect]
    rfl
  | [b] =>
    have hdirect : p.encoding = .direct := (Option.some.inj henc).symm
    simp only [hp, hdata b rfl, hdirect]
    rfl
  | a :: b :: bs =>
    simp only [hp, henc]
    exact BEq.rfl

theorem hasOpcode_of_opcodeFor {data : Bytes} (hdata : Builder.opcodeFor? data = none) {b : UInt8}
    (hb : data = [b]) : hasOpcode b = false := by
  subst hb
  simp only [Builder.opcodeFor?] at hdata
  split_ifs at hdata with hzero hsmall hminus
  simp only [hasOpcode, decide_eq_false_iff_not]
  rintro (⟨-, hle⟩ | heq)
  · exact hsmall hle
  · exact hminus heq

end Push

/-! ## Additions -/

namespace Builder

variable {b b' : Builder} {data : Bytes}

theorem opcodeFor_eq_none (hlen : 2 ≤ data.length) : opcodeFor? data = none := by
  match data, hlen with
  | _ :: _ :: _, _ => rfl

/-- The shortest encoding of an admitted element passes every policy, if no opcode stands for the
element. -/
theorem pushes_of_ofBytes {p : Push} (hdata : opcodeFor? data = none)
    (hlen : data.length ≤ Limits.elementSize) (hp : Push.ofBytes data = .ok p) :
    Command.Pushes (.push p) data := by
  have hpdata := (Push.ofBytes_eq_ok hp).1
  refine ⟨congrArg some hpdata, fun flags => ⟨?_, fun _ => ?_⟩⟩
  · rw [hpdata]
    exact hlen
  · exact Push.isMinimal_of_ofBytes hp fun _ => Push.hasOpcode_of_opcodeFor hdata

/-- Data that no opcode stands for is added in its shortest encoding. -/
theorem addData_eq_push (hdata : opcodeFor? data = none) (h : b.addData data = .ok b') :
    ∃ p, p.data = data ∧ Command.Pushes (.push p) data ∧
      b' = ⟨b.commands ++ [.push p], b.byteLength + p.byteLength⟩ := by
  unfold addData pushData at h
  split_ifs at h with hscript helement
  simp only [hdata] at h
  split at h
  · rename_i p hp
    cases h
    exact ⟨p, (Push.ofBytes_eq_ok hp).1, pushes_of_ofBytes hdata (by omega) hp, rfl⟩
  · cases h

/-- Data that no opcode stands for is added as a push. -/
theorem addData_eq_ok (hdata : opcodeFor? data = none) (h : b.addData data = .ok b') :
    ∃ p, p.data = data ∧ Command.Pushes (.push p) data ∧
      b'.commands = b.commands ++ [.push p] := by
  obtain ⟨p, hp, hpush, rfl⟩ := addData_eq_push hdata h
  exact ⟨p, hp, hpush, rfl⟩

theorem canonicalSize_le (hlen : data.length ≤ Limits.elementSize) :
    canonicalSize data ≤ data.length + 3 := by
  have hmax : data.length ≤ 520 := hlen
  unfold canonicalSize
  split_ifs <;> omega

theorem exists_pushData (b : Builder) (hlen : data.length ≤ Limits.elementSize) :
    ∃ b', b.pushData data = .ok b' ∧ b'.byteLength ≤ b.byteLength + data.length + 3 := by
  unfold pushData
  cases opcodeFor? data with
  | some code =>
    refine ⟨b.pushOp code, rfl, ?_⟩
    show b.byteLength + 1 ≤ _
    omega
  | none =>
    have hmax : data.length ≤ 520 := hlen
    obtain ⟨p, hp⟩ := Push.exists_ofBytes (show data.length ≤ 65535 by omega)
    simp only [hp]
    refine ⟨_, rfl, ?_⟩
    have hle := p.byteLength_le
    rw [(Push.ofBytes_eq_ok hp).1] at hle
    show b.byteLength + p.byteLength ≤ _
    omega

/-- An element of an admitted size is added if there is room for it and its header. -/
theorem exists_addData (hlen : data.length ≤ Limits.elementSize)
    (hsize : b.byteLength + data.length + 3 ≤ Limits.scriptSize) :
    ∃ b', b.addData data = .ok b' ∧ b'.byteLength ≤ b.byteLength + data.length + 3 := by
  have hcanonical := canonicalSize_le hlen
  unfold addData
  rw [if_neg (by omega), if_neg (by omega)]
  exact exists_pushData b hlen

/-- The opcodes of small numbers, and the numbers above them that a multisignature check takes. -/
theorem opcodeForInt_of_le {n : ℕ} (hpos : 1 ≤ n) (hle : n ≤ 16) :
    ∃ code, opcodeForInt? (n : ℤ) = some code ∧ Opcode.smallInt? code = some n := by
  interval_cases n <;> exact ⟨_, rfl, rfl⟩

theorem opcodeForInt_of_lt {n : ℕ} (hlt : 16 < n) : opcodeForInt? (n : ℤ) = none := by
  unfold opcodeForInt?
  rw [if_neg (by omega), if_neg (by omega), if_neg (by omega)]

theorem opcodeFor_encode {n : ℕ} (hlt : 16 < n) (hle : n ≤ 20) :
    opcodeFor? (ScriptNumber.encode (n : ℤ)) = none := by
  interval_cases n <;> decide +kernel

theorem addInt_eq_ok {n : ℕ} (hpos : 1 ≤ n) (hle : n ≤ 20) (h : b.addInt (n : ℤ) = .ok b') :
    ∃ c, Command.Pushes c (ScriptNumber.encode (n : ℤ)) ∧ b'.commands = b.commands ++ [c] := by
  unfold addInt at h
  split_ifs at h with hfull
  by_cases hsmall : n ≤ 16
  · obtain ⟨code, hcode, hn⟩ := opcodeForInt_of_le hpos hsmall
    simp only [hcode] at h
    cases h
    refine ⟨.op code, ⟨?_, fun _ => trivial⟩, rfl⟩
    rw [Command.pushed?, hn]
    rfl
  · simp only [opcodeForInt_of_lt (n := n) (by omega)] at h
    obtain ⟨p, -, hp, hb'⟩ := addData_eq_ok (opcodeFor_encode (by omega) hle) h
    exact ⟨.push p, hp, hb'⟩

theorem length_encode {n : ℕ} (hpos : 1 ≤ n) (hle : n ≤ 20) :
    (ScriptNumber.encode (n : ℤ)).length = 1 := by
  interval_cases n <;> decide +kernel

theorem exists_addInt {n : ℕ} (hpos : 1 ≤ n) (hle : n ≤ 20)
    (hsize : b.byteLength + 4 ≤ Limits.scriptSize) :
    ∃ b', b.addInt (n : ℤ) = .ok b' ∧ b'.byteLength ≤ b.byteLength + 4 := by
  unfold addInt
  rw [if_neg (by omega)]
  by_cases hsmall : n ≤ 16
  · obtain ⟨code, hcode, -⟩ := opcodeForInt_of_le hpos hsmall
    simp only [hcode]
    refine ⟨_, rfl, ?_⟩
    show b.byteLength + 1 ≤ _
    omega
  · simp only [opcodeForInt_of_lt (n := n) (by omega)]
    have hlen := length_encode hpos hle
    have hmax : Limits.elementSize = 520 := rfl
    obtain ⟨b', hb', hle'⟩ := exists_addData (b := b)
      (show (ScriptNumber.encode (n : ℤ)).length ≤ Limits.elementSize by omega) (by omega)
    exact ⟨b', hb', by omega⟩

theorem addOp_eq_ok {code : Opcode} (h : b.addOp code = .ok b') :
    b'.commands = b.commands ++ [.op code] := by
  unfold addOp at h
  split_ifs at h
  cases h
  rfl

end Builder

/-! ## Executing what was added -/

namespace Command

/-- Wherever it is executed and no pay-to-script-hash lock follows, the command adds the item to
the stack; only the record of events changes besides. -/
def Adds (c : Command) (item : Bytes) : Prop :=
  ∀ (env : Env) (s : State), s.isExecuting = true → Script.scriptHashLock? s.pending = none →
    ∃ events, Engine.runCommand env c s =
      .ok () { s with stack := item :: s.stack, events := events }

theorem Pushes.adds {c : Command} {data : Bytes} (h : c.Pushes data) : c.Adds data := by
  intro env s hexec hlock
  rw [Engine.runCommand_eq_runPlain hlock]
  exact Engine.exists_runPlain_pushed env hexec h.pushed_eq (h.admitted env.flags)

theorem adds_of_smallInt {code : Opcode} {n : ℕ} (h : Opcode.smallInt? code = some n) :
    (Command.op code).Adds (ScriptNumber.encode n) :=
  Pushes.adds ⟨by rw [pushed?, h]; rfl, fun _ => trivial⟩

theorem adds_zero : (Command.op Opcode.zero).Adds [] := by
  have hzero : ScriptNumber.encode (0 : ℕ) = [] := by decide +kernel
  rw [← hzero]
  exact adds_of_smallInt rfl

/-- Minus one has an opcode outside of the row of small numbers. -/
theorem adds_negativeOne : (Command.op Opcode.negativeOne).Adds [0x81] := by
  intro env s hexec _
  refine ⟨.executing Opcode.negativeOne s.stack.length :: s.events, ?_⟩
  have hd : Opcode.negativeOne.isDisabled = false := rfl
  refine (Engine.runOpcode_executing hd hexec).mpr ⟨nofun, ?_⟩
  have hone : ScriptNumber.encode (-1) = [0x81] := by decide +kernel
  rw [← hone]
  rfl

/-- A command adds one item, not another. -/
theorem Adds.item_eq {c : Command} {item other : Bytes} (h : c.Adds item) (h' : c.Adds other) :
    item = other := by
  obtain ⟨_, hrun⟩ := h ⟨0, Flags.default⟩ (State.start Script.empty Script.noCache) rfl rfl
  obtain ⟨_, hrun'⟩ := h' ⟨0, Flags.default⟩ (State.start Script.empty Script.noCache) rfl rfl
  have hstate := (EStateM.Result.ok.inj (hrun.symm.trans hrun')).2
  exact (List.cons.inj (State.mk.inj hstate).1).1

end Command

namespace Builder

variable {b b' : Builder} {data : Bytes}

/-- What the command for `data` pushes: a zero byte gives way to the number zero. -/
def pushedFor (data : Bytes) : Bytes :=
  if data = [0] then [] else data

theorem smallInt_of_le {byte : UInt8} (hzero : byte ≠ 0) (hle : byte ≤ 16) :
    Opcode.smallInt? (Opcode.one - 1 + byte) = some byte.toNat ∧
      ScriptNumber.encode (byte.toNat : ℤ) = [byte] := by
  obtain ⟨n, hn, rfl⟩ : ∃ n, n ≤ 16 ∧ byte = UInt8.ofNat n :=
    ⟨byte.toNat, UInt8.le_iff_toNat_le.mp hle, UInt8.ofNat_toNat.symm⟩
  interval_cases n
  · exact absurd rfl hzero
  all_goals decide +kernel

/-- An opcode that stands for data pushes it. -/
theorem adds_of_opcodeFor {code : Opcode} (h : opcodeFor? data = some code) :
    (Command.op code).Adds (pushedFor data) := by
  match data with
  | [] =>
    cases h
    exact Command.adds_zero
  | [byte] =>
    simp only [opcodeFor?] at h
    split_ifs at h with hzero hsmall hminus
    · cases h
      rw [pushedFor, if_pos (by rw [hzero])]
      exact Command.adds_zero
    all_goals
      cases h
      rw [pushedFor, if_neg (by simpa using hzero)]
    · obtain ⟨hint, hencode⟩ := smallInt_of_le hzero hsmall
      rw [← hencode]
      exact Command.adds_of_smallInt hint
    · rw [hminus]
      exact Command.adds_negativeOne
  | _ :: _ :: _ => cases h

theorem pushedFor_of_opcodeFor_eq_none (h : opcodeFor? data = none) : pushedFor data = data := by
  refine if_neg fun hzero => ?_
  rw [hzero] at h
  cases h

/-- Accepted data is added as one command. Under every policy, executing it pushes the data, or
the number zero if the data is the single zero byte. -/
theorem addData_adds (h : b.addData data = .ok b') :
    ∃ c, b'.commands = b.commands ++ [c] ∧ b'.byteLength = b.byteLength + c.byteLength ∧
      c.Adds (pushedFor data) := by
  cases hcode : opcodeFor? data with
  | some code =>
    unfold addData pushData at h
    split_ifs at h
    simp only [hcode] at h
    cases h
    exact ⟨.op code, rfl, rfl, adds_of_opcodeFor hcode⟩
  | none =>
    obtain ⟨p, -, hpush, rfl⟩ := addData_eq_push hcode h
    rw [pushedFor_of_opcodeFor_eq_none hcode]
    exact ⟨.push p, rfl, rfl, hpush.adds⟩

/-- Minus one has an opcode, a negative zero has none, and the zero byte gives way to zero. -/
theorem addData_adds_instance :
    (∃ b', empty.addData [0x81] = .ok b' ∧ ∃ c, b'.commands = empty.commands ++ [c] ∧
      b'.byteLength = empty.byteLength + c.byteLength ∧ c.Adds [0x81]) ∧
    (∃ b', empty.addData [0x80] = .ok b' ∧ ∃ c, b'.commands = empty.commands ++ [c] ∧
      b'.byteLength = empty.byteLength + c.byteLength ∧ c.Adds [0x80]) ∧
    ∃ b', empty.addData [0] = .ok b' ∧ ∃ c, b'.commands = empty.commands ++ [c] ∧
      b'.byteLength = empty.byteLength + c.byteLength ∧ c.Adds [] := by
  have hminus : empty.addData [0x81] = .ok (empty.pushOp Opcode.negativeOne) := rfl
  have hpush : empty.addData [0x80] = .ok ⟨[.push ⟨[0x80], .direct, by decide⟩], 2⟩ := rfl
  have hzero : empty.addData [0] = .ok (empty.pushOp Opcode.zero) := rfl
  exact ⟨⟨_, hminus, addData_adds hminus⟩, ⟨_, hpush, addData_adds hpush⟩,
    ⟨_, hzero, addData_adds hzero⟩⟩

/-- A zero byte is accepted, but the number zero is pushed. -/
theorem not_forall_addData_adds : ¬ ∀ (b b' : Builder) (data : Bytes), b.addData data = .ok b' →
    ∃ c, b'.commands = b.commands ++ [c] ∧ c.Adds data := by
  intro hall
  obtain ⟨c, hcommands, hadds⟩ := hall empty ⟨[.op Opcode.zero], 1⟩ [0] rfl
  obtain rfl : .op Opcode.zero = c := (List.cons.inj hcommands).1
  exact List.cons_ne_nil _ _ (hadds.item_eq Command.adds_zero)

end Builder

end SpendScript
