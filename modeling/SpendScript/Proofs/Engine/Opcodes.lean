import Mathlib.Data.List.Forall2
import SpendScript.Proofs.Engine.Loop

/-!
# The opcodes of locks

When the operations that standard locks are made of succeed, and what they do then.

Results:
* `Engine.pop_eq_ok`, `Engine.popMany_eq_ok`, …: items taken off the stack.
* `Engine.runOpcode_executing`: an opcode where nothing is skipped; `Engine.runOpcode_branch`: flow
  control, which is never skipped.
* `Engine.perform_dup`, `Engine.perform_checkSig`, …: single operations.
* `Command.pushed?`: the item that a push or the opcode of a small number adds;
  `Engine.runPlain_pushed`, `Engine.exists_runPlain_pushed`: it does.
* `Command.Pushes`: a command does nothing but add an item, under any policy.
-/

namespace SpendScript

namespace Command

/-- The item that a command adds to the stack, if it does nothing else. -/
def pushed? : Command → Option Bytes
  | .op code => (Opcode.smallInt? code).map fun n : ℕ => ScriptNumber.encode (n : ℤ)
  | .push p => some p.data

/-- A push that is not too long and meets the policy. -/
def Admitted (flags : Flags) : Command → Prop
  | .op _ => True
  | .push p => p.data.length ≤ Limits.elementSize ∧
      (flags.minimalData = true → p.isMinimal = true)

end Command

namespace Engine

variable {env : Env} {s s' : State} {code : Opcode}

/-! ## Taking items -/

theorem setStack_apply (stack : Stack) (s : State) :
    setStack stack s = .ok () { s with stack := stack } :=
  rfl

theorem push_apply (item : Bytes) (s : State) :
    push item s = .ok () { s with stack := item :: s.stack } :=
  rfl

theorem pop_eq_ok {item : Bytes} : pop s = .ok item s' ↔
    ∃ rest, s.stack = item :: rest ∧ s' = { s with stack := rest } := by
  unfold pop
  rw [get_bind]
  cases hs : s.stack with
  | nil => simp [fail_apply]
  | cons a rest =>
    show (setStack rest >>= fun _ => pure a) s = _ ↔ _
    rw [bind_of_eq_ok (setStack_apply rest s), pure_apply]
    constructor
    · rintro ⟨⟩
      exact ⟨rest, rfl, rfl⟩
    · rintro ⟨_, ⟨⟩, rfl⟩
      rfl

theorem popTwo_eq_ok {a b : Bytes} : popTwo s = .ok (a, b) s' ↔
    ∃ rest, s.stack = b :: a :: rest ∧ s' = { s with stack := rest } := by
  unfold popTwo
  rw [get_bind]
  match hs : s.stack with
  | [] => simp [fail_apply]
  | [_] => simp [fail_apply]
  | b' :: a' :: rest =>
    show (setStack rest >>= fun _ => pure (a', b')) s = _ ↔ _
    rw [bind_of_eq_ok (setStack_apply rest s), pure_apply]
    constructor
    · rintro ⟨⟩
      exact ⟨rest, rfl, rfl⟩
    · rintro ⟨_, ⟨⟩, rfl⟩
      rfl

/-- The popped items were on top of the stack, the last of them first. -/
theorem popMany_eq_ok {n : ℕ} {items : List Bytes} : popMany n s = .ok items s' ↔
    ∃ rest, s.stack = items.reverse ++ rest ∧ items.length = n ∧ s' = { s with stack := rest } := by
  unfold popMany Stack.popMany
  rw [get_bind]
  by_cases hn : n ≤ s.stack.length
  · rw [if_pos hn, lift_ok]
    show (setStack (List.drop n s.stack) >>= fun _ => pure (s.stack.take n).reverse) s = _ ↔ _
    rw [bind_of_eq_ok (setStack_apply _ s), pure_apply]
    constructor
    · rintro ⟨⟩
      refine ⟨List.drop n s.stack, ?_, ?_, rfl⟩
      · rw [List.reverse_reverse, List.take_append_drop]
      · rw [List.length_reverse, List.length_take, Nat.min_eq_left hn]
    · rintro ⟨rest, hs, rfl, rfl⟩
      have hlen : items.length = items.reverse.length := List.length_reverse.symm
      rw [hs, hlen, List.take_left, List.drop_left, List.reverse_reverse]
  · rw [if_neg hn]
    constructor
    · intro h
      cases h
    · rintro ⟨rest, hs, hlen, -⟩
      rw [hs, List.length_append, List.length_reverse] at hn
      omega

theorem popNumber_eq_ok {n : ℤ} : popNumber s = .ok n s' ↔ ∃ item rest, s.stack = item :: rest ∧
    ScriptNumber.decode item = .ok n ∧ s' = { s with stack := rest } := by
  unfold popNumber
  rw [bind_eq_ok]
  constructor
  · rintro ⟨item, t, hpop, hlift⟩
    obtain ⟨rest, hs, rfl⟩ := pop_eq_ok.mp hpop
    obtain ⟨hdecode, rfl⟩ := lift_eq_ok.mp hlift
    exact ⟨item, rest, hs, hdecode, rfl⟩
  · rintro ⟨item, rest, hs, hdecode, rfl⟩
    exact ⟨item, _, pop_eq_ok.mpr ⟨rest, hs, rfl⟩, lift_eq_ok.mpr ⟨hdecode, rfl⟩⟩

theorem rearrange_eq_ok {f : Stack → Except ScriptError Stack} : rearrange f s = .ok () s' ↔
    ∃ stack, f s.stack = .ok stack ∧ s' = { s with stack := stack } := by
  unfold rearrange
  rw [get_bind, bind_eq_ok]
  constructor
  · rintro ⟨stack, t, hlift, hset⟩
    obtain ⟨hf, rfl⟩ := lift_eq_ok.mp hlift
    cases hset
    exact ⟨stack, hf, rfl⟩
  · rintro ⟨stack, hf, rfl⟩
    exact ⟨stack, s, lift_eq_ok.mpr ⟨hf, rfl⟩, rfl⟩

/-! ## Counting -/

theorem count_eq_ok {n : ℕ} : count n s = .ok () s' ↔ s.operations + n ≤ Limits.operations ∧
    s' = { s with operations := s.operations + n } := by
  rw [count_apply]
  split_ifs with h
  · simp only [false_iff]
    rintro ⟨hle, -⟩
    omega
  · rw [EStateM.Result.ok.injEq]
    constructor
    · rintro ⟨-, rfl⟩
      exact ⟨by omega, rfl⟩
    · rintro ⟨-, rfl⟩
      exact ⟨rfl, rfl⟩

/-- The state in which an executed opcode acts. -/
def started (s : State) (code : Opcode) : State :=
  { s with
    operations := s.operations + code.isCounted.toNat
    events := .executing code s.stack.length :: s.events }

/-- What is executed, acts after it has been reported. -/
theorem act_eq (hact : (s.isExecuting || code.isConditional) = true) :
    (do
      let s ← get
      if State.isExecuting s || code.isConditional then
        emit (.executing code s.stack.length)
        perform env code (Operation.ofOpcode code)) s =
      perform env code (Operation.ofOpcode code)
        { s with events := .executing code s.stack.length :: s.events } := by
  rw [get_bind, if_pos hact]
  exact bind_of_eq_ok rfl

theorem act_executing (hexec : s.isExecuting = true) :
    (do
      let s ← get
      if State.isExecuting s || code.isConditional then
        emit (.executing code s.stack.length)
        perform env code (Operation.ofOpcode code)) s =
      perform env code (Operation.ofOpcode code)
        { s with events := .executing code s.stack.length :: s.events } :=
  act_eq (by rw [hexec, Bool.true_or])

/-- Flow control is not disabled, and counts. -/
theorem isCounted_of_isConditional (hcode : code.isConditional = true) :
    code.isDisabled = false ∧ code.isCounted = true := by
  have hall : ∀ i : Fin 256, Opcode.isConditional (UInt8.ofFin i) = true →
      Opcode.isDisabled (UInt8.ofFin i) = false ∧ Opcode.isCounted (UInt8.ofFin i) = true := by
    decide +kernel
  exact hall code.toFin hcode

/-- Flow control is counted, and then it acts in every part. -/
theorem runOpcode_branch (hcode : code.isConditional = true) (s : State) :
    runOpcode env code s =
      if Limits.operations < s.operations + 1 then
        .error (.error .tooManyOperations) { s with operations := s.operations + 1 }
      else perform env code (Operation.ofOpcode code) (started s code) := by
  obtain ⟨hdisabled, hcounted⟩ := isCounted_of_isConditional hcode
  unfold runOpcode started
  rw [hdisabled, hcounted, if_neg Bool.false_ne_true, if_pos rfl]
  split_ifs with hlimit
  · exact bind_of_eq_error (by rw [count_apply, if_pos hlimit])
  · rw [bind_of_eq_ok (by rw [count_apply, if_neg hlimit])]
    exact act_eq (s := { s with operations := s.operations + 1 })
      (by rw [hcode, Bool.or_true])

/-- Where nothing is skipped, an opcode that is not disabled is counted and acts. -/
theorem runOpcode_executing (hd : code.isDisabled = false) (hexec : s.isExecuting = true) :
    runOpcode env code s = .ok () s' ↔
      (code.isCounted = true → s.operations + 1 ≤ Limits.operations) ∧
      perform env code (Operation.ofOpcode code) (started s code) = .ok () s' := by
  unfold runOpcode
  rw [if_neg (by rw [hd]; exact Bool.false_ne_true)]
  cases hcount : code.isCounted with
  | false =>
    rw [if_neg Bool.false_ne_true, started, hcount, and_iff_right Bool.noConfusion]
    refine Eq.congr_left ?_
    exact act_executing hexec
  | true =>
    rw [if_pos rfl, bind_eq_ok, started, hcount]
    constructor
    · rintro ⟨_, t, hcnt, hrest⟩
      obtain ⟨hle, rfl⟩ := count_eq_ok.mp hcnt
      exact ⟨fun _ => hle, (act_executing (s := { s with operations := s.operations + 1 })
        hexec).symm.trans hrest⟩
    · rintro ⟨hle, hperform⟩
      refine ⟨(), { s with operations := s.operations + 1 }, count_eq_ok.mpr ⟨hle rfl, rfl⟩, ?_⟩
      exact (act_executing (s := { s with operations := s.operations + 1 }) hexec).trans hperform

/-- Where nothing is skipped, an opcode within the limit of operations acts, and does no more. -/
theorem runOpcode_eq_perform (hd : code.isDisabled = false) (hexec : s.isExecuting = true)
    (hops : s.operations + 1 ≤ Limits.operations) :
    runOpcode env code s = perform env code (Operation.ofOpcode code) (started s code) := by
  unfold runOpcode
  rw [if_neg (by rw [hd]; exact Bool.false_ne_true), started]
  cases code.isCounted with
  | false =>
    rw [if_neg Bool.false_ne_true]
    exact act_executing hexec
  | true =>
    rw [if_pos rfl, bind_of_eq_ok (count_eq_ok.mpr ⟨hops, rfl⟩)]
    exact act_executing (s := { s with operations := s.operations + 1 }) hexec

/-! ## Operations on items -/

theorem perform_dup : perform env code (.dup 1) s = .ok () s' ↔
    ∃ item rest, s.stack = item :: rest ∧ s' = { s with stack := item :: item :: rest } := by
  unfold perform
  rw [rearrange_eq_ok]
  cases hs : s.stack with
  | nil => simp [Stack.dup, Stack.needing]
  | cons item rest =>
    have hdup : Stack.dup 1 (item :: rest) = .ok (item :: item :: rest) := by
      unfold Stack.dup Stack.needing
      rw [if_pos (show 1 ≤ (item :: rest).length from Nat.le_add_left 1 rest.length)]
      rfl
    constructor
    · rintro ⟨stack, hstack, rfl⟩
      rw [hdup, Except.ok.injEq] at hstack
      exact ⟨item, rest, rfl, by rw [hstack]⟩
    · rintro ⟨_, _, ⟨⟩, rfl⟩
      exact ⟨_, hdup, rfl⟩

theorem perform_hash {f : HashFunction} : perform env code (.hash f) s = .ok () s' ↔
    ∃ item rest, s.stack = item :: rest ∧ s' = { s with stack := f.digest item :: rest } := by
  unfold perform
  rw [bind_eq_ok]
  constructor
  · rintro ⟨item, t, hpop, hpush⟩
    obtain ⟨rest, hs, rfl⟩ := pop_eq_ok.mp hpop
    cases hpush
    exact ⟨item, rest, hs, rfl⟩
  · rintro ⟨item, rest, hs, rfl⟩
    exact ⟨item, _, pop_eq_ok.mpr ⟨rest, hs, rfl⟩, rfl⟩

theorem perform_equalVerify : perform env code (.equal true) s = .ok () s' ↔
    ∃ item rest, s.stack = item :: item :: rest ∧ s' = { s with stack := rest } := by
  unfold perform
  rw [bind_eq_ok]
  constructor
  · rintro ⟨⟨a, b⟩, t, hpop, hconclude⟩
    obtain ⟨rest, hs, rfl⟩ := popTwo_eq_ok.mp hpop
    obtain ⟨heq, rfl⟩ := require_eq_ok.mp hconclude
    rw [eq_of_beq heq] at hs
    exact ⟨b, rest, hs, rfl⟩
  · rintro ⟨item, rest, hs, rfl⟩
    exact ⟨(item, item), _, popTwo_eq_ok.mpr ⟨rest, hs, rfl⟩,
      require_eq_ok.mpr ⟨BEq.rfl, rfl⟩⟩

theorem perform_equal : perform env code (.equal false) s = .ok () s' ↔
    ∃ a b rest, s.stack = b :: a :: rest ∧
      s' = { s with stack := ScriptNumber.ofBool (a == b) :: rest } := by
  unfold perform
  rw [bind_eq_ok]
  constructor
  · rintro ⟨⟨a, b⟩, t, hpop, hconclude⟩
    obtain ⟨rest, hs, rfl⟩ := popTwo_eq_ok.mp hpop
    cases hconclude
    exact ⟨a, b, rest, hs, rfl⟩
  · rintro ⟨a, b, rest, hs, rfl⟩
    exact ⟨(a, b), _, popTwo_eq_ok.mpr ⟨rest, hs, rfl⟩, rfl⟩

theorem perform_checkSig : perform env code (.checkSig false) s = .ok () s' ↔
    ∃ sig key rest valid t, s.stack = key :: sig :: rest ∧
      checkSignature env sig key { s with stack := rest } = .ok valid t ∧
      s' = { t with stack := ScriptNumber.ofBool valid :: rest } := by
  unfold perform
  rw [bind_eq_ok]
  constructor
  · rintro ⟨⟨sig, key⟩, t, hpop, hrest⟩
    obtain ⟨rest, hs, rfl⟩ := popTwo_eq_ok.mp hpop
    obtain ⟨valid, t, hcheck, hconclude⟩ := bind_eq_ok.mp hrest
    refine ⟨sig, key, rest, valid, t, hs, hcheck, ?_⟩
    have hpush : push (ScriptNumber.ofBool valid) t = .ok () s' := hconclude
    rw [push_apply, (checkSignature_checkFrame sig key hcheck).stack_eq] at hpush
    cases hpush
    rfl
  · rintro ⟨sig, key, rest, valid, t, hs, hcheck, rfl⟩
    refine ⟨(sig, key), _, popTwo_eq_ok.mpr ⟨rest, hs, rfl⟩, bind_eq_ok.mpr ⟨valid, t, hcheck, ?_⟩⟩
    show push (ScriptNumber.ofBool valid) t = _
    rw [push_apply, (checkSignature_checkFrame sig key hcheck).stack_eq]

theorem perform_checkMultiSig : perform env code (.checkMultiSig false) s = .ok () s' ↔
    ∃ valid t, checkMultiSig env s = .ok valid t ∧
      s' = { t with stack := ScriptNumber.ofBool valid :: t.stack } := by
  unfold perform
  rw [bind_eq_ok]
  constructor
  · rintro ⟨valid, t, hcheck, hconclude⟩
    cases hconclude
    exact ⟨valid, t, hcheck, rfl⟩
  · rintro ⟨valid, t, hcheck, rfl⟩
    exact ⟨valid, t, hcheck, rfl⟩

/-- A multisignature check on a stack of the extra item, `sigs`, their count, `keys` and their
count. -/
theorem checkMultiSig_eq_ok {valid : Bool} : checkMultiSig env s = .ok valid s' ↔
    ∃ keyCount keys sigCount sigs dummy rest,
      s.stack = keyCount :: (keys.reverse ++ sigCount :: (sigs.reverse ++ dummy :: rest)) ∧
      ScriptNumber.decode keyCount = .ok (keys.length : ℤ) ∧
      ScriptNumber.decode sigCount = .ok (sigs.length : ℤ) ∧
      keys.length ≤ Limits.multisigKeys ∧ sigs.length ≤ keys.length ∧
      s.operations + keys.length ≤ Limits.operations ∧
      matchKeys (checkSignature env) keys sigs
        { s with stack := rest, operations := s.operations + keys.length } = .ok valid s' := by
  unfold checkMultiSig
  constructor
  · intro h
    obtain ⟨n, t₁, hn, h⟩ := bind_eq_ok.mp h
    obtain ⟨keyCount, rest₁, hs₁, hkeyCount, rfl⟩ := popNumber_eq_ok.mp hn
    by_cases hneg : n < 0
    · rw [if_pos hneg] at h
      cases h
    by_cases hmany : (Limits.multisigKeys : ℤ) < n
    · rw [if_neg hneg, if_pos hmany] at h
      cases h
    rw [if_neg hneg, if_neg hmany] at h
    obtain ⟨_, t₂, hcount, h⟩ := bind_eq_ok.mp h
    obtain ⟨hops, rfl⟩ := count_eq_ok.mp hcount
    obtain ⟨keys, t₃, hkeys, h⟩ := bind_eq_ok.mp h
    obtain ⟨rest₂, hs₂, hlen, rfl⟩ := popMany_eq_ok.mp hkeys
    obtain ⟨m, t₄, hm, h⟩ := bind_eq_ok.mp h
    obtain ⟨sigCount, rest₃, hs₃, hsigCount, rfl⟩ := popNumber_eq_ok.mp hm
    by_cases hneg' : m < 0
    · rw [if_pos hneg'] at h
      cases h
    by_cases hmore : n < m
    · rw [if_neg hneg', if_pos hmore] at h
      cases h
    rw [if_neg hneg', if_neg hmore] at h
    obtain ⟨sigs, t₅, hsigs, h⟩ := bind_eq_ok.mp h
    obtain ⟨rest₄, hs₄, hlen', rfl⟩ := popMany_eq_ok.mp hsigs
    obtain ⟨dummy, t₆, hdummy, h⟩ := bind_eq_ok.mp h
    obtain ⟨rest, hs₅, rfl⟩ := pop_eq_ok.mp hdummy
    simp only at hs₂ hs₃ hs₄ hs₅
    have hn' : n = (keys.length : ℤ) := by omega
    have hm' : m = (sigs.length : ℤ) := by omega
    refine ⟨keyCount, keys, sigCount, sigs, dummy, rest, ?_, hn' ▸ hkeyCount, hm' ▸ hsigCount, ?_,
      ?_, hlen ▸ hops, ?_⟩
    · rw [hs₁, hs₂, hs₃, hs₄, hs₅]
    · omega
    · omega
    · rw [hlen]
      exact h
  · rintro ⟨keyCount, keys, sigCount, sigs, dummy, rest, hs, hkeyCount, hsigCount, hmax, hle, hops,
      h⟩
    refine bind_eq_ok.mpr ⟨_, _, popNumber_eq_ok.mpr ⟨keyCount, _, hs, hkeyCount, rfl⟩, ?_⟩
    rw [if_neg (by omega), if_neg (by omega), Int.toNat_natCast]
    refine bind_eq_ok.mpr ⟨(), _, count_eq_ok.mpr ⟨hops, rfl⟩, ?_⟩
    refine bind_eq_ok.mpr ⟨keys, _, popMany_eq_ok.mpr ⟨_, rfl, rfl, rfl⟩, ?_⟩
    refine bind_eq_ok.mpr ⟨_, _, popNumber_eq_ok.mpr ⟨sigCount, _, rfl, hsigCount, rfl⟩, ?_⟩
    rw [if_neg (by omega), if_neg (by omega), Int.toNat_natCast]
    refine bind_eq_ok.mpr ⟨sigs, _, popMany_eq_ok.mpr ⟨_, rfl, rfl, rfl⟩, ?_⟩
    exact bind_eq_ok.mpr ⟨dummy, _, pop_eq_ok.mpr ⟨rest, rfl, rfl⟩, h⟩

/-! ## Adding items -/

section Pushes

variable {c : Command} {data : Bytes}

/-- The opcodes of small numbers are neither disabled nor counted. -/
theorem ofOpcode_of_smallInt {n : ℕ} (h : Opcode.smallInt? code = some n) :
    code.isDisabled = false ∧ code.isCounted = false ∧
      Operation.ofOpcode code = .pushNumber n ∧ n ≤ 16 := by
  have hop : Operation.ofOpcode code = .pushNumber n := by
    unfold Operation.ofOpcode
    rw [h]
  have hcode : code = 0 ∨ 0x51 ≤ code ∧ code ≤ 0x60 := by
    unfold Opcode.smallInt? at h
    split_ifs at h with h0 h1
    · exact Or.inl h0
    · exact Or.inr h1
  have hle : n ≤ 16 := by
    unfold Opcode.smallInt? at h
    split_ifs at h with h0 h1
    · cases h
      exact Nat.zero_le 16
    · cases h
      have := UInt8.le_iff_toNat_le.mp h1.2
      simp only [Opcode.sixteen, Opcode.one, UInt8.reduceToNat] at *
      omega
  refine ⟨?_, ?_, hop, hle⟩
  · simp only [Opcode.isDisabled, decide_eq_false_iff_not, UInt8.le_iff_toNat_le,
      ← UInt8.toNat_inj, UInt8.reduceToNat] at *
    omega
  · simp only [Opcode.isCounted, Opcode.sixteen, decide_eq_false_iff_not, UInt8.lt_iff_toNat_lt,
      UInt8.le_iff_toNat_le, ← UInt8.toNat_inj, UInt8.reduceToNat] at *
    omega

/-- A number of 64 bits is pushed in its shortest form. -/
theorem pushNumber_of_fits {n : ℤ} (h : Number.fitsSigned n = true) (s : State) :
    pushNumber n s = .ok () { s with stack := ScriptNumber.encode n :: s.stack } := by
  unfold pushNumber
  rw [if_pos h]
  rfl

theorem pushNumber_apply {n : ℕ} (h : n ≤ 16) (s : State) :
    pushNumber n s = .ok () { s with stack := ScriptNumber.encode n :: s.stack } := by
  refine pushNumber_of_fits ?_ s
  simp only [Number.fitsSigned, Bool.and_eq_true, decide_eq_true_iff]
  omega

/-- Where nothing is skipped, a command that only adds an item does so. -/
theorem runPlain_pushed (hexec : s.isExecuting = true) (hc : c.pushed? = some data)
    (h : runPlain env c s = .ok () s') :
    c.Admitted env.flags ∧
      ∃ events, s' = { s with stack := data :: s.stack, events := events } := by
  cases c with
  | push p =>
    cases hc
    obtain ⟨hle, hmin, rfl⟩ := (runPlain_push_executing hexec).mp h
    exact ⟨⟨hle, hmin⟩, s.events, rfl⟩
  | op code =>
    obtain ⟨n, hn, rfl⟩ := Option.map_eq_some_iff.mp hc
    obtain ⟨hd, hcount, hop, hle⟩ := ofOpcode_of_smallInt hn
    obtain ⟨-, hperform⟩ := (runOpcode_executing hd hexec).mp h
    rw [hop] at hperform
    have hpush := (pushNumber_apply hle (started s code)).symm.trans hperform
    rw [EStateM.Result.ok.injEq] at hpush
    refine ⟨trivial, .executing code s.stack.length :: s.events, ?_⟩
    rw [← hpush.2]
    simp only [started, hcount, Bool.toNat_false, Nat.add_zero]

theorem exists_runPlain_pushed (env : Env) (hexec : s.isExecuting = true)
    (hc : c.pushed? = some data) (hadm : c.Admitted env.flags) :
    ∃ events, runPlain env c s = .ok () { s with stack := data :: s.stack, events := events } := by
  cases c with
  | push p =>
    cases hc
    exact ⟨s.events, (runPlain_push_executing hexec).mpr ⟨hadm.1, hadm.2, rfl⟩⟩
  | op code =>
    obtain ⟨n, hn, rfl⟩ := Option.map_eq_some_iff.mp hc
    obtain ⟨hd, hcount, hop, hle⟩ := ofOpcode_of_smallInt hn
    refine ⟨.executing code s.stack.length :: s.events, ?_⟩
    refine (runOpcode_executing hd hexec).mpr ⟨fun h => Bool.noConfusion (hcount ▸ h), ?_⟩
    rw [hop]
    refine (pushNumber_apply hle _).trans ?_
    simp only [started, hcount, Bool.toNat_false, Nat.add_zero]

end Pushes

theorem isExecuting_of_conditions_eq_nil (h : s.conditions = []) : s.isExecuting = true := by
  unfold State.isExecuting
  rw [h]

end Engine

/-! ## Commands that add an item -/

theorem exists_mem_of_forall₂ {α β : Type} {R : α → β → Prop} {xs : List α} {ys : List β}
    (h : List.Forall₂ R xs ys) {x : α} (hx : x ∈ xs) : ∃ y ∈ ys, R x y := by
  induction h with
  | nil => cases hx
  | cons hxy _ ih =>
    rcases List.mem_cons.mp hx with rfl | hx
    · exact ⟨_, List.mem_cons_self, hxy⟩
    · obtain ⟨y, hy, hR⟩ := ih hx
      exact ⟨y, List.mem_cons_of_mem _ hy, hR⟩

/-- The command adds the item `data` and passes every policy. -/
structure Command.Pushes (c : Command) (data : Bytes) : Prop where
  pushed_eq : c.pushed? = some data
  admitted : ∀ flags, c.Admitted flags

namespace Command

variable {c : Command} {data : Bytes}

theorem isConditional_of_pushed (h : c.pushed? = some data) : c.isConditional = false := by
  cases c with
  | push p => rfl
  | op code =>
    obtain ⟨n, hn, -⟩ := Option.map_eq_some_iff.mp h
    show (Operation.ofOpcode code).isConditional = false
    rw [(Engine.ofOpcode_of_smallInt hn).2.2.1]
    rfl

theorem Pushes.map_pushed {cs : List Command} {items : List Bytes}
    (h : List.Forall₂ Pushes cs items) : cs.map pushed? = items.map some := by
  induction h with
  | nil => rfl
  | cons hc _ ih => rw [List.map_cons, List.map_cons, hc.pushed_eq, ih]

end Command

end SpendScript
