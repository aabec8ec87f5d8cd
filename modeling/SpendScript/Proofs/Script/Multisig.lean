import SpendScript.Proofs.Script.Template

/-!
# The class of multisignature locks

A multisignature lock is made for up to twenty keys, and the classifier admits up to twenty. But it
reads both counts from the opcodes of small numbers, which end at sixteen; a greater count is pushed
as data. So the class of a lock for more than sixteen keys is not that of multisignature locks.

* `Command.Pushes.exists_op`, `Command.Pushes.exists_push`: how a count is pushed.
* `Script.multisigParams?_eq_none`: the classifier reads nothing from a number of keys as data.

Results:
* `Lock.multisigClassified`: when there is a lock, and its class.
* `Lock.not_multisigClassified`: a lock for seventeen keys is not taken for a multisignature lock.
-/

namespace SpendScript

/-! ## Counts and keys -/

namespace Command.Pushes

variable {c : Command} {code : Opcode} {data : Bytes} {n : ℕ}

/-- Opcodes push one byte at most. -/
theorem length_le_one (h : (Command.op code).Pushes data) : data.length ≤ 1 := by
  obtain ⟨n, hn, rfl⟩ := Option.map_eq_some_iff.mp h.pushed_eq
  have hle := (Engine.ofOpcode_of_smallInt hn).2.2.2
  rcases Nat.eq_zero_or_pos n with rfl | hpos
  · decide +kernel
  · rw [Builder.length_encode hpos (by omega)]

theorem data?_eq (h : c.Pushes data) (hlen : 2 ≤ data.length) : c.data? = some data := by
  cases c with
  | op code =>
    have hle := length_le_one h
    omega
  | push p => exact h.pushed_eq

theorem smallInt?_eq (h : (Command.op code).Pushes (ScriptNumber.encode (n : ℤ))) (hn : n ≤ 20) :
    Opcode.smallInt? code = some n := by
  obtain ⟨k, hk, hencode⟩ := Option.map_eq_some_iff.mp h.pushed_eq
  have hle := (Engine.ofOpcode_of_smallInt hk).2.2.2
  have hlimit : Limits.multisigKeys = 20 := rfl
  have hdecode := congrArg ScriptNumber.decode hencode
  rw [Lock.decode_encode (by omega), Lock.decode_encode (by omega), Except.ok.injEq,
    Int.natCast_inj] at hdecode
  rwa [← hdecode]

theorem encode_of_le (hpos : 1 ≤ n) (hle : n ≤ 16) :
    ScriptNumber.encode (n : ℤ) = [UInt8.ofNat n] ∧ Push.hasOpcode (UInt8.ofNat n) = true := by
  interval_cases n <;> decide +kernel

/-- A count up to sixteen is pushed by its opcode: as data, it would not be minimal. -/
theorem exists_op (h : c.Pushes (ScriptNumber.encode (n : ℤ))) (hpos : 1 ≤ n) (hle : n ≤ 16) :
    ∃ code, c = .op code ∧ Opcode.smallInt? code = some n := by
  cases c with
  | op code => exact ⟨code, rfl, h.smallInt?_eq (by omega)⟩
  | push p =>
    have hdata : p.data = ScriptNumber.encode (n : ℤ) := Option.some.inj h.pushed_eq
    have hminimal := (h.admitted ⟨false, true, false, 0⟩).2 rfl
    obtain ⟨hencode, hopcode⟩ := encode_of_le hpos hle
    simp [Push.isMinimal, hdata, hencode, hopcode] at hminimal

/-- A count above sixteen has no opcode. -/
theorem exists_push (h : c.Pushes (ScriptNumber.encode (n : ℤ))) (hlt : 16 < n) (hle : n ≤ 20) :
    ∃ p, c = .push p := by
  cases c with
  | op code =>
    have hsmall := (Engine.ofOpcode_of_smallInt (h.smallInt?_eq hle)).2.2.2
    omega
  | push p => exact ⟨p, rfl⟩

theorem pushesKey (h : c.Pushes data) (hdata : Script.isKeyShaped data = true) :
    Script.pushesKey c = true := by
  have hlength := Script.length_of_isKeyShaped hdata
  rw [Script.pushesKey, h.data?_eq (by omega)]
  exact hdata

end Command.Pushes

/-! ## The classifier -/

namespace Script

theorem multisigParams?_eq_none (cs : List Command) (p : Push) :
    multisigParams? (cs ++ [.push p] ++ [.op Opcode.checkMultiSig]) = none := by
  cases cs with
  | nil => rfl
  | cons c cs =>
    cases c with
    | push _ => rfl
    | op required =>
      simp only [multisigParams?, List.cons_append, List.append_assoc, List.reverse_append,
        List.reverse_cons, List.reverse_nil, List.nil_append]

/-- The other classes have other last commands. -/
theorem ofCommands_checkMultiSig (cs : List Command) :
    ScriptClass.ofCommands (cs ++ [.op Opcode.checkMultiSig]) =
      if (multisigParams? (cs ++ [.op Opcode.checkMultiSig])).isSome then .multiSig
      else .nonStandard := by
  have hcandidate : ScriptClass.candidate (cs ++ [.op Opcode.checkMultiSig]) = .multiSig := by
    rw [ScriptClass.candidate, List.getLast?_concat]
    rfl
  have hothers : ∀ t ∈ ScriptClass.tests, t.1 ≠ .multiSig →
      t.2 (cs ++ [.op Opcode.checkMultiSig]) = false := by
    intro t ht hne
    rw [Bool.eq_false_iff]
    exact fun hpass => hne ((ScriptClass.candidate_eq ht hpass).trans hcandidate)
  simp only [ScriptClass.tests, List.forall_mem_cons, ne_eq, reduceCtorEq, not_false_eq_true,
    forall_const] at hothers
  obtain ⟨hkey, hkeyHash, hscriptHash, -⟩ := hothers
  simp only [ScriptClass.ofCommands, hkey, hkeyHash, hscriptHash, Bool.false_eq_true, if_false]

end Script

/-! ## Locks -/

namespace Lock

variable {keys : List Bytes} {required : ℕ} {lock : Script}

/-- There is a lock for one to twenty keys, of which at least one is required. -/
theorem exists_multisigInOrder_iff (hkeys : ∀ key ∈ keys, Script.isKeyShaped key = true) :
    (∃ lock, multisigInOrder keys required = .ok lock) ↔
      1 ≤ required ∧ required ≤ keys.length ∧ keys.length ≤ Limits.multisigKeys := by
  constructor
  · rintro ⟨lock, h⟩
    obtain ⟨hpos, hle, hmax, -⟩ := multisigInOrder_eq_ok_iff.mp h
    exact ⟨hpos, hle, hmax⟩
  · rintro ⟨hpos, hle, hmax⟩
    refine exists_multisigInOrder hpos hle hmax fun key hkey => ?_
    have hlength := Script.length_of_isKeyShaped (hkeys key hkey)
    omega

theorem commands_of_multisigInOrder (hkeys : ∀ key ∈ keys, Script.isKeyShaped key = true)
    (h : multisigInOrder keys required = .ok lock) :
    ∃ first ks last, first.Pushes (ScriptNumber.encode (required : ℤ)) ∧
      List.Forall₂ Command.Pushes ks keys ∧ last.Pushes (ScriptNumber.encode (keys.length : ℤ)) ∧
      lock.commands = first :: (ks ++ [last]) ++ [.op Opcode.checkMultiSig] := by
  obtain ⟨first, ks, last, hfirst, hks, hlast, rfl⟩ := multisigInOrder_commands
    (fun key hkey => opcodeFor_of_isKeyShaped (hkeys key hkey)) h
  exact ⟨first, ks, last, hfirst, hks, hlast, rfl⟩

/-- With opcodes for both counts, the classifier reads back what the lock was made from. -/
theorem multisigParams?_of_le (hkeys : ∀ key ∈ keys, Script.isKeyShaped key = true)
    (h : multisigInOrder keys required = .ok lock) (hcount : keys.length ≤ 16) :
    Script.multisigParams? lock.commands = some (required, keys.length) := by
  obtain ⟨hpos, hle, hmax, -⟩ := multisigInOrder_eq_ok_iff.mp h
  obtain ⟨first, ks, last, hfirst, hks, hlast, hcommands⟩ := commands_of_multisigInOrder hkeys h
  obtain ⟨m, rfl, hm⟩ := hfirst.exists_op hpos (by omega)
  obtain ⟨n, rfl, hn⟩ := hlast.exists_op (by omega) hcount
  rw [hcommands]
  refine Script.multisigParams?_eq_some.mpr ⟨m, n, ks, rfl, hm, hn, fun c hc => ?_, hks.length_eq,
    hpos, hle, hmax⟩
  obtain ⟨key, hkey, hpushes⟩ := exists_mem_of_forall₂ hks hc
  exact hpushes.pushesKey (hkeys key hkey)

/-- The number of more than sixteen keys is data, which the classifier does not read. -/
theorem multisigParams?_of_lt (hkeys : ∀ key ∈ keys, Script.isKeyShaped key = true)
    (h : multisigInOrder keys required = .ok lock) (hcount : 16 < keys.length) :
    Script.multisigParams? lock.commands = none := by
  obtain ⟨-, -, hmax, -⟩ := multisigInOrder_eq_ok_iff.mp h
  obtain ⟨first, ks, last, -, -, hlast, hcommands⟩ := commands_of_multisigInOrder hkeys h
  obtain ⟨p, rfl⟩ := hlast.exists_push hcount hmax
  rw [hcommands]
  exact Script.multisigParams?_eq_none (first :: ks) p

theorem scriptClass_multisigInOrder (hkeys : ∀ key ∈ keys, Script.isKeyShaped key = true)
    (h : multisigInOrder keys required = .ok lock) :
    lock.scriptClass =
      if (Script.multisigParams? lock.commands).isSome then .multiSig else .nonStandard := by
  obtain ⟨first, ks, last, -, -, -, hcommands⟩ := commands_of_multisigInOrder hkeys h
  rw [Script.scriptClass, hcommands]
  exact Script.ofCommands_checkMultiSig _

/-- When there is a lock for the keys, and what the classifier finds in it. -/
structure ClassifiedByCount (keys : List Bytes) (required : ℕ) (made : Except MultisigError Script) :
    Prop where
  exists_iff : (∃ lock, made = .ok lock) ↔
    1 ≤ required ∧ required ≤ keys.length ∧ keys.length ≤ Limits.multisigKeys
  multiSig : ∀ lock, made = .ok lock → keys.length ≤ 16 →
    lock.scriptClass = .multiSig ∧
      Script.multisigParams? lock.commands = some (required, keys.length)
  nonStandard : ∀ lock, made = .ok lock → 16 < keys.length →
    lock.scriptClass = .nonStandard ∧ Script.multisigParams? lock.commands = none

theorem classifiedByCount_multisigInOrder (required : ℕ)
    (hkeys : ∀ key ∈ keys, Script.isKeyShaped key = true) :
    ClassifiedByCount keys required (multisigInOrder keys required) where
  exists_iff := exists_multisigInOrder_iff hkeys
  multiSig lock h hcount := by
    have hparams := multisigParams?_of_le hkeys h hcount
    refine ⟨?_, hparams⟩
    rw [scriptClass_multisigInOrder hkeys h, hparams]
    rfl
  nonStandard lock h hcount := by
    have hparams := multisigParams?_of_lt hkeys h hcount
    refine ⟨?_, hparams⟩
    rw [scriptClass_multisigInOrder hkeys h, hparams]
    rfl

/-- For keys of the right shapes, there is a lock exactly for one to twenty keys of which at least
one is required, with the keys sorted or not. Its class is that of multisignature locks, with the
counts that it was made from, if there are at most sixteen keys; if there are more, it has no class
and no counts are found. -/
theorem multisigClassified (keys : List Bytes) (required : ℕ)
    (hkeys : ∀ key ∈ keys, Script.isKeyShaped key = true) :
    ClassifiedByCount keys required (multisigInOrder keys required) ∧
      ClassifiedByCount keys required (multisig keys required) := by
  refine ⟨classifiedByCount_multisigInOrder required hkeys, ?_⟩
  have hsorted : ∀ key ∈ keys.mergeSort Bytes.le, Script.isKeyShaped key = true :=
    fun key hkey => hkeys key (List.mem_mergeSort.mp hkey)
  obtain ⟨hexists, hmultiSig, hnonStandard⟩ :=
    classifiedByCount_multisigInOrder required hsorted
  rw [List.length_mergeSort] at hexists hmultiSig hnonStandard
  exact ⟨hexists, hmultiSig, hnonStandard⟩

/-- As many compressed keys as asked for, by their shape. -/
def shapedKeys (count : ℕ) : List Bytes :=
  List.replicate count (0x02 :: List.replicate 32 0x11)

theorem isKeyShaped_of_mem_shapedKeys {count : ℕ} {key : Bytes} (h : key ∈ shapedKeys count) :
    Script.isKeyShaped key = true := by
  rw [List.eq_of_mem_replicate h]
  decide

/-- The greatest count that has an opcode. -/
theorem multisigClassified_sixteenKeys :
    (∀ key ∈ shapedKeys 16, Script.isKeyShaped key = true) ∧
      ∃ lock, multisig (shapedKeys 16) 16 = .ok lock ∧ lock.scriptClass = .multiSig ∧
        Script.multisigParams? lock.commands = some (16, 16) := by
  have hkeys : ∀ key ∈ shapedKeys 16, Script.isKeyShaped key = true :=
    fun _ => isKeyShaped_of_mem_shapedKeys
  obtain ⟨-, hsorted⟩ := multisigClassified (shapedKeys 16) 16 hkeys
  obtain ⟨lock, hlock⟩ := hsorted.exists_iff.mpr (by decide)
  exact ⟨hkeys, lock, hlock, hsorted.multiSig lock hlock (by decide)⟩

/-- There is a lock for seventeen keys, but the classifier does not take it for a multisignature
lock. -/
theorem not_multisigClassified :
    (∀ key ∈ shapedKeys 17, Script.isKeyShaped key = true) ∧
      ∃ lock, multisigInOrder (shapedKeys 17) 1 = .ok lock ∧ lock.scriptClass = .nonStandard ∧
        Script.multisigParams? lock.commands ≠ some (1, 17) := by
  have hkeys : ∀ key ∈ shapedKeys 17, Script.isKeyShaped key = true :=
    fun _ => isKeyShaped_of_mem_shapedKeys
  have hclassified := classifiedByCount_multisigInOrder 1 hkeys
  obtain ⟨lock, hlock⟩ := hclassified.exists_iff.mpr (by decide)
  obtain ⟨hclass, hparams⟩ := hclassified.nonStandard lock hlock (by decide)
  refine ⟨hkeys, lock, hlock, hclass, ?_⟩
  rw [hparams]
  exact (Option.some_ne_none _).symm

end Lock

end SpendScript
