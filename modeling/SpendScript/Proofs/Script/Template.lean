import SpendScript.Proofs.Script.Builder
import SpendScript.Proofs.Script.Shapes

/-!
# The commands of standard scripts

Results:
* `Lock.multisigInOrder_commands`, `Lock.exists_multisigInOrder`: the commands of a multisignature
  lock, and when there is one.
* `Unlock.exists_key`, `Unlock.exists_keyHash`, `Unlock.exists_multisig`: the commands of what opens
  locks.
* `Command.Pushes.totalLength_le`, `Command.Pushes.readable`: the bytes of commands that push items
  are few, and spell them.
-/

namespace SpendScript

/-! ## Bytes of pushes -/

namespace Command

variable {c : Command} {cs : List Command} {data : Bytes} {items : List Bytes}

/-- The bytes that items take at most. -/
def room (items : List Bytes) : ℕ :=
  (items.map fun item => item.length + 3).sum

theorem room_cons (item : Bytes) (items : List Bytes) :
    room (item :: items) = item.length + 3 + room items := by
  rw [room, List.map_cons, List.sum_cons]
  rfl

theorem room_le {k : ℕ} (h : ∀ item ∈ items, item.length ≤ k) :
    room items ≤ items.length * (k + 3) := by
  induction items with
  | nil => exact Nat.zero_le _
  | cons item items ih =>
    have hitem := h item List.mem_cons_self
    have hitems := ih fun i hi => h i (List.mem_cons_of_mem item hi)
    rw [room_cons, List.length_cons, Nat.add_mul]
    omega

theorem Pushes.byteLength_le (h : c.Pushes data) : c.byteLength ≤ data.length + 3 := by
  cases c with
  | op code =>
    show 1 ≤ data.length + 3
    omega
  | push p =>
    obtain rfl := Option.some.inj h.pushed_eq
    exact p.byteLength_le

theorem Pushes.totalLength_le (h : List.Forall₂ Pushes cs items) : totalLength cs ≤ room items := by
  induction h with
  | nil => exact Nat.le_refl 0
  | cons hc _ ih =>
    have hle := hc.byteLength_le
    rw [totalLength, room_cons]
    omega

/-- The opcodes of small numbers and pushes of data are read back from their bytes. -/
theorem Pushes.readable (h : c.Pushes data) (hne : data ≠ []) : c.Readable := by
  cases c with
  | op code =>
    obtain ⟨n, hn, -⟩ := Option.map_eq_some_iff.mp h.pushed_eq
    unfold Opcode.smallInt? at hn
    split_ifs at hn with hzero hsmall
    · rw [hzero]
      exact ⟨by decide, by decide, by decide⟩
    · have hle := UInt8.le_iff_toNat_le.mp hsmall.1
      simp only [Readable, ne_eq, UInt8.le_iff_toNat_le, ← UInt8.toNat_inj, Opcode.one,
        Opcode.lastDirect, Opcode.pushData1, Opcode.pushData2, UInt8.reduceToNat] at *
      omega
  | push p =>
    obtain rfl := Option.some.inj h.pushed_eq
    intro hnil
    exact absurd hnil hne

end Command

/-! ## Locks -/

theorem mapError_eq_ok {ε ε' α : Type} {f : ε → ε'} {r : Except ε α} {a : α} :
    r.mapError f = .ok a ↔ r = .ok a := by
  cases r <;> simp [Except.mapError]

theorem mapError_eq_error {ε ε' α : Type} {f : ε → ε'} {r : Except ε α} {e : ε'} :
    r.mapError f = .error e ↔ ∃ cause, r = .error cause ∧ f cause = e := by
  cases r <;> simp [Except.mapError]

theorem except_bind_eq_ok {ε α β : Type} {r : Except ε α} {f : α → Except ε β} {b : β} :
    (r >>= f) = .ok b ↔ ∃ a, r = .ok a ∧ f a = .ok b := by
  cases r <;> simp [bind, Except.bind]

theorem except_bind_eq_error {ε α β : Type} {r : Except ε α} {f : α → Except ε β} {e : ε} :
    (r >>= f) = .error e ↔ r = .error e ∨ ∃ a, r = .ok a ∧ f a = .error e := by
  cases r <;> simp [bind, Except.bind]

namespace Lock

variable {b b' : Builder} {items keys : List Bytes} {key : Bytes}

/-- The counts of a multisignature lock are read back as they were written. -/
theorem decode_encode {n : ℕ} (h : n ≤ Limits.multisigKeys) :
    ScriptNumber.decode (ScriptNumber.encode (n : ℤ)) = .ok (n : ℤ) := by
  have hle : n ≤ 20 := h
  interval_cases n <;> decide +kernel

/-- The count of some items tells how many of the items below it belong to it. -/
theorem counted_inj {items items' : List Bytes} {tail tail' : List Bytes} {count : Bytes}
    (hmax : items.length ≤ Limits.multisigKeys)
    (hcount : ScriptNumber.decode count = .ok (items'.length : ℤ))
    (h : ScriptNumber.encode items.length :: (items.reverse ++ tail) =
      count :: (items'.reverse ++ tail')) : items = items' ∧ tail = tail' := by
  obtain ⟨rfl, htails⟩ := List.cons.inj h
  rw [decode_encode hmax, Except.ok.injEq, Int.natCast_inj] at hcount
  obtain ⟨hitems, htail⟩ := List.append_inj htails (by rw [List.length_reverse,
    List.length_reverse, hcount])
  exact ⟨List.reverse_inj.mp hitems, htail⟩

theorem opcodeFor_of_isKeyShaped (h : Script.isKeyShaped key = true) :
    Builder.opcodeFor? key = none := by
  have hlength := Script.length_of_isKeyShaped h
  exact Builder.opcodeFor_eq_none (by omega)

theorem addAll_eq_ok (hitems : ∀ item ∈ items, Builder.opcodeFor? item = none)
    (h : addAll b items = .ok b') :
    ∃ cs, List.Forall₂ Command.Pushes cs items ∧ b'.commands = b.commands ++ cs := by
  induction items generalizing b with
  | nil =>
    cases h
    exact ⟨[], .nil, (List.append_nil _).symm⟩
  | cons item items ih =>
    obtain ⟨b₁, h₁, hrest⟩ := except_bind_eq_ok.mp h
    obtain ⟨p, -, hp, hb₁⟩ := Builder.addData_eq_ok (hitems item List.mem_cons_self) h₁
    obtain ⟨cs, hcs, hb'⟩ := ih (fun i hi => hitems i (List.mem_cons_of_mem _ hi)) hrest
    refine ⟨.push p :: cs, .cons hp hcs, ?_⟩
    rw [hb', hb₁, List.append_assoc, List.singleton_append]

theorem exists_addAll (hitems : ∀ item ∈ items, item.length ≤ Limits.elementSize)
    (hsize : b.byteLength + Command.room items ≤ Limits.scriptSize) :
    ∃ b', addAll b items = .ok b' ∧ b'.byteLength ≤ b.byteLength + Command.room items := by
  induction items generalizing b with
  | nil => exact ⟨b, rfl, Nat.le_add_right _ _⟩
  | cons item items ih =>
    have hroom := Command.room_cons item items
    obtain ⟨b₁, h₁, hle₁⟩ := Builder.exists_addData (b := b) (hitems item List.mem_cons_self)
      (by omega)
    obtain ⟨b', h', hle'⟩ := ih (b := b₁) (fun i hi => hitems i (List.mem_cons_of_mem _ hi))
      (by omega)
    exact ⟨b', except_bind_eq_ok.mpr ⟨b₁, h₁, h'⟩, by omega⟩

/-- The steps of making a multisignature lock. -/
theorem multisigInOrder_eq_ok_iff {required : ℕ} {lock : Script} :
    multisigInOrder keys required = .ok lock ↔
      1 ≤ required ∧ required ≤ keys.length ∧ keys.length ≤ Limits.multisigKeys ∧
      ∃ b₁ b₂ b₃ b₄, Builder.empty.addInt (required : ℤ) = .ok b₁ ∧ addAll b₁ keys = .ok b₂ ∧
        b₂.addInt (keys.length : ℤ) = .ok b₃ ∧ b₃.addOp Opcode.checkMultiSig = .ok b₄ ∧
        lock = b₄.toScript := by
  have hwrap : required ≤ Limits.multisigKeys →
      Int.bmod (required : ℤ) Number.wordSize = required := by
    intro hle
    have hmax : Limits.multisigKeys = 20 := rfl
    have hword : 64 ≤ Number.wordSize := by decide
    apply Int.bmod_eq_of_le <;> omega
  unfold multisigInOrder
  constructor
  · intro h
    by_cases hzero : required = 0
    · rw [if_pos hzero] at h
      cases h
    simp only [if_neg hzero] at h
    obtain ⟨b₁, h₁, h⟩ := except_bind_eq_ok.mp h
    obtain ⟨b₂, h₂, h⟩ := except_bind_eq_ok.mp h
    by_cases hempty : keys.isEmpty = true
    · rw [if_pos hempty] at h
      cases h
    rw [if_neg hempty] at h
    by_cases hfew : keys.length < required
    · rw [if_pos hfew] at h
      cases h
    rw [if_neg hfew] at h
    by_cases hmany : Limits.multisigKeys < keys.length
    · rw [if_pos hmany] at h
      cases h
    rw [if_neg hmany] at h
    obtain ⟨b₃, h₃, h⟩ := except_bind_eq_ok.mp h
    obtain ⟨b₄, h₄, h⟩ := except_bind_eq_ok.mp h
    rw [mapError_eq_ok] at h₁ h₂ h₃ h₄
    rw [hwrap (by omega)] at h₁
    exact ⟨by omega, by omega, by omega, b₁, b₂, b₃, b₄, h₁, h₂, h₃, h₄, (Except.ok.inj h).symm⟩
  · rintro ⟨hpos, hle, hmax, b₁, b₂, b₃, b₄, h₁, h₂, h₃, h₄, rfl⟩
    have hempty : ¬ keys.isEmpty = true := by
      rw [List.isEmpty_iff]
      rintro rfl
      rw [List.length_nil] at hle
      omega
    have hfirst : Builder.empty.addInt (Int.bmod (required : ℤ) Number.wordSize) = .ok b₁ := by
      rw [hwrap (by omega)]
      exact h₁
    simp only [if_neg (show ¬ required = 0 by omega)]
    refine except_bind_eq_ok.mpr ⟨b₁, mapError_eq_ok.mpr hfirst, ?_⟩
    refine except_bind_eq_ok.mpr ⟨b₂, mapError_eq_ok.mpr h₂, ?_⟩
    rw [if_neg hempty, if_neg (by omega), if_neg (by omega)]
    refine except_bind_eq_ok.mpr ⟨b₃, mapError_eq_ok.mpr h₃, ?_⟩
    exact except_bind_eq_ok.mpr ⟨b₄, mapError_eq_ok.mpr h₄, rfl⟩

/-- A multisignature lock pushes the required number, the keys and their number. -/
theorem multisigInOrder_commands {required : ℕ} {lock : Script}
    (hkeys : ∀ key ∈ keys, Builder.opcodeFor? key = none)
    (h : multisigInOrder keys required = .ok lock) :
    ∃ first cs last, first.Pushes (ScriptNumber.encode (required : ℤ)) ∧
      List.Forall₂ Command.Pushes cs keys ∧ last.Pushes (ScriptNumber.encode (keys.length : ℤ)) ∧
      lock = Script.ofCommands (first :: (cs ++ [last]) ++ [.op Opcode.checkMultiSig]) := by
  obtain ⟨hpos, hle, hmax, b₁, b₂, b₃, b₄, h₁, h₂, h₃, h₄, rfl⟩ := multisigInOrder_eq_ok_iff.mp h
  have hmax' : keys.length ≤ 20 := hmax
  obtain ⟨first, hfirst, hb₁⟩ := Builder.addInt_eq_ok hpos (by omega) h₁
  obtain ⟨cs, hcs, hb₂⟩ := addAll_eq_ok hkeys h₂
  obtain ⟨last, hlast, hb₃⟩ := Builder.addInt_eq_ok (by omega) hmax' h₃
  refine ⟨first, cs, last, hfirst, hcs, hlast, ?_⟩
  unfold Builder.toScript
  rw [Builder.addOp_eq_ok h₄, hb₃, hb₂, hb₁]
  simp [Builder.empty]

theorem multisigInOrder_eq_ok {required : ℕ} {lock : Script}
    (hkeys : ∀ key ∈ keys, Builder.opcodeFor? key = none)
    (h : multisigInOrder keys required = .ok lock) :
    1 ≤ required ∧ required ≤ keys.length ∧ keys.length ≤ Limits.multisigKeys ∧
      ∃ cs, List.Forall₂ Command.Pushes cs (ScriptNumber.encode (required : ℤ) ::
          (keys ++ [ScriptNumber.encode (keys.length : ℤ)])) ∧
        lock = Script.ofCommands (cs ++ [.op Opcode.checkMultiSig]) := by
  obtain ⟨hpos, hle, hmax, -⟩ := multisigInOrder_eq_ok_iff.mp h
  obtain ⟨first, cs, last, hfirst, hcs, hlast, rfl⟩ := multisigInOrder_commands hkeys h
  exact ⟨hpos, hle, hmax, first :: (cs ++ [last]),
    .cons hfirst (List.rel_append hcs (.cons hlast .nil)), rfl⟩

theorem length_of_mem_multisig {required : ℕ} {item : Bytes} (hpos : 1 ≤ required)
    (hle : required ≤ keys.length) (hmax : keys.length ≤ Limits.multisigKeys)
    (hkeys : ∀ key ∈ keys, 1 ≤ key.length ∧ key.length ≤ 65)
    (h : item ∈ ScriptNumber.encode (required : ℤ) ::
      (keys ++ [ScriptNumber.encode (keys.length : ℤ)])) :
    1 ≤ item.length ∧ item.length ≤ 65 := by
  have hmax' : keys.length ≤ 20 := hmax
  rcases List.mem_cons.mp h with rfl | h
  · rw [Builder.length_encode hpos (by omega)]
    omega
  rcases List.mem_append.mp h with h | h
  · exact hkeys item h
  · rw [List.mem_singleton.mp h, Builder.length_encode (by omega) hmax']
    omega

/-- The bytes of a multisignature lock are few, and spell it. -/
theorem byteLength_multisig {required : ℕ} {cs : List Command} (hpos : 1 ≤ required)
    (hle : required ≤ keys.length) (hmax : keys.length ≤ Limits.multisigKeys)
    (hkeys : ∀ key ∈ keys, 1 ≤ key.length ∧ key.length ≤ 65)
    (hcs : List.Forall₂ Command.Pushes cs (ScriptNumber.encode (required : ℤ) ::
      (keys ++ [ScriptNumber.encode (keys.length : ℤ)]))) :
    2 ≤ (Script.ofCommands (cs ++ [.op Opcode.checkMultiSig])).byteLength ∧
      (Script.ofCommands (cs ++ [.op Opcode.checkMultiSig])).byteLength ≤ 1500 ∧
      ∀ c ∈ cs ++ [.op Opcode.checkMultiSig], c.Readable := by
  have hmax' : keys.length ≤ 20 := hmax
  have hbytes := Command.Pushes.totalLength_le hcs
  have hroom := Command.room_le fun item hitem =>
    (length_of_mem_multisig hpos hle hmax hkeys hitem).2
  have hcount := hcs.length_eq
  have hlen := Command.length_le_totalLength cs
  rw [List.length_cons, List.length_append, List.length_singleton] at hcount hroom
  have htotal : (Script.ofCommands (cs ++ [.op Opcode.checkMultiSig])).byteLength =
      Command.totalLength cs + 1 := Command.totalLength_append cs [.op Opcode.checkMultiSig]
  refine ⟨by omega, by omega, ?_⟩
  intro c hc
  rcases List.mem_append.mp hc with hc | hc
  · obtain ⟨item, hitem, hpushes⟩ := exists_mem_of_forall₂ hcs hc
    have hpos := (length_of_mem_multisig hpos hle hmax hkeys hitem).1
    exact hpushes.readable (List.length_pos_iff.mp hpos)
  · rw [List.mem_singleton.mp hc]
    exact ⟨by decide, by decide, by decide⟩

/-- There is a multisignature lock for up to twenty keys of admitted sizes. -/
theorem exists_multisigInOrder {required : ℕ} (hpos : 1 ≤ required)
    (hle : required ≤ keys.length) (hmax : keys.length ≤ Limits.multisigKeys)
    (hkeys : ∀ key ∈ keys, key.length ≤ 65) :
    ∃ lock, multisigInOrder keys required = .ok lock := by
  have hmax' : keys.length ≤ 20 := hmax
  have hroom : Command.room keys ≤ 20 * (65 + 3) :=
    Nat.le_trans (Command.room_le hkeys) (Nat.mul_le_mul_right _ hmax')
  have hscript : Limits.scriptSize = 10000 := rfl
  have hempty : Builder.empty.byteLength = 0 := rfl
  have helement : ∀ key ∈ keys, key.length ≤ Limits.elementSize := by
    intro key hkey
    have := hkeys key hkey
    show key.length ≤ 520
    omega
  obtain ⟨b₁, h₁, hb₁⟩ := Builder.exists_addInt (b := Builder.empty) hpos (by omega) (by omega)
  obtain ⟨b₂, h₂, hb₂⟩ := exists_addAll (b := b₁) helement (by omega)
  obtain ⟨b₃, h₃, hb₃⟩ := Builder.exists_addInt (b := b₂) (n := keys.length) (by omega) hmax'
    (by omega)
  have h₄ : b₃.addOp Opcode.checkMultiSig = .ok (b₃.pushOp Opcode.checkMultiSig) :=
    if_neg (by omega)
  exact ⟨_, multisigInOrder_eq_ok_iff.mpr ⟨hpos, hle, hmax, b₁, b₂, b₃, _, h₁, h₂, h₃, h₄, rfl⟩⟩

end Lock

/-! ## What opens locks -/

namespace Unlock

variable {item key : Bytes} {items : List Bytes}

/-- An item of an admitted size for which no opcode stands is added as a push. -/
theorem exists_push {b : Builder} (hmin : 2 ≤ item.length) (hmax : item.length ≤ Limits.elementSize)
    (hsize : b.byteLength + item.length + 3 ≤ Limits.scriptSize) :
    ∃ b' p, b.addData item = .ok b' ∧ b'.byteLength ≤ b.byteLength + item.length + 3 ∧
      p.data = item ∧ Command.Pushes (.push p) item ∧ b'.commands = b.commands ++ [.push p] := by
  obtain ⟨b', hb', hle⟩ := Builder.exists_addData hmax hsize
  obtain ⟨p, hp, hpush, hcommands⟩ := Builder.addData_eq_ok (Builder.opcodeFor_eq_none hmin) hb'
  exact ⟨b', p, hb', hle, hp, hpush, hcommands⟩

theorem exists_key (hmin : 2 ≤ item.length) (hmax : item.length ≤ Limits.elementSize) :
    ∃ opening, Unlock.key item = .ok opening ∧
      List.Forall₂ Command.Pushes opening.commands [item] := by
  have hlen : item.length ≤ 520 := hmax
  obtain ⟨b, p, hb, -, -, hp, hcommands⟩ := exists_push (b := Builder.empty) hmin hmax
    (show 0 + item.length + 3 ≤ 10000 by omega)
  refine ⟨b.toScript, except_bind_eq_ok.mpr ⟨b, hb, rfl⟩, ?_⟩
  show List.Forall₂ Command.Pushes b.commands [item]
  rw [hcommands]
  exact .cons hp .nil

theorem exists_keyHash (hitem : 2 ≤ item.length ∧ item.length ≤ Limits.elementSize)
    (hkey : 2 ≤ key.length ∧ key.length ≤ Limits.elementSize) :
    ∃ opening, keyHash item key = .ok opening ∧
      List.Forall₂ Command.Pushes opening.commands [item, key] := by
  have hlen : item.length ≤ 520 := hitem.2
  have hlen' : key.length ≤ 520 := hkey.2
  have hempty : Builder.empty.byteLength = 0 := rfl
  obtain ⟨b, p, hb, hle, -, hp, hcommands⟩ := exists_push (b := Builder.empty) hitem.1 hitem.2
    (show 0 + item.length + 3 ≤ 10000 by omega)
  obtain ⟨b', p', hb', -, -, hp', hcommands'⟩ := exists_push (b := b) hkey.1 hkey.2
    (show b.byteLength + key.length + 3 ≤ 10000 by omega)
  refine ⟨b'.toScript, except_bind_eq_ok.mpr ⟨b, hb, except_bind_eq_ok.mpr ⟨b', hb', rfl⟩⟩, ?_⟩
  show List.Forall₂ Command.Pushes b'.commands [item, key]
  rw [hcommands', hcommands]
  exact .cons hp (.cons hp' .nil)

theorem exists_multisig (hmin : ∀ item ∈ items, 2 ≤ item.length)
    (hmax : ∀ item ∈ items, item.length ≤ Limits.elementSize)
    (hsize : 1 + Command.room items ≤ Limits.scriptSize) :
    ∃ opening, multisig items = .ok opening ∧
      List.Forall₂ Command.Pushes opening.commands ([] :: items) := by
  have hfirst : Builder.empty.addOp Opcode.zero = .ok (Builder.empty.pushOp Opcode.zero) := rfl
  obtain ⟨b, hb, -⟩ := Lock.exists_addAll (b := Builder.empty.pushOp Opcode.zero) hmax hsize
  obtain ⟨cs, hcs, hcommands⟩ := Lock.addAll_eq_ok
    (fun item hitem => Builder.opcodeFor_eq_none (hmin item hitem)) hb
  refine ⟨b.toScript, except_bind_eq_ok.mpr ⟨_, hfirst, except_bind_eq_ok.mpr ⟨b, hb, rfl⟩⟩, ?_⟩
  show List.Forall₂ Command.Pushes b.commands ([] :: items)
  rw [hcommands]
  exact .cons ⟨by decide +kernel, fun _ => trivial⟩ hcs

/-- The bytes of a script are added as a push behind what opens it. -/
theorem exists_scriptHash {redeem opening : Script} (hmin : 2 ≤ redeem.byteLength)
    (hmax : redeem.byteLength ≤ Limits.elementSize) :
    ∃ wrapped p, scriptHash redeem opening = .ok wrapped ∧ p.data = redeem.toBytes ∧
      Command.Pushes (.push p) p.data ∧ wrapped.commands = opening.commands ++ [.push p] := by
  have hlen : redeem.toBytes.length = redeem.byteLength := Command.length_encode redeem.commands
  have hmax' : redeem.byteLength ≤ 520 := hmax
  rw [← hlen] at hmin hmax hmax'
  obtain ⟨b, p, hb, -, hp, hpush, hcommands⟩ := exists_push (b := Builder.empty) hmin hmax
    (show 0 + redeem.toBytes.length + 3 ≤ 10000 by omega)
  refine ⟨opening ++ b.toScript, p, except_bind_eq_ok.mpr ⟨b, hb, rfl⟩, hp, hp ▸ hpush, ?_⟩
  show opening.commands ++ b.commands = _
  rw [hcommands]
  rfl

end Unlock

end SpendScript
