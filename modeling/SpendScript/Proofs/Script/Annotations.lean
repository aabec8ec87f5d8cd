import SpendScript.Proofs.Engine.Opcodes
import SpendScript.Proofs.Script.Lines
import SpendScript.Proofs.Script.Shapes

/-!
# Indentation and annotations

What a disassembly tells of a command besides its name: the level that it stands at, and how many
signatures by how many keys a multisignature check asks for. Both are told from the commands before
it.

* `Script.levelOf_eq`, `Script.levelFrom_of_plain`: which commands change the level.
* `Script.multisigBefore?_eq_some`: the commands that an annotation is told from.

Results:
* `Script.multisigBefore?_of_opLine`: the numbers of an annotation are read back from its text.
* `Script.getLast?_view`: the last line of a multisignature lock.
-/

namespace SpendScript

/-! ## Levels -/

/-- The opcodes that work on the open conditionals. -/
theorem Command.isConditional_iff {c : Command} : c.isConditional = true ↔
    c = .op Opcode.ifTrue ∨ c = .op Opcode.ifFalse ∨ c = .op Opcode.otherwise ∨
      c = .op Opcode.endIf := by
  have htable : ∀ i : Fin 256, (Operation.ofOpcode (UInt8.ofFin i)).isConditional = true ↔
      UInt8.ofFin i = Opcode.ifTrue ∨ UInt8.ofFin i = Opcode.ifFalse ∨
        UInt8.ofFin i = Opcode.otherwise ∨ UInt8.ofFin i = Opcode.endIf := by decide +kernel
  cases c with
  | push p => simp [isConditional]
  | op code =>
    simp only [Command.op.injEq]
    exact htable code.toFin

namespace Script

variable {c : Command} {cs : List Command} {code : Opcode} {level : ℕ}

theorem opcode?_eq_some : opcode? c = some code ↔ c = .op code := by
  cases c <;> simp [opcode?]

/-- Else and end stand one level further left, if there is one. -/
theorem levelOf_eq (level : ℕ) (c : Command) : levelOf level c =
    if c = .op Opcode.otherwise ∨ c = .op Opcode.endIf then level - 1 else level := by
  simp only [levelOf, opcode?_eq_some, or_comm]

/-- Other commands do not change the level. -/
theorem level_of_plain (h : c.isConditional = false) :
    levelAfter (levelOf level c) c = level := by
  have hnone : ∀ code, (Command.op code).isConditional = true → opcode? c ≠ some code := by
    intro code hcode heq
    rw [← opcode?_eq_some.mp heq, h] at hcode
    cases hcode
  have hif := hnone Opcode.ifTrue rfl
  have hnotif := hnone Opcode.ifFalse rfl
  have helse := hnone Opcode.otherwise rfl
  have hend := hnone Opcode.endIf rfl
  simp only [levelAfter, levelOf, hif, hnotif, helse, hend, or_self, if_false]

theorem levelFrom_of_plain (h : ∀ c ∈ cs, c.isConditional = false) :
    levelFrom level cs = level := by
  induction cs with
  | nil => rfl
  | cons c cs ih =>
    obtain ⟨hc, hcs⟩ := List.forall_mem_cons.mp h
    show levelFrom (levelAfter (levelOf level c) c) cs = level
    rw [level_of_plain hc, ih hcs]

/-! ## Annotations -/

section Annotation

variable {before : List Command} {m n : ℕ}

/-- The annotation looks for the opcode of a number, as many pushes as a second opcode tells, and
that opcode. -/
theorem multisigBefore?_eq_some : multisigBefore? before = some (m, n) ↔
    ∃ (required count : Opcode) (ks below : List Command),
      before = .op count :: (ks ++ .op required :: below) ∧ count.smallInt? = some n ∧
      required.smallInt? = some m ∧ ks.length = n ∧ ∀ c ∈ ks, c.data?.isSome = true := by
  constructor
  · intro h
    unfold multisigBefore? at h
    split at h
    swap
    · cases h
    rename_i count rest
    simp only [bind, Option.bind_eq_some_iff] at h
    obtain ⟨k, hcount, h⟩ := h
    by_cases hfew : rest.length < k
    · rw [if_pos hfew] at h
      cases h
    rw [if_neg hfew] at h
    split at h
    swap
    · cases h
    rename_i required below hdrop
    simp only [Option.bind_eq_some_iff] at h
    obtain ⟨j, hrequired, h⟩ := h
    split_ifs at h with hkeys
    cases h
    refine ⟨required, count, rest.take n, below, ?_, hcount, hrequired, ?_,
      List.all_eq_true.mp hkeys⟩
    · rw [← hdrop, List.take_append_drop]
    · exact List.length_take_of_le (by omega)
  · rintro ⟨required, count, ks, below, rfl, hcount, hrequired, rfl, hks⟩
    have hlength : ¬(ks ++ Command.op required :: below).length < ks.length := by
      rw [List.length_append]
      omega
    simp only [multisigBefore?, bind, hcount, Option.bind_some, hlength, if_false, List.drop_left,
      List.take_left, hrequired, List.all_eq_true.mpr hks, if_true]

theorem opLine_of_check (hcode : code = Opcode.checkMultiSig ∨ code = Opcode.checkMultiSigVerify)
    (h : multisigBefore? before = some (m, n)) :
    opLine before code = code.text ++ s!" // {m} of {n}" := by
  rw [opLine, if_pos hcode, h]

/-- The two numbers are read back from an annotation: the first one ends where the digits do. -/
theorem counts_inj {j k : ℕ} (h : s!" // {m} of {n}" = s!" // {j} of {k}") : m = j ∧ n = k := by
  have hchars : ∀ j k : ℕ, s!" // {j} of {k}".toList =
      " // ".toList ++ (Nat.toDigits 10 j ++ (" of ".toList ++ Nat.toDigits 10 k)) := by
    intro j k
    show (" // " ++ j.repr ++ " of " ++ k.repr).toList = _
    simp only [String.toList_append, Nat.toList_repr, List.append_assoc]
  have hdigits : ∀ j k : ℕ, (Nat.toDigits 10 j ++ (" of ".toList ++ Nat.toDigits 10 k)).takeWhile
      Char.isDigit = Nat.toDigits 10 j := by
    intro j k
    rw [List.takeWhile_append_of_pos fun c hc =>
      Nat.isDigit_of_mem_toDigits (by decide) (by decide) hc]
    exact List.append_nil _
  have hinj : ∀ {j k : ℕ}, Nat.toDigits 10 j = Nat.toDigits 10 k → j = k := by
    intro j k hjk
    rw [← Nat.ofDigitChars_ten_toDigits (n := j), hjk, Nat.ofDigitChars_ten_toDigits]
  have hlist := congrArg String.toList h
  rw [hchars, hchars] at hlist
  have hrest := List.append_cancel_left hlist
  have hm := congrArg (List.takeWhile Char.isDigit) hrest
  rw [hdigits, hdigits] at hm
  rw [hm] at hrest
  exact ⟨hinj hm, hinj (List.append_cancel_left (List.append_cancel_left hrest))⟩

/-- An annotated line tells what the commands before it tell. -/
theorem multisigBefore?_of_opLine
    (hcode : code = Opcode.checkMultiSig ∨ code = Opcode.checkMultiSigVerify)
    (h : opLine before code = code.text ++ s!" // {m} of {n}") :
    multisigBefore? before = some (m, n) := by
  rw [opLine, if_pos hcode] at h
  split at h
  · rename_i j k hbefore
    obtain ⟨rfl, rfl⟩ := counts_inj ((String.append_right_inj code.text).mp h)
    exact hbefore
  · have hempty : s!" // {m} of {n}" = "" :=
      (String.append_right_inj code.text).mp (h.symm.trans String.append_empty.symm)
    refine absurd hempty ?_
    simp

end Annotation

/-! ## Multisignature locks -/

section Lock

variable {s : Script} {m n : ℕ}

/-- The commands of a multisignature lock before its check. -/
theorem exists_of_multisigParams (h : multisigParams? s.commands = some (m, n)) :
    ∃ past, s.commands = past ++ [.op Opcode.checkMultiSig] ∧
      (∀ c ∈ past, c.isConditional = false) ∧ multisigBefore? past.reverse = some (m, n) := by
  obtain ⟨required, count, ks, hcommands, hm, hn, hks, hlength, -⟩ := multisigParams?_eq_some.mp h
  have hpush : ∀ c ∈ ks, ∃ p : Push, c = .push p := by
    intro c hc
    obtain ⟨p, rfl, -⟩ := pushesKey_iff.mp (hks c hc)
    exact ⟨p, rfl⟩
  have hsmall : ∀ {code : Opcode} {k : ℕ}, code.smallInt? = some k →
      (Command.op code).isConditional = false := by
    intro code k hk
    have hpushed : (Command.op code).pushed? = some (ScriptNumber.encode (k : ℤ)) :=
      Option.map_eq_some_iff.mpr ⟨k, hk, rfl⟩
    exact Command.isConditional_of_pushed hpushed
  refine ⟨_, hcommands, ?_, multisigBefore?_eq_some.mpr
    ⟨required, count, ks.reverse, [], by simp, hn, hm, by rw [List.length_reverse, hlength], ?_⟩⟩
  · refine List.forall_mem_cons.mpr ⟨hsmall hm, List.forall_mem_append.mpr ⟨fun c hc => ?_,
      List.forall_mem_singleton.mpr (hsmall hn)⟩⟩
    obtain ⟨p, rfl⟩ := hpush c hc
    rfl
  · intro c hc
    obtain ⟨p, rfl⟩ := hpush c (List.mem_reverse.mp hc)
    rfl

/-- The last line of a multisignature lock tells what it asks for. -/
theorem getLast?_view (h : multisigParams? s.commands = some (m, n)) :
    (Line.readAll s.view).getLast? =
      some ⟨0, Opcode.checkMultiSig.text ++ s!" // {m} of {n}"⟩ := by
  obtain ⟨past, hcommands, hplain, hbefore⟩ := exists_of_multisigParams h
  have hlevel : levelOf (levelFrom 0 past) (.op Opcode.checkMultiSig) = 0 := by
    rw [levelFrom_of_plain hplain]
    rfl
  have hblock := getElem?_blocks hcommands
  rw [hlevel] at hblock
  have hlength : s.blocks.length = past.length + 1 := by
    rw [length_blocks, hcommands, List.length_append, List.length_singleton]
  have hlast := List.getLast?_eq_getElem? (l := s.blocks)
  rw [hlength, Nat.add_sub_cancel, hblock] at hlast
  obtain ⟨blocks, hblocks⟩ := List.getLast?_eq_some_iff.mp hlast
  rw [readAll_view, hblocks, List.flatten_concat]
  show (_ ++ [Line.mk (2 * 0) (opLine past.reverse Opcode.checkMultiSig)]).getLast? = _
  rw [List.getLast?_concat, opLine_of_check (Or.inl rfl) hbefore]

end Lock

end Script

end SpendScript
