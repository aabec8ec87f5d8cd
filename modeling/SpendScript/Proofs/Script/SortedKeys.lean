import SpendScript.Proofs.Script.Additions
import SpendScript.Proofs.Script.Template

/-!
# The order in which keys are listed

A multisignature lock is made of the keys in the order of their bytes. That order is linear, so
sorting forgets in which order the keys were listed, and all that follows it, errors included, only
sees the sorted list.

Results:
* `Bytes.le_iff`: keys are compared lexicographically.
* `Bytes.mergeSort_eq_of_perm`: lists of the same items are sorted to the same list.
* `Lock.multisigSorted`: the lock, or the error, for keys in any order; the keys that the lock
  pushes.
* `Lock.not_forall_pushes_sorted`: a key that is a single zero byte is not pushed.
-/

namespace SpendScript

/-! ## Order -/

namespace Bytes

variable {as bs : Bytes} {items items' : List Bytes}

theorem le_iff : le as bs = true ↔ as ≤ bs := by
  induction as, bs using le.induct with
  | case1 bs => simp [le]
  | case2 a as => simp [le]
  | case3 as b bs ih => simp [le, ih, List.cons_le_cons_iff]
  | case4 a as b bs hne =>
    rw [le, if_neg hne, List.cons_le_cons_iff, decide_eq_true_iff, UInt8.lt_iff_toNat_lt]
    have hne' : a.toNat ≠ b.toNat := fun heq => hne (UInt8.toNat_inj.mp heq)
    constructor
    · exact fun hle => Or.inl (lt_of_le_of_ne hle hne')
    · rintro (hlt | ⟨rfl, -⟩)
      · exact hlt.le
      · exact absurd rfl hne

/-- The order is total and transitive, so sorting sorts. -/
theorem pairwise_mergeSort (items : List Bytes) :
    (items.mergeSort le).Pairwise (· ≤ ·) := by
  have htrans : ∀ as bs cs : Bytes, le as bs = true → le bs cs = true → le as cs = true :=
    fun as bs cs hab hbc => le_iff.mpr (List.le_trans (le_iff.mp hab) (le_iff.mp hbc))
  have htotal : ∀ as bs : Bytes, (le as bs || le bs as) = true := by
    intro as bs
    rw [Bool.or_eq_true, le_iff, le_iff]
    exact List.le_total as bs
  exact (List.pairwise_mergeSort htrans htotal items).imp le_iff.mp

/-- The order is antisymmetric, so there is one sorted list of some items. -/
theorem eq_of_perm_of_pairwise (h : items.Perm items') (hitems : items.Pairwise (· ≤ ·))
    (hitems' : items'.Pairwise (· ≤ ·)) : items = items' :=
  h.eq_of_pairwise (fun _ _ _ _ => List.le_antisymm) hitems hitems'

theorem mergeSort_eq_of_perm (h : items.Perm items') : items.mergeSort le = items'.mergeSort le :=
  eq_of_perm_of_pairwise
    (((items.mergeSort_perm le).trans h).trans (items'.mergeSort_perm le).symm)
    (pairwise_mergeSort items) (pairwise_mergeSort items')

end Bytes

/-! ## Keys of a lock -/

namespace Lock

variable {b b' : Builder} {items keys keys' : List Bytes} {required : ℕ} {lock : Script}

/-- The command for a key: executed, it adds the key, or the number zero for a zero byte; unless an
opcode stands for the key, it is a push of the key. -/
structure AddsKey (c : Command) (key : Bytes) : Prop where
  adds : c.Adds (Builder.pushedFor key)
  data?_eq : Builder.opcodeFor? key = none → c.data? = some key

theorem addsKey_of_canonical {c : Command} {key : Bytes} (hlen : key.length ≤ Limits.elementSize)
    (h : Builder.canonical key = .ok c) : AddsKey c key := by
  refine ⟨Builder.adds_canonical hlen h, fun hnone => ?_⟩
  rcases Builder.canonical_cases h with ⟨code, hcode, -⟩ | ⟨p, -, hp, rfl⟩
  · rw [hnone] at hcode
    cases hcode
  · exact congrArg some (Push.ofBytes_eq_ok hp).1

theorem addsKey_of_addAll (h : addAll b items = .ok b') :
    ∃ cs, List.Forall₂ AddsKey cs items ∧ b'.commands = b.commands ++ cs := by
  induction items generalizing b with
  | nil =>
    cases h
    exact ⟨[], .nil, (List.append_nil _).symm⟩
  | cons item items ih =>
    obtain ⟨b₁, h₁, hrest⟩ := except_bind_eq_ok.mp h
    obtain ⟨-, hlen, c, hc, rfl⟩ := Builder.addData_eq_ok_iff.mp h₁
    obtain ⟨cs, hcs, hb'⟩ := ih hrest
    refine ⟨c :: cs, .cons (addsKey_of_canonical hlen hc) hcs, ?_⟩
    rw [hb', List.append_assoc, List.singleton_append]

theorem adds_of_addInt {n : ℕ} (hn : n ≤ Limits.multisigKeys) (h : b.addInt (n : ℤ) = .ok b') :
    ∃ c : Command, c.Adds (ScriptNumber.encode (n : ℤ)) ∧ b'.commands = b.commands ++ [c] := by
  have hmax : Limits.multisigKeys = 20 := rfl
  have hfits : Number.fitsSigned (n : ℤ) = true := by
    simp only [Number.fitsSigned, Bool.and_eq_true, decide_eq_true_iff]
    omega
  obtain ⟨-, c, hc, rfl⟩ := (Builder.addInt_eq_ok_iff hfits).mp h
  have hadds := Builder.adds_canonical (Builder.length_encode_of_fits hfits) hc
  rw [Builder.pushedFor_encode] at hadds
  exact ⟨c, hadds, rfl⟩

/-- The lock consists of the required number, the keys in the order of their bytes, each as often
as it was listed, their number, and the check. -/
def HoldsSorted (keys : List Bytes) (required : ℕ) (lock : Script) : Prop :=
  ∃ (sorted : List Bytes) (first last : Command) (cs : List Command),
    sorted.Perm keys ∧ sorted.Pairwise (· ≤ ·) ∧
    lock = .ofCommands (first :: (cs ++ [last]) ++ [.op Opcode.checkMultiSig]) ∧
    first.Adds (ScriptNumber.encode (required : ℤ)) ∧ List.Forall₂ AddsKey cs sorted ∧
    last.Adds (ScriptNumber.encode (keys.length : ℤ))

theorem holdsSorted (h : multisig keys required = .ok lock) : HoldsSorted keys required lock := by
  obtain ⟨-, hle, hmax, b₁, b₂, b₃, b₄, h₁, h₂, h₃, h₄, rfl⟩ := multisigInOrder_eq_ok_iff.mp h
  rw [List.length_mergeSort] at hle hmax h₃
  obtain ⟨first, hfirst, hb₁⟩ := adds_of_addInt (hle.trans hmax) h₁
  obtain ⟨cs, hcs, hb₂⟩ := addsKey_of_addAll h₂
  obtain ⟨last, hlast, hb₃⟩ := adds_of_addInt hmax h₃
  refine ⟨keys.mergeSort Bytes.le, first, last, cs, keys.mergeSort_perm Bytes.le,
    Bytes.pairwise_mergeSort keys, ?_, hfirst, hcs, hlast⟩
  rw [Builder.toScript, Builder.addOp_eq_ok h₄, hb₃, hb₂, hb₁]
  simp only [Builder.empty, List.nil_append, List.cons_append, List.append_assoc]

/-- However the keys are listed, the result is the same, the same lock or the same error, and so is
the lock to the hash of that lock. A lock that is made holds the keys in the order of their bytes,
with duplicates kept: each key is pushed, by an opcode if one stands for it, but the number zero is
pushed for a single zero byte. -/
theorem multisigSorted (hperm : keys.Perm keys') (required : ℕ) :
    multisig keys required = multisig keys' required ∧
      (multisig keys required).map toScript = (multisig keys' required).map toScript ∧
      ∀ lock, multisig keys required = .ok lock → HoldsSorted keys required lock := by
  have hsame : multisig keys required = multisig keys' required := by
    rw [multisig, multisig, Bytes.mergeSort_eq_of_perm hperm]
  exact ⟨hsame, congrArg (Except.map toScript) hsame, fun _ => holdsSorted⟩

/-- Two keys, one of them listed twice, in two orders. -/
theorem multisigSorted_duplicate :
    let even : Bytes := 0x02 :: List.replicate 32 0x11
    let odd : Bytes := 0x03 :: List.replicate 32 0x11
    [odd, even, odd].Perm [even, odd, odd] ∧ ∃ lock, multisig [odd, even, odd] 2 = .ok lock ∧
      multisig [even, odd, odd] 2 = .ok lock ∧ HoldsSorted [odd, even, odd] 2 lock := by
  intro even odd
  have hperm : [odd, even, odd].Perm [even, odd, odd] := .swap even odd [odd]
  obtain ⟨hsame, -, hholds⟩ := multisigSorted hperm 2
  obtain ⟨lock, hlock⟩ : ∃ lock, multisig [odd, even, odd] 2 = .ok lock := by
    refine exists_multisigInOrder (by decide) ?_ ?_ fun key hkey => ?_
    · rw [List.length_mergeSort]
      decide
    · rw [List.length_mergeSort]
      decide
    · have hmem : ∀ key ∈ [odd, even, odd], key.length ≤ 65 := by decide
      exact hmem key (List.mem_mergeSort.mp hkey)
  exact ⟨hperm, lock, hlock, hsame ▸ hlock, hholds lock hlock⟩

/-- A lock with a single zero byte for a key adds the empty string in the place of that key. -/
theorem not_forall_pushes_sorted : ¬ ∀ (keys : List Bytes) (required : ℕ) (lock : Script),
    multisig keys required = .ok lock →
      ∃ (first last : Command) (cs : List Command),
        lock = .ofCommands (first :: (cs ++ [last]) ++ [.op Opcode.checkMultiSig]) ∧
        List.Forall₂ Command.Adds cs (keys.mergeSort Bytes.le) := by
  intro hall
  have hlock : multisig [[0]] 1 =
      .ok (.ofCommands [.op Opcode.one, .op Opcode.zero, .op Opcode.one,
        .op Opcode.checkMultiSig]) := by
    rw [multisig, List.mergeSort_singleton]
    rfl
  obtain ⟨first, last, cs, hcommands, hadds⟩ := hall _ _ _ hlock
  rw [List.mergeSort_singleton] at hadds
  obtain ⟨c, rest, hc, -, rfl⟩ := List.forall₂_cons_right_iff.mp hadds
  have hzero : c = .op Opcode.zero :=
    ((List.cons.inj (List.cons.inj (Script.mk.inj hcommands).1).2).1).symm
  rw [hzero] at hc
  exact List.cons_ne_nil _ _ (hc.item_eq Command.adds_zero)

end Lock

end SpendScript
