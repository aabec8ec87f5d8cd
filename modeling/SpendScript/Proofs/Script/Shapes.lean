import SpendScript.Proofs.Script.Coding
import SpendScript.Script.Class
import SpendScript.Script.Template

/-!
# Locks told by their shapes

The classifier tests one form after the other. A form fixes the number of the commands or the last
of them, and no two forms agree on both: a script passes one test at most, so the order of the tests
does not matter. What the tests look at is all of a lock but how the length of its push is encoded.

* `Command.content`, `Script.SameContents`: commands without the encodings of their pushes.
* `Script.keyLock?_eq_some`, `Script.keyHashLock?_eq_some`, `Script.scriptHashLock?_eq_some`,
  `Script.multisigParams?_eq_some`: which commands pass the tests.
* `ScriptClass.tests`, `ScriptClass.firstOf`: the tests as data; `ScriptClass.candidate` is the only
  class that commands can have.
* `Script.payeeByPlace`: the payee found by the place of a command, once the class is known.

Results:
* `Script.payee`: what a script pays to, for each form and for no form.
* `Lock.formsRecognized`: the reader of payees is inverse to the three templates.
-/

namespace SpendScript

/-! ## Commands without encodings -/

namespace Command

variable {c : Command} {code : Opcode} {data : Bytes}

/-- The opcode, or the data of a push however its length is encoded. -/
def content : Command → Opcode ⊕ Bytes
  | .op code => .inl code
  | .push p => .inr p.data

theorem content_eq_inl : c.content = .inl code ↔ c = .op code := by
  cases c <;> simp [content]

theorem content_eq_inr : c.content = .inr data ↔ ∃ p, c = .push p ∧ p.data = data := by
  cases c <;> simp [content]

end Command

namespace Script

/-- The commands are the same up to the encodings of pushes. -/
def SameContents (s t : Script) : Prop :=
  s.commands.map Command.content = t.commands.map Command.content

/-! ## What passes the tests -/

variable {cs ks : List Command} {data key : Bytes} {m n : ℕ}

theorem length_of_isKeyShaped (h : isKeyShaped data = true) :
    data.length = 33 ∨ data.length = 65 := by
  cases data with
  | nil => cases h
  | cons tag body =>
    simp only [isKeyShaped, Bool.or_eq_true, Bool.and_eq_true, beq_iff_eq] at h
    rw [List.length_cons]
    omega

theorem keyLock?_eq_some : keyLock? cs = some key ↔
    ∃ p : Push, cs = [.push p, .op Opcode.checkSig] ∧ isKeyShaped p.data = true ∧
      p.data = key := by
  constructor
  · intro h
    unfold keyLock? at h
    split at h
    · rename_i p check
      split_ifs at h with hform
      obtain ⟨rfl, hshape⟩ := hform
      exact ⟨p, rfl, hshape, Option.some.inj h⟩
    · cases h
  · rintro ⟨p, rfl, hshape, rfl⟩
    simp only [keyLock?, hshape, and_self, if_true]

theorem keyHashLock?_eq_some : keyHashLock? cs = some data ↔
    ∃ p : Push, cs = [.op Opcode.dup, .op Opcode.hash160, .push p, .op Opcode.equalVerify,
        .op Opcode.checkSig] ∧ p.data.length = 20 ∧ p.data = data := by
  constructor
  · intro h
    unfold keyHashLock? at h
    split at h
    · rename_i p _ _
      split_ifs at h with hform
      obtain ⟨rfl, rfl, hlength, rfl, rfl⟩ := hform
      exact ⟨p, rfl, hlength, Option.some.inj h⟩
    · cases h
  · rintro ⟨p, rfl, hlength, rfl⟩
    simp only [keyHashLock?, hlength, and_self, if_true]

theorem scriptHashLock?_eq_some : scriptHashLock? cs = some data ↔
    ∃ p : Push, cs = [.op Opcode.hash160, .push p, .op Opcode.equal] ∧ p.data.length = 20 ∧
      p.data = data := by
  constructor
  · intro h
    unfold scriptHashLock? at h
    split at h
    · rename_i p _
      split_ifs at h with hform
      obtain ⟨rfl, hlength, rfl⟩ := hform
      exact ⟨p, rfl, hlength, Option.some.inj h⟩
    · cases h
  · rintro ⟨p, rfl, hlength, rfl⟩
    simp only [scriptHashLock?, hlength, and_self, if_true]

theorem pushesKey_iff {c : Command} :
    pushesKey c = true ↔ ∃ p : Push, c = .push p ∧ isKeyShaped p.data = true := by
  cases c <;> simp [pushesKey, Command.data?]

/-- The opcode of a number, as many keys as a second opcode tells, that opcode, and the check. -/
theorem multisigParams?_eq_some : multisigParams? cs = some (m, n) ↔
    ∃ (required count : Opcode) (ks : List Command),
      cs = .op required :: (ks ++ [.op count]) ++ [.op Opcode.checkMultiSig] ∧
      required.smallInt? = some m ∧ count.smallInt? = some n ∧
      (∀ c ∈ ks, pushesKey c = true) ∧ ks.length = n ∧ 1 ≤ m ∧ m ≤ n ∧
      n ≤ Limits.multisigKeys := by
  constructor
  · intro h
    unfold multisigParams? at h
    split at h
    swap
    · cases h
    rename_i required rest
    split at h
    swap
    · cases h
    rename_i check count keys hreverse
    simp only [bind, Option.bind_eq_some_iff] at h
    obtain ⟨m', hm, n', hn, h⟩ := h
    split_ifs at h with hform
    obtain ⟨rfl, hkeys, hlength, hpos, hle, hmax⟩ := hform
    cases h
    have hrest : rest = keys.reverse ++ [.op count] ++ [.op Opcode.checkMultiSig] := by
      rw [← List.reverse_reverse rest, hreverse, List.reverse_cons, List.reverse_cons]
    refine ⟨required, count, keys.reverse, by rw [hrest]; rfl, hm, hn, fun c hc => ?_, ?_, hpos,
      hle, hmax⟩
    · exact List.all_eq_true.mp hkeys c (List.mem_reverse.mp hc)
    · rw [List.length_reverse, hlength]
  · rintro ⟨required, count, ks, rfl, hm, hn, hks, hlength, hpos, hle, hmax⟩
    have hall : ks.reverse.all pushesKey = true := by
      rw [List.all_reverse, List.all_eq_true]
      exact hks
    simp only [multisigParams?, List.cons_append, List.append_assoc, List.reverse_append,
      List.reverse_cons, List.reverse_nil, List.nil_append, hm, hn, hall, List.length_reverse,
      hlength, hpos, hle, hmax, bind, Option.bind, and_self, if_true]

end Script

/-! ## At most one form -/

namespace ScriptClass

variable {c : ScriptClass} {cs : List Command}
  {ts us : List (ScriptClass × (List Command → Bool))}

/-- The tests of the classes, in the order of the classifier. -/
def tests : List (ScriptClass × (List Command → Bool)) :=
  [(.pubKey, fun cs => (Script.keyLock? cs).isSome),
    (.pubKeyHash, fun cs => (Script.keyHashLock? cs).isSome),
    (.scriptHash, fun cs => (Script.scriptHashLock? cs).isSome),
    (.multiSig, fun cs => (Script.multisigParams? cs).isSome)]

/-- The class of the first test that the commands pass. -/
def firstOf (ts : List (ScriptClass × (List Command → Bool))) (cs : List Command) : ScriptClass :=
  match ts.find? (·.2 cs) with
  | some t => t.1
  | none => .nonStandard

theorem firstOf_tests (cs : List Command) : firstOf tests cs = ofCommands cs := by
  unfold firstOf tests ofCommands
  simp only [List.find?_cons, List.find?_nil]
  cases (Script.keyLock? cs).isSome <;> cases (Script.keyHashLock? cs).isSome <;>
    cases (Script.scriptHashLock? cs).isSome <;> cases (Script.multisigParams? cs).isSome <;> rfl

/-- The only class that the commands can have: their last opcode tells it, but two forms end with
the check of a signature. -/
def candidate (cs : List Command) : ScriptClass :=
  match cs.getLast? with
  | some (.op code) =>
    if code = Opcode.checkSig then if cs.length = 2 then .pubKey else .pubKeyHash
    else if code = Opcode.equal then .scriptHash
    else .multiSig
  | _ => .nonStandard

theorem candidate_eq {t : ScriptClass × (List Command → Bool)} (ht : t ∈ tests)
    (h : t.2 cs = true) : t.1 = candidate cs := by
  simp only [tests, List.mem_cons, List.not_mem_nil, or_false] at ht
  rcases ht with rfl | rfl | rfl | rfl
  · obtain ⟨key, hkey⟩ := Option.isSome_iff_exists.mp h
    obtain ⟨p, rfl, -⟩ := Script.keyLock?_eq_some.mp hkey
    rfl
  · obtain ⟨hash, hhash⟩ := Option.isSome_iff_exists.mp h
    obtain ⟨p, rfl, -⟩ := Script.keyHashLock?_eq_some.mp hhash
    rfl
  · obtain ⟨hash, hhash⟩ := Option.isSome_iff_exists.mp h
    obtain ⟨p, rfl, -⟩ := Script.scriptHashLock?_eq_some.mp hhash
    rfl
  · obtain ⟨⟨m, n⟩, hparams⟩ := Option.isSome_iff_exists.mp h
    obtain ⟨required, count, ks, rfl, -⟩ := Script.multisigParams?_eq_some.mp hparams
    rw [candidate, List.getLast?_concat]
    rfl

/-- If all tests that the commands pass are of one class, the order of the tests does not matter. -/
theorem firstOf_eq (h : ∀ t ∈ ts, t.2 cs = true → t.1 = c) :
    firstOf ts cs = if ts.any (·.2 cs) then c else .nonStandard := by
  unfold firstOf
  split
  · rename_i t ht
    have hmem := List.mem_of_find?_eq_some ht
    have hpass := List.find?_some ht
    rw [if_pos (List.any_eq_true.mpr ⟨t, hmem, hpass⟩), h t hmem hpass]
  · rename_i hnone
    rw [if_neg]
    rintro hany
    obtain ⟨t, hmem, hpass⟩ := List.any_eq_true.mp hany
    exact List.find?_eq_none.mp hnone t hmem hpass

theorem firstOf_perm (h : us.Perm tests) (cs : List Command) : firstOf us cs = ofCommands cs := by
  have hone : ∀ t ∈ us, t.2 cs = true → t.1 = candidate cs :=
    fun t ht => candidate_eq (h.mem_iff.mp ht)
  rw [← firstOf_tests, firstOf_eq hone, firstOf_eq fun t => candidate_eq, h.any_eq]

theorem tests_pairwise (cs : List Command) :
    tests.Pairwise fun t u => ¬(t.2 cs = true ∧ u.2 cs = true) := by
  have hclasses : (tests.map Prod.fst).Nodup := by decide
  rw [List.Nodup, List.pairwise_map] at hclasses
  refine hclasses.imp_of_mem fun ht hu hne => ?_
  rintro ⟨htest, hutest⟩
  exact hne ((candidate_eq ht htest).trans (candidate_eq hu hutest).symm)

end ScriptClass

namespace Script

variable {s : Script} {hash : Digest.Hash160} {c : ScriptClass}

theorem scriptClass_of_test {t : ScriptClass × (List Command → Bool)} (ht : t ∈ ScriptClass.tests)
    (h : t.2 s.commands = true) : s.scriptClass = t.1 := by
  rw [scriptClass, ← ScriptClass.firstOf_tests,
    ScriptClass.firstOf_eq fun t => ScriptClass.candidate_eq,
    if_pos (List.any_eq_true.mpr ⟨t, ht, h⟩), ScriptClass.candidate_eq ht h]

theorem scriptClass_eq_pubKey (h : (keyLock? s.commands).isSome = true) :
    s.scriptClass = .pubKey :=
  scriptClass_of_test (t := (.pubKey, fun cs => (keyLock? cs).isSome)) (by simp [ScriptClass.tests])
    h

theorem scriptClass_eq_pubKeyHash (h : (keyHashLock? s.commands).isSome = true) :
    s.scriptClass = .pubKeyHash :=
  scriptClass_of_test (t := (.pubKeyHash, fun cs => (keyHashLock? cs).isSome))
    (by simp [ScriptClass.tests]) h

theorem scriptClass_eq_scriptHash (h : (scriptHashLock? s.commands).isSome = true) :
    s.scriptClass = .scriptHash :=
  scriptClass_of_test (t := (.scriptHash, fun cs => (scriptHashLock? cs).isSome))
    (by simp [ScriptClass.tests]) h

/-! ## Payees -/

/-- A key, and a check of a signature by it. -/
structure PaysToKey (s : Script) (hash : Digest.Hash160) (p : Push) : Prop where
  commands_eq : s.commands = [.push p, .op Opcode.checkSig]
  isKeyShaped : isKeyShaped p.data = true
  hash_eq : Digest.hash160 p.data = hash

theorem asHash160_eq_ok {data : Bytes} {r : ScriptClass × Digest.Hash160} :
    asHash160 c data = .ok r ↔ r.1 = c ∧ r.2.bytes = data := by
  obtain ⟨c', hash⟩ := r
  unfold asHash160
  split_ifs with h
  · simp only [Except.ok.injEq, Prod.mk.injEq]
    refine and_congr eq_comm ⟨?_, fun hb => Digest.Hash.eq_of_bytes_eq hb.symm⟩
    rintro rfl
    rfl
  · refine iff_of_false nofun ?_
    rintro ⟨-, rfl⟩
    exact h hash.length_eq

/-- What a script pays to, by the shape that it has. -/
inductive Payee (s : Script) : Except ClassError (ScriptClass × Digest.Hash160) → Prop
  | pubKey {p : Push} {hash : Digest.Hash160} (h : s.PaysToKey hash p)
      (hclass : s.scriptClass = .pubKey) : Payee s (.ok (.pubKey, hash))
  | pubKeyHash {p : Push} {hash : Digest.Hash160}
      (h : s.commands = [.op Opcode.dup, .op Opcode.hash160, .push p, .op Opcode.equalVerify,
        .op Opcode.checkSig]) (hdata : p.data = hash.bytes)
      (hclass : s.scriptClass = .pubKeyHash) : Payee s (.ok (.pubKeyHash, hash))
  | scriptHash {p : Push} {hash : Digest.Hash160}
      (h : s.commands = [.op Opcode.hash160, .push p, .op Opcode.equal])
      (hdata : p.data = hash.bytes)
      (hclass : s.scriptClass = .scriptHash) : Payee s (.ok (.scriptHash, hash))
  | none (hkey : keyLock? s.commands = none) (hkeyHash : keyHashLock? s.commands = none)
      (hscriptHash : scriptHashLock? s.commands = none)
      (hclass : s.scriptClass = .multiSig ∨ s.scriptClass = .nonStandard) :
      Payee s (.error (.paysToNoHash s.scriptClass))

theorem payee (s : Script) : s.Payee s.paysTo := by
  unfold paysTo
  cases hkey : keyLock? s.commands with
  | some key =>
    obtain ⟨p, hcommands, hshape, rfl⟩ := keyLock?_eq_some.mp hkey
    exact .pubKey ⟨hcommands, hshape, rfl⟩ (scriptClass_eq_pubKey (by rw [hkey]; rfl))
  | none =>
  cases hkeyHash : keyHashLock? s.commands with
  | some data =>
    obtain ⟨p, hcommands, hlength, rfl⟩ := keyHashLock?_eq_some.mp hkeyHash
    dsimp only
    rw [asHash160, dif_pos hlength]
    exact .pubKeyHash hcommands rfl (scriptClass_eq_pubKeyHash (by rw [hkeyHash]; rfl))
  | none =>
  cases hscriptHash : scriptHashLock? s.commands with
  | some data =>
    obtain ⟨p, hcommands, hlength, rfl⟩ := scriptHashLock?_eq_some.mp hscriptHash
    dsimp only
    rw [asHash160, dif_pos hlength]
    exact .scriptHash hcommands rfl (scriptClass_eq_scriptHash (by rw [hscriptHash]; rfl))
  | none =>
    refine .none hkey hkeyHash hscriptHash ?_
    rw [scriptClass, ScriptClass.ofCommands, hkey, hkeyHash, hscriptHash]
    cases (multisigParams? s.commands).isSome
    · exact Or.inr rfl
    · exact Or.inl rfl

theorem sameContents_toKeyHash : s.SameContents (Lock.toKeyHash hash) ↔
    ∃ p : Push, s.commands = [.op Opcode.dup, .op Opcode.hash160, .push p, .op Opcode.equalVerify,
      .op Opcode.checkSig] ∧ p.data = hash.bytes := by
  show s.commands.map Command.content = [.inl Opcode.dup, .inl Opcode.hash160, .inr hash.bytes,
    .inl Opcode.equalVerify, .inl Opcode.checkSig] ↔ _
  simp only [List.map_eq_cons_iff, List.map_eq_nil_iff, Command.content_eq_inl,
    Command.content_eq_inr]
  constructor
  · rintro ⟨_, _, h₁, rfl, _, _, h₂, rfl, _, _, h₃, ⟨p, rfl, hdata⟩, _, _, h₄, rfl, _, _, h₅, rfl,
      rfl⟩
    exact ⟨p, by rw [h₁, h₂, h₃, h₄, h₅], hdata⟩
  · rintro ⟨p, h, hdata⟩
    exact ⟨_, _, h, rfl, _, _, rfl, rfl, _, _, rfl, ⟨p, rfl, hdata⟩, _, _, rfl, rfl, _, _, rfl, rfl,
      rfl⟩

theorem sameContents_toScriptHash : s.SameContents (Lock.toScriptHash hash) ↔
    ∃ p : Push, s.commands = [.op Opcode.hash160, .push p, .op Opcode.equal] ∧
      p.data = hash.bytes := by
  show s.commands.map Command.content = [.inl Opcode.hash160, .inr hash.bytes,
    .inl Opcode.equal] ↔ _
  simp only [List.map_eq_cons_iff, List.map_eq_nil_iff, Command.content_eq_inl,
    Command.content_eq_inr]
  constructor
  · rintro ⟨_, _, h₁, rfl, _, _, h₂, ⟨p, rfl, hdata⟩, _, _, h₃, rfl, rfl⟩
    exact ⟨p, by rw [h₁, h₂, h₃], hdata⟩
  · rintro ⟨p, h, hdata⟩
    exact ⟨_, _, h, rfl, _, _, rfl, ⟨p, rfl, hdata⟩, _, _, rfl, rfl, rfl⟩

theorem paysTo_eq_pubKey : s.paysTo = .ok (.pubKey, hash) ↔ ∃ p, s.PaysToKey hash p := by
  constructor
  · intro h
    have hpayee := s.payee
    rw [h] at hpayee
    cases hpayee with
    | pubKey hkey _ => exact ⟨_, hkey⟩
  · rintro ⟨p, hcommands, hshape, rfl⟩
    have hkey := keyLock?_eq_some.mpr ⟨p, hcommands, hshape, rfl⟩
    rw [paysTo, hkey]

theorem paysTo_eq_pubKeyHash :
    s.paysTo = .ok (.pubKeyHash, hash) ↔ s.SameContents (Lock.toKeyHash hash) := by
  rw [sameContents_toKeyHash]
  constructor
  · intro h
    have hpayee := s.payee
    rw [h] at hpayee
    cases hpayee with
    | pubKeyHash hcommands hdata _ => exact ⟨_, hcommands, hdata⟩
  · rintro ⟨p, hcommands, hdata⟩
    have hkey : keyLock? s.commands = none := by rw [hcommands]; rfl
    have hkeyHash := keyHashLock?_eq_some.mpr
      ⟨p, hcommands, by rw [hdata, hash.length_eq], hdata⟩
    rw [paysTo, hkey, hkeyHash]
    exact asHash160_eq_ok.mpr ⟨rfl, rfl⟩

theorem paysTo_eq_scriptHash :
    s.paysTo = .ok (.scriptHash, hash) ↔ s.SameContents (Lock.toScriptHash hash) := by
  rw [sameContents_toScriptHash]
  constructor
  · intro h
    have hpayee := s.payee
    rw [h] at hpayee
    cases hpayee with
    | scriptHash hcommands hdata _ => exact ⟨_, hcommands, hdata⟩
  · rintro ⟨p, hcommands, hdata⟩
    have hkey : keyLock? s.commands = none := by rw [hcommands]; rfl
    have hkeyHash : keyHashLock? s.commands = none := by rw [hcommands]; rfl
    have hscriptHash := scriptHashLock?_eq_some.mpr
      ⟨p, hcommands, by rw [hdata, hash.length_eq], hdata⟩
    rw [paysTo, hkey, hkeyHash, hscriptHash]
    exact asHash160_eq_ok.mpr ⟨rfl, rfl⟩

/-- A script that has none of the three forms is refused, and no other. -/
theorem paysTo_eq_error {e : ClassError} : s.paysTo = .error e ↔
    e = .paysToNoHash s.scriptClass ∧ ∀ hash, (∀ p, ¬s.PaysToKey hash p) ∧
      ¬s.SameContents (Lock.toKeyHash hash) ∧ ¬s.SameContents (Lock.toScriptHash hash) := by
  constructor
  · intro h
    refine ⟨?_, fun hash => ⟨fun p hkey => ?_, fun hkeyHash => ?_, fun hscriptHash => ?_⟩⟩
    · have hpayee := s.payee
      rw [h] at hpayee
      cases hpayee
      rfl
    · have hok := paysTo_eq_pubKey.mpr ⟨p, hkey⟩
      rw [h] at hok
      cases hok
    · have hok := paysTo_eq_pubKeyHash.mpr hkeyHash
      rw [h] at hok
      cases hok
    · have hok := paysTo_eq_scriptHash.mpr hscriptHash
      rw [h] at hok
      cases hok
  · rintro ⟨rfl, hnone⟩
    have hpayee := s.payee
    cases hpays : s.paysTo with
    | error e =>
      rw [hpays] at hpayee
      cases hpayee
      rfl
    | ok r =>
      obtain ⟨hkey, hkeyHash, hscriptHash⟩ := hnone r.2
      rw [hpays] at hpayee
      cases hpayee with
      | pubKey h _ => exact absurd h (hkey _)
      | pubKeyHash h hdata _ => exact absurd (sameContents_toKeyHash.mpr ⟨_, h, hdata⟩) hkeyHash
      | scriptHash h hdata _ =>
        exact absurd (sameContents_toScriptHash.mpr ⟨_, h, hdata⟩) hscriptHash

/-- The payee looked up by the place that a command has in scripts of the class: a key is hashed, a
hash has its width. -/
def payeeByPlace (s : Script) : Except ClassError (ScriptClass × Digest.Hash160) :=
  let dataAt (i : ℕ) : Option Bytes := s.commands[i]?.bind Command.data?
  let hash? := match s.scriptClass with
    | .pubKey => (dataAt 0).map Digest.hash160
    | .pubKeyHash => (dataAt 2).bind fun data => (Digest.Hash.ofBytes 20 data).toOption
    | .scriptHash => (dataAt 1).bind fun data => (Digest.Hash.ofBytes 20 data).toOption
    | .multiSig | .nonStandard => none
  match hash? with
  | some hash => .ok (s.scriptClass, hash)
  | none => .error (.paysToNoHash s.scriptClass)

theorem paysTo_eq_payeeByPlace (s : Script) : s.paysTo = s.payeeByPlace := by
  have hwidth : ∀ hash : Digest.Hash160, (Digest.Hash.ofBytes 20 hash.bytes).toOption = some hash :=
    fun hash => by rw [Digest.Hash.ofBytes, dif_pos hash.length_eq]; rfl
  have hpayee := s.payee
  unfold payeeByPlace
  generalize s.paysTo = found at hpayee ⊢
  cases hpayee with
  | pubKey h hclass => simp [hclass, h.commands_eq, h.hash_eq, Command.data?]
  | pubKeyHash h hdata hclass => simp [hclass, h, hdata, hwidth, Command.data?]
  | scriptHash h hdata hclass => simp [hclass, h, hdata, hwidth, Command.data?]
  | none _ _ _ hclass => rcases hclass with hclass | hclass <;> simp [hclass]

/-- What a script is told to be, in any order of the tests, and what it pays to. -/
structure ToldByShape (s : Script) : Prop where
  atMostOne : ScriptClass.tests.Pairwise fun t u => ¬(t.2 s.commands = true ∧ u.2 s.commands = true)
  anyOrder : ∀ ts : List (ScriptClass × (List Command → Bool)), ts.Perm ScriptClass.tests →
    ScriptClass.firstOf ts s.commands = s.scriptClass
  byPlace : s.paysTo = s.payeeByPlace
  pubKey : ∀ hash, s.paysTo = .ok (.pubKey, hash) ↔ ∃ p, s.PaysToKey hash p
  pubKeyHash : ∀ hash, s.paysTo = .ok (.pubKeyHash, hash) ↔ s.SameContents (Lock.toKeyHash hash)
  scriptHash : ∀ hash, s.paysTo = .ok (.scriptHash, hash) ↔ s.SameContents (Lock.toScriptHash hash)
  refused : ∀ e, s.paysTo = .error e ↔
    e = .paysToNoHash s.scriptClass ∧ ∀ hash, (∀ p, ¬s.PaysToKey hash p) ∧
      ¬s.SameContents (Lock.toKeyHash hash) ∧ ¬s.SameContents (Lock.toScriptHash hash)

theorem toldByShape (s : Script) : s.ToldByShape where
  atMostOne := ScriptClass.tests_pairwise s.commands
  anyOrder _ hperm := ScriptClass.firstOf_perm hperm s.commands
  byPlace := s.paysTo_eq_payeeByPlace
  pubKey _ := paysTo_eq_pubKey
  pubKeyHash _ := paysTo_eq_pubKeyHash
  scriptHash _ := paysTo_eq_scriptHash
  refused _ := paysTo_eq_error

end Script

/-! ## Templates -/

namespace Lock

/-- The lock is of the class, pays to the hash, and is read back from its bytes. -/
structure Recognized (lock : Script) (c : ScriptClass) (hash : Digest.Hash160) : Prop where
  scriptClass_eq : lock.scriptClass = c
  paysTo_eq : lock.paysTo = .ok (c, hash)
  ofBytes_toBytes : Script.ofBytes lock.toBytes = .ok lock

theorem recognized {cs : List Command} {c : ScriptClass} {hash : Digest.Hash160}
    (hpays : (Script.ofCommands cs).paysTo = .ok (c, hash)) (hcs : ∀ d ∈ cs, d.Readable) :
    Recognized (.ofCommands cs) c hash := by
  refine ⟨?_, hpays, Script.ofBytes_eq_ok.mpr ⟨cs, Command.decode_encode hcs, rfl⟩⟩
  have hpayee := (Script.ofCommands cs).payee
  rw [hpays] at hpayee
  cases hpayee <;> assumption

theorem isKeyShaped_sec (key : PublicKey) (form : SecForm) :
    Script.isKeyShaped (key.sec form) = true := by
  have hlength := key.length_sec form
  cases form with
  | compressed =>
    rw [PublicKey.sec, List.length_cons] at hlength
    have hbody : key.x.toBytes.length = 32 := Nat.succ.inj hlength
    rw [PublicKey.sec, Script.isKeyShaped, hbody]
    cases key.y.isEven <;> rfl
  | uncompressed =>
    rw [PublicKey.sec, List.cons_append, List.length_cons] at hlength
    have hbody : (key.x.toBytes ++ key.y.toBytes).length = 64 := Nat.succ.inj hlength
    rw [PublicKey.sec, List.cons_append, Script.isKeyShaped, hbody]
    rfl

theorem readable_short {data : Bytes} (h : data.length ≤ 75) (hne : data ≠ []) :
    (Command.short data h).Readable :=
  fun hnil => absurd hnil hne

theorem readable_ofHash (hash : Digest.Hash160) : (Command.ofHash hash).Readable := by
  refine readable_short _ ?_
  rw [← List.length_pos_iff, hash.length_eq]
  decide

theorem recognized_toKey (key : PublicKey) (form : SecForm) :
    Recognized (toKey key form) .pubKey (key.hash160 form) := by
  have hshape := isKeyShaped_sec key form
  have hne : key.sec form ≠ [] := by
    intro hnil
    rw [hnil] at hshape
    cases hshape
  refine recognized (Script.paysTo_eq_pubKey.mpr ⟨_, rfl, hshape, rfl⟩) ?_
  simp only [List.forall_mem_cons, List.not_mem_nil, false_implies, implies_true, and_true]
  exact ⟨readable_short _ hne, Command.readable_op.mpr (by decide)⟩

theorem recognized_toKeyHash (hash : Digest.Hash160) :
    Recognized (toKeyHash hash) .pubKeyHash hash := by
  refine recognized (Script.paysTo_eq_pubKeyHash.mpr rfl) ?_
  simp only [List.forall_mem_cons, List.not_mem_nil, false_implies, implies_true, and_true]
  exact ⟨Command.readable_op.mpr (by decide), Command.readable_op.mpr (by decide),
    readable_ofHash hash, Command.readable_op.mpr (by decide), Command.readable_op.mpr (by decide)⟩

theorem recognized_toScriptHash (hash : Digest.Hash160) :
    Recognized (toScriptHash hash) .scriptHash hash := by
  refine recognized (Script.paysTo_eq_scriptHash.mpr rfl) ?_
  simp only [List.forall_mem_cons, List.not_mem_nil, false_implies, implies_true, and_true]
  exact ⟨Command.readable_op.mpr (by decide), readable_ofHash hash,
    Command.readable_op.mpr (by decide)⟩

/-- The reader of payees inverts the templates. Every script is told by at most one form, in
whatever order they are tried; a hash is read from just the scripts that are the template of that
hash up to the encoding of the push, a key from just those that push data of the shape of a key
before a check, and all others are refused. And each template, for every key in both forms and for
every hash, is read as what it was made from, also after it was written to bytes and read back. -/
theorem formsRecognized :
    (∀ s : Script, s.ToldByShape) ∧
      (∀ (key : PublicKey) (form : SecForm),
        Recognized (toKey key form) .pubKey (key.hash160 form)) ∧
      (∀ hash : Digest.Hash160, Recognized (toKeyHash hash) .pubKeyHash hash) ∧
      ∀ hash : Digest.Hash160, Recognized (toScriptHash hash) .scriptHash hash :=
  ⟨Script.toldByShape, recognized_toKey, recognized_toKeyHash, recognized_toScriptHash⟩

end Lock

end SpendScript
