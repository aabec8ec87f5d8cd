import SpendScript.Proofs.Engine.Ready
import SpendScript.Proofs.Key.Coding
import SpendScript.Proofs.Script.Template

/-!
# What opens a standard lock

Whatever commands come before a standard lock, a run can only succeed if they leave exactly the
items that the lock takes, with signatures that its keys verify.

Results:
* `Script.ReachedLock`: the point of a run where the first command of the lock comes next;
  `Script.exists_lockRun`, `Script.exists_reachedLock`: every successful run passes it with all
  conditionals closed.
* `Lock.of_loop_toKeyHash`, `Lock.of_loop_toKey`, `Lock.of_loop_multisig`: what runs of the locks
  themselves ask for.
* `Lock.openedBySignatures`: the locks cannot be opened without valid signatures.
-/

namespace SpendScript

/-! ## The beginning of a lock -/

/-- In the run of `opening` and `lock`, the first command of the lock comes next, and no conditional
is open. -/
structure Script.ReachedLock (opening lock : Script) (env : Env) (cache : SigCache) (s : State) :
    Prop where
  run_eq : Engine.loop env opening.commands.length (State.start (opening ++ lock) cache) = .ok () s
  pending_eq : s.pending = lock.commands
  conditions_eq : s.conditions = []

/-- A successful run reaches the lock and then runs it, as long as it reveals nothing and the lock
does not open or close conditionals. The run of the lock leaves one true item. -/
theorem Script.exists_lockRun {opening lock : Script} {env : Env} {cache : SigCache}
    (hopening : RevealsNothingBefore opening.commands lock.commands)
    (hlock : RevealsNothingBefore lock.commands [])
    (hc : ∀ c ∈ lock.commands, c.isConditional = false)
    (h : ((opening ++ lock).execute env cache).result = .ok ()) :
    ∃ s t item, ReachedLock opening lock env cache s ∧
      (SigCache.Sound cache → SigCache.Sound s.cache) ∧
      Engine.loop env lock.commands.length s = .ok () t ∧ t.stack = [item] ∧
      ScriptNumber.truth item = true := by
  obtain ⟨-, -, t, item, hloop, hconditions, hstack, htrue⟩ := Script.execute_eq_ok_iff.mp h
  have hsteps : ∃ extra, Command.totalLength (opening ++ lock).commands =
      opening.commands.length + (lock.commands.length + extra) := by
    have hle := Command.length_le_totalLength (opening ++ lock).commands
    rw [show (opening ++ lock).commands = opening.commands ++ lock.commands from rfl,
      List.length_append] at hle
    exact ⟨_, (Nat.add_sub_cancel' hle).symm.trans (Nat.add_assoc _ _ _)⟩
  obtain ⟨extra, hsteps⟩ := hsteps
  rw [hsteps, Engine.loop_add] at hloop
  obtain ⟨_, s, hrun, hrest⟩ := Engine.bind_eq_ok.mp hloop
  rw [Engine.loop_add] at hrest
  obtain ⟨_, t', hrun', hend⟩ := Engine.bind_eq_ok.mp hrest
  have hpassed := Engine.loop_passed hopening rfl hrun
  -- The lock is all that is left, so nothing follows its last command.
  have hdone := Engine.loop_passed hlock (hpassed.pending_eq.trans (List.append_nil _).symm) hrun'
  rw [Engine.loop_nil hdone.pending_eq] at hend
  cases hend
  have hopen : s.conditions = [] := by
    rw [← hdone.conditions_eq hc]
    exact hconditions
  exact ⟨s, t, item, ⟨hrun, hpassed.pending_eq, hopen⟩, hpassed.sound, hrun', hstack, htrue⟩

/-- A lock whose last command is another one than that of a pay-to-script-hash lock reveals
nothing. -/
theorem Script.exists_reachedLock {opening lock : Script} {env : Env} {cache : SigCache}
    {code : Opcode} (hlast : lock.commands.getLast? = some (.op code)) (hcode : code ≠ Opcode.equal)
    (hc : ∀ c ∈ lock.commands, c.isConditional = false) (hcache : SigCache.Sound cache)
    (h : ((opening ++ lock).execute env cache).result = .ok ()) :
    ∃ s t item, ReachedLock opening lock env cache s ∧ Engine.Ready s lock.commands s.stack ∧
      Engine.loop env lock.commands.length s = .ok () t ∧ t.stack = [item] ∧
      ScriptNumber.truth item = true := by
  obtain ⟨init, hinit⟩ := List.getLast?_eq_some_iff.mp hlast
  have hopening : RevealsNothingBefore opening.commands lock.commands :=
    .of_shields (hinit ▸ shields_append_op init hcode) _
  have hlock : RevealsNothingBefore lock.commands [] := by
    rw [hinit]
    exact .append_op (.of_shields (shields_append_op [] hcode) _)
  obtain ⟨s, t, item, hreached, hsound, hrest⟩ := exists_lockRun hopening hlock hc h
  exact ⟨s, t, item, hreached, ⟨hreached.pending_eq, rfl, hreached.conditions_eq, hsound hcache⟩,
    hrest⟩

namespace Lock

variable {env : Env} {s t : State} {stack : Stack} {item : Bytes}

/-! ## Runs of locks -/

theorem eq_true_of_truth_ofBool {valid : Bool} {below : Stack} {n : ℕ}
    (h : Engine.Ready s [] (ScriptNumber.ofBool valid :: below))
    (hloop : Engine.loop env n s = .ok () t) (hstack : t.stack = [item])
    (htrue : ScriptNumber.truth item = true) : valid = true ∧ below = [] := by
  rw [Engine.loop_nil h.pending_eq] at hloop
  cases hloop
  obtain ⟨rfl, hbelow⟩ := List.cons.inj (h.stack_eq.symm.trans hstack)
  cases valid with
  | false => cases htrue
  | true => exact ⟨rfl, hbelow⟩

/-- A lock to a key takes one signature by the key. -/
theorem of_loop_toKey {key : PublicKey} {form : SecForm}
    (h : Engine.Ready s (toKey key form).commands stack)
    (hloop : Engine.loop env (toKey key form).commands.length s = .ok () t)
    (hstack : t.stack = [item]) (htrue : ScriptNumber.truth item = true) :
    ∃ sig, stack = [sig] ∧ key.Signed env.digest sig := by
  obtain ⟨s₁, h₁, hloop⟩ := h.of_loop_push rfl rfl hloop
  obtain ⟨sig, sec, below, valid, s₂, hs₁, hsigned, h₂, hloop⟩ := h₁.of_loop_checkSig hloop
  obtain ⟨rfl, rfl⟩ := eq_true_of_truth_ofBool h₂ hloop hstack htrue
  obtain ⟨hsec, rfl⟩ := List.cons.inj hs₁
  obtain ⟨publicKey, hkey, hsigned⟩ := hsigned rfl
  rw [← hsec, PublicKey.ofSec_sec, Except.ok.injEq] at hkey
  exact ⟨sig, rfl, hkey ▸ hsigned⟩

/-- A lock to the hash of a key takes a signature and a key with this hash. -/
theorem of_loop_toKeyHash {hash : Digest.Hash160}
    (h : Engine.Ready s (toKeyHash hash).commands stack)
    (hloop : Engine.loop env (toKeyHash hash).commands.length s = .ok () t)
    (hstack : t.stack = [item]) (htrue : ScriptNumber.truth item = true) :
    ∃ sig key, stack = [key, sig] ∧ Digest.hash160 key = hash ∧ SignedBy env.digest key sig := by
  obtain ⟨key, below, s₁, rfl, h₁, hloop⟩ := h.of_loop_dup hloop
  obtain ⟨_, _, s₂, hs₁, h₂, hloop⟩ := h₁.of_loop_hash160 hloop
  obtain ⟨rfl, rfl⟩ := List.cons.inj hs₁
  obtain ⟨s₃, h₃, hloop⟩ := h₂.of_loop_push rfl rfl hloop
  obtain ⟨_, _, s₄, hs₃, h₄, hloop⟩ := h₃.of_loop_equalVerify hloop
  obtain ⟨rfl, hs₃⟩ := List.cons.inj hs₃
  obtain ⟨hhash, rfl⟩ := List.cons.inj hs₃
  obtain ⟨sig, _, below, valid, s₅, hs₄, hsigned, h₅, hloop⟩ := h₄.of_loop_checkSig hloop
  obtain ⟨rfl, rfl⟩ := eq_true_of_truth_ofBool h₅ hloop hstack htrue
  obtain ⟨rfl, rfl⟩ := List.cons.inj hs₄
  exact ⟨sig, key, rfl, Digest.Hash.eq_of_bytes_eq hhash, hsigned rfl⟩

/-- A multisignature lock takes one item more than the required signatures. -/
theorem of_loop_multisig {keys : List Bytes} {required : ℕ} {cs : List Command}
    (hrequired : required ≤ Limits.multisigKeys) (hkeys : keys.length ≤ Limits.multisigKeys)
    (hcs : List.Forall₂ Command.Pushes cs (ScriptNumber.encode (required : ℤ) ::
      (keys ++ [ScriptNumber.encode (keys.length : ℤ)])))
    (h : Engine.Ready s (cs ++ [.op Opcode.checkMultiSig]) stack)
    (hloop : Engine.loop env (cs ++ [Command.op Opcode.checkMultiSig]).length s = .ok () t)
    (hstack : t.stack = [item]) (htrue : ScriptNumber.truth item = true) :
    ∃ sigs dummy chosen, stack = sigs.reverse ++ [dummy] ∧ sigs.length = required ∧
      chosen.Sublist keys ∧ List.Forall₂ (SignedBy env.digest) chosen sigs := by
  rw [List.length_append] at hloop
  obtain ⟨s₁, h₁, hloop⟩ := h.of_loop_pushed (Script.shields_append_op [] (by decide))
    (Command.Pushes.map_pushed hcs) hloop
  obtain ⟨keyCount, keys', sigCount, sigs, dummy, below, valid, s₂, hs, hkeyCount, hsigCount,
    hmatch, h₂, hloop⟩ := h₁.of_loop_checkMultiSig hloop
  obtain ⟨rfl, rfl⟩ := eq_true_of_truth_ofBool h₂ hloop hstack htrue
  obtain ⟨chosen, hchosen, hsigned⟩ := hmatch rfl
  simp only [List.reverse_cons, List.reverse_append, List.reverse_nil, List.nil_append,
    List.cons_append, List.append_assoc] at hs
  obtain ⟨rfl, htail⟩ := counted_inj hkeys hkeyCount hs
  obtain ⟨rfl, rfl⟩ := List.cons.inj htail
  rw [decode_encode hrequired, Except.ok.injEq, Int.natCast_inj] at hsigCount
  exact ⟨sigs, dummy, chosen, rfl, hsigCount.symm, hchosen, hsigned⟩

end Lock

/-! ## What opens the locks -/

/-- The signatures are by different keys of the list, in the order of the keys. -/
def SignedInOrder (z : ℕ) (keys sigs : List Bytes) : Prop :=
  ∃ assigned : Fin sigs.length → Fin keys.length, StrictMono assigned ∧
    ∀ i, SignedBy z (keys.get (assigned i)) (sigs.get i)

theorem signedInOrder_of_sublist {z : ℕ} {keys chosen sigs : List Bytes}
    (hchosen : chosen.Sublist keys) (hsigned : List.Forall₂ (SignedBy z) chosen sigs) :
    SignedInOrder z keys sigs :=
  exists_sublist_iff_exists_strictMono.mp ⟨chosen, hchosen, hsigned⟩

namespace Lock

variable {env : Env}

theorem isConditional_toKey (key : PublicKey) (form : SecForm) :
    ∀ c ∈ (toKey key form).commands, c.isConditional = false := by
  simp only [toKey, Script.ofCommands, List.forall_mem_cons]
  exact ⟨rfl, rfl, List.forall_mem_nil _⟩

theorem isConditional_toKeyHash (hash : Digest.Hash160) :
    ∀ c ∈ (toKeyHash hash).commands, c.isConditional = false := by
  simp only [toKeyHash, Script.ofCommands, List.forall_mem_cons]
  exact ⟨rfl, rfl, rfl, rfl, rfl, List.forall_mem_nil _⟩

theorem isConditional_multisig {keys : List Bytes} {cs : List Command}
    (hcs : List.Forall₂ Command.Pushes cs keys) :
    ∀ c ∈ cs ++ [Command.op Opcode.checkMultiSig], c.isConditional = false := by
  intro c hc
  rcases List.mem_append.mp hc with hc | hc
  · obtain ⟨item, -, hitem⟩ := exists_mem_of_forall₂ hcs hc
    exact Command.isConditional_of_pushed hitem.pushed_eq
  · rw [List.mem_singleton.mp hc]
    rfl

/-- The standard locks cannot be opened without valid signatures. Whatever the opening commands
are, a successful run has no open conditional when the first command of the lock comes next, and
the stack then holds the items that the lock takes and nothing else. -/
theorem openedBySignatures (env : Env) (opening : Script) (capacity : ℕ) (picks : ℕ → ℕ) :
    (∀ hash : Digest.Hash160,
      ((opening ++ toKeyHash hash).execute env (Cache.empty capacity picks)).result = .ok () →
      ∃ s sig key, Script.ReachedLock opening (toKeyHash hash) env (Cache.empty capacity picks) s ∧
        s.stack = [key, sig] ∧ Digest.hash160 key = hash ∧ SignedBy env.digest key sig) ∧
    (∀ (key : PublicKey) (form : SecForm),
      ((opening ++ toKey key form).execute env (Cache.empty capacity picks)).result = .ok () →
      ∃ s sig, Script.ReachedLock opening (toKey key form) env (Cache.empty capacity picks) s ∧
        s.stack = [sig] ∧ key.Signed env.digest sig) ∧
    (∀ (keys : List Bytes) (required : ℕ) (lock : Script),
      keys.all Script.isKeyShaped = true → multisigInOrder keys required = .ok lock →
      ((opening ++ lock).execute env (Cache.empty capacity picks)).result = .ok () →
      ∃ s sigs dummy, Script.ReachedLock opening lock env (Cache.empty capacity picks) s ∧
        s.stack = sigs.reverse ++ [dummy] ∧ sigs.length = required ∧
        SignedInOrder env.digest keys sigs) := by
  have hcache := SigCache.sound_empty capacity picks
  refine ⟨?_, ?_, ?_⟩
  · intro hash h
    obtain ⟨s, t, item, hreached, hready, hloop, hstack, htrue⟩ := Script.exists_reachedLock rfl
      (by decide) (isConditional_toKeyHash hash) hcache h
    obtain ⟨sig, key, hs, hhash, hsigned⟩ := of_loop_toKeyHash hready hloop hstack htrue
    exact ⟨s, sig, key, hreached, hs, hhash, hsigned⟩
  · intro key form h
    obtain ⟨s, t, item, hreached, hready, hloop, hstack, htrue⟩ := Script.exists_reachedLock rfl
      (by decide) (isConditional_toKey key form) hcache h
    obtain ⟨sig, hs, hsigned⟩ := of_loop_toKey hready hloop hstack htrue
    exact ⟨s, sig, hreached, hs, hsigned⟩
  · intro keys required lock hshaped hlock h
    have hkeys : ∀ key ∈ keys, Builder.opcodeFor? key = none := by
      intro key hkey
      exact opcodeFor_of_isKeyShaped (List.all_eq_true.mp hshaped key hkey)
    obtain ⟨-, hle, hmax, cs, hcs, rfl⟩ := multisigInOrder_eq_ok hkeys hlock
    obtain ⟨s, t, item, hreached, hready, hloop, hstack, htrue⟩ := Script.exists_reachedLock
      List.getLast?_concat (by decide) (isConditional_multisig hcs) hcache h
    obtain ⟨sigs, dummy, chosen, hs, hcount, hchosen, hsigned⟩ :=
      of_loop_multisig (hle.trans hmax) hmax hcs hready hloop hstack htrue
    exact ⟨s, sigs, dummy, hreached, hs, hcount, signedInOrder_of_sublist hchosen hsigned⟩

/-! ## The generator as a key -/

/-- The key of the secret one. -/
def generatorKey : PublicKey :=
  ⟨Secp256k1.generatorX, Secp256k1.generatorY, Secp256k1.generator_on_curve⟩

/-- The first coordinate of the doubled generator, which as a digest is signed by itself, twice,
under the secret one and the nonce two. -/
def doubledX : ℕ :=
  0xc6047f9441ed7d6d3045406e95c07cd85c778e4b8cef3ca7abac09b95c709ee5

/-- The signature of `doubledX` as an item. -/
def doubledSignature : Bytes :=
  Unlock.encodeSignature ⟨doubledX, doubledX⟩

def signaturePush : Command :=
  .push ⟨doubledSignature, .direct, by decide +kernel⟩

def keyPush : Command :=
  .push ⟨generatorKey.sec .compressed, .direct, by decide +kernel⟩

/-- One signature by the only key. -/
def oneOfOne : Script :=
  .ofCommands [.op Opcode.one, keyPush, .op Opcode.one, .op Opcode.checkMultiSig]

/-- The three locks to the generator are opened under every policy, by its signature of the
digest. -/
theorem openedBySignatures_generator :
    (∃ s sig, Script.ReachedLock (.ofCommands [signaturePush]) (toKey generatorKey .compressed)
        ⟨doubledX, ⟨true, true, true, 8⟩⟩ (Cache.empty 8 id) s ∧
      s.stack = [sig] ∧ generatorKey.Signed doubledX sig) ∧
    (∃ s sig key, Script.ReachedLock (.ofCommands [signaturePush, keyPush])
        (toKeyHash (generatorKey.hash160 .compressed)) ⟨doubledX, ⟨true, true, true, 8⟩⟩
        (Cache.empty 8 id) s ∧
      s.stack = [key, sig] ∧ Digest.hash160 key = generatorKey.hash160 .compressed ∧
      SignedBy doubledX key sig) ∧
    ∃ s sigs dummy, Script.ReachedLock (.ofCommands [.op Opcode.zero, signaturePush]) oneOfOne
        ⟨doubledX, ⟨true, true, true, 8⟩⟩ (Cache.empty 8 id) s ∧
      s.stack = sigs.reverse ++ [dummy] ∧ sigs.length = 1 ∧
      SignedInOrder doubledX [generatorKey.sec .compressed] sigs := by
  refine ⟨?_, ?_, ?_⟩
  · exact (openedBySignatures _ _ 8 id).2.1 generatorKey .compressed (by decide +kernel)
  · exact (openedBySignatures _ _ 8 id).1 _ (by decide +kernel)
  · have hlock : multisigInOrder [generatorKey.sec .compressed] 1 = .ok oneOfOne := by
      decide +kernel
    exact (openedBySignatures _ _ 8 id).2.2 _ 1 oneOfOne (by decide +kernel) hlock
      (by decide +kernel)

end Lock

end SpendScript
