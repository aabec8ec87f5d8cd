import SpendScript.Proofs.Digest.Schedule
import SpendScript.Proofs.Engine.Reveal
import SpendScript.Proofs.Key.Signing
import SpendScript.Proofs.Lock.Security

/-!
# Honest spends

What the templates make of the signatures of private keys opens the locks of their public keys,
under every policy.

Results:
* `Unlock.signed_encodeSignature`: the encoded signature of a private key is one of its public key.
* `Lock.succeeds_toKey`, `Lock.succeeds_toKeyHash`, `Lock.succeeds_multisig`: runs of locks on the
  items that they take.
* `Unlock.opensLocks`: every honest spend succeeds.
-/

namespace SpendScript

/-! ## Items -/

namespace Unlock

variable {key : PrivateKey} {secret z : ℕ} {sig : Signature}

/-- The encoded signature of a private key is a signature under its public key. -/
theorem signed_encodeSignature (hkey : PrivateKey.ofSecret secret = .ok key)
    (hsig : key.Signs z sig) : key.publicKey.Signed z (encodeSignature sig) := by
  obtain ⟨hverify, hrange⟩ := PrivateKey.verify_of_signs hkey hsig
  obtain ⟨hr, hs⟩ := Signature.lt_of_inRange hrange
  exact ⟨sig.toDer, signatureKind, sig, rfl, Signature.ofDer_toDer hr hs, hverify⟩

theorem length_encodeSignature (hkey : PrivateKey.ofSecret secret = .ok key)
    (hsig : key.Signs z sig) :
    9 ≤ (encodeSignature sig).length ∧ (encodeSignature sig).length ≤ 73 := by
  obtain ⟨hr, hs⟩ := Signature.lt_of_inRange (PrivateKey.verify_of_signs hkey hsig).2
  have hlen := Signature.length_toDer hr hs
  rw [encodeSignature, List.length_append, List.length_singleton]
  omega

end Unlock

theorem PublicKey.length_sec_le (key : PublicKey) (form : SecForm) :
    33 ≤ (key.sec form).length ∧ (key.sec form).length ≤ 65 := by
  rw [key.length_sec]
  cases form <;> decide

/-- Under the written key of a secret, every encoded signature of a private key can be checked. -/
theorem PrivateKey.exists_verdict {key key' : PrivateKey} {secret secret' z : ℕ} {sig : Signature}
    (hkey : ofSecret secret = .ok key) (hsig : key.Signs z sig)
    (hkey' : ofSecret secret' = .ok key') (form : SecForm) :
    ∃ valid, SigCheck.verdict ⟨(Unlock.encodeSignature sig).dropLast, key'.publicKey.sec form, z⟩ =
      .decided valid := by
  obtain ⟨hr, hs⟩ := Signature.lt_of_inRange (verify_of_signs hkey hsig).2
  obtain ⟨valid, hvalid⟩ := verify_returns hkey' z sig
  refine ⟨valid, SigCheck.verdict_eq_decided.mpr ⟨sig, key'.publicKey, ?_,
    key'.publicKey.ofSec_sec form, hvalid⟩⟩
  rw [Unlock.encodeSignature, List.dropLast_concat]
  exact Signature.ofDer_toDer hr hs

/-! ## Runs of locks -/

namespace Lock

open Engine (OnTrack Succeeds)

variable {env : Env} {s : State} {item : Bytes} {used : ℕ}

/-- A push of an encoded key passes every policy. -/
theorem pushes_short {data : Bytes} (hmin : 2 ≤ data.length) (hmax : data.length ≤ 75) :
    (Command.short data hmax).Pushes data := by
  refine ⟨rfl, fun flags => ⟨?_, fun _ => ?_⟩⟩
  · show data.length ≤ 520
    omega
  · match data, hmin with
    | _ :: _ :: tail, hmin =>
      simp only [Push.isMinimal, PushEncoding.shortest?, if_pos hmax]
      decide

theorem succeeds_toKey {key : PublicKey} {form : SecForm} (hsigned : key.Signed env.digest item)
    (h : OnTrack s (toKey key form).commands [item] used) (hlimit : used + 1 ≤ Limits.operations)
    (n : ℕ) : Succeeds env (n + 2) s := by
  have hlen := key.length_sec_le form
  apply h.succeeds_push (pushes_short (by omega) _) rfl (show 2 ≤ 1000 by decide)
  intro s₁ h₁
  apply h₁.succeeds_cons (h₁.exists_checkSig ⟨key, key.ofSec_sec form, hsigned⟩ hlimit)
    (show 1 ≤ 1000 by decide)
  intro s₂ h₂
  exact h₂.succeeds_nil rfl n

theorem succeeds_toKeyHash {key : Bytes} {hash : Digest.Hash160} (hhash : Digest.hash160 key = hash)
    (hsigned : SignedBy env.digest key item)
    (h : OnTrack s (toKeyHash hash).commands [key, item] used)
    (hlimit : used + 4 ≤ Limits.operations) (n : ℕ) : Succeeds env (n + 5) s := by
  apply h.succeeds_cons (h.exists_dup (by omega)) (show 3 ≤ 1000 by decide)
  intro s₁ h₁
  apply h₁.succeeds_cons (h₁.exists_hash160 (by omega)) (show 3 ≤ 1000 by decide)
  intro s₂ h₂
  rw [hhash] at h₂
  apply h₂.succeeds_push (Engine.pushes_ofHash hash) rfl (show 4 ≤ 1000 by decide)
  intro s₃ h₃
  apply h₃.succeeds_cons (h₃.exists_equalVerify (by omega)) (show 2 ≤ 1000 by decide)
  intro s₄ h₄
  apply h₄.succeeds_cons (h₄.exists_checkSig hsigned (by omega)) (show 1 ≤ 1000 by decide)
  intro s₅ h₅
  exact h₅.succeeds_nil rfl n

theorem succeeds_multisig {keys chosen items : List Bytes} {cs : List Command}
    (hcs : List.Forall₂ Command.Pushes cs (ScriptNumber.encode (items.length : ℤ) ::
      (keys ++ [ScriptNumber.encode (keys.length : ℤ)])))
    (hmax : keys.length ≤ Limits.multisigKeys) (hchosen : chosen.Sublist keys)
    (hsigned : List.Forall₂ (SignedBy env.digest) chosen items)
    (hverdicts : ∀ key ∈ keys, ∀ item ∈ items, ∃ valid,
      SigCheck.verdict ⟨item.dropLast, key, env.digest⟩ = .decided valid)
    (h : OnTrack s (cs ++ [.op Opcode.checkMultiSig]) (items.reverse ++ [[]]) used)
    (hlimit : used + 21 ≤ Limits.operations) (n : ℕ) : Succeeds env (cs.length + (n + 1)) s := by
  have hkeys : keys.length ≤ 20 := hmax
  have hitems : items.length ≤ 20 := by
    have := hchosen.length_le
    rw [hsigned.length_eq] at this
    omega
  apply OnTrack.succeeds_pushed hcs h (Script.shields_append_op [] (by decide))
  · simp only [List.length_append, List.length_cons, List.length_reverse, List.length_nil]
    show items.length + (0 + 1) + (keys.length + (0 + 1) + 1) ≤ 1000
    omega
  intro s₁ h₁
  simp only [List.reverse_cons, List.reverse_append, List.reverse_nil, List.nil_append,
    List.cons_append, List.append_assoc] at h₁
  apply h₁.succeeds_cons (h₁.exists_checkMultiSig (decode_encode hmax) (decode_encode hitems) hmax
    hchosen hsigned hverdicts (by omega)) (show 1 ≤ 1000 by decide)
  intro s₂ h₂
  exact h₂.succeeds_nil rfl n

/-! ## Whole spends -/

/-- A spend succeeds if what opens the lock only adds items, and the run of the lock on them
succeeds. -/
theorem execute_of_pushes {opening lock : Script} {items : List Bytes} {cache : SigCache}
    (hopening : List.Forall₂ Command.Pushes opening.commands items)
    (hshields : Script.Shields lock.commands) (hne : lock.commands ≠ [])
    (hcount : items.length ≤ 21) (hroom : Command.room items + lock.byteLength ≤ Limits.scriptSize)
    (hcache : SigCache.Sound cache)
    (hlock : ∀ s n, OnTrack s lock.commands items.reverse 0 →
      Succeeds env (lock.commands.length + n) s) :
    ((opening ++ lock).execute env cache).result = .ok () := by
  have hcommands : (opening ++ lock).commands = opening.commands ++ lock.commands := rfl
  have hlength : (opening ++ lock).byteLength = Command.totalLength opening.commands +
      lock.byteLength := Command.totalLength_append _ _
  have hsteps := Command.length_le_totalLength opening.commands
  have hsteps' : lock.commands.length ≤ lock.byteLength := Command.length_le_totalLength _
  have hbytes := Command.Pushes.totalLength_le hopening
  apply Script.execute_of_succeeds (n := opening.commands.length + lock.commands.length) hcache
  · rw [hcommands]
    exact List.append_ne_nil_of_right_ne_nil _ hne
  · omega
  · omega
  intro s extra h
  rw [Nat.add_assoc]
  apply OnTrack.succeeds_pushed hopening h hshields
  · show 0 + items.length ≤ 1000
    omega
  intro s' h'
  rw [List.append_nil] at h'
  exact hlock s' extra h'

/-- The bytes of a spend of a revealed script are at least as many as the commands to be run. -/
theorem byteLength_reveal {opening redeem wrapped : Script} {p : Push}
    (hwrapped : wrapped.commands = opening.commands ++ [.push p]) (hp : p.data = redeem.toBytes) :
    (wrapped ++ toScript redeem).commands =
        opening.commands ++ .push p :: (toScript redeem).commands ∧
      (wrapped ++ toScript redeem).byteLength ≤
        Command.totalLength opening.commands + (redeem.byteLength + 26) ∧
      opening.commands.length + (redeem.commands.length + 1) ≤
        (wrapped ++ toScript redeem).byteLength := by
  have hcommands : (wrapped ++ toScript redeem).commands =
      opening.commands ++ .push p :: (toScript redeem).commands := by
    show wrapped.commands ++ _ = _
    rw [hwrapped, List.append_assoc]
    rfl
  have hlength : (wrapped ++ toScript redeem).byteLength = Command.totalLength opening.commands +
      (p.encoding.headerLength + p.data.length + 23) := by
    rw [Script.byteLength, hcommands, Command.totalLength_append, Command.totalLength, toScript,
      Engine.totalLength_toScriptHash]
    rfl
  have hdata : p.data.length = redeem.byteLength := hp ▸ Command.length_encode redeem.commands
  have hheader : 1 ≤ p.encoding.headerLength ∧ p.encoding.headerLength ≤ 3 := by
    cases p.encoding <;> decide
  have hsteps := Command.length_le_totalLength opening.commands
  have hsteps' : redeem.commands.length ≤ redeem.byteLength := Command.length_le_totalLength _
  refine ⟨hcommands, ?_, ?_⟩
  · omega
  · omega

/-- A spend of a revealed script succeeds if what opens the script only adds items, and the run of
the script on them succeeds. -/
theorem execute_of_reveal {opening redeem wrapped : Script} {items : List Bytes} {p : Push}
    {cache : SigCache} (hopening : List.Forall₂ Command.Pushes opening.commands items)
    (hcount : items.length ≤ 21) (hroom : Command.room items ≤ 9000)
    (hwrapped : wrapped.commands = opening.commands ++ [.push p]) (hp : p.data = redeem.toBytes)
    (hpush : (Command.push p).Pushes p.data) (hmax : redeem.byteLength ≤ Limits.elementSize)
    (hreadable : ∀ c ∈ redeem.commands, c.Readable) (hcache : SigCache.Sound cache)
    (hredeem : ∀ s n, OnTrack s redeem.commands items.reverse 2 →
      Succeeds env (redeem.commands.length + n) s) :
    ((wrapped ++ toScript redeem).execute env cache).result = .ok () := by
  obtain ⟨hcommands, hsize, hsteps⟩ := byteLength_reveal hwrapped hp
  have hbytes := Command.Pushes.totalLength_le hopening
  have hmax' : redeem.byteLength ≤ 520 := hmax
  apply Script.execute_of_succeeds hcache _ _ hsteps
  · intro s extra h
    rw [hcommands] at h
    rw [Nat.add_assoc, Nat.add_right_comm]
    apply OnTrack.succeeds_pushed hopening h (Script.shields_of_length (Nat.le_refl 4))
    · show 0 + items.length ≤ 1000
      omega
    intro s₁ h₁
    rw [List.append_nil] at h₁
    have hdecode : Command.decode p.data = .ok redeem.commands := by
      rw [hp]
      exact Command.decode_encode hreadable
    apply h₁.succeeds_cons (Engine.exists_runCommand_reveal h₁ hpush
      (congrArg Digest.hash160 hp) hdecode (by decide))
    · rw [List.length_reverse]
      show items.length ≤ 1000
      omega
    intro s₂ h₂
    exact hredeem s₂ extra h₂
  · rw [hcommands]
    exact List.append_ne_nil_of_right_ne_nil _ (List.cons_ne_nil _ _)
  · show (wrapped ++ toScript redeem).byteLength ≤ 10000
    omega

end Lock

/-! ## Honest spends -/

/-- A secret with its private key, and the form in which locks name the public key. -/
structure Holder where
  secret : ℕ
  key : PrivateKey
  form : SecForm
  key_eq : PrivateKey.ofSecret secret = .ok key

namespace Holder

/-- The key as locks name it. -/
def sec (h : Holder) : Bytes :=
  h.key.publicKey.sec h.form

/-- The order in which a multisignature lock lists the keys. -/
def le (h h' : Holder) : Bool :=
  Bytes.le h.sec h'.sec

theorem map_sec_mergeSort (holders : List Holder) :
    (holders.mergeSort le).map sec = (holders.map sec).mergeSort Bytes.le :=
  List.map_mergeSort fun _ _ _ _ => rfl

/-- The signatures `sigs` of `z` are those of the holders, one each. -/
def Sign (z : ℕ) (holders : List Holder) (sigs : List Signature) : Prop :=
  List.Forall₂ (fun h sig => h.key.Signs z sig) holders sigs

variable {z : ℕ} {holders chosen : List Holder} {sigs : List Signature}

theorem Sign.signedBy (h : Sign z chosen sigs) :
    List.Forall₂ (SignedBy z) (chosen.map sec) (sigs.map Unlock.encodeSignature) := by
  rw [List.forall₂_map_left_iff, List.forall₂_map_right_iff]
  apply h.imp
  intro holder sig hsig
  exact ⟨holder.key.publicKey, holder.key.publicKey.ofSec_sec holder.form,
    Unlock.signed_encodeSignature holder.key_eq hsig⟩

/-- Every item that the holders sign comes from one of them. -/
theorem Sign.exists_of_mem (h : Sign z chosen sigs) {item : Bytes}
    (hitem : item ∈ sigs.map Unlock.encodeSignature) :
    ∃ (holder : Holder) (sig : Signature), holder.key.Signs z sig ∧
      item = Unlock.encodeSignature sig := by
  obtain ⟨sig, hmem, rfl⟩ := List.mem_map.mp hitem
  obtain ⟨holder, -, hsig⟩ := exists_mem_of_forall₂ h.flip hmem
  exact ⟨holder, sig, hsig, rfl⟩

/-- The keys of a multisignature lock. -/
def keys (holders : List Holder) : List Bytes :=
  (holders.map sec).mergeSort Bytes.le

theorem length_keys (holders : List Holder) : (keys holders).length = holders.length := by
  rw [keys, List.length_mergeSort, List.length_map]

theorem exists_of_mem_keys {key : Bytes} (h : key ∈ keys holders) :
    ∃ holder : Holder, holder.sec = key := by
  rw [keys, List.mem_mergeSort, List.mem_map] at h
  obtain ⟨holder, -, hkey⟩ := h
  exact ⟨holder, hkey⟩

theorem length_of_mem_keys {key : Bytes} (h : key ∈ keys holders) :
    33 ≤ key.length ∧ key.length ≤ 65 := by
  obtain ⟨holder, rfl⟩ := exists_of_mem_keys h
  exact holder.key.publicKey.length_sec_le holder.form

theorem sublist_keys (h : chosen.Sublist (holders.mergeSort le)) :
    (chosen.map sec).Sublist (keys holders) := by
  rw [keys, ← map_sec_mergeSort]
  exact h.map sec

theorem Sign.length_of_mem (h : Sign z chosen sigs) {item : Bytes}
    (hitem : item ∈ sigs.map Unlock.encodeSignature) : 9 ≤ item.length ∧ item.length ≤ 73 := by
  obtain ⟨holder, sig, hsig, rfl⟩ := h.exists_of_mem hitem
  exact Unlock.length_encodeSignature holder.key_eq hsig

theorem Sign.exists_verdict (h : Sign z chosen sigs) :
    ∀ key ∈ keys holders, ∀ item ∈ sigs.map Unlock.encodeSignature, ∃ valid,
      SigCheck.verdict ⟨item.dropLast, key, z⟩ = .decided valid := by
  intro key hkey item hitem
  obtain ⟨holder, rfl⟩ := exists_of_mem_keys hkey
  obtain ⟨signer, sig, hsig, rfl⟩ := h.exists_of_mem hitem
  exact PrivateKey.exists_verdict signer.key_eq hsig holder.key_eq holder.form

/-- The holders have a multisignature lock, which is short and can be revealed. -/
theorem exists_lock (hcount : holders.length ≤ Limits.multisigKeys) (hne : chosen ≠ [])
    (hchosen : chosen.Sublist (holders.mergeSort le)) :
    ∃ cs lock, lock = Script.ofCommands (cs ++ [.op Opcode.checkMultiSig]) ∧
      Lock.multisig (holders.map sec) chosen.length = .ok lock ∧
      List.Forall₂ Command.Pushes cs (ScriptNumber.encode (chosen.length : ℤ) ::
        (keys holders ++ [ScriptNumber.encode ((keys holders).length : ℤ)])) ∧
      2 ≤ lock.byteLength ∧ lock.byteLength ≤ 1500 ∧ ∀ c ∈ lock.commands, c.Readable := by
  have hle : chosen.length ≤ (keys holders).length := by
    have hsub := hchosen.length_le
    rw [List.length_mergeSort] at hsub
    rw [length_keys]
    exact hsub
  have hkeys : (keys holders).length ≤ Limits.multisigKeys := by
    rw [length_keys]
    exact hcount
  have hpos : 1 ≤ chosen.length := List.length_pos_iff.mpr hne
  have hsizes : ∀ key ∈ keys holders, 33 ≤ key.length ∧ key.length ≤ 65 :=
    fun key hkey => length_of_mem_keys hkey
  obtain ⟨lock, hlock⟩ := Lock.exists_multisigInOrder hpos hle hkeys
    fun key hkey => (hsizes key hkey).2
  obtain ⟨-, -, -, cs, hcs, rfl⟩ := Lock.multisigInOrder_eq_ok
    (fun key hkey => Builder.opcodeFor_eq_none (Nat.le_trans (by decide) (hsizes key hkey).1)) hlock
  obtain ⟨hmin, hmax, hreadable⟩ := Lock.byteLength_multisig hpos hle hkeys
    (fun key hkey => ⟨Nat.le_trans (by decide) (hsizes key hkey).1, (hsizes key hkey).2⟩) hcs
  exact ⟨cs, _, rfl, hlock, hcs, hmin, hmax, hreadable⟩

/-- The signatures of up to twenty holders make a short script. -/
theorem Sign.exists_opening (h : Sign z chosen sigs) (hcount : chosen.length ≤ 20) :
    ∃ opening, Unlock.multisig (sigs.map Unlock.encodeSignature) = .ok opening ∧
      List.Forall₂ Command.Pushes opening.commands ([] :: sigs.map Unlock.encodeSignature) ∧
      ([] :: sigs.map Unlock.encodeSignature).length ≤ 21 ∧
      Command.room ([] :: sigs.map Unlock.encodeSignature) ≤ 1600 := by
  have hlen : sigs.length ≤ 20 := by
    rw [← h.length_eq]
    exact hcount
  have hroom := Command.room_le fun item hitem => (h.length_of_mem hitem).2
  rw [List.length_map] at hroom
  have hroom' := Command.room_cons [] (sigs.map Unlock.encodeSignature)
  have hempty : ([] : Bytes).length = 0 := rfl
  obtain ⟨opening, hopening, hpushes⟩ := Unlock.exists_multisig
    (fun item hitem => Nat.le_trans (by decide) (h.length_of_mem hitem).1)
    (fun item hitem => Nat.le_trans (h.length_of_mem hitem).2 (by decide))
    (show 1 + Command.room (sigs.map Unlock.encodeSignature) ≤ 10000 by omega)
  refine ⟨opening, hopening, hpushes, ?_, ?_⟩
  · rw [List.length_cons, List.length_map]
    omega
  · omega

/-- The lock runs to its end on the items of the signatures. -/
theorem Sign.succeeds {env : Env} {cs : List Command} {s : State} {used : ℕ}
    (h : Sign env.digest chosen sigs) (hcount : holders.length ≤ Limits.multisigKeys)
    (hchosen : chosen.Sublist (holders.mergeSort le))
    (hcs : List.Forall₂ Command.Pushes cs (ScriptNumber.encode (chosen.length : ℤ) ::
      (keys holders ++ [ScriptNumber.encode ((keys holders).length : ℤ)])))
    (hlimit : used + 21 ≤ Limits.operations) (n : ℕ)
    (hs : Engine.OnTrack s (cs ++ [.op Opcode.checkMultiSig])
      ([] :: sigs.map Unlock.encodeSignature).reverse used) :
    Engine.Succeeds env ((cs ++ [Command.op Opcode.checkMultiSig]).length + n) s := by
  have hkeys : (keys holders).length ≤ Limits.multisigKeys := by
    rw [length_keys]
    exact hcount
  have hitems : chosen.length = (sigs.map Unlock.encodeSignature).length := by
    rw [List.length_map]
    exact h.length_eq
  rw [hitems] at hcs
  rw [List.reverse_cons] at hs
  rw [List.length_append, List.length_singleton, Nat.add_assoc, Nat.add_comm 1 n]
  exact Lock.succeeds_multisig hcs hkeys (sublist_keys hchosen) h.signedBy h.exists_verdict hs
    hlimit n

end Holder

/-- The script that is to open the lock can be made, and opens it. -/
def Opens (opening : Except BuilderError Script) (lock : Script) (env : Env) (cache : SigCache) :
    Prop :=
  ∃ script, opening = .ok script ∧ ((script ++ lock).execute env cache).result = .ok ()

namespace Unlock

variable {env : Env} {cache : SigCache}

theorem opens_toKey (holder : Holder) {sig : Signature}
    (hsig : holder.key.Signs env.digest sig) (hcache : SigCache.Sound cache) :
    Opens (Unlock.key (encodeSignature sig)) (Lock.toKey holder.key.publicKey holder.form) env
      cache := by
  obtain ⟨hmin, hmax⟩ := length_encodeSignature holder.key_eq hsig
  have hsec := holder.key.publicKey.length_sec_le holder.form
  have hlimit : (encodeSignature sig).length ≤ 520 := by omega
  obtain ⟨opening, hopening, hpushes⟩ := exists_key (by omega) hlimit
  refine ⟨opening, hopening, Lock.execute_of_pushes hpushes
    (Script.shields_append_op [_] (by decide)) (List.cons_ne_nil _ _) (show 1 ≤ 21 by decide) ?_
    hcache ?_⟩
  · show (encodeSignature sig).length + 3 + 0 +
      (1 + (holder.key.publicKey.sec holder.form).length + (1 + 0)) ≤ 10000
    omega
  · intro s n h
    rw [Nat.add_comm]
    exact Lock.succeeds_toKey (signed_encodeSignature holder.key_eq hsig) h (by decide) n

theorem opens_toKeyHash (holder : Holder) {sig : Signature}
    (hsig : holder.key.Signs env.digest sig) (hcache : SigCache.Sound cache) :
    Opens (keyHash (encodeSignature sig) holder.sec)
      (Lock.toKeyHash (holder.key.publicKey.hash160 holder.form)) env cache := by
  obtain ⟨hmin, hmax⟩ := length_encodeSignature holder.key_eq hsig
  obtain ⟨hsecmin, hsecmax⟩ := holder.key.publicKey.length_sec_le holder.form
  have hlimit : (encodeSignature sig).length ≤ 520 := by omega
  have hlimit' : holder.sec.length ≤ 520 := Nat.le_trans hsecmax (by decide)
  obtain ⟨opening, hopening, hpushes⟩ := exists_keyHash ⟨by omega, hlimit⟩
    ⟨Nat.le_trans (by decide) hsecmin, hlimit'⟩
  have hhash := (holder.key.publicKey.hash160 holder.form).length_eq
  refine ⟨opening, hopening, Lock.execute_of_pushes hpushes
    (Script.shields_append_op [_, _, _, _] (by decide)) (List.cons_ne_nil _ _)
    (show 2 ≤ 21 by decide) ?_ hcache ?_⟩
  · show (encodeSignature sig).length + 3 + (holder.sec.length + 3 + 0) +
      (1 + (1 + (1 + (holder.key.publicKey.hash160 holder.form).bytes.length + (1 + (1 + 0))))) ≤
        10000
    omega
  · intro s n h
    rw [Nat.add_comm]
    exact Lock.succeeds_toKeyHash rfl ⟨holder.key.publicKey,
      holder.key.publicKey.ofSec_sec holder.form, signed_encodeSignature holder.key_eq hsig⟩ h
      (by decide) n

/-- The signatures of some holders, in the order of their keys, open the multisignature lock of all
of them, bare or behind its hash. -/
theorem opens_multisig {holders chosen : List Holder} {sigs : List Signature}
    (hcount : holders.length ≤ Limits.multisigKeys) (hne : chosen ≠ [])
    (hchosen : chosen.Sublist (holders.mergeSort Holder.le))
    (hsigs : Holder.Sign env.digest chosen sigs) (hcache : SigCache.Sound cache) :
    ∃ lock, Lock.multisig (holders.map Holder.sec) chosen.length = .ok lock ∧
      Opens (multisig (sigs.map encodeSignature)) lock env cache ∧
      (lock.byteLength ≤ Limits.elementSize →
        ∃ opening, multisig (sigs.map encodeSignature) = .ok opening ∧
          Opens (scriptHash lock opening) (Lock.toScript lock) env cache) := by
  have hle : chosen.length ≤ 20 := by
    have hsub := hchosen.length_le
    rw [List.length_mergeSort] at hsub
    exact Nat.le_trans hsub hcount
  obtain ⟨cs, lock, rfl, hlock, hcs, hmin, hmax, hreadable⟩ :=
    Holder.exists_lock hcount hne hchosen
  obtain ⟨opening, hopening, hpushes, hitems, hroom⟩ := hsigs.exists_opening hle
  refine ⟨_, hlock, ⟨opening, hopening, ?_⟩, fun hsize => ⟨opening, hopening, ?_⟩⟩
  · apply Lock.execute_of_pushes hpushes (Script.shields_append_op cs (by decide))
      (List.append_ne_nil_of_right_ne_nil _ (List.cons_ne_nil _ _)) hitems _ hcache
    · intro s n h
      exact hsigs.succeeds hcount hchosen hcs (by decide) n h
    · show Command.room ([] :: sigs.map encodeSignature) + _ ≤ 10000
      omega
  · obtain ⟨wrapped, p, hwrapped, hp, hpush, hcommands⟩ := exists_scriptHash hmin hsize
    refine ⟨wrapped, hwrapped, Lock.execute_of_reveal hpushes hitems (by omega) hcommands hp hpush
      hsize hreadable hcache ?_⟩
    intro s n h
    exact hsigs.succeeds hcount hchosen hcs (by decide) n h

/-- Honest spends succeed under every policy: every secret in range has a key; a signature by the
key opens the lock to it and the lock to its hash; and signatures by some of up to twenty keys, in
the order in which their lock lists them, open the lock, bare or behind its hash. -/
theorem opensLocks :
    (∀ secret form, 0 < secret → secret < Secp256k1.n →
      ∃ holder : Holder, holder.secret = secret ∧ holder.form = form) ∧
    (∀ (holder : Holder) (env : Env) (cache : SigCache) (sig : Signature),
      SigCache.Sound cache → holder.key.Signs env.digest sig →
      Opens (Unlock.key (encodeSignature sig)) (Lock.toKey holder.key.publicKey holder.form) env
          cache ∧
        Opens (keyHash (encodeSignature sig) holder.sec)
          (Lock.toKeyHash (holder.key.publicKey.hash160 holder.form)) env cache) ∧
    (∀ (holders chosen : List Holder) (env : Env) (cache : SigCache) (sigs : List Signature),
      holders.length ≤ Limits.multisigKeys → chosen ≠ [] →
      chosen.Sublist (holders.mergeSort Holder.le) → SigCache.Sound cache →
      Holder.Sign env.digest chosen sigs →
      ∃ lock, Lock.multisig (holders.map Holder.sec) chosen.length = .ok lock ∧
        Opens (multisig (sigs.map encodeSignature)) lock env cache ∧
        (lock.byteLength ≤ Limits.elementSize →
          ∃ opening, multisig (sigs.map encodeSignature) = .ok opening ∧
            Opens (scriptHash lock opening) (Lock.toScript lock) env cache)) := by
  refine ⟨?_, ?_, ?_⟩
  · intro secret form hpos hlt
    obtain ⟨C⟩ := Secp256k1.exists_cyclic
    obtain ⟨key, hkey, -, -⟩ := PrivateKey.exists_ofSecret C hpos hlt
    exact ⟨⟨secret, key, form, hkey⟩, rfl, rfl⟩
  · intro holder env cache sig hcache hsig
    exact ⟨opens_toKey holder hsig hcache, opens_toKeyHash holder hsig hcache⟩
  · intro holders chosen env cache sigs hcount hne hchosen hcache hsigs
    exact opens_multisig hcount hne hchosen hsigs hcache

/-! ## The secrets one and two -/

/-- The holder of the secret one, by an uncompressed key. -/
def generatorHolder : Holder :=
  ⟨1, ⟨1, Lock.generatorKey⟩, .uncompressed, by decide +kernel⟩

/-- The key of the secret two. -/
def doubledKey : PublicKey where
  x := Secp256k1.field.reduce Lock.doubledX
  y := Secp256k1.field.reduce
    0x1ae168fea63dc339a3c58419466ceaeef7f632653266d0e1236431a950cfe52a
  on_curve := by decide +kernel

/-- The holder of the secret two, by a compressed key. -/
def doubledHolder : Holder :=
  ⟨2, ⟨2, doubledKey⟩, .compressed, by decide +kernel⟩

/-- The first candidate nonce for the secret one and the digest five. -/
def firstNonce : ℕ :=
  0x2707e03e7f40f39667d5acd867d25d6e29ff18976642e7f9bd45d0f07d57b174

/-- The signature of the digest five with the secret one. -/
def firstSignature : Signature where
  r := 0xa5a7a7aea1b27837c25dfe757d6d3d1fa6c47191c9004c1e5f2fce0f303fe133
  s := 0x7be43b63568393b4db6402022ceda1535d9aaf0c5f059ac0d3d6de1773203189

theorem candidate_eq_firstNonce : (Nonce.candidate Digest.hmacSha256 Secp256k1.group.order
    (Nonce.start Digest.hmacSha256 Secp256k1.group.order 1 5)).1 = firstNonce := by
  rw [Digest.hmacSha256_eq]
  decide +kernel

theorem signWithNonce_firstNonce :
    Secp256k1.group.signWithNonce 1 5 firstNonce = .ok (some firstSignature) := by
  obtain ⟨C⟩ := Secp256k1.exists_cyclic
  have hbits : Number.ofBits ((Number.bits firstNonce).dropLast ++ [true]) = firstNonce := by
    decide +kernel
  -- The first coordinate of the multiple is below the order too, so `r` is that coordinate.
  have hat : (Curve.Jacobian.multiple Secp256k1.p Secp256k1.generatorU Secp256k1.generatorV
      (Number.bits firstNonce).dropLast).IsAt Secp256k1.p (firstSignature.r : ℕ)
        0x52325481037d703370e89abb712f0826ca48873953cd2a3b2fb7a4a861963718 := by
    decide +kernel
  rw [C.signWithNonce_of_abscissa Secp256k1.p_ne_two,
    Secp256k1.abscissa_of_isAt C hbits (by decide) hat]
  decide +kernel

theorem sign_generatorHolder : generatorHolder.key.sign 5 = .ok firstSignature := by
  have hattempts : Nonce.attempts = 65535 + 1 := rfl
  show Secp256k1.group.signWithin Nonce.attempts 1 5 = .ok firstSignature
  rw [hattempts]
  exact Group.signWithin_of_first candidate_eq_firstNonce (by decide) signWithNonce_firstNonce 65535

/-- One signature by either of two keys. -/
def oneOfTwo : Script :=
  .ofCommands [.op Opcode.one, .push ⟨doubledHolder.sec, .direct, by decide +kernel⟩,
    .push ⟨generatorHolder.sec, .direct, by decide +kernel⟩, .op 0x52, .op Opcode.checkMultiSig]

/-- Under the strictest policy, a signature by the secret one opens the locks to its key, and the
lock that lists the key of the secret two before it. -/
theorem opensLocks_generator :
    let env : Env := ⟨5, ⟨true, true, true, 8⟩⟩
    let item := encodeSignature firstSignature
    (∃ holder : Holder, holder.secret = 1 ∧ holder.form = .uncompressed) ∧
      generatorHolder.key.sign 5 = .ok firstSignature ∧
      Opens (Unlock.key item) (Lock.toKey Lock.generatorKey .uncompressed) env
        (Cache.empty 8 id) ∧
      Opens (keyHash item generatorHolder.sec)
        (Lock.toKeyHash (Lock.generatorKey.hash160 .uncompressed)) env (Cache.empty 8 id) ∧
      Lock.multisig [doubledHolder.sec, generatorHolder.sec] 1 = .ok oneOfTwo ∧
      Opens (multisig [item]) oneOfTwo env (Cache.empty 8 id) ∧
      ∃ opening, multisig [item] = .ok opening ∧
        Opens (scriptHash oneOfTwo opening) (Lock.toScript oneOfTwo) env (Cache.empty 8 id) := by
  intro env item
  obtain ⟨hholder, hsingle, hmulti⟩ := opensLocks
  have hcache := SigCache.sound_empty 8 id
  have hsigns : generatorHolder.key.Signs 5 firstSignature :=
    PrivateKey.signs_of_sign sign_generatorHolder
  obtain ⟨hkey, hkeyHash⟩ := hsingle generatorHolder env _ firstSignature hcache hsigns
  have hordered : [doubledHolder.sec, generatorHolder.sec].Pairwise (Bytes.le · ·) := by
    decide +kernel
  have hlock : Lock.multisig [doubledHolder.sec, generatorHolder.sec] 1 = .ok oneOfTwo := by
    rw [Lock.multisig, List.mergeSort_of_pairwise hordered]
    decide +kernel
  have hchosen : [generatorHolder].Sublist
      ([doubledHolder, generatorHolder].mergeSort Holder.le) := by
    rw [List.singleton_sublist, List.mem_mergeSort]
    exact List.mem_cons_of_mem _ List.mem_cons_self
  obtain ⟨lock, hlock', hbare, hhidden⟩ := hmulti [doubledHolder, generatorHolder]
    [generatorHolder] env _ [firstSignature] (by decide) (List.cons_ne_nil _ _) hchosen hcache
    (.cons hsigns .nil)
  obtain rfl : oneOfTwo = lock := Except.ok.inj (hlock.symm.trans hlock')
  exact ⟨hholder 1 .uncompressed (by decide) (by decide), sign_generatorHolder, hkey, hkeyHash,
    hlock, hbare, hhidden (by decide +kernel)⟩

end Unlock

end SpendScript
