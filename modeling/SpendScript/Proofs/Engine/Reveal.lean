import SpendScript.Proofs.Engine.Success
import SpendScript.Script.Template

/-!
# Revealed scripts

The last push before a pay-to-script-hash lock reveals a script. The lock is run at once, and the
script after it.

Results:
* `Engine.Advanced`: a few commands have been run that change only the stack.
* `Engine.exists_runNext_lock`: the lock compares the hash of the top item with its own.
* `Engine.exists_reveal_eq`, `Engine.afterLock_eq_ok`: what follows its answer.
* `Engine.exists_runCommand_reveal`: if the hash is right and the bytes spell a script, the run goes
  on with that script.
-/

namespace SpendScript.Engine

variable {env : Env} {s t u : State} {c : Command} {code : Opcode} {rest cs : List Command}
  {stack stack' : Stack} {hash : Digest.Hash160} {data : Bytes} {p : Push} {used n m : ℕ}

/-! ## Commands that change only the stack -/

/-- From `s` to `t`, `n` commands have been run, and nothing but the stack and the count of
operations has changed. -/
structure Advanced (n : ℕ) (s t : State) : Prop where
  pending_eq : t.pending = s.pending.drop n
  position_eq : t.position = s.position + n
  segmentStarts_eq : t.segmentStarts = s.segmentStarts
  alt_eq : t.alt = s.alt
  conditions_eq : t.conditions = s.conditions
  cache_eq : t.cache = s.cache

theorem Advanced.trans (h : Advanced n s t) (h' : Advanced m t u) : Advanced (n + m) s u := by
  refine ⟨?_, ?_, h'.segmentStarts_eq.trans h.segmentStarts_eq, h'.alt_eq.trans h.alt_eq,
    h'.conditions_eq.trans h.conditions_eq, h'.cache_eq.trans h.cache_eq⟩
  · rw [h'.pending_eq, h.pending_eq, List.drop_drop]
  · rw [h'.position_eq, h.position_eq, Nat.add_assoc]

theorem Advanced.isExecuting_eq (h : Advanced n s t) : t.isExecuting = s.isExecuting := by
  unfold State.isExecuting
  rw [h.conditions_eq]

theorem fetched_operations_le (s : State) (rest : List Command) :
    (fetched s rest).operations ≤ s.operations := by
  show (if s.position ∈ s.segmentStarts then 0 else s.operations) ≤ s.operations
  split_ifs
  · exact Nat.zero_le _
  · exact Nat.le_refl _

theorem exists_advanced_op (env : Env) (stack : Stack) (hp : s.pending = .op code :: rest)
    (hexec : s.isExecuting = true) (hd : code.isDisabled = false)
    (hlimit : (fetched s rest).operations + 1 ≤ Limits.operations)
    (hperform : ∀ s₀, s₀.stack = s.stack →
      perform env code (Operation.ofOpcode code) s₀ = .ok () { s₀ with stack := stack }) :
    ∃ t, runPlain env (.op code) (fetched s rest) = .ok () t ∧ Advanced 1 s t ∧ t.stack = stack ∧
      t.operations ≤ (fetched s rest).operations + 1 := by
  refine ⟨{ started (fetched s rest) code with stack := stack }, ?_, ⟨?_, rfl, rfl, rfl, rfl, rfl⟩,
    rfl, Nat.add_le_add_left (Bool.toNat_le code.isCounted) _⟩
  · exact (runOpcode_executing (s := fetched s rest) hd hexec).mpr
      ⟨fun _ => hlimit, hperform _ rfl⟩
  · rw [hp]
    rfl

theorem exists_advanced_push (hp : s.pending = .push p :: rest) (hexec : s.isExecuting = true)
    (hadm : (Command.push p).Admitted env.flags) :
    ∃ t, runPlain env (.push p) (fetched s rest) = .ok () t ∧ Advanced 1 s t ∧
      t.stack = p.data :: s.stack ∧ t.operations = (fetched s rest).operations := by
  refine ⟨{ fetched s rest with stack := p.data :: s.stack }, ?_, ⟨?_, rfl, rfl, rfl, rfl, rfl⟩,
    rfl, rfl⟩
  · exact (runPlain_push_executing (s := fetched s rest) hexec).mpr ⟨hadm.1, hadm.2, rfl⟩
  · rw [hp]
    rfl

/-! ## The lock -/

theorem runNext_cons (hp : s.pending = c :: rest)
    (hrun : runPlain env c (fetched s rest) = .ok () t) (n : ℕ) :
    runNext env (n + 1) s = runNext env n t := by
  rw [runNext, bind_of_eq_ok (next_cons hp)]
  exact bind_of_eq_ok hrun

theorem scriptHashLock_toScriptHash (hash : Digest.Hash160) :
    Script.scriptHashLock? (Lock.toScriptHash hash).commands = some hash.bytes :=
  if_pos ⟨rfl, hash.length_eq, rfl⟩

theorem totalLength_toScriptHash (hash : Digest.Hash160) :
    Command.totalLength (Lock.toScriptHash hash).commands = 23 := by
  show 1 + (1 + hash.bytes.length + (1 + 0)) = 23
  rw [hash.length_eq]

/-- A push of a hash passes every policy. -/
theorem pushes_ofHash (hash : Digest.Hash160) : (Command.ofHash hash).Pushes hash.bytes := by
  have hlen := hash.length_eq
  refine ⟨rfl, fun flags => ⟨?_, fun _ => ?_⟩⟩
  · show hash.bytes.length ≤ 520
    omega
  · obtain ⟨bytes, hbytes⟩ := hash
    match bytes, hbytes with
    | _ :: _ :: tail, hbytes =>
      simp only [Push.isMinimal, PushEncoding.shortest?, hbytes]
      decide

/-- The lock replaces the top item by the answer whether it has the hash. -/
theorem exists_runNext_lock (env : Env) (hp : s.pending = (Lock.toScriptHash hash).commands)
    (hs : s.stack = data :: stack) (hexec : s.isExecuting = true)
    (hlimit : (fetched s []).operations + 2 ≤ Limits.operations) :
    ∃ t, runNext env 3 s = .ok () t ∧ Advanced 3 s t ∧
      t.stack = ScriptNumber.ofBool ((Digest.hash160 data).bytes == hash.bytes) :: stack ∧
      t.operations ≤ (fetched s []).operations + 2 := by
  have hhash := (pushes_ofHash hash).admitted env.flags
  obtain ⟨s₁, hrun₁, h₁, hs₁, hops₁⟩ := exists_advanced_op env
    ((Digest.hash160 data).bytes :: stack) hp hexec (by decide) (Nat.le_of_succ_le hlimit)
    fun s₀ hs₀ => perform_hash.mpr ⟨data, stack, hs₀.trans hs, rfl⟩
  have hp₁ : s₁.pending = [.ofHash hash, .op Opcode.equal] := by
    rw [h₁.pending_eq, hp]
    rfl
  obtain ⟨s₂, hrun₂, h₂, hs₂, hops₂⟩ :=
    exists_advanced_push hp₁ (h₁.isExecuting_eq.trans hexec) hhash
  have hp₂ : s₂.pending = [.op Opcode.equal] := by
    rw [h₂.pending_eq, hp₁]
    rfl
  have hops : (fetched s₂ []).operations ≤ (fetched s []).operations + 1 :=
    calc (fetched s₂ []).operations
      _ ≤ s₂.operations := fetched_operations_le s₂ []
      _ ≤ s₁.operations := hops₂ ▸ fetched_operations_le s₁ _
      _ ≤ (fetched s []).operations + 1 := hops₁
  obtain ⟨s₃, hrun₃, h₃, hs₃, hops₃⟩ := exists_advanced_op env
    (ScriptNumber.ofBool ((Digest.hash160 data).bytes == hash.bytes) :: stack) hp₂
    ((h₁.trans h₂).isExecuting_eq.trans hexec) (by decide)
    (Nat.le_trans (Nat.add_le_add_right hops 1) hlimit)
    fun s₀ hs₀ => perform_equal.mpr ⟨_, _, stack, hs₀.trans (hs₂.trans (hs₁ ▸ rfl)), rfl⟩
  refine ⟨s₃, ?_, (h₁.trans h₂).trans h₃, hs₃,
    Nat.le_trans hops₃ (Nat.add_le_add_right hops 1)⟩
  rw [runNext_cons hp hrun₁, runNext_cons hp₁ hrun₂, runNext_cons hp₂ hrun₃]
  rfl

/-! ## Revealing -/

/-- What revealing does after the lock has answered. -/
def afterLock (answer : Bool) (data : Bytes) : Engine Unit := do
  require answer
  let cs ← lift (Command.decode data)
  emit (.runningRedeemScript cs)
  appendCommands cs

/-- The lock and its answer are gone before the answer counts. -/
theorem exists_reveal_eq (env : Env) (hp : s.pending = (Lock.toScriptHash hash).commands)
    (hexec : s.isExecuting = true) (hlimit : (fetched s []).operations + 2 ≤ Limits.operations)
    (data : Bytes) :
    ∃ t, reveal env data s = afterLock ((Digest.hash160 data).bytes == hash.bytes) data t ∧
      Advanced 3 s t ∧ t.stack = s.stack ∧ t.operations ≤ (fetched s []).operations + 2 := by
  obtain ⟨t, hrun, ht, hstack, hops⟩ :=
    exists_runNext_lock (s := { s with stack := data :: s.stack }) env hp rfl hexec hlimit
  have hpop := pop_eq_ok.mpr ⟨s.stack, hstack, rfl⟩
  have htruth : ∀ answer, ScriptNumber.truth (ScriptNumber.ofBool answer) = answer := by decide
  refine ⟨{ t with stack := s.stack }, ?_, ⟨ht.pending_eq, ht.position_eq, ht.segmentStarts_eq,
    ht.alt_eq, ht.conditions_eq, ht.cache_eq⟩, rfl, hops⟩
  unfold reveal
  rw [bind_of_eq_ok (push_apply data s), bind_of_eq_ok hrun, bind_of_eq_ok hpop, htruth]
  rfl

/-- The state after the commands `cs` have been appended to a run that has taken the answer of the
lock. -/
def revealed (t : State) (cs : List Command) : State :=
  { t with
    events := .runningRedeemScript cs :: t.events
    segmentStarts := t.segmentStarts ++ [t.position + t.pending.length]
    pending := t.pending ++ cs }

theorem afterLock_eq_ok {answer : Bool} : afterLock answer data t = .ok () u ↔
    answer = true ∧ ∃ cs, Command.decode data = .ok cs ∧ u = revealed t cs := by
  unfold afterLock
  rw [bind_eq_ok]
  constructor
  · rintro ⟨_, t₁, hrequire, hrest⟩
    obtain ⟨hanswer, rfl⟩ := require_eq_ok.mp hrequire
    obtain ⟨cs, t₂, hlift, hend⟩ := bind_eq_ok.mp hrest
    obtain ⟨hcs, rfl⟩ := lift_eq_ok.mp hlift
    cases hend
    exact ⟨hanswer, cs, hcs, rfl⟩
  · rintro ⟨hanswer, cs, hcs, rfl⟩
    refine ⟨(), t, require_eq_ok.mpr ⟨hanswer, rfl⟩, ?_⟩
    exact bind_eq_ok.mpr ⟨cs, t, lift_eq_ok.mpr ⟨hcs, rfl⟩, rfl⟩

/-- A push before the lock reveals its data, if no policy forbids it. -/
theorem runCommand_push_lock (hp : s.pending = (Lock.toScriptHash hash).commands)
    (hexec : s.isExecuting = true) (hadm : (Command.push p).Admitted env.flags) :
    runCommand env (.push p) s = reveal env p.data s := by
  have hadmit : admitPush env p s = .ok true s :=
    admitPush_eq_ok.mpr ⟨rfl, hadm.1, by simp [hexec], fun _ => hadm.2⟩
  have hlook : (Script.scriptHashLock? s.pending).isSome = true := by
    rw [hp, scriptHashLock_toScriptHash]
    rfl
  simp only [runCommand]
  rw [bind_of_eq_ok hadmit, if_pos rfl, get_bind, hlook, if_pos rfl]

/-- After a push that reveals a script, the run goes on with that script and the items below. -/
theorem exists_runCommand_reveal
    (h : OnTrack s (.push p :: (Lock.toScriptHash hash).commands) stack used)
    (hp : (Command.push p).Pushes p.data) (hhash : Digest.hash160 p.data = hash)
    (hdecode : Command.decode p.data = .ok cs) (hlimit : used + 2 ≤ Limits.operations) :
    ∃ s', runCommand env (.push p) (fetched s (Lock.toScriptHash hash).commands) = .ok () s' ∧
      OnTrack s' cs stack (used + 2) := by
  have hfetched := h.fetched
  have hops : (fetched (fetched s (Lock.toScriptHash hash).commands) []).operations ≤ used :=
    Nat.le_trans (fetched_operations_le _ []) hfetched.operations_le
  obtain ⟨t, hreveal, ht, hstack, hle⟩ := exists_reveal_eq env hfetched.pending_eq
    hfetched.isExecuting (Nat.le_trans (Nat.add_le_add_right hops 2) hlimit) p.data
  rw [hhash, beq_self_eq_true] at hreveal
  refine ⟨revealed t cs, ?_, ⟨?_, hstack.trans hfetched.stack_eq,
    ht.conditions_eq.trans hfetched.conditions_eq, ?_⟩, ht.alt_eq.trans hfetched.alt_eq,
    Nat.le_trans hle (Nat.add_le_add_right hops 2)⟩
  · rw [runCommand_push_lock hfetched.pending_eq hfetched.isExecuting (hp.admitted env.flags),
      hreveal]
    exact afterLock_eq_ok.mpr ⟨rfl, cs, hdecode, rfl⟩
  · show t.pending ++ cs = cs
    rw [ht.pending_eq, hfetched.pending_eq]
    rfl
  · show SigCache.Sound t.cache
    rw [ht.cache_eq]
    exact hfetched.sound

end SpendScript.Engine
