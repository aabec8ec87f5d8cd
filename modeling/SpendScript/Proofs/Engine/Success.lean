import SpendScript.Proofs.Engine.Ready

/-!
# Runs that succeed

A run within the limits whose commands find what they ask for succeeds. Each lemma reduces the
success of a run to that of the run without its first command, or its first pushes.

Results:
* `Engine.Succeeds`: the rest of a run leaves one true item.
* `Engine.OnTrack`: a point of a run where nothing is skipped and few operations are counted.
* `Engine.OnTrack.exists_dup`, `Engine.OnTrack.exists_checkSig`, …: single commands.
* `Engine.OnTrack.exists_loop_pushed`: several pushes.
* `Engine.OnTrack.succeeds_cons`, `Engine.OnTrack.succeeds_pushed`: the success of runs.
* `Script.execute_of_succeeds`: the success of a script.
-/

namespace SpendScript

namespace Engine

/-- The run goes on without an error for up to `n` commands, closes all conditionals and leaves one
true item. -/
def Succeeds (env : Env) (n : ℕ) (s : State) : Prop :=
  ∃ t item, loop env n s = .ok () t ∧ t.conditions = [] ∧ t.stack = [item] ∧
    ScriptNumber.truth item = true

/-- Nothing is skipped, nothing lies on the second stack, and at most `used` operations are
counted. -/
structure OnTrack (s : State) (cs : List Command) (stack : Stack) (used : ℕ) : Prop extends
    Ready s cs stack where
  alt_eq : s.alt = []
  operations_le : s.operations ≤ used

namespace OnTrack

variable {env : Env} {s t : State} {code : Opcode} {c : Command} {cs rest : List Command}
  {stack stack' below : Stack} {item : Bytes} {used used' n : ℕ}

theorem withStack (h : OnTrack s cs stack used) (stack' : Stack) :
    OnTrack { s with stack := stack' } cs stack' used :=
  ⟨h.toReady.withStack stack', h.alt_eq, h.operations_le⟩

theorem fetched (h : OnTrack s (c :: rest) stack used) :
    OnTrack (fetched s rest) rest stack used := by
  refine ⟨h.toReady.fetched, h.alt_eq, ?_⟩
  have hle := h.operations_le
  show (if s.position ∈ s.segmentStarts then 0 else s.operations) ≤ used
  split_ifs
  · exact Nat.zero_le used
  · exact hle

theorem started (h : OnTrack s cs stack used) (code : Opcode) :
    OnTrack (started s code) cs stack (used + 1) := by
  refine ⟨h.toReady.started code, h.alt_eq, ?_⟩
  have hle := h.operations_le
  have hcount : code.isCounted.toNat ≤ 1 := Bool.toNat_le code.isCounted
  show s.operations + code.isCounted.toNat ≤ used + 1
  omega

theorem of_checkFrame (h : OnTrack s cs stack used) (hframe : CheckFrame s t) (stack' : Stack) :
    OnTrack { t with stack := stack' } cs stack' used :=
  ⟨h.toReady.of_frame hframe.toDataFrame stack', hframe.alt_eq.trans h.alt_eq,
    hframe.operations_eq.symm ▸ h.operations_le⟩

/-! ## Single commands -/

/-- An opcode within the limits runs if its operation does. -/
theorem exists_op (h : OnTrack s (.op code :: rest) stack used) (hd : code.isDisabled = false)
    (hlimit : used + 1 ≤ Limits.operations)
    (hperform : ∀ s₀, OnTrack s₀ rest stack (used + 1) →
      ∃ s', perform env code (Operation.ofOpcode code) s₀ = .ok () s' ∧
        OnTrack s' rest stack' used') :
    ∃ s', runPlain env (.op code) (Engine.fetched s rest) = .ok () s' ∧
      OnTrack s' rest stack' used' := by
  obtain ⟨s', hrun, h'⟩ := hperform _ (h.fetched.started code)
  have hle := h.fetched.operations_le
  refine ⟨s', (runOpcode_executing hd h.fetched.isExecuting).mpr ⟨fun _ => ?_, hrun⟩, h'⟩
  omega

theorem exists_dup (h : OnTrack s (.op Opcode.dup :: rest) (item :: below) used)
    (hlimit : used + 1 ≤ Limits.operations) :
    ∃ s', runPlain env (.op Opcode.dup) (Engine.fetched s rest) = .ok () s' ∧
      OnTrack s' rest (item :: item :: below) (used + 1) := by
  apply h.exists_op (by decide) hlimit
  intro s₀ h₀
  exact ⟨_, perform_dup.mpr ⟨item, below, h₀.stack_eq, rfl⟩, h₀.withStack _⟩

theorem exists_hash160 (h : OnTrack s (.op Opcode.hash160 :: rest) (item :: below) used)
    (hlimit : used + 1 ≤ Limits.operations) :
    ∃ s', runPlain env (.op Opcode.hash160) (Engine.fetched s rest) = .ok () s' ∧
      OnTrack s' rest ((Digest.hash160 item).bytes :: below) (used + 1) := by
  apply h.exists_op (by decide) hlimit
  intro s₀ h₀
  exact ⟨_, perform_hash.mpr ⟨item, below, h₀.stack_eq, rfl⟩, h₀.withStack _⟩

theorem exists_equalVerify (h : OnTrack s (.op Opcode.equalVerify :: rest) (item :: item :: below)
    used) (hlimit : used + 1 ≤ Limits.operations) :
    ∃ s', runPlain env (.op Opcode.equalVerify) (Engine.fetched s rest) = .ok () s' ∧
      OnTrack s' rest below (used + 1) := by
  apply h.exists_op (by decide) hlimit
  intro s₀ h₀
  exact ⟨_, perform_equalVerify.mpr ⟨item, below, h₀.stack_eq, rfl⟩, h₀.withStack _⟩

theorem exists_checkSig {sig key : Bytes} (hsigned : SignedBy env.digest key sig)
    (h : OnTrack s (.op Opcode.checkSig :: rest) (key :: sig :: below) used)
    (hlimit : used + 1 ≤ Limits.operations) :
    ∃ s', runPlain env (.op Opcode.checkSig) (Engine.fetched s rest) = .ok () s' ∧
      OnTrack s' rest (ScriptNumber.ofBool true :: below) (used + 1) := by
  obtain ⟨hne, hverdict⟩ := signedBy_iff.mp hsigned
  apply h.exists_op (by decide) hlimit
  intro s₀ h₀
  obtain ⟨t, hcheck⟩ := exists_checkSignature (h₀.withStack below).sound hne hverdict
  have hframe := checkSignature_checkFrame sig key hcheck
  exact ⟨_, perform_checkSig.mpr ⟨sig, key, below, true, t, h₀.stack_eq, hcheck, rfl⟩,
    (h₀.withStack below).of_checkFrame hframe _⟩

/-- A multisignature check succeeds if the signatures belong to keys in their order, and every
signature and key can be read. -/
theorem exists_checkMultiSig {keyCount sigCount dummy : Bytes} {keys chosen sigs : List Bytes}
    (h : OnTrack s (.op Opcode.checkMultiSig :: rest)
      (keyCount :: (keys.reverse ++ sigCount :: (sigs.reverse ++ dummy :: below))) used)
    (hkeyCount : ScriptNumber.decode keyCount = .ok (keys.length : ℤ))
    (hsigCount : ScriptNumber.decode sigCount = .ok (sigs.length : ℤ))
    (hmax : keys.length ≤ Limits.multisigKeys) (hchosen : chosen.Sublist keys)
    (hsigned : List.Forall₂ (SignedBy env.digest) chosen sigs)
    (hverdicts : ∀ key ∈ keys, ∀ sig ∈ sigs, ∃ valid,
      SigCheck.verdict ⟨sig.dropLast, key, env.digest⟩ = .decided valid)
    (hlimit : used + 1 + keys.length ≤ Limits.operations) :
    ∃ s', runPlain env (.op Opcode.checkMultiSig) (Engine.fetched s rest) = .ok () s' ∧
      OnTrack s' rest (ScriptNumber.ofBool true :: below) (used + 1 + keys.length) := by
  apply h.exists_op (by decide) (by omega)
  intro s₀ h₀
  have hops := h₀.operations_le
  have hcounted : OnTrack { s₀ with stack := below, operations := s₀.operations + keys.length }
      rest below (used + 1 + keys.length) :=
    ⟨⟨h₀.pending_eq, rfl, h₀.conditions_eq, h₀.sound⟩, h₀.alt_eq, Nat.add_le_add_right hops _⟩
  obtain ⟨t, hmatch⟩ := exists_matchKeys keys sigs chosen hcounted.sound hchosen hsigned hverdicts
  have hframe := Keeps.matchKeys (fun sig key => checkSignature_checkFrame sig key) keys sigs hmatch
  have hle : sigs.length ≤ keys.length := hsigned.length_eq ▸ hchosen.length_le
  refine ⟨_, perform_checkMultiSig.mpr ⟨true, t, checkMultiSig_eq_ok.mpr ⟨keyCount, keys, sigCount,
    sigs, dummy, below, h₀.stack_eq, hkeyCount, hsigCount, hmax, hle, by omega, hmatch⟩, rfl⟩, ?_⟩
  rw [hframe.stack_eq]
  exact hcounted.of_checkFrame hframe _

theorem exists_push {data : Bytes} (env : Env) (hc : c.Pushes data)
    (h : OnTrack s (c :: rest) stack used) :
    ∃ s', runPlain env c (Engine.fetched s rest) = .ok () s' ∧
      OnTrack s' rest (data :: stack) used := by
  obtain ⟨events, hrun⟩ := exists_runPlain_pushed env h.fetched.isExecuting hc.pushed_eq
    (hc.admitted env.flags)
  have hdata := h.fetched.withStack (data :: stack)
  rw [h.fetched.stack_eq] at hrun
  exact ⟨_, hrun, ⟨hdata.pending_eq, rfl, hdata.conditions_eq, hdata.sound⟩, hdata.alt_eq,
    hdata.operations_le⟩

/-! ## Runs -/

/-- A run that has nothing to do and one true item on the stack succeeds. -/
theorem succeeds_nil (h : OnTrack s [] [item] used) (htrue : ScriptNumber.truth item = true)
    (n : ℕ) : Succeeds env n s :=
  ⟨s, item, loop_nil h.pending_eq n, h.conditions_eq, h.stack_eq, htrue⟩

/-- A run succeeds if its first command leaves few enough items and the rest of it succeeds. -/
theorem succeeds_cons (h : OnTrack s (c :: rest) stack used)
    (hrun : ∃ s', runCommand env c (Engine.fetched s rest) = .ok () s' ∧
      OnTrack s' cs stack' used')
    (hsize : stack'.length ≤ Limits.stackSize)
    (hrest : ∀ s', OnTrack s' cs stack' used' → Succeeds env n s') : Succeeds env (n + 1) s := by
  obtain ⟨s', hrun, h'⟩ := hrun
  obtain ⟨t, item, hloop, hend⟩ := hrest s' h'
  refine ⟨t, item, (loop_cons h.pending_eq n).mpr ⟨s', hrun, ?_, hloop⟩, hend⟩
  rw [h'.alt_eq, h'.stack_eq, List.length_nil, Nat.zero_add]
  exact hsize

theorem succeeds_push {data : Bytes} (h : OnTrack s (c :: rest) stack used) (hc : c.Pushes data)
    (hr : Script.scriptHashLock? rest = none) (hsize : (data :: stack).length ≤ Limits.stackSize)
    (hrest : ∀ s', OnTrack s' rest (data :: stack) used → Succeeds env n s') :
    Succeeds env (n + 1) s := by
  refine h.succeeds_cons ?_ hsize hrest
  rw [runCommand_eq_runPlain (s := Engine.fetched s rest) hr]
  exact h.exists_push env hc

/-- Commands that only add items leave them on the stack, the last one on top. -/
theorem exists_loop_pushed {items : List Bytes} (env : Env)
    (hcs : List.Forall₂ Command.Pushes cs items) (h : OnTrack s (cs ++ rest) stack used)
    (hr : Script.Shields rest) (hsize : stack.length + items.length ≤ Limits.stackSize) :
    ∃ s', loop env cs.length s = .ok () s' ∧ OnTrack s' rest (items.reverse ++ stack) used := by
  induction hcs generalizing s stack with
  | nil => exact ⟨s, rfl, h⟩
  | @cons c item cs items hc _ ih =>
    have hlen : (item :: stack).length = stack.length + 1 := List.length_cons
    rw [List.length_cons] at hsize
    rw [List.cons_append] at h
    obtain ⟨s₁, hrun, h₁⟩ := h.exists_push env hc
    rw [← runCommand_eq_runPlain (s := Engine.fetched s (cs ++ rest)) (hr cs)] at hrun
    obtain ⟨s', hloop, h'⟩ := ih h₁ (by omega)
    refine ⟨s', (loop_cons h.pending_eq _).mpr ⟨s₁, hrun, ?_, hloop⟩, ?_⟩
    · rw [h₁.alt_eq, h₁.stack_eq, List.length_nil, Nat.zero_add]
      omega
    · rw [List.reverse_cons, List.append_assoc]
      exact h'

theorem succeeds_pushed {items : List Bytes} (hcs : List.Forall₂ Command.Pushes cs items)
    (h : OnTrack s (cs ++ rest) stack used) (hr : Script.Shields rest)
    (hsize : stack.length + items.length ≤ Limits.stackSize)
    (hrest : ∀ s', OnTrack s' rest (items.reverse ++ stack) used → Succeeds env n s') :
    Succeeds env (cs.length + n) s := by
  obtain ⟨s', hloop, h'⟩ := h.exists_loop_pushed env hcs hr hsize
  obtain ⟨t, item, hlast, hend⟩ := hrest s' h'
  exact ⟨t, item, by rw [loop_add, bind_of_eq_ok hloop]; exact hlast, hend⟩

end OnTrack

end Engine

/-! ## Whole runs -/

/-- A script succeeds if it is short enough and its run succeeds from an empty stack. A run takes
fewer steps than the script has bytes. -/
theorem Script.execute_of_succeeds {script : Script} {env : Env} {cache : SigCache} {n : ℕ}
    (hcache : SigCache.Sound cache) (hne : script.commands ≠ [])
    (hsize : script.byteLength ≤ Limits.scriptSize) (hn : n ≤ script.byteLength)
    (h : ∀ s extra, Engine.OnTrack s script.commands [] 0 → Engine.Succeeds env (n + extra) s) :
    (script.execute env cache).result = .ok () := by
  have hstart : Engine.OnTrack (State.start script cache) script.commands [] 0 :=
    ⟨⟨rfl, rfl, rfl, hcache⟩, rfl, Nat.le_refl 0⟩
  have hrun := h _ (script.byteLength - n) hstart
  rw [Nat.add_sub_cancel' hn] at hrun
  exact Script.execute_eq_ok_iff.mpr ⟨hne, sizesAllowed_of_le hsize, hrun⟩

end SpendScript
