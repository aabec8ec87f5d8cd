import SpendScript.Proofs.Engine.Termination
import SpendScript.Proofs.Engine.Trace
import SpendScript.Proofs.Script.Shapes

/-!
# The limit of the stack size

The two stacks are measured after each command of the list. The commands of a lock on revealed bytes
come between two of these measurements: the pushed bytes, and then the pushed hash, may lie on top
of as many items as the limit allows.

Results:
* `Place.capacity`: how many items a run can hold at a place.
* `Engine.InLock`: a point in a lock; `Engine.InLock.runPlain`: its commands lead to the next one.
* `Engine.Trace.items_le`: a run holds no more items than that.
* `Script.stackLimited`: a command of the list that leaves more than the limit ends the run.
* `Script.not_stackLimitedThroughout`: a lock goes on with more items than the limit.
-/

namespace SpendScript

/-- How many items a run can hold: up to the limit in the list, one more in a lock, and two more
once the lock has pushed its hash. -/
def Place.capacity : Place → ℕ
  | .list => Limits.stackSize
  | .lock _ 1 => Limits.stackSize + 2
  | .lock _ _ => Limits.stackSize + 1

theorem Place.capacity_le (place : Place) : place.capacity ≤ Limits.stackSize + 2 := by
  unfold capacity
  split <;> omega

namespace Engine

variable {env : Env} {s₀ s t : State} {past : List Executed} {place : Place} {c : Command}
  {rest : List Command} {p : Push} {data : Bytes} {left : ℕ}

/-! ## In a lock -/

/-- So many commands of a lock on revealed bytes are left, nothing is skipped, and the run holds no
more items than it can there. -/
structure InLock (data : Bytes) (left : ℕ) (s : State) : Prop where
  left_le : left ≤ 3
  pending_eq : ∃ p, s.pending =
    [.op Opcode.hash160, .push p, .op Opcode.equal].drop (3 - left)
  isExecuting : s.isExecuting = true
  items_le : s.items ≤ (Place.lock data left).capacity

/-- The push before a lock adds the revealed bytes. -/
theorem inLock_of_push (hs : s.items ≤ Limits.stackSize) (hreveals : reveals s (.push p) = true)
    (hrun : runPlain env (.push p) s = .ok () t) : InLock p.data 3 t := by
  obtain ⟨hexec, hlock⟩ := Bool.and_eq_true_iff.mp hreveals
  obtain ⟨-, -, rfl⟩ := (runPlain_push_executing hexec).mp hrun
  obtain ⟨hash, hhash⟩ := Option.isSome_iff_exists.mp hlock
  obtain ⟨lockPush, hpending, -⟩ := Script.scriptHashLock?_eq_some.mp hhash
  refine ⟨Nat.le_refl 3, ⟨lockPush, hpending⟩, hexec, ?_⟩
  show s.alt.length + (s.stack.length + 1) ≤ Limits.stackSize + 1
  unfold State.items at hs
  omega

/-- A command of the lock leads to the next one. The hash takes the place of the bytes, the pushed
hash is one more item, and the answer takes the place of both. -/
theorem InLock.runPlain (h : InLock data (left + 1) s) (hp : s.pending = c :: rest)
    (hrun : runPlain env c (fetched s rest) = .ok () t) : InLock data left t := by
  obtain ⟨hleft, ⟨p, hpending⟩, hexec, hitems⟩ := h
  rw [hp] at hpending
  have hfetched : (fetched s rest).isExecuting = true := hexec
  match left with
  | 2 =>
    obtain ⟨rfl, rfl⟩ := List.cons.inj hpending
    obtain ⟨-, hhash⟩ := (runOpcode_executing (by decide) hfetched).mp hrun
    obtain ⟨item, stack, hs, rfl⟩ := perform_hash.mp hhash
    refine ⟨by decide, ⟨p, rfl⟩, hexec, ?_⟩
    change s.stack = item :: stack at hs
    change s.alt.length + s.stack.length ≤ Limits.stackSize + 1 at hitems
    rwa [hs] at hitems
  | 1 =>
    obtain ⟨rfl, rfl⟩ := List.cons.inj hpending
    obtain ⟨-, -, rfl⟩ := (runPlain_push_executing hfetched).mp hrun
    refine ⟨by decide, ⟨p, rfl⟩, hexec, ?_⟩
    exact Nat.succ_le_succ hitems
  | 0 =>
    obtain ⟨rfl, rfl⟩ := List.cons.inj hpending
    obtain ⟨-, hequal⟩ := (runOpcode_executing (by decide) hfetched).mp hrun
    obtain ⟨a, b, stack, hs, rfl⟩ := perform_equal.mp hequal
    refine ⟨by decide, ⟨p, rfl⟩, hexec, ?_⟩
    change s.stack = b :: a :: stack at hs
    change s.alt.length + s.stack.length ≤ Limits.stackSize + 2 at hitems
    rw [hs] at hitems
    exact Nat.le_of_succ_le_succ hitems
  | left + 3 => omega

/-- What a run keeps about the items that it holds. -/
def Bounded (s : State) : Place → Prop
  | .list => s.items ≤ Limits.stackSize
  | .lock data left => InLock data left s

theorem Trace.bounded (h : Trace env s₀ past place s) (hs₀ : s₀.items ≤ Limits.stackSize) :
    Bounded s place := by
  induction h with
  | start => exact hs₀
  | command _ _ _ _ hsize _ => exact hsize
  | push _ _ hreveals hrun ih => exact inLock_of_push (s := fetched _ _) ih hreveals hrun
  | lock _ hp hrun ih => exact ih.runPlain hp hrun
  | reveal _ _ hsize _ => exact hsize

/-- A run never holds more items than the limit by more than the two that a lock adds. -/
theorem Trace.items_le (h : Trace env s₀ past place s) (hs₀ : s₀.items ≤ Limits.stackSize) :
    s.items ≤ place.capacity := by
  have hbounded := h.bounded hs₀
  cases place with
  | list => exact hbounded
  | lock data left => exact hbounded.items_le

/-! ## In the list -/

theorem checkStackSize_of_lt (h : Limits.stackSize < s.items) :
    checkStackSize s = .error (.error (.stackTooBig s.items)) s := by
  unfold checkStackSize
  rw [get_bind]
  exact congrFun (if_pos h) s

/-- All items below the top one are left over. -/
theorem finish_of_unclean {item : Bytes} {below : Stack} (hc : s.conditions = [])
    (hs : s.stack = item :: below) (hne : below ≠ []) :
    finish s = .error (.error (.uncleanStack below.length)) s := by
  obtain ⟨item', below, rfl⟩ := List.exists_cons_of_ne_nil hne
  unfold finish
  rw [get_bind, hc, hs]
  rfl

/-- From any state that the loop comes to, the run goes on as the loop from there does. -/
theorem run_of_loop {script : Script} {cache : SigCache} {n : ℕ} (hsizes : script.SizesAllowed)
    (hne : script.commands ≠ []) (hloop : loop env n (State.start script cache) = .ok () s) :
    run env (State.start script cache) =
      (loop env (script.byteLength + 1) >>= fun _ => finish) s := by
  -- It does not matter how many steps more than enough the run has.
  have hfuel : loop env script.byteLength (State.start script cache) =
      loop env (n + (script.byteLength + 1)) (State.start script cache) := by
    apply loop_eq_loop
    · exact Nat.le_refl script.byteLength
    · show script.byteLength ≤ _
      omega
  rw [run_start, if_neg hne, Script.oversize?_eq_none.mpr hsizes]
  show (loop env script.byteLength >>= fun _ => finish) (State.start script cache) = _
  rw [bind_congr_apply hfuel, bind_congr_apply (loop_add _ _ _)]
  simp only [bind_assoc]
  rw [bind_of_eq_ok hloop]

/-- A command of the list that leaves too many items ends the run. -/
theorem run_of_stackTooBig {script : Script} {cache : SigCache} (hsizes : script.SizesAllowed)
    (h : Trace env (State.start script cache) past .list s) (hp : s.pending = c :: rest)
    (hrun : runCommand env c (fetched s rest) = .ok () t) (hsize : Limits.stackSize < t.items) :
    run env (State.start script cache) = .error (.error (.stackTooBig t.items)) t := by
  obtain ⟨n, hloop⟩ := h.reached
  have hne : script.commands ≠ [] := by
    intro hnil
    rw [loop_nil (s := State.start script cache) hnil] at hloop
    cases hloop
    rw [show (State.start script cache).pending = [] from hnil] at hp
    cases hp
  rw [run_of_loop hsizes hne hloop]
  refine bind_of_eq_error ?_
  rw [loop_succ hp, bind_of_eq_ok hrun]
  exact bind_of_eq_error (checkStackSize_of_lt hsize)

end Engine

/-! ## Whole runs -/

namespace Script

open Engine (Trace OnTrack)

variable {script : Script} {env : Env} {cache : SigCache}

/-- A run holds at most a thousand items before each command of the list, and at most one or two
more before the commands of a lock on revealed bytes. A command of the list that leaves more than a
thousand ends the run, with that error and in the state that it leaves. -/
theorem stackLimited (hsizes : script.SizesAllowed) (past : List Executed) (place : Place)
    (s : State) (h : Trace env (State.start script cache) past place s) :
    s.items ≤ place.capacity ∧
      (place = .list → ∀ c rest t, s.pending = c :: rest →
        Engine.runCommand env c (Engine.fetched s rest) = .ok () t → Limits.stackSize < t.items →
        script.execute env cache = ⟨.error (.error (.stackTooBig t.items)), t⟩) := by
  refine ⟨h.items_le (Nat.zero_le _), ?_⟩
  rintro rfl c rest t hp hrun hsize
  rw [execute, Engine.run_of_stackTooBig hsizes h hp hrun hsize]

/-- Some ones, and then other commands. -/
def afterOnes (n : ℕ) (cs : List Command) : Script :=
  .ofCommands (List.replicate n (.op Opcode.one) ++ cs)

theorem pushes_one : (Command.op Opcode.one).Pushes [1] :=
  ⟨by decide +kernel, fun _ => trivial⟩

theorem pushes_ones (n : ℕ) :
    List.Forall₂ Command.Pushes (List.replicate n (.op Opcode.one)) (List.replicate n [1]) := by
  induction n with
  | zero => exact .nil
  | succ n ih => exact .cons pushes_one ih

theorem byteLength_afterOnes (n : ℕ) (cs : List Command) :
    (afterOnes n cs).byteLength = n + Command.totalLength cs := by
  show Command.totalLength (List.replicate n (.op Opcode.one) ++ cs) = _
  rw [Command.totalLength_append]
  congr 1
  induction n with
  | zero => rfl
  | succ n ih =>
    rw [List.replicate_succ, Command.totalLength, ih, Command.byteLength]
    omega

/-- The ones lie on the stack. -/
theorem exists_afterOnes {n : ℕ} (hn : n ≤ Limits.stackSize) {cs : List Command}
    (hcs : Shields cs) (env : Env) :
    ∃ s, Engine.loop env n (State.start (afterOnes n cs) noCache) = .ok () s ∧
      OnTrack s cs (List.replicate n [1]) 0 := by
  have hstart : OnTrack (State.start (afterOnes n cs) noCache)
      (List.replicate n (.op Opcode.one) ++ cs) [] 0 :=
    ⟨⟨rfl, rfl, rfl, SigCache.sound_empty 0 fun _ => 0⟩, rfl, Nat.le_refl 0⟩
  obtain ⟨s, hloop, hs⟩ := hstart.exists_loop_pushed env (pushes_ones n) hcs (by
    rwa [List.length_nil, Nat.zero_add, List.length_replicate])
  rw [List.length_replicate] at hloop
  rw [List.reverse_replicate, List.append_nil] at hs
  exact ⟨s, hloop, hs⟩

/-- A thousand ones fill the stack, and one more is too many. -/
theorem stackLimited_ones : (afterOnes 1000 [.op Opcode.one]).SizesAllowed ∧
    ∃ past s t, Trace ⟨1, Flags.default⟩ (State.start (afterOnes 1000 [.op Opcode.one]) noCache)
        past .list s ∧ s.items ≤ Place.list.capacity ∧
      Engine.runCommand ⟨1, Flags.default⟩ (.op Opcode.one) (Engine.fetched s []) = .ok () t ∧
      t.items = 1001 ∧
      (afterOnes 1000 [.op Opcode.one]).execute ⟨1, Flags.default⟩ noCache =
        ⟨.error (.error (.stackTooBig t.items)), t⟩ := by
  have hsizes : (afterOnes 1000 [.op Opcode.one]).SizesAllowed := by
    apply sizesAllowed_of_le
    rw [byteLength_afterOnes]
    decide
  obtain ⟨s, hloop, hs⟩ := exists_afterOnes (Nat.le_refl 1000)
    (show Shields [.op Opcode.one] from shields_append_op [] (by decide)) ⟨1, Flags.default⟩
  obtain ⟨past, htrace⟩ := Trace.start.exists_of_loop hloop
  obtain ⟨t, hrun, ht⟩ := hs.exists_push ⟨1, Flags.default⟩ pushes_one
  have hitems : t.items = 1001 := by
    rw [State.items, ht.alt_eq, ht.stack_eq, List.length_cons, List.length_replicate]
    rfl
  have hlimited := stackLimited hsizes past .list s htrace
  exact ⟨hsizes, past, s, t, htrace, hlimited.1, hrun, hitems,
    hlimited.2 rfl _ _ _ hs.pending_eq hrun (by rw [hitems]; decide)⟩

/-- A script that does nothing. -/
def nop : Push :=
  ⟨[0x61], .direct, by decide⟩

/-- A thousand ones, and the script that does nothing before a lock to its hash. -/
def lockAfterOnes : Script :=
  afterOnes 1000 (.push nop :: (Lock.toScriptHash (Digest.hash160 nop.data)).commands)

theorem pushes_nop : (Command.push nop).Pushes nop.data :=
  ⟨rfl, fun _ => ⟨by decide, fun _ => by decide⟩⟩

theorem exists_lockAfterOnes (env : Env) :
    ∃ s, Engine.loop env 1000 (State.start lockAfterOnes noCache) = .ok () s ∧
      OnTrack s (.push nop :: (Lock.toScriptHash (Digest.hash160 nop.data)).commands)
        (List.replicate 1000 [1]) 0 :=
  exists_afterOnes (Nat.le_refl 1000) (shields_of_length (by exact Nat.le_refl 4)) env

/-- The pushed script is one item more than the limit, and the lock begins. -/
theorem exists_trace_lockAfterOnes (env : Env) :
    ∃ past s, Trace env (State.start lockAfterOnes noCache) past (.lock nop.data 3) s ∧
      s.items = 1001 := by
  obtain ⟨s, hloop, hs⟩ := exists_lockAfterOnes env
  obtain ⟨past, htrace⟩ := Trace.start.exists_of_loop hloop
  obtain ⟨t, hrun, ht⟩ := hs.exists_push env pushes_nop
  have hreveals : Engine.reveals (Engine.fetched s _) (.push nop) = true :=
    Bool.and_eq_true_iff.mpr ⟨hs.fetched.isExecuting,
      congrArg Option.isSome (Engine.scriptHashLock_toScriptHash _)⟩
  refine ⟨_, t, .push htrace hs.pending_eq hreveals hrun, ?_⟩
  rw [State.items, ht.alt_eq, ht.stack_eq, List.length_cons, List.length_replicate]
  rfl

/-- The run goes on to its end, where all the ones but the last are left over. -/
theorem execute_lockAfterOnes (env : Env) :
    (lockAfterOnes.execute env noCache).result = .error (.error (.uncleanStack 999)) := by
  obtain ⟨s, hloop, hs⟩ := exists_lockAfterOnes env
  have hdecode : Command.decode nop.data = .ok [.op 0x61] := by decide +kernel
  obtain ⟨s₁, hreveal, hs₁⟩ : ∃ s₁, Engine.runCommand env (.push nop) (Engine.fetched s _) =
      .ok () s₁ ∧ OnTrack s₁ [.op 0x61] (List.replicate 1000 [1]) 2 :=
    Engine.exists_runCommand_reveal hs pushes_nop rfl hdecode (by decide)
  obtain ⟨s₂, hnop, hs₂⟩ : ∃ s₂, Engine.runPlain env (.op 0x61) (Engine.fetched s₁ []) =
      .ok () s₂ ∧ OnTrack s₂ [] (List.replicate 1000 [1]) 3 :=
    hs₁.exists_op (by decide) (by decide) fun s₀ h₀ => ⟨s₀, rfl, h₀⟩
  have hitems : ∀ {s cs used}, OnTrack s cs (List.replicate 1000 [1]) used →
      s.items ≤ Limits.stackSize := by
    intro s cs used h
    rw [State.items, h.alt_eq, h.stack_eq, List.length_replicate]
    exact Nat.le_refl 1000
  have hend : Engine.loop env (1000 + 2) (State.start lockAfterOnes noCache) = .ok () s₂ := by
    rw [Engine.loop_add, Engine.bind_of_eq_ok hloop]
    exact (Engine.loop_cons hs.pending_eq 1).mpr ⟨s₁, hreveal, hitems hs₁,
      (Engine.loop_cons hs₁.pending_eq 0).mpr ⟨s₂, hnop, hitems hs₂, rfl⟩⟩
  have hsizes : lockAfterOnes.SizesAllowed := by
    apply sizesAllowed_of_le
    rw [lockAfterOnes, byteLength_afterOnes, Command.totalLength, Engine.totalLength_toScriptHash]
    decide
  have hne : lockAfterOnes.commands ≠ [] :=
    List.append_ne_nil_of_right_ne_nil _ (List.cons_ne_nil _ _)
  have hfinish := Engine.finish_of_unclean hs₂.conditions_eq
    (hs₂.stack_eq.trans (List.replicate_succ (n := 999))) (List.cons_ne_nil _ _)
  rw [List.length_replicate] at hfinish
  rw [execute, Engine.run_of_loop hsizes hne hend,
    Engine.bind_of_eq_ok (Engine.loop_nil hs₂.pending_eq _), hfinish]

/-- A lock goes on with more items than the limit, and the run does not end for it. -/
theorem not_stackLimitedThroughout :
    ¬∀ (script : Script) (env : Env) (cache : SigCache) (past : List Executed) (place : Place)
      (s : State), Trace env (State.start script cache) past place s →
        Limits.stackSize < s.items →
        (script.execute env cache).result = .error (.error (.stackTooBig s.items)) := by
  intro hlimited
  obtain ⟨past, s, htrace, hitems⟩ := exists_trace_lockAfterOnes ⟨1, Flags.default⟩
  have hstopped := hlimited _ _ _ past _ s htrace (by rw [hitems]; decide)
  rw [execute_lockAfterOnes] at hstopped
  cases hstopped

end Script

end SpendScript
