import SpendScript.Proofs.Machine.Operations
import SpendScript.Proofs.Machine.Script

/-!
# Runs of the machine

The machine fetches commands by its counter. A push before a pay-to-script-hash lock runs all commands
that are left, the lock, by the same function that runs the push.

* `Machine.runCommand`, `Machine.drain`: one command, and the commands that are left when it reveals a
  script.
* `Machine.loop`, `Machine.run`: all commands, and a whole run.

Results:
* `Machine.drain_matches`: a lock reveals nothing itself, so the recursion is one level deep.
* `Machine.runCommand_matches`, `Machine.loop_matches`: every command and every run do what those of
  the engine do.
-/

namespace SpendScript.Machine

variable {env : Env} {σ : State}

/-! ## Fetching -/

/-- The next command. The count of operations starts again with each part. -/
def next : Machine (Option Command) := do
  let σ ← get
  match σ.commands[σ.counter]? with
  | none => return none
  | some c =>
    let counter ← exec (Checked.addWord σ.counter 1)
    set { σ with
      counter := counter
      operations := if σ.counter ∈ σ.segmentStarts then 0 else σ.operations }
    return some c

/-- Whether the commands to come are a pay-to-script-hash lock. -/
def lockFollows : Machine Bool := do
  let σ ← get
  let rest ← exec (Checked.slice σ.commands σ.counter σ.commands.length)
  return (Script.scriptHashLock? rest).isSome

theorem next_none (h : σ.view.pending = []) : next σ = .ok none σ := by
  have hend : σ.commands[σ.counter]? = none :=
    List.getElem?_eq_none (List.drop_eq_nil_iff.mp h)
  unfold next
  rw [get_bind, hend]
  rfl

/-- Fetching leaves a valid state, with the commands after the fetched one. -/
theorem exists_next {c : Command} {rest : List Command} (hσ : σ.Valid)
    (h : σ.view.pending = c :: rest) :
    ∃ τ : State, next σ = .ok (some c) τ ∧ τ.Valid ∧ τ.view = Engine.fetched σ.view rest := by
  have hdrop : σ.commands.drop σ.counter = c :: rest := h
  have hc : σ.commands[σ.counter]? = some c := by
    rw [← List.head?_drop, hdrop]
    rfl
  have hrest : σ.commands.drop (σ.counter + 1) = rest := by
    rw [← List.tail_drop, hdrop]
    rfl
  have hlt : σ.counter < σ.commands.length := (List.getElem?_eq_some_iff.mp hc).1
  have hbytes := hσ.bytes_lt
  rw [hdrop, Command.totalLength] at hbytes
  have hpos := c.one_le_byteLength
  refine ⟨{ σ with
    counter := σ.counter + 1
    operations := if σ.counter ∈ σ.segmentStarts then 0 else σ.operations }, ?_,
    ⟨?_, ?_, hlt, ?_, hσ.stack_small, hσ.alt_small⟩, ?_⟩
  · unfold next
    rw [get_bind, hc]
    show (exec (Checked.addWord σ.counter 1) >>= _ : Machine (Option Command)) σ = _
    rw [Checked.addWord_eq_ok (by omega)]
    rfl
  · show 0 ≤ if σ.counter ∈ σ.segmentStarts then 0 else σ.operations
    split_ifs
    · exact Int.le_refl 0
    · exact hσ.operations_nonneg
  · show (if σ.counter ∈ σ.segmentStarts then 0 else σ.operations) ≤ Limits.operations
    split_ifs
    · exact Int.natCast_nonneg _
    · exact hσ.operations_le
  · show σ.counter + 1 + Command.totalLength (σ.commands.drop (σ.counter + 1)) < Number.wordSize
    rw [hrest]
    omega
  · have hcount : (if σ.counter ∈ σ.segmentStarts then 0 else σ.operations).toNat =
        if σ.counter ∈ σ.segmentStarts then 0 else σ.operations.toNat := by
      split_ifs <;> rfl
    unfold State.view Engine.fetched
    simp only [hrest, hcount]

theorem lockFollows_apply (hσ : σ.Valid) :
    lockFollows σ = .ok (Script.scriptHashLock? σ.view.pending).isSome σ := by
  unfold lockFollows
  rw [get_bind, Checked.slice_eq_ok hσ.counter_le (Nat.le_refl _), List.take_length]
  rfl

/-! ## One command -/

/-- Whether a push is to be executed. -/
def admitPush (env : Env) (p : Push) : Machine Bool := do
  if Limits.elementSize < p.data.length then refuse (.elementTooBig p.data.length)
  else if !(← get).isExecuting then return false
  else if env.flags.minimalData && !p.isMinimal then
    refuse (.pushNotMinimal p.data p.encoding)
  else return true

/-- The state with more commands, as a part of their own. -/
def State.extend (σ : State) (cs : List Command) : State :=
  { σ with
    segmentStarts := σ.segmentStarts ++ [σ.commands.length]
    commands := σ.commands ++ cs }

/-- Runs the commands that are left by `drain` and then appends the script that the bytes spell. -/
def reveal (drain : Machine Unit) (data : Bytes) : Machine Unit := do
  push data
  drain
  require (← popTruth)
  let cs ← eval (decode (data.length + 1) data)
  emit (.runningRedeemScript cs)
  modify fun σ => σ.extend cs

/-- Runs a command. If it reveals a script, `drain` runs the commands that are left. -/
def runCommand (env : Env) (drain : Machine Unit) : Command → Machine Unit
  | .op code => runOpcode env code
  | .push p => do
    if ← admitPush env p then
      if ← lockFollows then reveal drain p.data
      else push p.data

/-- Runs commands until none is left, fewer than `n` of them. -/
def drain (env : Env) : (n : ℕ) → Machine Unit
  | 0 => throw (.panic .unfinished)
  | n + 1 => do
    match ← next with
    | none => return
    | some c =>
      runCommand env (drain env n) c
      drain env n

theorem admitPush_simulates (p : Push) :
    Simulates (fun admitted => admitted = true → Small p.data) (admitPush env p)
      (Engine.admitPush env p) := by
  unfold admitPush Engine.admitPush
  by_cases hsize : Limits.elementSize < p.data.length
  · rw [if_pos hsize, if_pos hsize]
    exact .refuse _
  · rw [if_neg hsize, if_neg hsize]
    refine .get_bind fun σ hσ => ?_
    rw [State.isExecuting_view]
    exact Simulates.ite (.pure (by simp)) (.ite (.refuse _) (.pure fun _ => Nat.not_lt.mp hsize)) hσ

/-- Before anything but a pay-to-script-hash lock, a command reveals nothing. -/
theorem runCommand_matches_runPlain (d : Machine Unit) (c : Command) (hσ : σ.Valid)
    (hroom : σ.view.items < 0x8000000000000000)
    (hlock : Script.scriptHashLock? σ.view.pending = none) :
    Matches Any (runCommand env d c σ) (Engine.runPlain env c σ.view) := by
  cases c with
  | op code => exact runOpcode_matches code hσ hroom
  | push p =>
    refine (admitPush_simulates p hσ).bind fun admitted τ hadmit hsmall hτ => ?_
    cases admitted with
    | false => exact .ok trivial hτ
    | true =>
      have hview := (Engine.admitPush_eq_ok.mp hadmit).1
      show Matches Any ((lockFollows >>= _ : Machine Unit) τ) (Engine.push p.data τ.view)
      rw [bind_of_eq_ok (lockFollows_apply hτ), hview, hlock, ← hview]
      exact push_simulates (hsmall rfl) hτ

/-- The commands of a lock: too few are left for one of them to reveal anything. -/
theorem drain_matches {k n : ℕ} (hk : k ≤ 3) (hn : k < n) (hσ : σ.Valid)
    (hpending : σ.view.pending.length ≤ k) (hroom : σ.view.items + 3 * k < 0x8000000000000000) :
    Matches Any (drain env n σ) (Engine.runNext env k σ.view) := by
  induction k generalizing n σ with
  | zero =>
    obtain ⟨n, rfl⟩ : ∃ m, n = m + 1 := ⟨n - 1, by omega⟩
    have hnil : σ.view.pending = [] := List.length_eq_zero_iff.mp (Nat.le_zero.mp hpending)
    rw [drain, bind_of_eq_ok (next_none hnil)]
    exact .ok trivial hσ
  | succ k ih =>
    obtain ⟨n, rfl⟩ : ∃ m, n = m + 1 := ⟨n - 1, by omega⟩
    cases hp : σ.view.pending with
    | nil =>
      unfold Engine.runNext
      rw [Engine.bind_of_eq_ok (Engine.next_nil hp), drain, bind_of_eq_ok (next_none hp)]
      exact .ok trivial hσ
    | cons c rest =>
      rw [hp, List.length_cons] at hpending
      obtain ⟨τ, hnext, hτ, hview⟩ := exists_next hσ hp
      have hrest : τ.view.pending = rest := by rw [hview]; rfl
      have hitems : τ.view.items = σ.view.items := by rw [hview]; rfl
      have hlock : Script.scriptHashLock? τ.view.pending = none :=
        Script.scriptHashLock?_eq_none (by rw [hrest]; omega)
      unfold Engine.runNext
      rw [Engine.bind_of_eq_ok (Engine.next_cons hp), ← hview, drain, bind_of_eq_ok hnext]
      refine (runCommand_matches_runPlain _ c hτ (by omega) hlock).bind fun _ υ hrun _ hυ => ?_
      have hframe := Engine.runPlain_frame c hrun
      have hgrown := Engine.runPlain_grows c hrun
      unfold Engine.GrownBy at hgrown
      refine ih (by omega) (by omega) hυ ?_ (by omega)
      rw [hframe.pending_eq, hrest]
      omega

/-- The revealed commands come after those that are left. -/
theorem append_matches (cs : List Command) (hσ : σ.Valid)
    (hbytes : σ.counter + Command.totalLength (σ.view.pending ++ cs) < Number.wordSize) :
    Matches Any ((modify fun σ => σ.extend cs : Machine Unit) σ)
      (Engine.appendCommands cs σ.view) := by
  have hdrop : (σ.commands ++ cs).drop σ.counter = σ.view.pending ++ cs :=
    List.drop_append_of_le_length hσ.counter_le
  have hend : σ.counter + (σ.commands.drop σ.counter).length = σ.commands.length := by
    have := hσ.counter_le
    rw [List.length_drop]
    omega
  have happend : Engine.appendCommands cs σ.view = .ok () (σ.extend cs).view := by
    unfold State.view at hdrop
    unfold State.extend State.view
    simp only [hdrop, ← hend]
    rfl
  rw [happend]
  refine .ok trivial ⟨hσ.operations_nonneg, hσ.operations_le, ?_, ?_, hσ.stack_small, hσ.alt_small⟩
  · show σ.counter ≤ (σ.commands ++ cs).length
    rw [List.length_append]
    exact Nat.le_add_right_of_le hσ.counter_le
  · show σ.counter + Command.totalLength ((σ.commands ++ cs).drop σ.counter) < Number.wordSize
    rwa [hdrop]

/-- A revealed script has as many bytes as the push that reveals it. -/
theorem reveal_matches {data : Bytes} {n : ℕ} (hn : 3 < n) (hσ : σ.Valid) (hdata : Small data)
    (hroom : σ.view.items + 10 < 0x8000000000000000) (hlock : σ.view.pending.length = 3)
    (hbytes : σ.counter + 3 + data.length < Number.wordSize) :
    Matches Any (reveal (drain env n) data σ) (Engine.reveal env data σ.view) := by
  have hreveal : Engine.reveal env data = (do
      Engine.push data
      Engine.runNext env 3
      let holds ← Engine.pop >>= fun item => pure (ScriptNumber.truth item)
      Engine.require holds
      let cs ← Engine.lift (Command.decode data)
      Engine.emit (.runningRedeemScript cs)
      Engine.appendCommands cs) := by
    simp only [bind_assoc, pure_bind]
    rfl
  rw [hreveal]
  refine (push_simulates hdata hσ).bind fun _ τ hpush _ hτ => ?_
  have hframe := (Engine.push_dataFrame data hpush).toFrame
  have hgrown := Engine.push_grows data hpush
  unfold Engine.GrownBy at hgrown
  refine (drain_matches (Nat.le_refl 3) hn hτ (by rw [hframe.pending_eq, hlock]) (by omega)).bind
    fun _ υ hrun _ hυ => ?_
  have hpending : υ.view.pending = [] := by
    rw [Engine.runNext_pending 3 hrun, hframe.pending_eq]
    exact List.drop_eq_nil_of_le (Nat.le_of_eq hlock)
  have hposition : υ.view.position = σ.counter + 3 := by
    have h := Engine.runNext_position 3 hrun
    rw [hpending, hframe.pending_eq, hframe.position_eq, hlock] at h
    exact h
  -- The rest changes neither the counter nor the commands until it appends the script.
  refine (popTruth_simulates hυ).bind fun holds φ hpop _ hφ => ?_
  have hpopped : Engine.DataFrame υ.view φ.view :=
    Engine.Keeps.bind Engine.pop_dataFrame (fun _ => .pure _) hpop
  refine (require_simulates holds hφ).bind fun _ χ hrequire _ hχ => ?_
  have hrequired := (Engine.require_eq_ok.mp hrequire).2
  have hdecode : Simulates (fun cs => Command.totalLength cs = data.length)
      (eval (decode (data.length + 1) data)) (Engine.lift (Command.decode data)) :=
    .eval (decode_eq (Nat.lt_succ_self _)) fun _ h => Command.totalLength_of_decode h
  refine (hdecode hχ).bind fun cs ψ hlift hcs hψ => ?_
  have hlifted := (Engine.lift_eq_ok.mp hlift).2
  refine (emit_simulates _ hψ).bind fun _ ω hemit _ hω => append_matches cs hω ?_
  have hemitted := Engine.emit_dataFrame _ hemit
  have hcounter : ω.view.position = σ.counter + 3 := by
    rw [hemitted.position_eq, hlifted, hrequired, hpopped.position_eq, hposition]
  have hnone : ω.view.pending = [] := by
    rw [hemitted.pending_eq, hlifted, hrequired, hpopped.pending_eq, hpending]
  rw [hnone, List.nil_append, hcs, show ω.counter = σ.counter + 3 from hcounter]
  exact hbytes

/-- A command, after it has been fetched. -/
theorem runCommand_matches {n : ℕ} (c : Command) (hσ : σ.Valid)
    (hroom : σ.view.items + 10 < 0x8000000000000000)
    (hn : c.byteLength + Command.totalLength σ.view.pending ≤ n)
    (hbytes : σ.counter + (c.byteLength + Command.totalLength σ.view.pending) ≤ Number.wordSize) :
    Matches Any (runCommand env (drain env n) c σ) (Engine.runCommand env c σ.view) := by
  cases hlock : Script.scriptHashLock? σ.view.pending with
  | none =>
    rw [Engine.runCommand_eq_runPlain hlock]
    exact runCommand_matches_runPlain _ c hσ (by omega) hlock
  | some hash =>
    have hthree : σ.view.pending.length = 3 := by
      by_contra h
      rw [Script.scriptHashLock?_eq_none h] at hlock
      cases hlock
    have hrest := Command.length_le_totalLength σ.view.pending
    cases c with
    | op code => exact runOpcode_matches code hσ (by omega)
    | push p =>
      have hheader : p.data.length < p.byteLength := p.length_data_lt
      have hlength : (Command.push p).byteLength = p.byteLength := rfl
      refine (admitPush_simulates p hσ).bind fun admitted τ hadmit hsmall hτ => ?_
      cases admitted with
      | false => exact .ok trivial hτ
      | true =>
        have hview := (Engine.admitPush_eq_ok.mp hadmit).1
        have hcounter : τ.counter = σ.counter := congrArg SpendScript.State.position hview
        show Matches Any ((lockFollows >>= _ : Machine Unit) τ)
          ((if (Script.scriptHashLock? τ.view.pending).isSome then _ else _ : Engine Unit) τ.view)
        rw [bind_of_eq_ok (lockFollows_apply hτ), hview, hlock, ← hview]
        refine reveal_matches (by omega) hτ (hsmall rfl) ?_ ?_ ?_
        · rwa [hview]
        · rw [hview, hthree]
        · omega

/-! ## All commands -/

/-- Fails if the two stacks together hold too many items. -/
def checkStackSize : Machine Unit := do
  let σ ← get
  let size ← exec (Checked.addWord σ.alt.length σ.stack.length)
  if Limits.stackSize < size then refuse (.stackTooBig size)

/-- Runs commands until none is left, fewer than `n` of them. -/
def loop (env : Env) : (n : ℕ) → Machine Unit
  | 0 => throw (.panic .unfinished)
  | n + 1 => do
    match ← next with
    | none => return
    | some c =>
      runCommand env (drain env n) c
      checkStackSize
      loop env n

/-- A finished run has closed all conditionals and leaves exactly one item, which is true. -/
def finish : Machine Unit := do
  let σ ← get
  if !σ.conditions.isEmpty then refuse .unbalancedConditional
  else if 1 < σ.stack.length then
    let extra ← exec (Checked.sub σ.stack.length 1)
    refuse (.uncleanStack extra)
  else if σ.stack.isEmpty then refuse .emptyStack
  else
    if ← popTruth then return else refuse .evalFalse

/-- Runs all commands. -/
def run (env : Env) : Machine Unit := do
  let σ ← get
  if σ.commands.isEmpty then refuse .evalFalse
  else
    eval (checkSizes σ.commands (windows (bounds σ.segmentStarts σ.commands.length)))
    loop env (Command.totalLength σ.commands + 1)
    finish

theorem checkStackSize_matches (hσ : σ.Valid) (hroom : σ.view.items < 0x8000000000000000) :
    Matches Any (checkStackSize σ) (Engine.checkStackSize σ.view) := by
  have hlen : σ.view.stack.length = σ.stack.length := List.length_reverse
  have hitems : σ.alt.length + σ.stack.length < 0x8000000000000000 := hlen ▸ hroom
  have hsum : Checked.addWord σ.alt.length σ.stack.length = .ok (σ.alt.length + σ.stack.length) :=
    Checked.addWord_eq_ok (Nat.lt_trans hitems (by decide))
  unfold checkStackSize Engine.checkStackSize
  rw [get_bind, Engine.get_bind, hsum, hlen]
  exact Simulates.ite (.refuse _) (.pure trivial) hσ

/-- With more steps than there are bytes to be run, a run goes to its end. -/
theorem loop_matches {n m : ℕ} (hn : Command.totalLength σ.view.pending < n)
    (hm : Command.totalLength σ.view.pending ≤ m) (hσ : σ.Valid)
    (hitems : σ.view.items ≤ Limits.stackSize) :
    Matches Any (loop env n σ) (Engine.loop env m σ.view) := by
  induction n generalizing m σ with
  | zero => exact absurd hn (Nat.not_lt_zero _)
  | succ n ih =>
    cases hp : σ.view.pending with
    | nil =>
      rw [Engine.loop_nil hp, loop, bind_of_eq_ok (next_none hp)]
      exact .ok trivial hσ
    | cons c rest =>
      rw [hp, Command.totalLength] at hn hm
      have hpos := c.one_le_byteLength
      obtain ⟨m, rfl⟩ : ∃ k, m = k + 1 := ⟨m - 1, by omega⟩
      obtain ⟨τ, hnext, hτ, hview⟩ := exists_next hσ hp
      have hrest : τ.view.pending = rest := by rw [hview]; rfl
      have hcounter : τ.counter = σ.counter + 1 := congrArg SpendScript.State.position hview
      have hroom : τ.view.items ≤ Limits.stackSize := by rw [hview]; exact hitems
      have hbytes := hσ.bytes_lt
      rw [show σ.commands.drop σ.counter = c :: rest from hp, Command.totalLength] at hbytes
      unfold Limits.stackSize at hroom
      rw [Engine.loop_succ hp, ← hview, loop, bind_of_eq_ok hnext]
      refine (runCommand_matches c hτ (by omega) ?_ ?_).bind fun _ υ hrun _ hυ => ?_
      · rw [hrest]
        omega
      · rw [hrest, hcounter]
        omega
      · have hgrown := Engine.runCommand_grows c hrun
        have hless := Engine.runCommand_totalLength hrun
        unfold Engine.GrownBy at hgrown
        rw [hrest] at hless
        refine (checkStackSize_matches hυ (by omega)).bind fun _ φ hsize _ hφ => ?_
        obtain ⟨hsame, hle⟩ := Engine.checkStackSize_eq_ok.mp hsize
        refine ih ?_ ?_ hφ ?_
        · rw [hsame]
          omega
        · rw [hsame]
          omega
        · rw [hsame]
          exact hle

theorem finish_simulates : Simulates Any finish Engine.finish := by
  intro σ hσ
  obtain ⟨s, hs⟩ := exists_stack_eq_reverse σ
  unfold finish Engine.finish
  rw [get_bind, Engine.get_bind, view_stack hs]
  show Matches Any _ ((if !σ.conditions.isEmpty then _ else _ : Engine Unit) σ.view)
  by_cases hopen : (!σ.conditions.isEmpty) = true
  · rw [if_pos hopen, if_pos hopen]
    exact .error _ σ
  rw [if_neg hopen, if_neg hopen]
  match s with
  | [] =>
    rw [hs]
    exact .error _ σ
  | [item] =>
    have hpop : Engine.pop σ.view = .ok item { σ.view with stack := [] } := by
      unfold Engine.pop
      rw [Engine.get_bind, view_stack hs]
      rfl
    have h : Simulates Any
        (popTruth >>= fun holds => if holds then pure () else refuse .evalFalse)
        (Engine.pop >>= fun item =>
          if ScriptNumber.truth item then pure () else Engine.fail .evalFalse) :=
      popTruth_bind_simulates fun holds => .ite (.pure trivial) (.refuse _)
    have hfinish := h hσ
    rw [Engine.bind_of_eq_ok hpop] at hfinish
    rw [hs]
    exact hfinish
  | a :: b :: rest =>
    have hlen : σ.stack.length = rest.length + 2 := by rw [hs]; simp
    rw [if_pos (by omega), Checked.sub_eq_ok (by omega), hlen]
    exact .error _ σ

/-! ## Whole runs -/

/-- The state before the first command of a script. -/
def State.start (script : Script) (cache : SigCache) : State :=
  ⟨[], [], [], 0, 0, script.commands, script.segmentStarts, cache, []⟩

theorem State.valid_start {script : Script} (hlen : script.byteLength < Number.wordSize)
    (cache : SigCache) : (start script cache).Valid := by
  refine ⟨Int.le_refl 0, Int.natCast_nonneg _, Nat.zero_le _, ?_, ?_, ?_⟩
  · show 0 + Command.totalLength script.commands < Number.wordSize
    rwa [Nat.zero_add]
  · exact fun item h => absurd h List.not_mem_nil
  · exact fun item h => absurd h List.not_mem_nil

/-- A whole run, of a script whose bytes can be counted in a word. -/
theorem run_matches {script : Script} (hscript : script.Segmented)
    (hlen : script.byteLength < Number.wordSize) (cache : SigCache) :
    Matches Any (run env (State.start script cache))
      (Engine.run env (State.start script cache).view) := by
  have hvalid := State.valid_start hlen cache
  have hview : (State.start script cache).view = SpendScript.State.start script cache := rfl
  have hempty : script.commands.isEmpty = true ↔ script.commands = [] := List.isEmpty_iff
  rw [hview, Engine.run_start, ← hview]
  unfold run
  rw [get_bind]
  show Matches Any ((if script.commands.isEmpty then _ else _ : Machine Unit) _) _
  by_cases hnone : script.commands = []
  · rw [if_pos hnone, if_pos (hempty.mpr hnone)]
    exact .error _ _
  · rw [if_neg hnone, if_neg (mt hempty.mp hnone)]
    show Matches Any ((eval (checkSizes script.commands
      (windows (bounds script.segmentStarts script.commands.length))) >>= _ : Machine Unit) _) _
    rw [checkSizes_eq hscript hlen]
    cases script.oversize? with
    | some size => exact .error _ _
    | none =>
      have hloop : Matches Any (loop env (Command.totalLength script.commands + 1)
          (State.start script cache)) (Engine.loop env script.byteLength
            (State.start script cache).view) :=
        loop_matches (Nat.lt_succ_self _) (Nat.le_refl _) hvalid (Nat.zero_le _)
      exact hloop.bind fun _ _ _ _ hσ => finish_simulates hσ

end SpendScript.Machine
