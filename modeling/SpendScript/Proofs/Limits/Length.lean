import SpendScript.Proofs.Engine.Context
import SpendScript.Proofs.Engine.Termination
import SpendScript.Proofs.Engine.Trace

/-!
# The length of runs

Scripts append commands to the run that runs them, but never more bytes than the push that carries
them has. So the commands that have been fetched, and the bytes of those to come, together never
grow beyond the bytes of the script, and this holds wherever a run stops.

Results:
* `Engine.finalState`: the state in which a computation returns or halts; `State.budget`: what has
  been fetched and what is still to come; `Engine.Extends`: by how much a computation adds to it.
* `Engine.loop_extends`: the loop adds nothing.
* `Engine.drain`: a lock run by a loop that can reveal scripts itself; `Engine.drain_eq_runNext`: it
  runs the three commands of the lock and never does.
* `Script.Ends`: how a run comes to its end; `Script.ends`: every run does.
-/

namespace SpendScript

open Engine (Trace)

/-- The commands that have been fetched and the bytes of those to come. -/
def State.budget (s : State) : ℕ :=
  s.position + Command.totalLength s.pending

/-- The bytes that are still to be appended. -/
def Place.promised : Place → ℕ
  | .list => 0
  | .lock data _ => data.length

namespace Engine

variable {α β : Type} {env : Env} {s₀ s t : State} {past : List Executed} {place : Place}
  {c : Command} {rest : List Command} {data : Bytes} {j k n : ℕ}

/-! ## Where computations stop -/

/-- The state in which a computation returns or halts. -/
def finalState : EStateM.Result Halt State α → State
  | .ok _ t => t
  | .error _ t => t

theorem finalState_mapState (f : State → State) (r : EStateM.Result Halt State α) :
    finalState (mapState f r) = f (finalState r) := by
  cases r <;> rfl

/-- Wherever the computation stops, it has added at most `k` to what is fetched and to come. -/
def Extends (k : ℕ) (m : Engine α) : Prop :=
  ∀ s, (finalState (m s)).budget ≤ s.budget + k

namespace Extends

theorem bind {m : Engine α} {f : α → Engine β} (hm : Extends j m) (hf : ∀ a, Extends k (f a)) :
    Extends (j + k) (m >>= f) := by
  intro s
  have hs := hm s
  cases h : m s with
  | ok a t =>
    have ht := hf a t
    rw [bind_of_eq_ok h]
    rw [h, finalState] at hs
    omega
  | error e t =>
    rw [bind_of_eq_error h]
    rw [h] at hs
    exact hs.trans (Nat.add_le_add_left (Nat.le_add_right j k) _)

/-- A sequence that begins with a computation that adds nothing. -/
theorem zero_bind {m : Engine α} {f : α → Engine β} (hm : Extends 0 m)
    (hf : ∀ a, Extends k (f a)) : Extends k (m >>= f) := by
  have h := hm.bind hf
  rwa [Nat.zero_add] at h

theorem mono {m : Engine α} (h : Extends j m) (hjk : j ≤ k) : Extends k m :=
  fun s => (h s).trans (Nat.add_le_add_left hjk _)

theorem get_bind {f : State → Engine α} (h : ∀ s, Extends k (f s)) :
    Extends k (MonadState.get >>= f) :=
  fun s => h s s

theorem pure (a : α) : Extends 0 (Pure.pure a : Engine α) :=
  fun _ => Nat.le_refl _

theorem fail (e : ScriptError) : Extends k (Engine.fail e : Engine α) :=
  fun _ => Nat.le_add_right _ _

/-- What does not look at the context, does not touch the commands either, also where it halts: with
the position and the commands set to what they are anyway, it would leave them so. -/
theorem of_ignores {m : Engine α}
    (h : ∀ g, KeepsConditions g → KeepsOperations g → Ignores g m) : Extends 0 m := by
  intro s
  let g : Context → Context := fun k => { k with position := s.position, pending := s.pending }
  have hsame : m s = mapState (State.mapContext g) (m s) := h g (fun _ _ => rfl) (fun _ _ => rfl) s
  rw [hsame, finalState_mapState]
  exact Nat.le_refl _

end Extends

/-! ## Commands -/

theorem runPlain_extends (env : Env) (c : Command) : Extends 0 (runPlain env c) :=
  .of_ignores fun _ hconditions hoperations => runPlain_ignores hconditions hoperations c

/-- To fetch a command spends all of its bytes but one. -/
theorem fetched_budget (hp : s.pending = c :: rest) :
    (fetched s rest).budget + c.byteLength = s.budget + 1 := by
  show s.position + 1 + Command.totalLength rest + c.byteLength = s.budget + 1
  rw [State.budget, hp, Command.totalLength]
  omega

theorem runNext_extends (n : ℕ) : Extends 0 (runNext env n) := by
  induction n with
  | zero => exact .pure ()
  | succ n ih =>
    intro s
    cases hp : s.pending with
    | nil =>
      rw [runNext, bind_of_eq_ok (next_nil hp)]
      exact Nat.le_refl _
    | cons c rest =>
      have hbudget := fetched_budget hp
      have hpos := c.one_le_byteLength
      have hrest := ((runPlain_extends env c).zero_bind fun _ => ih) (fetched s rest)
      rw [runNext_succ hp]
      omega

theorem appendCommands_extends (cs : List Command) :
    Extends (Command.totalLength cs) (appendCommands cs) := by
  intro s
  show s.position + Command.totalLength (s.pending ++ cs) ≤ s.budget + Command.totalLength cs
  rw [Command.totalLength_append, State.budget]
  omega

/-- A revealed script has as many bytes as the data that spell it. -/
theorem reveal_extends (data : Bytes) : Extends data.length (reveal env data) := by
  refine .zero_bind (.of_ignores fun _ _ _ => push_ignores data) fun _ => ?_
  refine .zero_bind (runNext_extends 3) fun _ => ?_
  refine .zero_bind (.of_ignores fun _ _ _ => pop_ignores) fun item => ?_
  refine .zero_bind (.of_ignores fun _ _ _ => .require _) fun _ => ?_
  cases hcs : Command.decode data with
  | error e => exact .fail e
  | ok cs =>
    rw [← Command.totalLength_of_decode hcs, lift_ok, pure_bind]
    exact .zero_bind (.of_ignores fun _ _ _ => emit_ignores _) fun _ => appendCommands_extends cs

/-- What a command appends is shorter than the command. -/
theorem runCommand_extends (env : Env) (c : Command) :
    Extends (c.byteLength - 1) (runCommand env c) := by
  cases c with
  | op code => exact runPlain_extends env (.op code)
  | push p =>
    have hdata : p.data.length ≤ (Command.push p).byteLength - 1 :=
      Nat.le_pred_of_lt p.length_data_lt
    refine .zero_bind (.of_ignores fun _ hconditions _ => admitPush_ignores hconditions p) ?_
    intro admitted
    split_ifs
    · refine .get_bind fun s => ?_
      split_ifs
      · exact (reveal_extends p.data).mono hdata
      · exact Extends.mono (.of_ignores fun _ _ _ => push_ignores p.data) (Nat.zero_le _)
    · exact Extends.mono (.pure ()) (Nat.zero_le _)

/-! ## Runs -/

theorem checkStackSize_extends : Extends 0 checkStackSize :=
  .of_ignores fun _ _ _ => checkStackSize_ignores

theorem loop_extends (n : ℕ) : Extends 0 (loop env n) := by
  induction n with
  | zero => exact .pure ()
  | succ n ih =>
    intro s
    cases hp : s.pending with
    | nil =>
      rw [loop_nil hp]
      exact Nat.le_refl _
    | cons c rest =>
      have hbudget := fetched_budget hp
      have hpos := c.one_le_byteLength
      have hrest := (runCommand_extends env c).bind
        (fun _ => checkStackSize_extends.zero_bind fun _ => ih) (fetched s rest)
      rw [loop_succ hp]
      omega

theorem finish_extends : Extends 0 finish := by
  refine .get_bind fun s => ?_
  split_ifs
  · exact .fail _
  · split
    · exact .fail _
    · refine .zero_bind (.of_ignores fun _ _ _ => setStack_ignores _) fun _ => ?_
      split_ifs
      · exact .pure ()
      · exact .fail _
    · exact .fail _

/-- A run adds nothing to the bytes of the script, wherever it ends. -/
theorem run_budget (script : Script) (cache : SigCache) :
    (finalState (run env (State.start script cache))).budget ≤ script.byteLength := by
  have hstart : (State.start script cache).budget = script.byteLength := Nat.zero_add _
  rw [← hstart, run_start]
  split_ifs
  · exact Nat.le_refl _
  · split
    · exact Nat.le_refl _
    · exact (loop_extends _).zero_bind (fun _ => finish_extends) _

/-! ## Points -/

theorem budget_of_runPlain (hp : s.pending = c :: rest)
    (hrun : runPlain env c (fetched s rest) = .ok () t) :
    t.budget + c.byteLength = s.budget + 1 := by
  have hframe := runPlain_frame c hrun
  rw [← fetched_budget hp, State.budget, hframe.pending_eq, hframe.position_eq]
  rfl

/-- At every point, what has been executed, what comes and what a lock may still append are within
the bytes of the script. -/
theorem Trace.budget_le (h : Trace env s₀ past place s) :
    s.budget + place.promised ≤ s₀.budget := by
  induction h with
  | start => exact Nat.le_refl _
  | @command _ _ _ c _ _ hp _ hrun _ ih =>
    have hbudget := budget_of_runPlain hp hrun
    have hpos := c.one_le_byteLength
    simp only [Place.promised] at ih ⊢
    omega
  | @push _ _ _ p _ _ hp _ hrun ih =>
    have hbudget := budget_of_runPlain hp hrun
    have hdata : p.data.length < (Command.push p).byteLength := p.length_data_lt
    simp only [Place.promised] at ih ⊢
    omega
  | @lock _ _ _ c _ _ _ _ hp hrun ih =>
    have hbudget := budget_of_runPlain hp hrun
    have hpos := c.one_le_byteLength
    simp only [Place.promised] at ih ⊢
    omega
  | reveal _ hsettle _ ih =>
    obtain ⟨item, stack, cs, -, -, hcs, rfl⟩ := settle_eq_ok.mp hsettle
    have hlength := Command.totalLength_of_decode hcs
    simp only [Place.promised, State.budget, revealed, Command.totalLength_append] at ih ⊢
    omega

/-! ## Locks -/

/-- Runs commands until none is left, at most `n` of them. If one of them revealed a script, `again`
would run the commands that are left then. -/
def drain (env : Env) (again : Engine Unit) : (n : ℕ) → Engine Unit
  | 0 => return
  | n + 1 => do
    match ← next with
    | none => return
    | some c =>
      runCommandBy env again c
      drain env again n

/-- Three commands are too few for one of them to reveal anything. -/
theorem drain_eq_runNext (again : Engine Unit) (hlen : s.pending.length ≤ 3) (n : ℕ) :
    drain env again n s = runNext env n s := by
  induction n generalizing s with
  | zero => rfl
  | succ n ih =>
    cases hp : s.pending with
    | nil =>
      rw [drain, runNext, bind_of_eq_ok (next_nil hp), bind_of_eq_ok (next_nil hp)]
    | cons c rest =>
      rw [hp, List.length_cons] at hlen
      have hlock : Script.scriptHashLock? (fetched s rest).pending = none :=
        Script.scriptHashLock?_eq_none (show rest.length ≠ 3 by omega)
      rw [drain, runNext, bind_of_eq_ok (next_cons hp), bind_of_eq_ok (next_cons hp)]
      refine (bind_congr_apply (runCommandBy_eq_runPlain again hlock c)).trans ?_
      refine bind_congr_of_ok fun _ t hrun => ih ?_
      rw [(runPlain_frame c hrun).pending_eq]
      show rest.length ≤ 3
      omega

/-- More steps than there are commands make no difference. -/
theorem runNext_eq_of_le (hlen : s.pending.length ≤ k) (hk : k ≤ n) :
    runNext env n s = runNext env k s := by
  obtain ⟨m, rfl⟩ := Nat.exists_eq_add_of_le hk
  rw [runNext_add]
  cases hrun : runNext env k s with
  | error e t => exact bind_of_eq_error hrun
  | ok _ t =>
    have hpending : t.pending = [] := by
      rw [runNext_pending k hrun]
      exact List.drop_eq_nil_iff.mpr hlen
    rw [bind_of_eq_ok hrun]
    exact runNext_nil hpending m

/-- A loop that goes on for as long as there are commands runs the three commands of a lock. -/
theorem drain_lock (again : Engine Unit) (hlen : s.pending.length = 3) (hn : 3 ≤ n) :
    drain env again n s = runNext env 3 s := by
  rw [drain_eq_runNext again (Nat.le_of_eq hlen)]
  exact runNext_eq_of_le (Nat.le_of_eq hlen) hn

/-- It does not matter that the loop could reveal scripts itself. -/
theorem runCommandBy_drain (again : Engine Unit) (hn : 3 ≤ n) (c : Command) (s : State) :
    runCommandBy env (drain env again n) c s = runCommand env c s := by
  rw [runCommand_eq_runCommandBy]
  cases c with
  | op code => rfl
  | push p =>
    simp only [runCommandBy]
    refine bind_congr_of_ok fun admitted u _ => ?_
    split_ifs
    · rw [get_bind, get_bind]
      split_ifs with hlock
      · have hlen := Script.length_of_scriptHashLock hlock
        unfold revealBy
        rw [bind_of_eq_ok (push_apply p.data u), bind_of_eq_ok (push_apply p.data u)]
        exact bind_congr_apply (drain_lock again hlen hn)
      · rfl
    · rfl

/-- A lock that is run to its end runs all of its three commands. -/
theorem runNext_lock (hlock : (Script.scriptHashLock? s.pending).isSome = true)
    (hrun : runNext env 3 s = .ok () t) : t.pending = [] ∧ t.position = s.position + 3 := by
  have hlen := Script.length_of_scriptHashLock hlock
  have hpending : t.pending = [] := by
    rw [runNext_pending 3 hrun]
    exact List.drop_eq_nil_iff.mpr (Nat.le_of_eq hlen)
  have hposition := runNext_position 3 hrun
  rw [hpending, hlen] at hposition
  exact ⟨hpending, hposition⟩

theorem totalLength_lt_of_runPlain (hp : s.pending = c :: rest)
    (hrun : runPlain env c (fetched s rest) = .ok () t) :
    Command.totalLength t.pending < Command.totalLength s.pending := by
  rw [(runPlain_frame c hrun).pending_eq, hp]
  exact Nat.lt_add_of_pos_left c.one_le_byteLength

theorem totalLength_lt_of_runCommand (hp : s.pending = c :: rest)
    (hrun : runCommand env c (fetched s rest) = .ok () t) :
    Command.totalLength t.pending < Command.totalLength s.pending := by
  rw [hp]
  exact runCommand_totalLength hrun

end Engine

/-! ## Whole runs -/

namespace Script

variable {script : Script} {env : Env} {cache : SigCache}

/-- How the run of a script comes to its end, although commands append others to it. -/
structure Ends (script : Script) (env : Env) (cache : SigCache) : Prop where
  /-- A run fetches no more commands than the script has bytes, also one that fails. -/
  position_le : (script.execute env cache).state.position ≤ script.byteLength
  /-- With more steps than that, the loop would do the same. -/
  loop_eq : ∀ n, script.byteLength ≤ n → Engine.loop env n (State.start script cache) =
    Engine.loop env script.byteLength (State.start script cache)
  /-- The loop does not end while there are commands to come. -/
  pending_eq_nil : ∀ s, Engine.loop env script.byteLength (State.start script cache) = .ok () s →
    s.pending = []
  /-- The position counts the executed commands of the list, of locks and of revealed scripts. With
  the bytes of those to come, they are within the bytes of the script. -/
  executed_le : ∀ past place s, Trace env (State.start script cache) past place s →
    s.position = past.length ∧
      past.length + Command.totalLength s.pending + place.promised ≤ script.byteLength
  /-- Each command of the list leaves fewer bytes to be run, even if it reveals a script. -/
  runCommand_lt : ∀ s t c rest, s.pending = c :: rest →
    Engine.runCommand env c (Engine.fetched s rest) = .ok () t →
    Command.totalLength t.pending < Command.totalLength s.pending
  /-- Each command of a lock leaves fewer bytes to be run. -/
  runPlain_lt : ∀ s t c rest, s.pending = c :: rest →
    Engine.runPlain env c (Engine.fetched s rest) = .ok () t →
    Command.totalLength t.pending < Command.totalLength s.pending
  /-- A revealed script has fewer bytes than the push that carries it. -/
  revealed_lt : ∀ (p : Push) cs, Command.decode p.data = .ok cs →
    Command.totalLength cs < (Command.push p).byteLength
  /-- A lock run by a loop for the commands that are left is run the same, whatever the loop would do
  if one of them revealed a script: none does. -/
  drain_eq : ∀ again n, 3 ≤ n → ∀ c s,
    Engine.runCommandBy env (Engine.drain env again n) c s = Engine.runCommand env c s
  /-- A lock that does not stop at an error runs three commands and leaves none. -/
  lock_runs : ∀ s t, (scriptHashLock? s.pending).isSome = true →
    Engine.runNext env 3 s = .ok () t → t.pending = [] ∧ t.position = s.position + 3

theorem state_execute (script : Script) (env : Env) (cache : SigCache) :
    (script.execute env cache).state =
      Engine.finalState (Engine.run env (State.start script cache)) := by
  unfold execute
  cases Engine.run env (State.start script cache) <;> rfl

/-- Every run comes to its end, after no more commands than the script has bytes, those of all
revealed scripts included. -/
theorem ends (script : Script) (env : Env) (cache : SigCache) : script.Ends env cache := by
  constructor
  · rw [state_execute]
    exact (Nat.le_add_right _ _).trans (Engine.run_budget script cache)
  · intro n hn
    exact Engine.loop_eq_loop hn (Nat.le_refl _)
  · intro s hloop
    exact Engine.loop_pending_eq_nil (s := State.start script cache) (Nat.le_refl _) hloop
  · intro past place s h
    obtain ⟨_, hlayout⟩ := h.layout rfl
    have hbudget := h.budget_le
    rw [State.budget, hlayout.position_eq] at hbudget
    exact ⟨hlayout.position_eq, hbudget.trans (Nat.le_of_eq (Nat.zero_add _))⟩
  · intro s t c rest hp hrun
    exact Engine.totalLength_lt_of_runCommand hp hrun
  · intro s t c rest hp hrun
    exact Engine.totalLength_lt_of_runPlain hp hrun
  · intro p cs hcs
    rw [Command.totalLength_of_decode hcs]
    exact p.length_data_lt
  · intro again n hn c s
    exact Engine.runCommandBy_drain again hn c s
  · intro s t hlock hrun
    exact Engine.runNext_lock hlock hrun

end Script

end SpendScript
