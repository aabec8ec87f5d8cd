import SpendScript.Proofs.Engine.Frame
import SpendScript.Proofs.Script.Parts

/-!
# Runs of commands

A run of several commands is a run of the first ones and then of the others. Where nothing is
revealed, it ends with the commands that it has not fetched.

Results:
* `Engine.runCommandBy`: a command with a given way to run a lock;
  `Engine.runCommandBy_eq_runPlain`: it plays no role where nothing is revealed.
* `Engine.loop_add`, `Engine.loop_cons`: runs in two parts and by single commands.
* `Script.Shields`, `Script.RevealsNothingBefore`: no push comes before a pay-to-script-hash lock.
* `Engine.loop_passed`: what a run that reveals nothing keeps.
* `Engine.run_start`: a whole run; `Script.execute_eq_ok_iff`: when it succeeds.
-/

namespace SpendScript

/-- Whether a command works on the open conditionals. -/
def Command.isConditional : Command → Bool
  | .op code => (Operation.ofOpcode code).isConditional
  | .push _ => false

namespace Engine

variable {env : Env} {s s' : State} {c : Command} {rest : List Command}

/-! ## Fetching -/

/-- The state after the first command has been fetched and `rest` is left. -/
def fetched (s : State) (rest : List Command) : State :=
  { s with
    pending := rest
    position := s.position + 1
    operations := if s.position ∈ s.segmentStarts then 0 else s.operations }

theorem next_cons (h : s.pending = c :: rest) : next s = .ok (some c) (fetched s rest) := by
  unfold next
  rw [get_bind, h]
  rfl

theorem next_nil (h : s.pending = []) : next s = .ok none s := by
  unfold next
  rw [get_bind, h]
  rfl

/-! ## Pushes -/

theorem admitPush_eq_ok {p : Push} {admitted : Bool} :
    admitPush env p s = .ok admitted s' ↔ s' = s ∧ p.data.length ≤ Limits.elementSize ∧
      (admitted = true ↔ s.isExecuting = true) ∧
      (s.isExecuting = true → env.flags.minimalData = true → p.isMinimal = true) := by
  unfold admitPush
  by_cases hsize : Limits.elementSize < p.data.length
  · rw [if_pos hsize, fail_apply]
    constructor
    · intro h
      cases h
    · rintro ⟨-, hle, -⟩
      omega
  · have hle : p.data.length ≤ Limits.elementSize := by omega
    rw [if_neg hsize, get_bind]
    cases hexec : s.isExecuting with
    | false =>
      rw [if_pos (show (!false) = true from rfl), pure_apply]
      constructor
      · rintro ⟨⟩
        exact ⟨rfl, hle, by simp, by simp⟩
      · rintro ⟨rfl, -, hiff, -⟩
        rw [Bool.eq_false_iff.mpr (mt hiff.mp Bool.false_ne_true)]
    | true =>
      rw [if_neg (show ¬(!true) = true from Bool.false_ne_true)]
      by_cases hmin : (env.flags.minimalData && !p.isMinimal) = true
      · rw [if_pos hmin, fail_apply]
        constructor
        · intro h
          cases h
        · rintro ⟨-, -, -, himp⟩
          simp only [Bool.and_eq_true, Bool.not_eq_true'] at hmin
          rw [himp rfl hmin.1] at hmin
          exact Bool.noConfusion hmin.2
      · rw [if_neg hmin, pure_apply]
        constructor
        · rintro ⟨⟩
          refine ⟨rfl, hle, by simp, fun _ hflag => ?_⟩
          simpa [hflag] using hmin
        · rintro ⟨rfl, -, hiff, -⟩
          rw [hiff.mpr rfl]

/-- Asking whether a push is to be run changes nothing. -/
theorem admitPush_keeps {R : State → State → Prop} [Std.Refl R] (p : Push) :
    Keeps R (admitPush env p) := by
  intro s admitted s' h
  rw [(admitPush_eq_ok.mp h).1]
  exact refl s

theorem runPlain_push_executing {p : Push} (hexec : s.isExecuting = true) :
    runPlain env (.push p) s = .ok () s' ↔ p.data.length ≤ Limits.elementSize ∧
      (env.flags.minimalData = true → p.isMinimal = true) ∧
      s' = { s with stack := p.data :: s.stack } := by
  unfold runPlain
  rw [bind_eq_ok]
  constructor
  · rintro ⟨admitted, t, hadmit, hpush⟩
    obtain ⟨rfl, hle, hiff, hmin⟩ := admitPush_eq_ok.mp hadmit
    rw [hiff.mpr hexec, if_pos rfl] at hpush
    cases hpush
    exact ⟨hle, hmin hexec, rfl⟩
  · rintro ⟨hle, hmin, rfl⟩
    refine ⟨true, s, admitPush_eq_ok.mpr ⟨rfl, hle, by simp [hexec], fun _ => hmin⟩, ?_⟩
    rw [if_pos rfl]
    rfl

theorem runPlain_frame (c : Command) : Keeps Frame (runPlain env c) := by
  cases c with
  | op code => exact runOpcode_frame code
  | push p =>
    refine (admitPush_keeps p).bind fun admitted => ?_
    split_ifs
    · exact (push_dataFrame _).mono fun _ _ h => h.toFrame
    · exact .pure _

theorem runPlain_dataFrame {c : Command} (h : c.isConditional = false) :
    Keeps DataFrame (runPlain env c) := by
  cases c with
  | op code => exact runOpcode_dataFrame h
  | push p =>
    refine (admitPush_keeps p).bind fun admitted => ?_
    split_ifs
    · exact push_dataFrame _
    · exact .pure _

/-- Runs the commands that are left by `drain`, and then appends the script that the bytes
spell. -/
def revealBy (drain : Engine Unit) (data : Bytes) : Engine Unit := do
  push data
  drain
  require (ScriptNumber.truth (← pop))
  let cs ← lift (Command.decode data)
  emit (.runningRedeemScript cs)
  appendCommands cs

/-- Runs a command. If it reveals a script, `drain` runs the commands that are left. -/
def runCommandBy (env : Env) (drain : Engine Unit) : Command → Engine Unit
  | .op code => runOpcode env code
  | .push p => do
    if ← admitPush env p then
      if (Script.scriptHashLock? (← get).pending).isSome then revealBy drain p.data
      else push p.data

theorem runCommand_eq_runCommandBy (c : Command) :
    runCommand env c = runCommandBy env (runNext env 3) c := by
  cases c <;> rfl

/-- Before anything but a pay-to-script-hash lock, a command reveals nothing. -/
theorem runCommandBy_eq_runPlain (drain : Engine Unit)
    (h : Script.scriptHashLock? s.pending = none) (c : Command) :
    runCommandBy env drain c s = runPlain env c s := by
  cases c with
  | op code => rfl
  | push p =>
    simp only [runCommandBy, runPlain]
    refine bind_congr_of_ok fun admitted t hadmit => ?_
    obtain ⟨rfl, -⟩ := admitPush_eq_ok.mp hadmit
    cases admitted with
    | false => rfl
    | true =>
      rw [if_pos rfl, if_pos rfl, get_bind, h]
      rfl

theorem runCommand_eq_runPlain (h : Script.scriptHashLock? s.pending = none) (c : Command) :
    runCommand env c s = runPlain env c s := by
  rw [runCommand_eq_runCommandBy]
  exact runCommandBy_eq_runPlain _ h c

/-! ## Loops -/

theorem checkStackSize_eq_ok :
    checkStackSize s = .ok () s' ↔ s' = s ∧ s.alt.length + s.stack.length ≤ Limits.stackSize := by
  unfold checkStackSize
  rw [get_bind]
  by_cases h : Limits.stackSize < s.alt.length + s.stack.length
  · rw [if_pos h, fail_apply]
    constructor
    · intro hf
      cases hf
    · rintro ⟨-, hle⟩
      omega
  · rw [if_neg h, pure_apply]
    constructor
    · rintro ⟨⟩
      exact ⟨rfl, by omega⟩
    · rintro ⟨rfl, -⟩
      rfl

theorem loop_nil (h : s.pending = []) (n : ℕ) : loop env n s = .ok () s := by
  cases n with
  | zero => rfl
  | succ n =>
    rw [loop, bind_of_eq_ok (next_nil h)]
    rfl

theorem loop_succ (h : s.pending = c :: rest) (n : ℕ) :
    loop env (n + 1) s =
      (runCommand env c >>= fun _ => checkStackSize >>= fun _ => loop env n) (fetched s rest) := by
  rw [loop, bind_of_eq_ok (next_cons h)]

theorem loop_cons (h : s.pending = c :: rest) (n : ℕ) :
    loop env (n + 1) s = .ok () s' ↔ ∃ t, runCommand env c (fetched s rest) = .ok () t ∧
      t.alt.length + t.stack.length ≤ Limits.stackSize ∧ loop env n t = .ok () s' := by
  rw [loop_succ h, bind_eq_ok]
  constructor
  · rintro ⟨_, t, hrun, hloop⟩
    obtain ⟨_, t', hsize, hrest⟩ := bind_eq_ok.mp hloop
    obtain ⟨rfl, hle⟩ := checkStackSize_eq_ok.mp hsize
    exact ⟨t', hrun, hle, hrest⟩
  · rintro ⟨t, hrun, hle, hloop⟩
    refine ⟨(), t, hrun, ?_⟩
    rw [bind_of_eq_ok (checkStackSize_eq_ok.mpr ⟨rfl, hle⟩)]
    exact hloop

/-- A run is a run of the first commands and then of the others. -/
theorem loop_add (a b : ℕ) (s : State) :
    loop env (a + b) s = (loop env a >>= fun _ => loop env b) s := by
  induction a generalizing s with
  | zero =>
    rw [Nat.zero_add]
    rfl
  | succ a ih =>
    cases hp : s.pending with
    | nil => rw [loop_nil hp, bind_of_eq_ok (loop_nil hp _), loop_nil hp]
    | cons c rest =>
      rw [Nat.add_right_comm, loop_succ hp, bind_congr_apply (loop_succ hp a)]
      simp only [bind_assoc]
      exact congrFun (bind_congr fun _ => bind_congr fun _ => funext ih) _

end Engine

/-! ## Commands that reveal nothing -/

namespace Script

/-- No push before the commands `cs` reveals a script, whatever comes between them. -/
def Shields (cs : List Command) : Prop :=
  ∀ init, scriptHashLock? (init ++ cs) = none

/-- The last command of a pay-to-script-hash lock compares two items. -/
theorem shields_append_op (cs : List Command) {code : Opcode} (h : code ≠ Opcode.equal) :
    Shields (cs ++ [.op code]) := by
  intro init
  unfold scriptHashLock?
  split
  · rename_i hash p equal heq
    have hlast := congrArg List.getLast? heq
    simp only [← List.append_assoc, List.getLast?_append, List.getLast?_singleton, Option.some_or,
      List.getLast?_cons_cons, Option.some.injEq, Command.op.injEq] at hlast
    rw [if_neg]
    rintro ⟨-, -, rfl⟩
    exact h hlast
  · rfl

/-- A pay-to-script-hash lock has three commands. -/
theorem scriptHashLock?_eq_none {cs : List Command} (h : cs.length ≠ 3) :
    scriptHashLock? cs = none := by
  unfold scriptHashLock?
  split
  · exact absurd rfl h
  · rfl

theorem length_of_scriptHashLock {cs : List Command} (h : (scriptHashLock? cs).isSome = true) :
    cs.length = 3 := by
  by_contra hne
  rw [scriptHashLock?_eq_none hne] at h
  cases h

theorem shields_of_length {cs : List Command} (h : 4 ≤ cs.length) : Shields cs := by
  intro init
  apply scriptHashLock?_eq_none
  rw [List.length_append]
  omega

/-- No push among the commands `cs` is followed by a pay-to-script-hash lock that ends with
`rest`. -/
def RevealsNothingBefore (cs rest : List Command) : Prop :=
  ∀ init p tail, cs = init ++ .push p :: tail → scriptHashLock? (tail ++ rest) = none

namespace RevealsNothingBefore

variable {c : Command} {cs rest : List Command}

theorem nil (rest : List Command) : RevealsNothingBefore [] rest :=
  fun init _ _ h => absurd h.symm
    (List.append_ne_nil_of_right_ne_nil init (List.cons_ne_nil _ _))

theorem of_shields (h : Shields rest) (cs : List Command) : RevealsNothingBefore cs rest :=
  fun _ _ tail _ => h tail

theorem tail (h : RevealsNothingBefore (c :: cs) rest) : RevealsNothingBefore cs rest := by
  rintro init p tail rfl
  exact h (c :: init) p tail rfl

theorem append_left {ds : List Command} (h : RevealsNothingBefore (cs ++ ds) rest) :
    RevealsNothingBefore cs (ds ++ rest) := by
  rintro init p tail rfl
  rw [← List.append_assoc]
  exact h init p (tail ++ ds) (by rw [List.append_assoc, List.cons_append])

theorem append_right {ds : List Command} (h : RevealsNothingBefore (cs ++ ds) rest) :
    RevealsNothingBefore ds rest := by
  rintro init p tail rfl
  exact h (cs ++ init) p tail (List.append_assoc _ _ _).symm

/-- An opcode reveals nothing. -/
theorem append_op {code : Opcode} (h : RevealsNothingBefore cs (.op code :: rest)) :
    RevealsNothingBefore (cs ++ [.op code]) rest := by
  intro init p tail heq
  rcases List.eq_nil_or_concat tail with rfl | ⟨front, last, rfl⟩
  · obtain ⟨-, hlast⟩ := List.append_inj' heq rfl
    cases hlast
  · rw [List.concat_eq_append, ← List.cons_append, ← List.append_assoc] at heq
    obtain ⟨hcs, hlast⟩ := List.append_inj' heq rfl
    obtain rfl := (List.cons.inj hlast).1
    rw [List.concat_eq_append, List.append_assoc]
    exact h init p front hcs

end RevealsNothingBefore

end Script

namespace Engine

variable {env : Env} {s t : State} {c : Command} {xs ys : List Command}

theorem runCommand_eq_of_revealsNothing (hr : Script.RevealsNothingBefore (c :: xs) ys)
    (hp : s.pending = xs ++ ys) : runCommand env c s = runPlain env c s := by
  cases c with
  | op code => rfl
  | push p => exact runCommand_eq_runPlain (hp ▸ hr [] p xs rfl) (.push p)

/-- The run has passed the commands `xs` without revealing a script, and `ys` is left. -/
structure Passed (xs ys : List Command) (s t : State) : Prop where
  pending_eq : t.pending = ys
  position_eq : t.position = s.position + xs.length
  segmentStarts_eq : t.segmentStarts = s.segmentStarts
  sound : SigCache.Sound s.cache → SigCache.Sound t.cache
  conditions_eq : (∀ c ∈ xs, c.isConditional = false) → t.conditions = s.conditions
  size_le : s.alt.length + s.stack.length ≤ Limits.stackSize →
    t.alt.length + t.stack.length ≤ Limits.stackSize

/-- Where nothing is revealed, a run fetches its commands one by one. -/
theorem loop_passed (hr : Script.RevealsNothingBefore xs ys) (hp : s.pending = xs ++ ys)
    (h : loop env xs.length s = .ok () t) : Passed xs ys s t := by
  induction xs generalizing s with
  | nil =>
    cases h
    exact ⟨hp, rfl, rfl, id, fun _ => rfl, id⟩
  | cons c xs ih =>
    rw [List.cons_append] at hp
    obtain ⟨s₁, hrun, hsize, hloop⟩ := (loop_cons hp _).mp h
    rw [runCommand_eq_of_revealsNothing (s := fetched s (xs ++ ys)) hr rfl] at hrun
    have hframe := runPlain_frame c hrun
    have hpassed := ih hr.tail hframe.pending_eq hloop
    refine ⟨hpassed.pending_eq, ?_, hpassed.segmentStarts_eq.trans hframe.segmentStarts_eq,
      fun hs => hpassed.sound (hframe.sound hs), fun hc => ?_, fun _ => hpassed.size_le hsize⟩
    · rw [hpassed.position_eq, hframe.position_eq, List.length_cons, Nat.add_comm xs.length,
        ← Nat.add_assoc]
      rfl
    · rw [hpassed.conditions_eq fun d hd => hc d (List.mem_cons_of_mem c hd),
        (runPlain_dataFrame (hc c List.mem_cons_self) hrun).conditions_eq]
      rfl

end Engine

/-! ## Whole runs -/

namespace Engine

variable {env : Env} {s s' : State}

theorem finish_eq_ok : finish s = .ok () s' ↔ s.conditions = [] ∧
    (∃ item, s.stack = [item] ∧ ScriptNumber.truth item = true) ∧ s' = { s with stack := [] } := by
  unfold finish
  rw [get_bind]
  cases hc : s.conditions with
  | cons c rest => simp [fail_apply]
  | nil =>
    match hs : s.stack with
    | [] => simp [fail_apply]
    | [item] =>
      show (setStack [] >>= fun _ => if ScriptNumber.truth item = true then pure ()
        else fail .evalFalse) s = .ok () s' ↔ _
      rw [bind_of_eq_ok (show setStack [] s = .ok () { s with stack := [] } from rfl)]
      cases ht : ScriptNumber.truth item with
      | false => simp [fail_apply, ht]
      | true =>
        simp only [if_pos, pure_apply, true_and, List.cons.injEq, and_true, exists_eq_left', ht]
        constructor
        · rintro ⟨⟩
          rw [hc]
        · rintro rfl
          rw [hc]
    | _ :: _ :: _ => simp [fail_apply]

end Engine

namespace Engine

theorem checkScriptSizes_start (script : Script) (cache : SigCache) :
    checkScriptSizes (State.start script cache) =
      match script.oversize? with
      | some size => .error (.error (.scriptTooBig size)) (State.start script cache)
      | none => .ok () (State.start script cache) := by
  unfold checkScriptSizes
  rw [get_bind]
  show (match script.oversize? with
    | some size => fail (.scriptTooBig size)
    | none => pure () : Engine Unit) (State.start script cache) = _
  cases script.oversize? <;> rfl

/-- A run looks at the sizes of the parts before it runs the commands. -/
theorem run_start (env : Env) (script : Script) (cache : SigCache) :
    run env (State.start script cache) =
      if script.commands = [] then .error (.error .evalFalse) (State.start script cache)
      else
        match script.oversize? with
        | some size => .error (.error (.scriptTooBig size)) (State.start script cache)
        | none => (loop env script.byteLength >>= fun _ => finish) (State.start script cache) := by
  have hsizes := checkScriptSizes_start script cache
  have hempty : (State.start script cache).pending.isEmpty = true ↔ script.commands = [] :=
    List.isEmpty_iff
  unfold run
  rw [get_bind, apply_ite (fun m : Engine Unit => m (State.start script cache))]
  refine if_congr hempty rfl ?_
  cases h : script.oversize? with
  | some size =>
    rw [h] at hsizes
    exact bind_of_eq_error hsizes
  | none =>
    rw [h] at hsizes
    exact bind_of_eq_ok hsizes

end Engine

/-- A run succeeds if its parts are short enough, no command fails, all conditionals are closed and
one true item is left. -/
theorem Script.execute_eq_ok_iff {script : Script} {env : Env} {cache : SigCache} :
    (script.execute env cache).result = .ok () ↔ script.commands ≠ [] ∧ script.SizesAllowed ∧
      ∃ t item, Engine.loop env (Command.totalLength script.commands) (State.start script cache) =
        .ok () t ∧ t.conditions = [] ∧ t.stack = [item] ∧ ScriptNumber.truth item = true := by
  have hrun : (script.execute env cache).result = .ok () ↔
      ∃ s', Engine.run env (State.start script cache) = .ok () s' := by
    unfold execute
    cases Engine.run env (State.start script cache) <;> simp
  rw [hrun, Engine.run_start, ← oversize?_eq_none]
  by_cases hempty : script.commands = []
  · simp [hempty]
  · rw [if_neg hempty]
    cases script.oversize? with
    | some size => simp
    | none =>
      constructor
      · rintro ⟨s', h⟩
        obtain ⟨_, t, hloop, hfinish⟩ := Engine.bind_eq_ok.mp h
        obtain ⟨hc, ⟨item, hs, ht⟩, -⟩ := Engine.finish_eq_ok.mp hfinish
        exact ⟨hempty, rfl, t, item, hloop, hc, hs, ht⟩
      · rintro ⟨-, -, t, item, hloop, hc, hs, ht⟩
        refine ⟨{ t with stack := [] }, ?_⟩
        refine (Engine.bind_of_eq_ok hloop).trans ?_
        exact Engine.finish_eq_ok.mpr ⟨hc, ⟨item, hs, ht⟩, rfl⟩

end SpendScript
