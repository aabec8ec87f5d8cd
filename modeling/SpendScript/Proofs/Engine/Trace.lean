import SpendScript.Proofs.Engine.Growth
import SpendScript.Proofs.Engine.Reveal

/-!
# The points of a run

A run comes to a point before each command that it fetches. Most commands come from the list; the
commands of a pay-to-script-hash lock behind a push are run on their own, and the stacks are not
measured between them.

Results:
* `Place`: where a run is; `Executed`: a command that it has executed.
* `Engine.Trace`: the executed commands, the place and the state of a run at any of its points.
* `Engine.exists_trace_iff`: the points are the states that the loop and the locks in it come to.
* `Engine.Trace.keeps`: what every step keeps, holds at every point.
* `Engine.Layout`: what has been executed, what comes, and where the parts begin;
  `Engine.Trace.layout`: this at every point.
-/

namespace SpendScript

/-- Where a run is. -/
inductive Place where
  /-- In the list of commands. -/
  | list
  /-- In a lock on revealed bytes; so many of its commands are left. -/
  | lock (data : Bytes) (left : ℕ)

/-- A command that a run has executed or skipped, and the state in which it was fetched. -/
structure Executed where
  command : Command
  state : State

namespace Engine

variable {α : Type} {env : Env} {s₀ s t : State} {past : List Executed} {place : Place}
  {c : Command} {cs rest : List Command} {p : Push} {data : Bytes} {n k : ℕ}

/-! ## Pushes before a lock -/

/-- Whether a command is an executed push and a pay-to-script-hash lock is all that comes after
it. -/
def reveals (s : State) : Command → Bool
  | .op _ => false
  | .push _ => s.isExecuting && (Script.scriptHashLock? s.pending).isSome

/-- Takes the answer of the lock and appends the revealed script. -/
def settle (data : Bytes) : Engine Unit := do
  afterLock (ScriptNumber.truth (← pop)) data

theorem runCommand_of_reveals_eq_false (h : reveals s c = false) :
    runCommand env c s = runPlain env c s := by
  cases c with
  | op code => rfl
  | push p =>
    simp only [runCommand, runPlain]
    refine bind_congr_of_ok fun admitted t hadmit => ?_
    obtain ⟨rfl, -, hiff, -⟩ := admitPush_eq_ok.mp hadmit
    cases admitted with
    | false => rfl
    | true =>
      rw [reveals, hiff.mp rfl, Bool.true_and] at h
      rw [if_pos rfl, get_bind, h]
      rfl

/-- A push that reveals a script is executed, then the lock is run and its answer taken. -/
theorem runCommand_of_reveals (h : reveals s (.push p) = true) :
    runCommand env (.push p) s =
      (runPlain env (.push p) >>= fun _ => runNext env 3 >>= fun _ => settle p.data) s := by
  obtain ⟨hexec, hlock⟩ := Bool.and_eq_true_iff.mp h
  simp only [runCommand, runPlain, bind_assoc]
  refine bind_congr_of_ok fun admitted t hadmit => ?_
  obtain ⟨rfl, -, hiff, -⟩ := admitPush_eq_ok.mp hadmit
  rw [hiff.mpr hexec, if_pos rfl, get_bind, hlock, if_pos rfl]
  rfl

theorem length_pending_of_reveals (h : reveals s c = true) : s.pending.length = 3 := by
  cases c with
  | op code => cases h
  | push p => exact Script.length_of_scriptHashLock (Bool.and_eq_true_iff.mp h).2

theorem settle_eq_ok : settle data s = .ok () t ↔ ∃ item stack cs,
    s.stack = item :: stack ∧ ScriptNumber.truth item = true ∧ Command.decode data = .ok cs ∧
      t = revealed { s with stack := stack } cs := by
  unfold settle
  rw [bind_eq_ok]
  constructor
  · rintro ⟨item, u, hpop, hafter⟩
    obtain ⟨stack, hs, rfl⟩ := pop_eq_ok.mp hpop
    obtain ⟨htrue, cs, hcs, rfl⟩ := afterLock_eq_ok.mp hafter
    exact ⟨item, stack, cs, hs, htrue, hcs, rfl⟩
  · rintro ⟨item, stack, cs, hs, htrue, hcs, rfl⟩
    exact ⟨item, _, pop_eq_ok.mpr ⟨stack, hs, rfl⟩, afterLock_eq_ok.mpr ⟨htrue, cs, hcs, rfl⟩⟩

/-! ## Points -/

/-- A run from `s₀` has executed the commands `past` and has come to a place and a state. -/
inductive Trace (env : Env) (s₀ : State) : List Executed → Place → State → Prop
  | start : Trace env s₀ [] .list s₀
  /-- A command that reveals nothing has been run, and the stacks are small enough after it. -/
  | command {past : List Executed} {s t : State} {c : Command} {rest : List Command}
      (h : Trace env s₀ past .list s) (hp : s.pending = c :: rest)
      (hplain : reveals (fetched s rest) c = false)
      (hrun : runPlain env c (fetched s rest) = .ok () t) (hsize : t.items ≤ Limits.stackSize) :
      Trace env s₀ (past ++ [⟨c, fetched s rest⟩]) .list t
  /-- The bytes of a script have been pushed, and the lock follows. -/
  | push {past : List Executed} {s t : State} {p : Push} {rest : List Command}
      (h : Trace env s₀ past .list s) (hp : s.pending = .push p :: rest)
      (hreveals : reveals (fetched s rest) (.push p) = true)
      (hrun : runPlain env (.push p) (fetched s rest) = .ok () t) :
      Trace env s₀ (past ++ [⟨.push p, fetched s rest⟩]) (.lock p.data 3) t
  /-- A command of the lock has been run. -/
  | lock {past : List Executed} {s t : State} {c : Command} {rest : List Command} {data : Bytes}
      {left : ℕ} (h : Trace env s₀ past (.lock data (left + 1)) s) (hp : s.pending = c :: rest)
      (hrun : runPlain env c (fetched s rest) = .ok () t) :
      Trace env s₀ (past ++ [⟨c, fetched s rest⟩]) (.lock data left) t
  /-- The lock has answered yes, and the commands of the script have been appended. -/
  | reveal {past : List Executed} {s t : State} {data : Bytes}
      (h : Trace env s₀ past (.lock data 0) s) (hsettle : settle data s = .ok () t)
      (hsize : t.items ≤ Limits.stackSize) : Trace env s₀ past .list t

/-! ## The points are those of the loop -/

theorem runNext_succ (hp : s.pending = c :: rest) (n : ℕ) :
    runNext env (n + 1) s = (runPlain env c >>= fun _ => runNext env n) (fetched s rest) := by
  rw [runNext, bind_of_eq_ok (next_cons hp)]

theorem runNext_nil (h : s.pending = []) (n : ℕ) : runNext env n s = .ok () s := by
  cases n with
  | zero => rfl
  | succ n =>
    rw [runNext, bind_of_eq_ok (next_nil h)]
    rfl

theorem runNext_add (a b : ℕ) (s : State) :
    runNext env (a + b) s = (runNext env a >>= fun _ => runNext env b) s := by
  induction a generalizing s with
  | zero =>
    rw [Nat.zero_add]
    rfl
  | succ a ih =>
    cases hp : s.pending with
    | nil => rw [runNext_nil hp, bind_of_eq_ok (runNext_nil hp _), runNext_nil hp]
    | cons c rest =>
      rw [Nat.add_right_comm, runNext_succ hp, bind_congr_apply (runNext_succ hp a)]
      simp only [bind_assoc]
      exact congrFun (bind_congr fun _ => funext ih) _

namespace Trace

theorem exists_of_runNext {left : ℕ} (h : Trace env s₀ past (.lock data (n + left)) s)
    (hn : n ≤ s.pending.length) (hrun : runNext env n s = .ok () t) :
    ∃ past', Trace env s₀ past' (.lock data left) t := by
  induction n generalizing past s with
  | zero =>
    cases hrun
    rw [Nat.zero_add] at h
    exact ⟨past, h⟩
  | succ n ih =>
    obtain ⟨c, rest, hp⟩ := List.exists_cons_of_length_pos (Nat.lt_of_lt_of_le n.succ_pos hn)
    rw [runNext_succ hp] at hrun
    obtain ⟨_, u, hplain, hnext⟩ := bind_eq_ok.mp hrun
    rw [Nat.succ_add] at h
    refine ih (.lock h hp hplain) ?_ hnext
    rw [(runPlain_frame c hplain).pending_eq]
    rw [hp] at hn
    exact Nat.le_of_succ_le_succ hn

theorem exists_of_runCommand (h : Trace env s₀ past .list s) (hp : s.pending = c :: rest)
    (hrun : runCommand env c (fetched s rest) = .ok () t) (hsize : t.items ≤ Limits.stackSize) :
    ∃ past', Trace env s₀ past' .list t := by
  cases hreveals : reveals (fetched s rest) c with
  | false =>
    rw [runCommand_of_reveals_eq_false hreveals] at hrun
    exact ⟨_, .command h hp hreveals hrun hsize⟩
  | true =>
    cases c with
    | op code => cases hreveals
    | push p =>
      rw [runCommand_of_reveals hreveals] at hrun
      obtain ⟨_, u, hpush, hrest⟩ := bind_eq_ok.mp hrun
      obtain ⟨_, v, hlock, hsettle⟩ := bind_eq_ok.mp hrest
      have hlength : u.pending.length = 3 := by
        rw [(runPlain_frame _ hpush).pending_eq]
        exact length_pending_of_reveals hreveals
      have hpushed : Trace env s₀ _ (.lock p.data (3 + 0)) u := .push h hp hreveals hpush
      obtain ⟨past', h'⟩ := hpushed.exists_of_runNext (Nat.le_of_eq hlength.symm) hlock
      exact ⟨past', .reveal h' hsettle hsize⟩

theorem exists_of_loop (h : Trace env s₀ past .list s) (hloop : loop env n s = .ok () t) :
    ∃ past', Trace env s₀ past' .list t := by
  induction n generalizing past s with
  | zero =>
    cases hloop
    exact ⟨past, h⟩
  | succ n ih =>
    cases hp : s.pending with
    | nil =>
      rw [loop_nil hp] at hloop
      cases hloop
      exact ⟨past, h⟩
    | cons c rest =>
      obtain ⟨u, hrun, hsize, hloop⟩ := (loop_cons hp n).mp hloop
      obtain ⟨past', h'⟩ := h.exists_of_runCommand hp hrun hsize
      exact ih h' hloop

end Trace

theorem loop_concat (h : loop env n s₀ = .ok () s) (hp : s.pending = c :: rest)
    (hrun : runCommand env c (fetched s rest) = .ok () t) (hsize : t.items ≤ Limits.stackSize) :
    loop env (n + 1) s₀ = .ok () t := by
  rw [loop_add, bind_of_eq_ok h]
  exact (loop_cons hp 0).mpr ⟨t, hrun, hsize, rfl⟩

/-- The loop comes to a state in the list; or to a push that reveals bytes, and all but the last
commands of the lock come from there to the state. -/
def Reached (env : Env) (s₀ : State) : Place → State → Prop
  | .list, s => ∃ n, loop env n s₀ = .ok () s
  | .lock data left, t => ∃ n s p rest k, loop env n s₀ = .ok () s ∧ s.pending = .push p :: rest ∧
      reveals (fetched s rest) (.push p) = true ∧ p.data = data ∧ k + left = 3 ∧
      (runPlain env (.push p) >>= fun _ => runNext env k) (fetched s rest) = .ok () t

theorem Trace.reached (h : Trace env s₀ past place s) : Reached env s₀ place s := by
  induction h with
  | start => exact ⟨0, rfl⟩
  | command _ hp hplain hrun hsize ih =>
    obtain ⟨n, hloop⟩ := ih
    rw [← runCommand_of_reveals_eq_false hplain] at hrun
    exact ⟨n + 1, loop_concat hloop hp hrun hsize⟩
  | push _ hp hreveals hrun ih =>
    obtain ⟨n, hloop⟩ := ih
    exact ⟨n, _, _, _, 0, hloop, hp, hreveals, rfl, rfl, bind_eq_ok.mpr ⟨(), _, hrun, rfl⟩⟩
  | lock _ hp hrun ih =>
    obtain ⟨n, u, p, rest, k, hloop, hpush, hreveals, hdata, hk, hlock⟩ := ih
    refine ⟨n, u, p, rest, k + 1, hloop, hpush, hreveals, hdata, by omega, ?_⟩
    obtain ⟨_, v, hv, hnext⟩ := bind_eq_ok.mp hlock
    refine bind_eq_ok.mpr ⟨(), v, hv, ?_⟩
    rw [runNext_add, bind_of_eq_ok hnext, runNext_succ hp]
    exact bind_eq_ok.mpr ⟨(), _, hrun, rfl⟩
  | reveal _ hsettle hsize ih =>
    obtain ⟨n, u, p, rest, k, hloop, hpush, hreveals, rfl, hk, hlock⟩ := ih
    obtain ⟨_, v, hv, hnext⟩ := bind_eq_ok.mp hlock
    rw [show k = 3 by omega] at hnext
    refine ⟨n + 1, loop_concat hloop hpush ?_ hsize⟩
    rw [runCommand_of_reveals hreveals, bind_of_eq_ok hv, bind_of_eq_ok hnext]
    exact hsettle

/-- The points of a run are the states that the loop and the locks in it come to. -/
theorem exists_trace_iff : (∃ past, Trace env s₀ past place s) ↔ Reached env s₀ place s := by
  constructor
  · rintro ⟨past, h⟩
    exact h.reached
  · intro h
    cases place with
    | list =>
      obtain ⟨n, hloop⟩ := h
      exact Trace.start.exists_of_loop hloop
    | lock data left =>
      obtain ⟨n, u, p, rest, k, hloop, hp, hreveals, rfl, hk, hlock⟩ := h
      obtain ⟨past, htrace⟩ := Trace.start.exists_of_loop hloop
      obtain ⟨_, v, hpush, hnext⟩ := bind_eq_ok.mp hlock
      have hv : Trace env s₀ _ (.lock p.data (k + left)) v :=
        hk ▸ Trace.push htrace hp hreveals hpush
      refine hv.exists_of_runNext ?_ hnext
      have hlength := length_pending_of_reveals hreveals
      rw [(runPlain_frame _ hpush).pending_eq]
      omega

/-! ## Where the parts begin -/

/-- Where each of some lists begins, one after the other from a position on. -/
def offsets : ℕ → List (List α) → List ℕ
  | _, [] => []
  | i, part :: parts => i :: offsets (i + part.length) parts

theorem offsets_append (i : ℕ) (xs ys : List (List α)) :
    offsets i (xs ++ ys) = offsets i xs ++ offsets (i + xs.flatten.length) ys := by
  induction xs generalizing i with
  | nil => rfl
  | cons x xs ih =>
    rw [List.cons_append, offsets, ih, offsets, List.flatten_cons, List.length_append,
      Nat.add_assoc, List.cons_append]

/-- A list begins where the lists before it end. -/
theorem mem_offsets {i j : ℕ} {parts : List (List α)} : j ∈ offsets i parts ↔
    ∃ before part after, parts = before ++ part :: after ∧ j = i + before.flatten.length := by
  constructor
  · intro h
    induction parts generalizing i with
    | nil => cases h
    | cons part parts ih =>
      rcases List.mem_cons.mp h with rfl | h
      · exact ⟨[], part, parts, rfl, rfl⟩
      · obtain ⟨before, part', after, rfl, rfl⟩ := ih h
        refine ⟨part :: before, part', after, rfl, ?_⟩
        rw [List.flatten_cons, List.length_append, Nat.add_assoc]
  · rintro ⟨before, part, after, rfl, rfl⟩
    rw [offsets_append]
    exact List.mem_append_right _ List.mem_cons_self

theorem le_of_mem_offsets {i j : ℕ} {parts : List (List α)} (h : j ∈ offsets i parts) :
    i ≤ j ∧ j ≤ i + parts.flatten.length := by
  obtain ⟨before, part, after, rfl, rfl⟩ := mem_offsets.mp h
  rw [List.flatten_append, List.length_append]
  omega

/-- No list begins inside another one. -/
theorem notMem_offsets {j : ℕ} {before after : List (List α)} {part : List α}
    (hafter : before.flatten.length < j) (hbefore : j < before.flatten.length + part.length) :
    j ∉ offsets 0 (before ++ part :: after) := by
  rw [offsets_append, Nat.zero_add, offsets, List.mem_append, List.mem_cons]
  rintro (h | rfl | h)
  · have := le_of_mem_offsets h
    omega
  · omega
  · have := le_of_mem_offsets h
    omega

/-- What has been executed and what comes are the commands of the script and of all revealed
scripts, in that order; each of the revealed ones is the data of a push and a part of its own. -/
structure Layout (s₀ : State) (past : List Executed) (s : State) (scripts : List (List Command)) :
    Prop where
  position_eq : s.position = past.length
  commands_eq : past.map Executed.command ++ s.pending = s₀.pending ++ scripts.flatten
  segmentStarts_eq : s.segmentStarts = s₀.segmentStarts ++ offsets s₀.pending.length scripts
  exists_push : ∀ script ∈ scripts, ∃ p, Command.push p ∈ past.map Executed.command ∧
    Command.decode p.data = .ok script

namespace Layout

variable {scripts : List (List Command)}

/-- A command that is fetched goes from what comes to what has been executed. -/
theorem runPlain (h : Layout s₀ past s scripts) (hp : s.pending = c :: rest)
    (hrun : runPlain env c (fetched s rest) = .ok () t) :
    Layout s₀ (past ++ [⟨c, fetched s rest⟩]) t scripts := by
  have hframe := runPlain_frame c hrun
  refine ⟨?_, ?_, hframe.segmentStarts_eq.trans h.segmentStarts_eq, fun script hscript => ?_⟩
  · rw [hframe.position_eq, List.length_append, ← h.position_eq]
    rfl
  · rw [hframe.pending_eq, ← h.commands_eq, hp, List.map_append, List.append_assoc]
    rfl
  · obtain ⟨p, hmem, hdecode⟩ := h.exists_push script hscript
    rw [List.map_append]
    exact ⟨p, List.mem_append_left _ hmem, hdecode⟩

theorem settle (h : Layout s₀ past s scripts)
    (hpush : ∃ p, Command.push p ∈ past.map Executed.command ∧ p.data = data)
    (hsettle : settle data s = .ok () t) :
    ∃ cs, t.pending = s.pending ++ cs ∧ Layout s₀ past t (scripts ++ [cs]) := by
  obtain ⟨item, stack, cs, hs, -, hcs, rfl⟩ := settle_eq_ok.mp hsettle
  have htotal : s.position + s.pending.length = s₀.pending.length + scripts.flatten.length := by
    rw [← List.length_append, ← h.commands_eq, List.length_append, List.length_map, h.position_eq]
  refine ⟨cs, rfl, h.position_eq, ?_, ?_, fun script hscript => ?_⟩
  · show past.map Executed.command ++ (s.pending ++ cs) = _
    rw [← List.append_assoc, h.commands_eq, List.flatten_concat, List.append_assoc]
  · show s.segmentStarts ++ [s.position + s.pending.length] = _
    rw [h.segmentStarts_eq, htotal, offsets_append, List.append_assoc]
    rfl
  · rcases List.mem_append.mp hscript with hscript | hscript
    · exact h.exists_push script hscript
    · obtain rfl := List.mem_singleton.mp hscript
      obtain ⟨p, hmem, rfl⟩ := hpush
      exact ⟨p, hmem, hcs⟩

end Layout

/-- In a lock, the bytes that it is on have been pushed. -/
theorem Trace.exists_push (h : Trace env s₀ past place s) :
    ∀ data left, place = .lock data left →
      ∃ p, Command.push p ∈ past.map Executed.command ∧ p.data = data := by
  induction h with
  | start | command | reveal => exact fun _ _ hplace => by cases hplace
  | @push past _ _ p _ _ _ _ _ _ =>
    rintro _ _ ⟨⟩
    exact ⟨p, by simp, rfl⟩
  | lock _ _ _ ih =>
    rintro _ _ ⟨⟩
    obtain ⟨p, hmem, hdata⟩ := ih _ _ rfl
    rw [List.map_append]
    exact ⟨p, List.mem_append_left _ hmem, hdata⟩

/-- What every command keeps, in the list and in a lock, and the settling of a lock too, holds at
every point of a run. -/
theorem Trace.keeps {P : List Executed → State → Prop} (hstart : P [] s₀)
    (hrun : ∀ {past place s t c rest}, Trace env s₀ past place s → s.pending = c :: rest →
      runPlain env c (fetched s rest) = .ok () t → P past s → P (past ++ [⟨c, fetched s rest⟩]) t)
    (hsettle : ∀ {past data s t}, Trace env s₀ past (.lock data 0) s →
      settle data s = .ok () t → P past s → P past t)
    (h : Trace env s₀ past place s) : P past s := by
  induction h with
  | start => exact hstart
  | command h hp _ hplain _ ih => exact hrun h hp hplain ih
  | push h hp _ hplain ih => exact hrun h hp hplain ih
  | lock h hp hplain ih => exact hrun h hp hplain ih
  | reveal h hsettled _ ih => exact hsettle h hsettled ih

theorem Trace.layout (h : Trace env s₀ past place s) (hs₀ : s₀.position = 0) :
    ∃ scripts, Layout s₀ past s scripts := by
  refine h.keeps (P := fun past s => ∃ scripts, Layout s₀ past s scripts) ?_ ?_ ?_
  · exact ⟨[], hs₀, (List.append_nil _).symm, (List.append_nil _).symm, List.forall_mem_nil _⟩
  · rintro past place s t c rest - hp hrun ⟨scripts, hlayout⟩
    exact ⟨scripts, hlayout.runPlain hp hrun⟩
  · rintro past data s t h hsettle ⟨scripts, hlayout⟩
    obtain ⟨cs, -, hlayout'⟩ := hlayout.settle (h.exists_push _ _ rfl) hsettle
    exact ⟨_, hlayout'⟩

end Engine

end SpendScript
