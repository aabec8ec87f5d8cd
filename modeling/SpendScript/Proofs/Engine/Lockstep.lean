import SpendScript.Proofs.Engine.Agreement
import SpendScript.Proofs.Engine.Loop

/-!
# Runs in step

Two runs with the same commands to come, whose parts begin at the same commands, stay in step: each
command leaves them with the same items and the same commands, also where it reveals a script.

Results:
* `State.InStep`: the states of such runs.
* `Engine.runCommand_inStep`, `Engine.loop_inStep`: a command, and then all of them, keep two runs
  in step.
* `Engine.loop_prefix_agree`: runs agree on their first commands.
* `Engine.loop_begins_agree`: runs of a part agree, wherever it begins.
* `Engine.finish_agree`: and so do their ends.
-/

namespace SpendScript

/-- States that are alike, with the same commands to come; parts begin at the same ones. -/
structure State.InStep (E : Comparison) (s s' : State) : Prop extends State.Alike E s s' where
  pending_eq : s'.pending = s.pending
  starts_iff : ∀ k, s'.position + k ∈ s'.segmentStarts ↔ s.position + k ∈ s.segmentStarts

namespace Engine

variable {α : Type} {E : Comparison} {env env' : Env} {s s' t t' : State} {c : Command}
  {rest cs : List Command}

/-! ## One command -/

theorem inStep_fetched (h : State.InStep E s s') (rest : List Command) :
    State.InStep E (fetched s rest) (fetched s' rest) := by
  refine ⟨⟨⟨⟨h.stack_eq, h.caches_agree⟩, h.alt_eq, h.conditions_eq⟩, ?_⟩, rfl, fun k => ?_⟩
  · show (if s'.position ∈ s'.segmentStarts then 0 else s'.operations) =
      if s.position ∈ s.segmentStarts then 0 else s.operations
    exact if_congr (h.starts_iff 0) rfl h.operations_eq
  · show s'.position + 1 + k ∈ s'.segmentStarts ↔ s.position + 1 + k ∈ s.segmentStarts
    rw [Nat.add_assoc, Nat.add_assoc]
    exact h.starts_iff (1 + k)

theorem inStep_of_frame (h : State.InStep E s s') (ht : State.Alike E t t') (hframe : Frame s t)
    (hframe' : Frame s' t') : State.InStep E t t' := by
  refine ⟨ht, ?_, fun k => ?_⟩
  · rw [hframe'.pending_eq, hframe.pending_eq]
    exact h.pending_eq
  · rw [hframe'.position_eq, hframe'.segmentStarts_eq, hframe.position_eq, hframe.segmentStarts_eq]
    exact h.starts_iff k

/-- Computations that leave the commands to come alone keep runs in step. -/
theorem Agree.inStep {m m' : Engine α} (h : State.InStep E s s')
    (hm : Agree E (State.Alike E) (m s) (m' s')) (hframe : Keeps Frame m)
    (hframe' : Keeps Frame m') :
    Agree E (State.InStep E) (m s) (m' s') := by
  generalize hr : m s = r at hm
  generalize hr' : m' s' = r' at hm
  cases hm with
  | ok a ht => exact .ok a (inStep_of_frame h ht (hframe hr) (hframe' hr'))
  | halt e ht => exact .halt e ht
  | excused t' he => exact .excused t' he

theorem runPlain_inStep (henv : Env.Refines E env env') (h : State.InStep E s s') (c : Command) :
    Agree E (State.InStep E) (runPlain env c s) (runPlain env' c s') :=
  .inStep h (runPlain_follows henv c h.toAlike) (runPlain_frame c) (runPlain_frame c)

/-! ## Revealed scripts -/

theorem runNext_inStep (henv : Env.Refines E env env') (n : ℕ) (h : State.InStep E s s') :
    Agree E (State.InStep E) (runNext env n s) (runNext env' n s') := by
  induction n generalizing s s' with
  | zero => exact .ok () h
  | succ n ih =>
    unfold runNext
    cases hp : s.pending with
    | nil =>
      rw [bind_of_eq_ok (next_nil hp), bind_of_eq_ok (next_nil (h.pending_eq.trans hp))]
      exact .ok () h
    | cons c rest =>
      rw [bind_of_eq_ok (next_cons hp), bind_of_eq_ok (next_cons (h.pending_eq.trans hp))]
      exact (runPlain_inStep henv (inStep_fetched h rest) c).bind fun _ _ _ _ _ ht => ih ht

theorem appendCommands_inStep (h : State.InStep E s s') (cs : List Command) :
    Agree E (State.InStep E) (appendCommands cs s) (appendCommands cs s') := by
  refine .ok () ⟨⟨⟨⟨h.stack_eq, h.caches_agree⟩, h.alt_eq, h.conditions_eq⟩, h.operations_eq⟩, ?_,
    fun k => ?_⟩
  · show s'.pending ++ cs = s.pending ++ cs
    rw [h.pending_eq]
  · show s'.position + k ∈ s'.segmentStarts ++ [s'.position + s'.pending.length] ↔
      s.position + k ∈ s.segmentStarts ++ [s.position + s.pending.length]
    rw [List.mem_append, List.mem_append, List.mem_singleton, List.mem_singleton, h.starts_iff,
      h.pending_eq, Nat.add_left_cancel_iff, Nat.add_left_cancel_iff]

theorem reveal_inStep (henv : Env.Refines E env env') (h : State.InStep E s s') (data : Bytes) :
    Agree E (State.InStep E) (reveal env data s) (reveal env' data s') := by
  have hkeeps : ∀ {β : Type} {m : Engine β}, Keeps DataFrame m → Keeps Frame m :=
    fun hm => hm.mono fun _ _ hframe => hframe.toFrame
  unfold reveal
  refine (Agree.inStep h (push_follows data h.toAlike) (hkeeps (push_dataFrame _))
    (hkeeps (push_dataFrame _))).bind fun _ _ _ _ _ h => ?_
  refine (runNext_inStep henv 3 h).bind fun _ _ _ _ _ h => ?_
  refine (Agree.inStep h (pop_follows h.toAlike) (hkeeps pop_dataFrame)
    (hkeeps pop_dataFrame)).bind fun item _ _ _ _ h => ?_
  refine (Agree.inStep h (Follows.require _ h.toAlike) (.require _) (.require _)).bind
    fun _ _ _ _ _ h => ?_
  refine (Agree.inStep h (Follows.lift _ h.toAlike) (.lift _) (.lift _)).bind
    fun cs _ _ _ _ h => ?_
  refine (Agree.inStep h (emit_follows _ _ h.toAlike) (hkeeps (emit_dataFrame _))
    (hkeeps (emit_dataFrame _))).bind fun _ _ _ _ _ h => ?_
  exact appendCommands_inStep h cs

/-! ## All commands -/

theorem runCommand_inStep (henv : Env.Refines E env env') (h : State.InStep E s s') (c : Command) :
    Agree E (State.InStep E) (runCommand env c s) (runCommand env' c s') := by
  cases c with
  | op code => exact runPlain_inStep henv h (.op code)
  | push p =>
    refine (Agree.inStep h (admitPush_follows henv p h.toAlike) (admitPush_keeps p)
      (admitPush_keeps p)).bind fun admitted t t' _ _ h => ?_
    split_ifs
    · rw [get_bind, get_bind, h.pending_eq]
      split_ifs
      · exact reveal_inStep henv h p.data
      · exact .inStep h (push_follows p.data h.toAlike)
          ((push_dataFrame _).mono fun _ _ hframe => hframe.toFrame)
          ((push_dataFrame _).mono fun _ _ hframe => hframe.toFrame)
    · exact .ok () h

theorem checkStackSize_follows : Follows E checkStackSize checkStackSize := by
  refine .get_bind fun s s' h => ?_
  rw [h.alt_eq, h.stack_eq]
  exact .ite (.fail _) (.pure _)

/-- Runs that fetch the same command agree if the states after that are in step and the runs after
such states agree. -/
theorem loop_succ_agree (henv : Env.Refines E env env') {n : ℕ} (hp : s.pending = c :: rest)
    (hp' : s'.pending = c :: rest) (h : State.InStep E (fetched s rest) (fetched s' rest))
    (hloop : ∀ t t', State.InStep E t t' →
      Agree E (State.InStep E) (loop env n t) (loop env' n t')) :
    Agree E (State.InStep E) (loop env (n + 1) s) (loop env' (n + 1) s') := by
  unfold loop
  rw [bind_of_eq_ok (next_cons hp), bind_of_eq_ok (next_cons hp')]
  refine (runCommand_inStep henv h c).bind fun _ t t' _ _ h => ?_
  have hsize : ∀ {s s' : State} {u : Unit}, checkStackSize s = .ok u s' → s' = s :=
    fun hok => (checkStackSize_eq_ok.mp hok).1
  refine (checkStackSize_follows h.toAlike).bind fun _ _ _ ht ht' _ => ?_
  rw [hsize ht, hsize ht']
  exact hloop t t' h

theorem loop_inStep (henv : Env.Refines E env env') (n : ℕ) (h : State.InStep E s s') :
    Agree E (State.InStep E) (loop env n s) (loop env' n s') := by
  induction n generalizing s s' with
  | zero => exact .ok () h
  | succ n ih =>
    cases hp : s.pending with
    | nil =>
      rw [loop_nil hp, loop_nil (h.pending_eq.trans hp)]
      exact .ok () h
    | cons c rest =>
      exact loop_succ_agree henv hp (h.pending_eq.trans hp) (inStep_fetched h rest)
        fun _ _ h => ih h

/-! ## Runs that differ in what comes later -/

/-- Runs agree on their first commands, whatever comes after these, as long as they reveal
nothing. -/
theorem loop_prefix_agree {xs ys ys' : List Command} (henv : Env.Refines E env env')
    (h : State.Alike E s s') (hp : s.pending = xs ++ ys) (hp' : s'.pending = xs ++ ys')
    (hr : Script.RevealsNothingBefore xs ys) (hr' : Script.RevealsNothingBefore xs ys')
    (hstarts : ∀ k < xs.length,
      (s'.position + k ∈ s'.segmentStarts ↔ s.position + k ∈ s.segmentStarts)) :
    Agree E (State.Alike E) (loop env xs.length s) (loop env' xs.length s') := by
  induction xs generalizing s s' with
  | nil => exact .ok () h
  | cons c xs ih =>
    rw [List.cons_append] at hp hp'
    rw [List.length_cons, loop_succ hp, loop_succ hp',
      bind_congr_apply (runCommand_eq_of_revealsNothing (s := fetched s (xs ++ ys)) hr rfl),
      bind_congr_apply (runCommand_eq_of_revealsNothing (s := fetched s' (xs ++ ys')) hr' rfl)]
    have hfetched : State.Alike E (fetched s (xs ++ ys)) (fetched s' (xs ++ ys')) :=
      ⟨⟨⟨h.stack_eq, h.caches_agree⟩, h.alt_eq, h.conditions_eq⟩,
        if_congr (hstarts 0 (Nat.succ_pos _)) rfl h.operations_eq⟩
    refine (runPlain_follows henv c hfetched).bind fun _ t t' hrun hrun' ht => ?_
    have hframe := runPlain_frame c hrun
    have hframe' := runPlain_frame c hrun'
    refine (checkStackSize_follows ht).bind fun _ _ _ hsize hsize' _ => ?_
    obtain ⟨rfl, -⟩ := checkStackSize_eq_ok.mp hsize
    obtain ⟨rfl, -⟩ := checkStackSize_eq_ok.mp hsize'
    refine ih ht hframe.pending_eq hframe'.pending_eq hr.tail hr'.tail fun k hk => ?_
    rw [hframe.position_eq, hframe.segmentStarts_eq, hframe'.position_eq, hframe'.segmentStarts_eq]
    have hnext := hstarts (1 + k) (by rw [List.length_cons]; omega)
    rw [← Nat.add_assoc, ← Nat.add_assoc] at hnext
    exact hnext

end Engine

/-- A part with the commands `cs` begins here and is all that is left. -/
structure State.Begins (s : State) (cs : List Command) : Prop where
  pending_eq : s.pending = cs
  counted : cs ≠ [] → s.position ∈ s.segmentStarts ∨ s.operations = 0
  starts_le : ∀ i ∈ s.segmentStarts, i ≤ s.position

namespace Engine

theorem operations_fetched_of_begins (h : s.Begins (c :: rest)) :
    (fetched s rest).operations = 0 := by
  show (if s.position ∈ s.segmentStarts then 0 else s.operations) = 0
  split_ifs with hmem
  · rfl
  · exact (h.counted (List.cons_ne_nil c rest)).resolve_left hmem

/-- Runs of a part agree, wherever it begins. -/
theorem loop_begins_agree (henv : Env.Refines E env env') (h : State.SameData E s s')
    (hs : s.Begins cs) (hs' : s'.Begins cs) (n : ℕ) :
    Agree E (State.SameData E) (loop env n s) (loop env' n s') := by
  cases cs with
  | nil =>
    rw [loop_nil hs.pending_eq, loop_nil hs'.pending_eq]
    exact .ok () h
  | cons c rest =>
    cases n with
    | zero => exact .ok () h
    | succ n =>
      have hnone : ∀ {s : State} (k : ℕ), s.Begins (c :: rest) →
          ¬(fetched s rest).position + k ∈ (fetched s rest).segmentStarts := by
        intro s k hs hmem
        have hle : s.position + 1 + k ≤ s.position := hs.starts_le _ hmem
        omega
      refine (loop_succ_agree henv hs.pending_eq hs'.pending_eq ⟨⟨⟨⟨h.stack_eq, h.caches_agree⟩,
        h.alt_eq, h.conditions_eq⟩, ?_⟩, rfl, fun k => iff_of_false (hnone k hs') (hnone k hs)⟩
        fun _ _ h => loop_inStep henv n h).mono fun _ _ h => h.toSameData
      rw [operations_fetched_of_begins hs, operations_fetched_of_begins hs']

/-! ## The end of a run -/

/-- How a run ends depends on the items and the open conditionals alone. -/
theorem finish_agree (h : State.SameData E s s') :
    Agree E (State.SameEnd E) (finish s) (finish s') := by
  unfold finish
  rw [get_bind, get_bind, h.conditions_eq, h.stack_eq]
  split_ifs
  · exact .halt _ h.toSameEnd
  · match s.stack with
    | [] => exact .halt _ h.toSameEnd
    | [item] =>
      show Agree E (State.SameEnd E)
        ((if ScriptNumber.truth item then pure () else fail .evalFalse) { s with stack := [] })
        ((if ScriptNumber.truth item then pure () else fail .evalFalse) { s' with stack := [] })
      split_ifs
      · exact .ok () ⟨rfl, h.caches_agree⟩
      · exact .halt _ ⟨rfl, h.caches_agree⟩
    | _ :: _ :: _ => exact .halt _ h.toSameEnd

end Engine

end SpendScript
