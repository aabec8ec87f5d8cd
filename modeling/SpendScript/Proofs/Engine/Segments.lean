import SpendScript.Proofs.Engine.Outcomes
import SpendScript.Proofs.Engine.WellNested

/-!
# Where the parts begin

The parts of a script matter to its limits alone. A run does the same where more parts begin, unless
the run with fewer parts counts too many operations; and where more parts begin, no part is longer.

Results:
* `State.Coarser`: the same state in a run in which fewer parts begin.
* `Engine.Coarsens`: a computation does the same in both, or the coarser run counts too many
  operations; `Coarsens.bind`: so do sequences.
* `Engine.loop_coarsens`: so do runs.
* `Script.SizesAllowed.of_subset`: more parts, each of which is no longer.
* `Script.execute_coarser`: the outcomes of both runs.
-/

namespace SpendScript

/-- Runs of which the second one may count too many operations. -/
def overcounting : Comparison :=
  ⟨fun halt => halt = .error .tooManyOperations, false⟩

/-- The context with another count of operations and with other parts. -/
def Context.regroup (n : ℕ) (starts : List ℕ) (k : Context) : Context :=
  { k with operations := n, segmentStarts := starts }

/-- The second state is the first one, but no part begins that does not begin in the first one, and
at least as many operations have been counted. -/
def State.Coarser (s s' : State) : Prop :=
  ∃ n starts, s' = s.mapContext (Context.regroup n starts) ∧ s.operations ≤ n ∧
    starts ⊆ s.segmentStarts

namespace State.Coarser

variable {s s' : State}

theorem stack_eq (h : s.Coarser s') : s'.stack = s.stack := by
  obtain ⟨n, starts, rfl, -⟩ := h
  rfl

theorem pending_eq (h : s.Coarser s') : s'.pending = s.pending := by
  obtain ⟨n, starts, rfl, -⟩ := h
  rfl

theorem isExecuting_eq (h : s.Coarser s') : s'.isExecuting = s.isExecuting := by
  obtain ⟨n, starts, rfl, -⟩ := h
  rfl

theorem sameData (h : s.Coarser s') : State.SameData overcounting s s' := by
  obtain ⟨n, starts, rfl, -⟩ := h
  exact ⟨⟨rfl, rfl⟩, rfl, rfl⟩

end State.Coarser

namespace Engine

variable {α β : Type} {env : Env} {s s' : State} {c : Command} {rest : List Command}

/-! ## Computations -/

/-- In a coarser run, the computation does the same and leaves a coarser state, or counts too many
operations. -/
def Coarsens (m : Engine α) : Prop :=
  ∀ ⦃s s' : State⦄, s.Coarser s' → Agree overcounting State.Coarser (m s) (m s')

namespace Coarsens

/-- What looks neither at the count nor at the parts does the same. -/
theorem of_ignores {m : Engine α} (h : ∀ n starts, Ignores (Context.regroup n starts) m) :
    Coarsens m := by
  rintro s _ ⟨n, starts, rfl, hn, hstarts⟩
  rw [h n starts s]
  cases hm : m s with
  | error e t => exact .halt e ⟨rfl, rfl⟩
  | ok a t =>
    have hkept := (h s.operations s.segmentStarts).context_eq rfl hm
    have hoperations : t.operations = s.operations := congrArg Context.operations hkept
    have hsegments : t.segmentStarts = s.segmentStarts := congrArg Context.segmentStarts hkept
    exact .ok a ⟨n, starts, rfl, hoperations ▸ hn, hsegments ▸ hstarts⟩

theorem bind {m : Engine α} {f : α → Engine β} (hm : Coarsens m) (hf : ∀ a, Coarsens (f a)) :
    Coarsens (m >>= f) := by
  intro s s' h
  exact (hm h).bind fun a t t' _ _ ht => hf a ht

theorem ite {p : Prop} [Decidable p] {m n : Engine α} (hm : Coarsens m) (hn : Coarsens n) :
    Coarsens (if p then m else n) := by
  split_ifs
  · exact hm
  · exact hn

theorem pure (a : α) : Coarsens (Pure.pure a : Engine α) :=
  of_ignores fun _ _ => .pure a

theorem fail (e : ScriptError) : Coarsens (Engine.fail e : Engine α) :=
  of_ignores fun _ _ => .fail e

/-- A computation that first looks at the state, but neither at the count nor at the parts. -/
theorem get_bind {f : State → Engine α} (hf : ∀ s s', s.Coarser s' → f s' = f s)
    (hcoarsens : ∀ s, Coarsens (f s)) : Coarsens (MonadState.get >>= f) := by
  intro s s' h
  rw [Engine.get_bind, Engine.get_bind, hf s s' h]
  exact hcoarsens s h

end Coarsens

/-- Only the coarser run can count too many operations where the other one does not. -/
theorem count_coarsens (n : ℕ) : Coarsens (count n) := by
  rintro s _ ⟨k, starts, rfl, hk, hstarts⟩
  have hfewer : s.operations + n ≤ k + n := Nat.add_le_add_right hk n
  rw [count_apply, count_apply]
  show Agree _ _ _ (if Limits.operations < k + n then _ else _)
  split_ifs with hfine hcoarse hcoarse
  · exact .halt _ ⟨rfl, rfl⟩
  · omega
  · exact .excused _ rfl
  · exact .ok () ⟨k + n, starts, rfl, hfewer, hstarts⟩

theorem keepsConditions_regroup (n : ℕ) (starts : List ℕ) :
    KeepsConditions (Context.regroup n starts) :=
  fun _ _ => rfl

theorem checkMultiSig_coarsens : Coarsens (checkMultiSig env) :=
  .bind (.of_ignores fun _ _ => popNumber_ignores) fun keyCount => .ite (.fail _) <|
    .ite (.fail _) <| .bind (count_coarsens _) fun _ =>
      .of_ignores fun _ _ => checkCounted_ignores keyCount

theorem perform_coarsens (code : Opcode) (op : Operation) : Coarsens (perform env code op) := by
  cases hop : op.countsKeys with
  | false =>
    refine .of_ignores fun n starts => perform_ignores code (fun _ => ?_) fun hkeys => ?_
    · exact keepsConditions_regroup n starts
    · rw [hop] at hkeys
      cases hkeys
  | true =>
    cases op with
    | checkMultiSig verify =>
      exact .bind checkMultiSig_coarsens fun _ => .of_ignores fun _ _ => conclude_ignores _ _
    | _ => cases hop

theorem runPlain_coarsens (c : Command) : Coarsens (runPlain env c) := by
  cases c with
  | push p =>
    exact .of_ignores fun n starts => .bind (admitPush_ignores (keepsConditions_regroup n starts) p)
      fun _ => .ite (push_ignores _) (.pure _)
  | op code =>
    have hact : Coarsens (do
        let s ← get
        if State.isExecuting s || code.isConditional then
          emit (.executing code s.stack.length)
          perform env code (Operation.ofOpcode code)) := by
      refine .get_bind (fun s s' h => by rw [h.isExecuting_eq, h.stack_eq]) fun s => ?_
      refine .ite (.bind (.of_ignores fun _ _ => emit_ignores _) fun _ => ?_) (.pure _)
      exact perform_coarsens code _
    exact .ite (.fail _) (.ite (.bind (count_coarsens 1) fun _ => hact) hact)

/-! ## Fetching and revealing -/

/-- Where a part begins in the coarser run, it begins in the other one. -/
theorem coarser_fetched (h : s.Coarser s') (rest : List Command) :
    (fetched s rest).Coarser (fetched s' rest) := by
  obtain ⟨n, starts, rfl, hn, hstarts⟩ := h
  refine ⟨if s.position ∈ starts then 0 else n, starts, rfl, ?_, hstarts⟩
  show (if s.position ∈ s.segmentStarts then 0 else s.operations) ≤ _
  split_ifs with hfine hcoarse hcoarse
  · exact Nat.le_refl 0
  · exact Nat.zero_le n
  · exact absurd (hstarts hcoarse) hfine
  · exact hn

theorem runNext_coarsens (n : ℕ) : Coarsens (runNext env n) := by
  induction n with
  | zero => exact .pure ()
  | succ n ih =>
    intro s s' h
    unfold runNext
    cases hp : s.pending with
    | nil =>
      rw [bind_of_eq_ok (next_nil hp), bind_of_eq_ok (next_nil (h.pending_eq.trans hp))]
      exact .ok () h
    | cons c rest =>
      rw [bind_of_eq_ok (next_cons hp), bind_of_eq_ok (next_cons (h.pending_eq.trans hp))]
      exact (runPlain_coarsens c (coarser_fetched h rest)).bind fun _ _ _ _ _ ht => ih ht

/-- A revealed script begins a part in both runs. -/
theorem appendCommands_coarsens (cs : List Command) : Coarsens (appendCommands cs) := by
  rintro s _ ⟨n, starts, rfl, hn, hstarts⟩
  refine .ok () ⟨n, starts ++ [s.position + s.pending.length], rfl, hn, ?_⟩
  exact List.append_subset.mpr ⟨List.subset_append_of_subset_left _ hstarts,
    List.subset_append_right _ _⟩

theorem reveal_coarsens (data : Bytes) : Coarsens (reveal env data) :=
  .bind (.of_ignores fun _ _ => push_ignores data) fun _ => .bind (runNext_coarsens 3) fun _ =>
    .bind (.of_ignores fun _ _ => pop_ignores) fun _ =>
      .bind (.of_ignores fun _ _ => .require _) fun _ =>
        .bind (.of_ignores fun _ _ => .lift _) fun cs =>
          .bind (.of_ignores fun _ _ => emit_ignores _) fun _ => appendCommands_coarsens cs

/-! ## Runs -/

theorem runCommand_coarsens (c : Command) : Coarsens (runCommand env c) := by
  cases c with
  | op code => exact runPlain_coarsens (.op code)
  | push p =>
    refine .bind
      (.of_ignores fun n starts => admitPush_ignores (keepsConditions_regroup n starts) p)
      fun admitted => .ite ?_ (.pure ())
    refine .get_bind (fun s s' h => by rw [h.pending_eq]) fun s => ?_
    exact .ite (reveal_coarsens p.data) (.of_ignores fun _ _ => push_ignores p.data)

theorem loop_coarsens (n : ℕ) : Coarsens (loop env n) := by
  induction n with
  | zero => exact .pure ()
  | succ n ih =>
    intro s s' h
    cases hp : s.pending with
    | nil =>
      rw [loop_nil hp, loop_nil (h.pending_eq.trans hp)]
      exact .ok () h
    | cons c rest =>
      rw [loop_succ hp, loop_succ (h.pending_eq.trans hp)]
      refine Coarsens.bind (runCommand_coarsens c) (fun _ => ?_) (coarser_fetched h rest)
      exact .bind (.of_ignores fun _ _ => checkStackSize_ignores) fun _ => ih

/-! ## Sizes of parts -/

/-- The parts of the coarser list are made of the parts of the other one, in their order. -/
theorem exists_parts_groups {starts starts' : List ℕ} (hsub : starts' ⊆ starts) (i : ℕ)
    (cs : List Command) :
    ∃ groups : List (List (List Command)), (∀ group ∈ groups, group ≠ []) ∧
      parts starts i cs = groups.flatten ∧ parts starts' i cs = groups.map List.flatten := by
  induction cs generalizing i with
  | nil => exact ⟨[], List.forall_mem_nil _, rfl, rfl⟩
  | cons c cs ih =>
    obtain ⟨groups, hne, hfine, hcoarse⟩ := ih (i + 1)
    cases groups with
    | nil =>
      refine ⟨[[[c]]], List.forall_mem_singleton.mpr (List.cons_ne_nil _ _), ?_, ?_⟩
      · rw [parts, hfine]
        rfl
      · rw [parts, hcoarse]
        rfl
    | cons group groups =>
      obtain ⟨hgroup, hgroups⟩ := List.forall_mem_cons.mp hne
      obtain ⟨p, ps, rfl⟩ := List.exists_cons_of_ne_nil hgroup
      rw [parts_cons hfine, parts_cons hcoarse]
      by_cases hi : i + 1 ∈ starts'
      · rw [if_pos hi, if_pos (hsub hi)]
        exact ⟨[[c]] :: (p :: ps) :: groups,
          List.forall_mem_cons.mpr ⟨List.cons_ne_nil _ _, hne⟩, rfl, rfl⟩
      · rw [if_neg hi]
        split_ifs
        · exact ⟨([c] :: p :: ps) :: groups,
            List.forall_mem_cons.mpr ⟨List.cons_ne_nil _ _, hgroups⟩, rfl, rfl⟩
        · exact ⟨((c :: p) :: ps) :: groups,
            List.forall_mem_cons.mpr ⟨List.cons_ne_nil _ _, hgroups⟩, rfl, rfl⟩

end Engine

theorem Command.totalLength_le_of_mem {part : List Command} {group : List (List Command)}
    (h : part ∈ group) : totalLength part ≤ totalLength group.flatten := by
  obtain ⟨before, after, rfl⟩ := List.append_of_mem h
  rw [List.flatten_append, List.flatten_cons, totalLength_append, totalLength_append]
  omega

namespace Script

variable {s s' : Script} {env : Env} {cache : SigCache}

/-- Where more parts begin, the parts are no longer. -/
theorem SizesAllowed.of_subset (h : s'.SizesAllowed) (hcommands : s'.commands = s.commands)
    (hstarts : s'.segmentStarts ⊆ s.segmentStarts) : s.SizesAllowed := by
  obtain ⟨groups, -, hfine, hcoarse⟩ := Engine.exists_parts_groups hstarts 0 s.commands
  intro part hpart
  rw [parts, hfine] at hpart
  obtain ⟨group, hgroup, hmem⟩ := List.mem_flatten.mp hpart
  refine Nat.le_trans (Command.totalLength_le_of_mem hmem) (h _ ?_)
  rw [parts, hcommands, hcoarse]
  exact List.mem_map_of_mem hgroup

/-- Scripts with no part that is too long, or no commands at all, are run. -/
theorem sizesAllowed_of_result
    (h : ∀ size, (s.execute env cache).result ≠ .error (.error (.scriptTooBig size))) :
    s.SizesAllowed := by
  rw [← oversize?_eq_none, Option.eq_none_iff_forall_not_mem]
  intro size hsize
  have hne : s.commands ≠ [] := by
    intro hnil
    rw [oversize?, parts, hnil] at hsize
    cases hsize
  refine h size ?_
  rw [execute, Engine.run_start, if_neg hne, Option.mem_def.mp hsize]

/-- A run in which more parts begin shows the same, unless the run with fewer parts counts too many
operations. -/
theorem execute_coarser (env : Env) (cache : SigCache) (hcommands : s'.commands = s.commands)
    (hstarts : s'.segmentStarts ⊆ s.segmentStarts) (hsizes : s'.SizesAllowed) :
    (s.execute env cache).observed = (s'.execute env cache).observed ∨
      (s'.execute env cache).result = .error (.error .tooManyOperations) := by
  have hcoarser : (State.start s cache).Coarser (State.start s' cache) := by
    refine ⟨0, s'.segmentStarts, ?_, Nat.le_refl 0, hstarts⟩
    show State.mk [] [] [] 0 0 s'.commands s'.segmentStarts cache [] = _
    rw [hcommands]
    rfl
  have hagree : Engine.Agree overcounting (State.SameEnd overcounting)
      (Engine.run env (State.start s cache)) (Engine.run env (State.start s' cache)) := by
    rw [Engine.run_start, Engine.run_start, hcommands,
      oversize?_eq_none.mpr hsizes, oversize?_eq_none.mpr (hsizes.of_subset hcommands hstarts),
      byteLength, byteLength, hcommands]
    split_ifs
    · exact .halt _ hcoarser.sameData.toSameEnd
    · exact (Engine.loop_coarsens _ hcoarser).bind fun _ _ _ _ _ h => Engine.finish_agree h.sameData
  rcases execute_of_agree hagree with ⟨hobserved, -⟩ | ⟨_, rfl, hresult⟩
  · exact .inl hobserved.symm
  · exact .inr hresult

/-- Two scripts with the same commands end alike, wherever their parts begin, if neither run is
stopped by a limit that depends on the parts. -/
theorem observed_of_sameCommands (hcommands : s'.commands = s.commands)
    (hsizes : s.SizesAllowed) (hsizes' : s'.SizesAllowed)
    (hcount : (s.execute env cache).result ≠ .error (.error .tooManyOperations))
    (hcount' : (s'.execute env cache).result ≠ .error (.error .tooManyOperations)) :
    (s'.execute env cache).observed = (s.execute env cache).observed := by
  -- Both are coarser than the script in which the parts of both begin.
  obtain ⟨union, hunion, hstarts, hstarts'⟩ : ∃ union : Script, s.commands = union.commands ∧
      s.segmentStarts ⊆ union.segmentStarts ∧ s'.segmentStarts ⊆ union.segmentStarts :=
    ⟨⟨s.commands, s.segmentStarts ++ s'.segmentStarts⟩, rfl, List.subset_append_left _ _,
      List.subset_append_right _ _⟩
  have hleft := (execute_coarser env cache hunion hstarts hsizes).resolve_right hcount
  have hright := (execute_coarser env cache (hcommands.trans hunion) hstarts'
    hsizes').resolve_right hcount'
  exact hright.symm.trans hleft

end Script

end SpendScript
