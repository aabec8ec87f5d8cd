import SpendScript.Proofs.Engine.Opcodes
import SpendScript.Proofs.Engine.WellNested

/-!
# Flat runs of well-nested commands

A run of the flat list, which keeps the open conditionals on a stack of their own, is a run of the
tree by recursion.

Results:
* `Engine.Same`: results that are equal, up to the conditionals that a failure leaves open.
* `Engine.runPlain_executing`, `Engine.runPlain_skipping`: a plain command in a part that is run and
  in one that is skipped.
* `Engine.Same.step`, `Engine.Passes`: one step of both runs, and what it leaves.
* `WellNested.loop_skip`, `WellNested.loop_run`: a flat run in such a part, by induction on the tree,
  with what comes after the tree as a continuation of both runs.
* `WellNested.runsAsTree`: both results are the same, and what skipped parts can do.
-/

namespace SpendScript.Engine

variable {env : Env} {s t : State} {code : Opcode} {c : Command} {rest : List Command}

/-! ## Results -/

/-- Equal results; where both fail, different conditionals may be left open. -/
inductive Same : EStateM.Result Halt State Unit → EStateM.Result Halt State Unit → Prop
  | ok (t : State) : Same (.ok () t) (.ok () t)
  | error (e : Halt) (t : State) (conditions : List Condition) :
      Same (.error e (t.withConditions conditions)) (.error e t)

/-! ## Plain commands -/

theorem isConditional_iff : code.isConditional = true ↔
    code = 0x63 ∨ code = 0x64 ∨ code = 0x65 ∨ code = 0x66 ∨ code = 0x67 ∨ code = 0x68 := by
  simp only [Opcode.isConditional, Opcode.ifTrue, Opcode.endIf, decide_eq_true_eq,
    UInt8.le_iff_toNat_le, ← UInt8.toNat_inj, UInt8.reduceToNat]
  omega

/-- Of the opcodes that are executed in skipped parts, those that are not part of a conditional are
refused. -/
theorem isConditional_of_plain (h : (Command.op code).isConditional = false) :
    code.isConditional = isReservedBranch code := by
  cases hc : code.isConditional with
  | true =>
    rcases isConditional_iff.mp hc with rfl | rfl | rfl | rfl | rfl | rfl
    · cases h
    · cases h
    · rfl
    · rfl
    · cases h
    · cases h
  | false =>
    rw [eq_comm, ← Bool.not_eq_true, isReservedBranch]
    simp only [Bool.or_eq_true, beq_iff_eq]
    rintro (rfl | rfl)
    · cases hc
    · cases hc

theorem ofOpcode_of_isReservedBranch (h : isReservedBranch code = true) :
    Operation.ofOpcode code = .reserved := by
  simp only [isReservedBranch, Bool.or_eq_true, beq_iff_eq] at h
  rcases h with rfl | rfl
  · rfl
  · rfl

/-- After the checks in front of an opcode, the open conditionals are the same. -/
theorem runOpcode_congr {n : Engine Unit} (h : ∀ t : State, t.conditions = s.conditions →
      (do
        let s ← get
        if State.isExecuting s || code.isConditional then
          emit (.executing code s.stack.length)
          perform env code (Operation.ofOpcode code)) t = n t) :
    runOpcode env code s =
      (if code.isDisabled then fail (.disabledOpcode code)
      else if code.isCounted then count 1 >>= fun _ => n else n) s := by
  unfold runOpcode
  split_ifs
  · rfl
  · refine bind_congr_of_ok fun _ t hcount => h t ?_
    exact (count_blind 1).conditions_eq hcount
  · exact h s rfl

theorem isExecuting_congr (h : t.conditions = s.conditions) : t.isExecuting = s.isExecuting := by
  unfold State.isExecuting
  rw [h]

theorem runPlain_executing (hexec : s.isExecuting = true) (c : Command) :
    runPlain env c s = execute env c s := by
  cases c with
  | push p =>
    rw [runPlain, execute]
    unfold admitPush
    by_cases hsize : Limits.elementSize < p.data.length
    · rw [if_pos hsize, if_pos hsize]
      rfl
    rw [if_neg hsize, if_neg hsize]
    show ((if !s.isExecuting then pure false else if env.flags.minimalData && !p.isMinimal then
      fail (.pushNotMinimal p.data p.encoding) else pure true) >>= fun admitted =>
        if admitted then push p.data else pure ()) s = _
    rw [hexec, if_neg (show ¬(!true) = true from Bool.false_ne_true)]
    split_ifs
    · rfl
    · rfl
  | op code =>
    refine runOpcode_congr fun t ht => ?_
    rw [get_bind, if_pos (by rw [isExecuting_congr ht, hexec]; rfl)]
    rfl

/-- A plain command leaves the commands to come alone. -/
theorem pending_of_execute (h : c.isConditional = false) (hrun : execute env c s = .ok () t) :
    t.pending = s.pending := by
  have hblind : execute env c (s.withConditions []) =
      mapState (State.withConditions []) (execute env c s) := execute_blind h s []
  rw [hrun, ← runPlain_executing (s := s.withConditions []) rfl] at hblind
  exact (runPlain_frame c hblind).pending_eq

theorem runPlain_skipping (hskip : s.isExecuting = false) (h : c.isConditional = false) :
    runPlain env c s = skip c s := by
  cases c with
  | push p =>
    rw [runPlain, skip]
    unfold admitPush
    by_cases hsize : Limits.elementSize < p.data.length
    · rw [if_pos hsize, if_pos hsize]
      rfl
    rw [if_neg hsize, if_neg hsize]
    show ((if !s.isExecuting then pure false else if env.flags.minimalData && !p.isMinimal then
      fail (.pushNotMinimal p.data p.encoding) else pure true) >>= fun admitted =>
        if admitted then push p.data else pure ()) s = _
    rw [hskip]
    rfl
  | op code =>
    refine runOpcode_congr fun t ht => ?_
    rw [get_bind, isExecuting_congr ht, hskip, Bool.false_or, isConditional_of_plain h]
    unfold refuseReserved
    split_ifs with hreserved
    · rw [ofOpcode_of_isReservedBranch hreserved]
      rfl
    · rfl

/-! ## Steps of both runs -/

/-- Both runs do the same step; the flat one has conditionals open of which the step knows
nothing. -/
theorem Same.step {α : Type} {m : Engine α} (hm : Blind m) {f g : α → Engine Unit}
    {conditions : List Condition}
    (h : ∀ a u, m s = .ok a u → Same (f a (u.withConditions conditions)) (g a u)) :
    Same ((m >>= f) (s.withConditions conditions)) ((m >>= g) s) := by
  have hs := hm s conditions
  cases hr : m s with
  | ok a u =>
    rw [hr] at hs
    rw [bind_of_eq_ok hs, bind_of_eq_ok hr]
    exact h a u hr
  | error e u =>
    rw [hr] at hs
    rw [bind_of_eq_error hs, bind_of_eq_error hr]
    exact .error e u conditions

/-- The stacks are small enough. -/
def Within (s : State) : Prop :=
  s.alt.length + s.stack.length ≤ Limits.stackSize

theorem checkStackSize_bind (h : Within s) (conditions : List Condition) (m : Engine Unit) :
    (checkStackSize >>= fun _ => m) (s.withConditions conditions) =
      m (s.withConditions conditions) :=
  bind_of_eq_ok (checkStackSize_eq_ok.mpr ⟨rfl, h⟩)

theorem within_of_sameItems (h : s.SameItems t) (hs : Within s) : Within t := by
  unfold Within
  rw [h.alt_eq, h.stack_eq]
  exact hs

/-- Where nothing is revealed, a step of the flat run passes a plain command, runs it and looks at
the size of the stacks. -/
theorem loop_plain {n : ℕ} {xs ys : List Command} {m : Engine Unit} {conditions : List Condition}
    (hm : ∀ t : State, t.conditions = conditions → runPlain env c t = m t)
    (hp : s.pending = c :: xs ++ ys) (hr : Script.RevealsNothingBefore (c :: xs) ys) :
    loop env (n + 1) (s.withConditions conditions) =
      (advance >>= fun _ => m >>= fun _ => checkStackSize >>= fun _ => loop env n)
        (s.withConditions conditions) := by
  have hp' : (s.withConditions conditions).pending = c :: (xs ++ ys) := hp
  have hadvance : advance (s.withConditions conditions) =
      .ok () (fetched (s.withConditions conditions) (xs ++ ys)) := by
    show EStateM.Result.ok () (fetched _ (s.withConditions conditions).pending.tail) = _
    rw [hp']
    rfl
  have hrun : runCommand env c (fetched (s.withConditions conditions) (xs ++ ys)) =
      m (fetched (s.withConditions conditions) (xs ++ ys)) :=
    (runCommand_eq_of_revealsNothing hr rfl).trans (hm _ rfl)
  rw [loop_succ hp', bind_of_eq_ok hadvance]
  exact bind_congr_apply hrun

/-- The opcodes of conditionals are counted and executed in every part. -/
theorem loop_branch {n : ℕ} (hcode : code.isConditional = true)
    (hp : s.pending = .op code :: rest) :
    loop env (n + 1) s = (enter code >>= fun _ => perform env code (Operation.ofOpcode code) >>=
      fun _ => checkStackSize >>= fun _ => loop env n) s := by
  obtain ⟨hdisabled, hcounted⟩ := isCounted_of_isConditional hcode
  have hadvance : advance s = .ok () (fetched s rest) := by
    show EStateM.Result.ok () (fetched s s.pending.tail) = _
    rw [hp]
    rfl
  have hrun : runOpcode env code (fetched s rest) =
      (count 1 >>= fun _ => (do emit (.executing code (← get).stack.length)) >>=
        fun _ => perform env code (Operation.ofOpcode code)) (fetched s rest) := by
    rw [runOpcode_congr fun t _ => ?_, if_neg (by rw [hdisabled]; exact Bool.false_ne_true),
      if_pos hcounted]
    rw [get_bind, if_pos (by rw [hcode, Bool.or_true])]
    rfl
  rw [loop_succ hp, enter, bind_assoc, bind_of_eq_ok hadvance]
  refine (bind_congr_apply hrun).trans ?_
  simp only [bind_assoc]

/-- What a step of the tree leaves: the commands to come, the conditionals around it, and stacks
that are small enough. -/
structure Passes (rest : List Command) (s t : State) : Prop where
  pending_eq : t.pending = rest
  conditions_eq : t.conditions = s.conditions
  within : Within s → Within t

theorem Passes.trans {rest' : List Command} {u : State} (h : Passes rest s t)
    (h' : Passes rest' t u) : Passes rest' s u :=
  ⟨h'.pending_eq, h'.conditions_eq.trans h.conditions_eq, fun hs => h'.within (h.within hs)⟩

theorem passes_of_skipped {cs rest : List Command} {r : EStateM.Result Halt State Unit}
    (h : Skipped cs s r) (hr : r = .ok () t) (hp : s.pending = cs ++ rest) : Passes rest s t := by
  subst hr
  cases h with
  | ok h hpending =>
    refine ⟨?_, h.conditions_eq, within_of_sameItems h⟩
    rw [hpending, hp, List.drop_left]

/-! ## Opening, dividing and closing -/

section

variable {n : ℕ} {k : Engine Unit} {conditions conditions' : List Condition}

/-- An opcode of a conditional that leaves the same conditionals wherever it finds the given ones is
passed by the tree, which knows them. -/
theorem loop_change (hcode : code.isConditional = true)
    (hperform : ∀ u : State,
      perform env code (Operation.ofOpcode code) (u.withConditions conditions) =
        .ok () (u.withConditions conditions'))
    (hs : Within s) (hp : s.pending = .op code :: rest)
    (hk : ∀ u, Passes rest s u → Same (loop env n (u.withConditions conditions')) (k u)) :
    Same (loop env (n + 1) (s.withConditions conditions)) ((enter code >>= fun _ => k) s) := by
  rw [loop_branch hcode (s := s.withConditions conditions) hp]
  refine .step (enter_blind _) fun _ u hu => ?_
  have hpasses : Passes rest s u :=
    passes_of_skipped (skipped_enter (isCounted_of_isConditional hcode).2 s) hu hp
  rw [bind_of_eq_ok (hperform u), checkStackSize_bind (hpasses.within hs)]
  exact hk u hpasses

/-- After `OP_ELSE` the next part is run if this one was skipped, and the other way round. -/
theorem loop_divide (condition : Condition) (hs : Within s)
    (hp : s.pending = .op Opcode.otherwise :: rest)
    (hk : ∀ u, Passes rest s u →
      Same (loop env n (u.withConditions (condition.switch :: conditions))) (k u)) :
    Same (loop env (n + 1) (s.withConditions (condition :: conditions)))
      ((enter Opcode.otherwise >>= fun _ => k) s) :=
  loop_change rfl (fun _ => rfl) hs hp hk

/-- `OP_ENDIF` leaves the conditionals around the block. -/
theorem loop_close (condition : Condition) (hs : Within s)
    (hp : s.pending = .op Opcode.endIf :: rest)
    (hk : ∀ u, Passes rest s u → Same (loop env n (u.withConditions conditions)) (k u)) :
    Same (loop env (n + 1) (s.withConditions (condition :: conditions)))
      ((enter Opcode.endIf >>= fun _ => k) s) :=
  loop_change rfl (fun _ => rfl) hs hp hk

/-- The two opcodes that open a block differ in whether the condition is negated. -/
theorem perform_opening (negated : Bool) :
    perform env (Opcode.opening negated) (Operation.ofOpcode (Opcode.opening negated)) =
      openBranch env negated := by
  cases negated <;> rfl

theorem isConditional_opening (negated : Bool) : (Opcode.opening negated).isConditional = true := by
  cases negated <;> rfl

/-- A block in a skipped part is skipped as a whole. -/
theorem loop_open_skip (negated : Bool) (hskip : (s.withConditions conditions).isExecuting = false)
    (hs : Within s) (hp : s.pending = .op (Opcode.opening negated) :: rest)
    (hk : ∀ u, Passes rest s u →
      Same (loop env n (u.withConditions (.skipped :: conditions))) (k u)) :
    Same (loop env (n + 1) (s.withConditions conditions))
      ((enter (Opcode.opening negated) >>= fun _ => k) s) := by
  refine loop_change (isConditional_opening negated) (fun u => ?_) hs hp hk
  rw [perform_opening, openBranch, get_bind, if_neg]
  · rfl
  · rw [isExecuting_congr (t := u.withConditions conditions) (s := s.withConditions conditions) rfl,
      hskip]
    exact Bool.false_ne_true

/-- A block in a part that is run takes its condition off the stack. -/
theorem loop_open_run (negated : Bool) (hexec : (s.withConditions conditions).isExecuting = true)
    (hp : s.pending = .op (Opcode.opening negated) :: rest) {k : Bool → Engine Unit}
    (hk : ∀ holds u, Passes rest s u → Within u →
      Same (loop env n (u.withConditions
        ((if holds != negated then .taken else .notTaken) :: conditions))) (k holds u)) :
    Same (loop env (n + 1) (s.withConditions conditions))
      ((enter (Opcode.opening negated) >>= fun _ => popCondition env >>= fun holds =>
        checkStackSize >>= fun _ => k holds) s) := by
  rw [loop_branch (isConditional_opening negated) (s := s.withConditions conditions) hp,
    perform_opening]
  refine .step (enter_blind _) fun _ u hu => ?_
  have hpasses := passes_of_skipped (skipped_enter (Opcode.isCounted_opening negated) s) hu hp
  have hopen : openBranch env negated (u.withConditions conditions) =
      (popCondition env >>= fun holds => modify fun t => t.withConditions
        ((if holds != negated then .taken else .notTaken) :: t.conditions))
          (u.withConditions conditions) := by
    unfold openBranch
    rw [get_bind, if_pos (by rw [isExecuting_congr (t := u.withConditions conditions)
      (s := s.withConditions conditions) rfl, hexec])]
    rfl
  rw [bind_congr_apply hopen, bind_assoc]
  refine .step popCondition_blind fun holds v hv => ?_
  refine .step (s := v) checkStackSize_blind fun _ w hw => ?_
  obtain ⟨rfl, hwithin⟩ := checkStackSize_eq_ok.mp hw
  refine hk holds w ⟨?_, ?_, fun _ => hwithin⟩ hwithin
  · exact (popCondition_dataFrame hv).pending_eq.trans hpasses.pending_eq
  · exact (popCondition_blind.conditions_eq hv).trans hpasses.conditions_eq

end

end SpendScript.Engine

namespace SpendScript

open Engine

open Script (RevealsNothingBefore)

variable {env : Env}

/-! ## Skipped parts -/

mutual

/-- In a skipped part, the flat run skips the tree. -/
theorem WellNested.loop_skip : ∀ (p : WellNested) {s : State} {n : ℕ} {k : Engine Unit}
    {conditions : List Condition} {rest : List Command},
    (s.withConditions conditions).isExecuting = false → Within s →
    s.pending = p.commands ++ rest → RevealsNothingBefore p.commands rest →
    (∀ u, Passes rest s u → Same (loop env n (u.withConditions conditions)) (k u)) →
    Same (loop env (p.commands.length + n) (s.withConditions conditions))
      ((p.skip >>= fun _ => k) s)
  | .nil, s, n, k, conditions, rest, _, _, hp, _, hk => by
    rw [show WellNested.nil.commands.length + n = n from Nat.zero_add n]
    exact hk s ⟨hp, rfl, id⟩
  | .plain c hc tail, s, n, k, conditions, rest, hskip, hs, hp, hr, hk => by
    have hm : ∀ t : State, t.conditions = conditions → runPlain env c t = Engine.skip c t :=
      fun t ht => runPlain_skipping
        ((isExecuting_congr (s := s.withConditions conditions) ht).trans hskip) hc
    rw [show (WellNested.plain c hc tail).commands.length + n = tail.commands.length + n + 1 from
      Nat.add_right_comm _ _ _, loop_plain hm hp hr, WellNested.skip]
    simp only [bind_assoc]
    refine .step advance_blind fun _ t ht => .step (skip_blind c) fun _ u hu => ?_
    have hpasses := passes_of_skipped (skipped_plain c s) ((bind_of_eq_ok ht).trans hu) hp
    rw [checkStackSize_bind (hpasses.within hs)]
    exact tail.loop_skip hskip (hpasses.within hs) hpasses.pending_eq hr.tail fun v hv =>
      hk v (hpasses.trans hv)
  | .block negated parts tail, s, n, k, conditions, rest, hskip, hs, hp, hr, hk => by
    have hp' : s.pending = .op (Opcode.opening negated) ::
        (parts.commands ++ (tail.commands ++ rest)) := by
      rw [hp, WellNested.commands, List.cons_append, List.append_assoc]
    have hlength : (WellNested.block negated parts tail).commands.length + n =
        parts.commands.length + (tail.commands.length + n) + 1 := by
      rw [WellNested.commands, List.length_cons, List.length_append]
      omega
    rw [hlength, WellNested.skip]
    simp only [bind_assoc]
    refine loop_open_skip negated hskip hs hp' fun u hu => ?_
    refine parts.loop_skip (hu.within hs) hu.pending_eq hr.tail.append_left fun v hv => ?_
    exact tail.loop_skip hskip (hv.within (hu.within hs)) hv.pending_eq hr.tail.append_right
      fun w hw => hk w (hu.trans (hv.trans hw))

/-- A block in a skipped part is skipped, and its end leaves the part as it was. -/
theorem Parts.loop_skip : ∀ (p : Parts) {s : State} {n : ℕ} {k : Engine Unit}
    {conditions : List Condition} {rest : List Command}, Within s →
    s.pending = p.commands ++ rest → RevealsNothingBefore p.commands rest →
    (∀ u, Passes rest s u → Same (loop env n (u.withConditions conditions)) (k u)) →
    Same (loop env (p.commands.length + n) (s.withConditions (.skipped :: conditions)))
      ((p.skip >>= fun _ => k) s)
  | .last part, s, n, k, conditions, rest, hs, hp, hr, hk => by
    rw [Parts.commands, List.append_assoc] at hp
    rw [Parts.commands, List.length_append, Nat.add_assoc, Parts.skip, bind_assoc]
    refine part.loop_skip rfl hs hp hr.append_left fun u hu => ?_
    rw [show [Command.op Opcode.endIf].length + n = n + 1 from Nat.add_comm 1 n]
    exact loop_close .skipped (hu.within hs) hu.pending_eq fun v hv => hk v (hu.trans hv)
  | .cons part parts, s, n, k, conditions, rest, hs, hp, hr, hk => by
    rw [Parts.commands, List.append_assoc] at hp
    rw [Parts.commands, List.length_append, Nat.add_assoc, Parts.skip, bind_assoc]
    refine part.loop_skip rfl hs hp hr.append_left fun u hu => ?_
    rw [show (Command.op Opcode.otherwise :: parts.commands).length + n =
      parts.commands.length + n + 1 from Nat.add_right_comm _ _ _, bind_assoc]
    refine loop_divide .skipped (hu.within hs) hu.pending_eq fun v hv => ?_
    exact parts.loop_skip (hv.within (hu.within hs)) hv.pending_eq hr.append_right.tail
      fun w hw => hk w (hu.trans (hv.trans hw))

end

/-! ## Parts that are run -/

mutual

/-- In a part that is run, the flat run runs the tree. -/
theorem WellNested.loop_run : ∀ (p : WellNested) {s : State} {n : ℕ} {k : Engine Unit}
    {conditions : List Condition} {rest : List Command},
    (s.withConditions conditions).isExecuting = true →
    s.pending = p.commands ++ rest → RevealsNothingBefore p.commands rest →
    (∀ u, Passes rest s u → Same (loop env n (u.withConditions conditions)) (k u)) →
    Same (loop env (p.commands.length + n) (s.withConditions conditions))
      ((p.run env >>= fun _ => k) s)
  | .nil, s, n, k, conditions, rest, _, hp, _, hk => by
    rw [show WellNested.nil.commands.length + n = n from Nat.zero_add n]
    exact hk s ⟨hp, rfl, id⟩
  | .plain c hc tail, s, n, k, conditions, rest, hexec, hp, hr, hk => by
    have hm : ∀ t : State, t.conditions = conditions → runPlain env c t = execute env c t :=
      fun t ht => runPlain_executing
        ((isExecuting_congr (s := s.withConditions conditions) ht).trans hexec) c
    rw [show (WellNested.plain c hc tail).commands.length + n = tail.commands.length + n + 1 from
      Nat.add_right_comm _ _ _, loop_plain hm hp hr, WellNested.run]
    simp only [bind_assoc]
    refine .step advance_blind fun _ t ht => .step (execute_blind hc) fun _ u hu =>
      .step checkStackSize_blind fun _ v hv => ?_
    obtain ⟨rfl, hwithin⟩ := checkStackSize_eq_ok.mp hv
    have hpasses : Passes (tail.commands ++ rest) s v := by
      refine ⟨?_, ?_, fun _ => hwithin⟩
      · rw [pending_of_execute hc hu]
        cases ht
        exact congrArg List.tail hp
      · rw [(execute_blind hc).conditions_eq hu, advance_blind.conditions_eq ht]
    exact tail.loop_run hexec hpasses.pending_eq hr.tail fun w hw => hk w (hpasses.trans hw)
  | .block negated parts tail, s, n, k, conditions, rest, hexec, hp, hr, hk => by
    have hp' : s.pending = .op (Opcode.opening negated) ::
        (parts.commands ++ (tail.commands ++ rest)) := by
      rw [hp, WellNested.commands, List.cons_append, List.append_assoc]
    have hlength : (WellNested.block negated parts tail).commands.length + n =
        parts.commands.length + (tail.commands.length + n) + 1 := by
      rw [WellNested.commands, List.length_cons, List.length_append]
      omega
    rw [hlength, WellNested.run]
    simp only [bind_assoc]
    refine loop_open_run negated hexec hp' fun holds u hu hwithin => ?_
    refine parts.loop_run (holds != negated) hwithin hu.pending_eq hr.tail.append_left
      fun v hv => ?_
    exact tail.loop_run hexec hv.pending_eq hr.tail.append_right
      fun w hw => hk w (hu.trans (hv.trans hw))

/-- Of the parts of a block, the flat run runs the selected one and every other one after it, and
skips the rest. -/
theorem Parts.loop_run : ∀ (p : Parts) (selected : Bool) {s : State} {n : ℕ} {k : Engine Unit}
    {conditions : List Condition} {rest : List Command}, Within s →
    s.pending = p.commands ++ rest → RevealsNothingBefore p.commands rest →
    (∀ u, Passes rest s u → Same (loop env n (u.withConditions conditions)) (k u)) →
    Same (loop env (p.commands.length + n)
        (s.withConditions ((if selected then .taken else .notTaken) :: conditions)))
      ((p.run env selected >>= fun _ => k) s)
  | .last part, selected, s, n, k, conditions, rest, hs, hp, hr, hk => by
    rw [Parts.commands, List.append_assoc] at hp
    rw [Parts.commands, List.length_append, Nat.add_assoc, Parts.run,
      show [Command.op Opcode.endIf].length + n = n + 1 from Nat.add_comm 1 n]
    have hend : ∀ c u, Passes ([.op Opcode.endIf] ++ rest) s u →
        Same (loop env (n + 1) (u.withConditions (c :: conditions)))
          ((enter Opcode.endIf >>= fun _ => k) u) :=
      fun c u hu => loop_close c (hu.within hs) hu.pending_eq fun v hv => hk v (hu.trans hv)
    cases selected with
    | true =>
      rw [if_pos rfl, if_pos rfl, bind_assoc]
      exact part.loop_run rfl hp hr.append_left (hend .taken)
    | false =>
      rw [if_neg Bool.false_ne_true, if_neg Bool.false_ne_true, bind_assoc]
      exact part.loop_skip rfl hs hp hr.append_left (hend .notTaken)
  | .cons part parts, selected, s, n, k, conditions, rest, hs, hp, hr, hk => by
    rw [Parts.commands, List.append_assoc] at hp
    rw [Parts.commands, List.length_append, Nat.add_assoc, Parts.run,
      show (Command.op Opcode.otherwise :: parts.commands).length + n =
        parts.commands.length + n + 1 from Nat.add_right_comm _ _ _]
    have hparts := hr.append_right.tail
    cases selected with
    | true =>
      rw [if_pos rfl, if_pos rfl, bind_assoc]
      refine part.loop_run rfl hp hr.append_left fun u hu => ?_
      rw [bind_assoc]
      refine loop_divide .taken (hu.within hs) hu.pending_eq fun v hv => ?_
      exact parts.loop_run false (hv.within (hu.within hs)) hv.pending_eq hparts
        fun w hw => hk w (hu.trans (hv.trans hw))
    | false =>
      rw [if_neg Bool.false_ne_true, if_neg Bool.false_ne_true, bind_assoc]
      refine part.loop_skip rfl hs hp hr.append_left fun u hu => ?_
      rw [bind_assoc]
      refine loop_divide .notTaken (hu.within hs) hu.pending_eq fun v hv => ?_
      exact parts.loop_run true (hv.within (hu.within hs)) hv.pending_eq hparts
        fun w hw => hk w (hu.trans (hv.trans hw))

end

/-- The flat run of well-nested commands, from any state that executes, is the run of their tree:
both return in the same state, or fail with the same error in states that differ at most in the
open conditionals. And a skipped tree leaves the stacks alone, counts its operations, and fails
only at a disabled opcode, at `OP_VERIF` or `OP_VERNOTIF`, at a push that is too big, or at the
limit of operations. -/
theorem WellNested.runsAsTree (p : WellNested) {s : State} {rest : List Command}
    (hexec : s.isExecuting = true) (hp : s.pending = p.commands ++ rest)
    (hr : RevealsNothingBefore p.commands rest) :
    Same (loop env p.commands.length s) (p.run env s) ∧
      ∀ t, Skipped p.commands t (p.skip t) := by
  refine ⟨?_, p.skipped⟩
  have h : Same (loop env (p.commands.length + 0) (s.withConditions s.conditions))
      ((p.run env >>= fun _ => pure ()) s) :=
    p.loop_run hexec hp hr fun u hu => by
      rw [← hu.conditions_eq]
      exact .ok u
  rw [bind_pure_unit] at h
  exact h

/-- A true condition, a part that pushes two, and a part that would verify it. -/
def WellNested.choice : WellNested :=
  .plain (.push ⟨[1], .direct, by decide⟩) rfl
    (.block false
      (.cons (.plain (.push ⟨[2], .direct, by decide⟩) rfl .nil) (.last (.plain (.op 0x69) rfl .nil)))
      .nil)

theorem WellNested.runsAsTree_choice :
    ∃ t, loop ⟨0, .default⟩ choice.commands.length
        (State.start (.ofCommands (choice.commands ++ [.op 0x61])) Script.noCache) = .ok () t ∧
      choice.run ⟨0, .default⟩
        (State.start (.ofCommands (choice.commands ++ [.op 0x61])) Script.noCache) = .ok () t ∧
      t.stack = [[2]] := by
  generalize hs : State.start (.ofCommands (choice.commands ++ [.op 0x61])) Script.noCache = s
  have hpending : s.pending = choice.commands ++ [.op 0x61] := by
    rw [← hs]
    rfl
  have hboth : Same (loop ⟨0, .default⟩ choice.commands.length s) (choice.run ⟨0, .default⟩ s) ∧
      ∀ t, Skipped choice.commands t (choice.skip t) :=
    choice.runsAsTree (by rw [← hs]; rfl) hpending
      (.of_shields (Script.shields_append_op [] (by decide)) _)
  have hrun : ∃ t, choice.run ⟨0, .default⟩ s = .ok () t ∧ t.stack = [[2]] := by
    rw [← hs]
    exact ⟨_, rfl, rfl⟩
  obtain ⟨t, ht, hstack⟩ := hrun
  have hsame := hboth.1
  rw [ht] at hsame
  generalize loop ⟨0, .default⟩ choice.commands.length s = r at hsame
  cases hsame with
  | ok => exact ⟨t, rfl, ht, hstack⟩

end SpendScript
