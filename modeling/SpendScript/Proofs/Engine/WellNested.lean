import SpendScript.Proofs.Engine.Blind
import SpendScript.Proofs.Engine.Loop

/-!
# Well-nested commands

A list of commands in which every conditional is closed is a tree: plain commands and blocks, each
block with parts that are run or skipped in turn. The tree is run by recursion, without a list of
open conditionals.

Results:
* `WellNested`, `Parts`: the trees; `WellNested.commands`: the list.
* `WellNested.run`, `WellNested.skip`: running and skipping, by recursion on the tree.
* `Engine.execute_blind`, `Engine.skip_blind`: conditionals around a command make no difference.
* `WellNested.skipped`: skipping leaves both stacks alone, counts operations, and fails only for the
  reasons that `SkipError` lists.
-/

namespace SpendScript

/-! ## Trees -/

mutual

/-- Plain commands and closed conditionals, one after the other. -/
inductive WellNested where
  | nil
  | plain (c : Command) (h : c.isConditional = false) (rest : WellNested)
  /-- A conditional, whose first part is run if the condition differs from `negated`. -/
  | block (negated : Bool) (parts : Parts) (rest : WellNested)

/-- The parts of a conditional. -/
inductive Parts where
  | last (part : WellNested)
  | cons (part : WellNested) (parts : Parts)

end

/-- The opcode that opens a conditional. -/
def Opcode.opening (negated : Bool) : Opcode :=
  if negated then ifFalse else ifTrue

mutual

/-- The commands of a tree. -/
def WellNested.commands : WellNested → List Command
  | .nil => []
  | .plain c _ rest => c :: rest.commands
  | .block negated parts rest =>
    .op (Opcode.opening negated) :: (parts.commands ++ rest.commands)

/-- The commands of the parts, with what divides them and what closes the last one. -/
def Parts.commands : Parts → List Command
  | .last part => part.commands ++ [.op Opcode.endIf]
  | .cons part parts => part.commands ++ .op Opcode.otherwise :: parts.commands

end

/-! ## Running and skipping -/

namespace Engine

/-- Passes a command of the list. -/
def advance : Engine Unit :=
  modify fun s => fetched s s.pending.tail

/-- Passes an opcode of a conditional, which counts as an operation and is reported. -/
def enter (code : Opcode) : Engine Unit := do
  advance
  count 1
  emit (.executing code (← get).stack.length)

/-- Runs a plain command. -/
def execute (env : Env) : Command → Engine Unit
  | .op code => do
    if code.isDisabled then fail (.disabledOpcode code)
    else
      if code.isCounted then count 1
      emit (.executing code (← get).stack.length)
      perform env code (Operation.ofOpcode code)
  | .push p =>
    if Limits.elementSize < p.data.length then fail (.elementTooBig p.data.length)
    else if env.flags.minimalData && !p.isMinimal then fail (.pushNotMinimal p.data p.encoding)
    else push p.data

/-- The opcodes `OP_VERIF` and `OP_VERNOTIF`, which fail where they are skipped. -/
def isReservedBranch (code : Opcode) : Bool :=
  code == 0x65 || code == 0x66

/-- Fails at a reserved branch. -/
def refuseReserved (code : Opcode) : Engine Unit := do
  if isReservedBranch code then
    emit (.executing code (← get).stack.length)
    fail (.reservedOpcode code)

/-- Skips a plain command. -/
def skip : Command → Engine Unit
  | .op code => do
    if code.isDisabled then fail (.disabledOpcode code)
    else
      if code.isCounted then count 1
      refuseReserved code
  | .push p =>
    if Limits.elementSize < p.data.length then fail (.elementTooBig p.data.length) else pure ()

end Engine

open Engine

mutual

/-- Skips a tree. -/
def WellNested.skip : WellNested → Engine Unit
  | .nil => pure ()
  | .plain c _ rest => do
    advance
    Engine.skip c
    rest.skip
  | .block negated parts rest => do
    enter (Opcode.opening negated)
    parts.skip
    rest.skip

def Parts.skip : Parts → Engine Unit
  | .last part => do
    part.skip
    enter Opcode.endIf
  | .cons part parts => do
    part.skip
    enter Opcode.otherwise
    parts.skip

end

mutual

/-- Runs a tree. A block takes its condition off the stack, and its parts are run and skipped in
turn. -/
def WellNested.run (env : Env) : WellNested → Engine Unit
  | .nil => pure ()
  | .plain c _ rest => do
    advance
    execute env c
    checkStackSize
    rest.run env
  | .block negated parts rest => do
    enter (Opcode.opening negated)
    let holds ← popCondition env
    checkStackSize
    parts.run env (holds != negated)
    rest.run env

/-- Runs the first part if it is `selected`, and every other part after it. -/
def Parts.run (env : Env) : Parts → (selected : Bool) → Engine Unit
  | .last part, selected => do
    if selected then part.run env else part.skip
    enter Opcode.endIf
  | .cons part parts, selected => do
    if selected then part.run env else part.skip
    enter Opcode.otherwise
    parts.run env (!selected)

end

/-! ## Conditionals around a tree -/

namespace Engine

variable {env : Env}

theorem advance_blind : Blind advance :=
  .modify fun _ _ => rfl

theorem enter_blind (code : Opcode) : Blind (enter code) :=
  .bind advance_blind fun _ => .bind (count_blind 1) fun _ =>
    .get_bind (fun _ _ => rfl) fun _ => emit_blind _

theorem execute_blind {c : Command} (h : c.isConditional = false) : Blind (execute env c) := by
  cases c with
  | push p => exact .ite (.fail _) (.ite (.fail _) (push_blind _))
  | op code =>
    have hact : Blind (do
        emit (.executing code (← get).stack.length)
        perform env code (Operation.ofOpcode code)) :=
      .get_bind (fun _ _ => rfl) fun _ => .bind (emit_blind _) fun _ => perform_blind code h
    exact .ite (.fail _) (.ite (.bind (count_blind 1) fun _ => hact) hact)

theorem refuseReserved_blind (code : Opcode) : Blind (refuseReserved code) :=
  .ite (.get_bind (fun _ _ => rfl) fun _ => .bind (emit_blind _) fun _ => .fail _) (.pure _)

theorem skip_blind (c : Command) : Blind (skip c) := by
  cases c with
  | push p => exact .ite (.fail _) (.pure _)
  | op code =>
    exact .ite (.fail _) (.ite (.bind (count_blind 1) fun _ => refuseReserved_blind code)
      (refuseReserved_blind code))

end Engine

/-! ## What skipping does -/

/-- Everything but the counters, the commands to come and the events is the same. -/
structure State.SameItems (s t : State) : Prop where
  stack_eq : t.stack = s.stack
  alt_eq : t.alt = s.alt
  conditions_eq : t.conditions = s.conditions
  segmentStarts_eq : t.segmentStarts = s.segmentStarts
  cache_eq : t.cache = s.cache

theorem State.SameItems.refl (s : State) : s.SameItems s :=
  ⟨rfl, rfl, rfl, rfl, rfl⟩

theorem State.SameItems.trans {s t u : State} (h : s.SameItems t) (h' : t.SameItems u) :
    s.SameItems u :=
  ⟨h'.stack_eq.trans h.stack_eq, h'.alt_eq.trans h.alt_eq,
    h'.conditions_eq.trans h.conditions_eq, h'.segmentStarts_eq.trans h.segmentStarts_eq,
    h'.cache_eq.trans h.cache_eq⟩

/-- What a command adds to the count of operations. -/
def Command.cost : Command → ℕ
  | .op code => if code.isCounted then 1 else 0
  | .push _ => 0

/-- The count of operations after commands that begin at a position. It starts again where a part
begins. -/
def Engine.tally (starts : List ℕ) : (position operations : ℕ) → List Command → ℕ
  | _, n, [] => n
  | i, n, c :: cs => tally starts (i + 1) ((if i ∈ starts then 0 else n) + c.cost) cs

/-- Why skipping commands can fail. -/
inductive SkipError (cs : List Command) : ScriptError → Prop
  | disabled {code : Opcode} (hmem : .op code ∈ cs) (h : code.isDisabled = true) :
      SkipError cs (.disabledOpcode code)
  | reserved {code : Opcode} (hmem : .op code ∈ cs) (h : code = 0x65 ∨ code = 0x66) :
      SkipError cs (.reservedOpcode code)
  | tooBig {p : Push} (hmem : .push p ∈ cs) (h : Limits.elementSize < p.data.length) :
      SkipError cs (.elementTooBig p.data.length)
  | tooMany {code : Opcode} (hmem : .op code ∈ cs) (h : code.isCounted = true) :
      SkipError cs .tooManyOperations

theorem SkipError.mono {cs ds : List Command} {e : ScriptError} (h : SkipError cs e)
    (hsub : cs ⊆ ds) : SkipError ds e := by
  cases h with
  | disabled hmem h => exact .disabled (hsub hmem) h
  | reserved hmem h => exact .reserved (hsub hmem) h
  | tooBig hmem h => exact .tooBig (hsub hmem) h
  | tooMany hmem h => exact .tooMany (hsub hmem) h

namespace Engine

/-- Commands have been skipped: the items are the same, and unless a command has failed, all have
been passed and their operations counted. -/
inductive Skipped (cs : List Command) (s : State) : EStateM.Result Halt State Unit → Prop
  | ok {t : State} (h : s.SameItems t) (hpending : t.pending = s.pending.drop cs.length)
      (hposition : t.position = s.position + cs.length)
      (hcount : t.operations = tally s.segmentStarts s.position s.operations cs) :
      Skipped cs s (.ok () t)
  | error {e : ScriptError} {t : State} (h : s.SameItems t) (he : SkipError cs e) :
      Skipped cs s (.error (.error e) t)

theorem tally_append (starts : List ℕ) (i n : ℕ) (cs ds : List Command) :
    tally starts i n (cs ++ ds) = tally starts (i + cs.length) (tally starts i n cs) ds := by
  induction cs generalizing i n with
  | nil => rfl
  | cons c cs ih =>
    rw [List.cons_append, tally, ih, tally, List.length_cons, Nat.add_right_comm, Nat.add_assoc]

theorem Skipped.append {cs ds : List Command} {s : State} {m n : Engine Unit}
    (hm : Skipped cs s (m s)) (hn : ∀ t, Skipped ds t (n t)) :
    Skipped (cs ++ ds) s ((m >>= fun _ => n) s) := by
  cases hr : m s with
  | error e t =>
    rw [hr] at hm
    rw [bind_of_eq_error hr]
    cases hm with
    | error h he => exact .error h (he.mono (List.subset_append_left cs ds))
  | ok u t =>
    rw [hr] at hm
    rw [bind_of_eq_ok hr]
    cases hm with
    | ok h hpending hposition hcount =>
      have hnt := hn t
      generalize n t = r at hnt
      cases hnt with
      | error h' he => exact .error (h.trans h') (he.mono (List.subset_append_right cs ds))
      | ok h' hpending' hposition' hcount' =>
        refine .ok (h.trans h') ?_ ?_ ?_
        · rw [hpending', hpending, List.drop_drop, List.length_append]
        · rw [hposition', hposition, List.length_append, Nat.add_assoc]
        · rw [hcount', tally_append, h.segmentStarts_eq, hposition, hcount]

theorem skipped_enter {code : Opcode} (hcode : code.isCounted = true) (s : State) :
    Skipped [.op code] s (enter code s) := by
  have hadvance : advance s = .ok () (fetched s s.pending.tail) := rfl
  unfold enter
  rw [bind_of_eq_ok hadvance]
  by_cases hlimit : Limits.operations < (fetched s s.pending.tail).operations + 1
  · rw [bind_of_eq_error (by rw [count_apply, if_pos hlimit])]
    exact .error ⟨rfl, rfl, rfl, rfl, rfl⟩ (.tooMany List.mem_cons_self hcode)
  · rw [bind_of_eq_ok (by rw [count_apply, if_neg hlimit])]
    refine .ok ⟨rfl, rfl, rfl, rfl, rfl⟩ List.drop_one.symm rfl ?_
    simp only [tally, Command.cost, if_pos hcode]
    rfl

theorem skipped_refuseReserved {code : Opcode} {s t : State} (h : s.SameItems t)
    (hpending : t.pending = s.pending.tail) (hposition : t.position = s.position + 1)
    (hcount : t.operations = tally s.segmentStarts s.position s.operations [.op code]) :
    Skipped [.op code] s (refuseReserved code t) := by
  unfold refuseReserved
  by_cases hreserved : isReservedBranch code = true
  · rw [if_pos hreserved]
    simp only [isReservedBranch, Bool.or_eq_true, beq_iff_eq] at hreserved
    exact .error ⟨h.stack_eq, h.alt_eq, h.conditions_eq, h.segmentStarts_eq, h.cache_eq⟩
      (.reserved List.mem_cons_self hreserved)
  · rw [if_neg hreserved]
    exact .ok h (hpending.trans List.drop_one.symm) hposition hcount

theorem skipped_plain (c : Command) (s : State) :
    Skipped [c] s ((advance >>= fun _ => skip c) s) := by
  have hadvance : advance s = .ok () (fetched s s.pending.tail) := rfl
  rw [bind_of_eq_ok hadvance]
  cases c with
  | push p =>
    by_cases hsize : Limits.elementSize < p.data.length
    · rw [skip, if_pos hsize]
      exact .error ⟨rfl, rfl, rfl, rfl, rfl⟩ (.tooBig List.mem_cons_self hsize)
    · rw [skip, if_neg hsize]
      exact .ok ⟨rfl, rfl, rfl, rfl, rfl⟩ List.drop_one.symm rfl rfl
  | op code =>
    rw [skip]
    by_cases hdisabled : code.isDisabled = true
    · rw [if_pos hdisabled]
      exact .error ⟨rfl, rfl, rfl, rfl, rfl⟩ (.disabled List.mem_cons_self hdisabled)
    rw [if_neg hdisabled]
    by_cases hcounted : code.isCounted = true
    · rw [if_pos hcounted]
      by_cases hlimit : Limits.operations < (fetched s s.pending.tail).operations + 1
      · rw [bind_of_eq_error (by rw [count_apply, if_pos hlimit])]
        exact .error ⟨rfl, rfl, rfl, rfl, rfl⟩ (.tooMany List.mem_cons_self hcounted)
      · rw [bind_of_eq_ok (by rw [count_apply, if_neg hlimit])]
        refine skipped_refuseReserved ⟨rfl, rfl, rfl, rfl, rfl⟩ rfl rfl ?_
        simp only [tally, Command.cost, if_pos hcounted]
        rfl
    · rw [if_neg hcounted]
      refine skipped_refuseReserved ⟨rfl, rfl, rfl, rfl, rfl⟩ rfl rfl ?_
      simp only [tally, Command.cost, if_neg hcounted]
      rfl

end Engine

theorem Opcode.isCounted_opening (negated : Bool) : (opening negated).isCounted = true := by
  cases negated <;> rfl

mutual

/-- Skipping leaves the items alone, counts operations, and fails only at a command that is refused
wherever it stands. -/
theorem WellNested.skipped : ∀ (p : WellNested) (s : State), Skipped p.commands s (p.skip s)
  | .nil, s => .ok (.refl s) rfl rfl rfl
  | .plain c _ rest, s => by
    rw [WellNested.skip, ← bind_assoc]
    exact (skipped_plain c s).append rest.skipped
  | .block negated parts rest, s => by
    rw [WellNested.skip, ← bind_assoc]
    have hopen := skipped_enter (Opcode.isCounted_opening negated) s
    have hparts : Skipped (.op (Opcode.opening negated) :: parts.commands) s
        ((enter (Opcode.opening negated) >>= fun _ => parts.skip) s) := hopen.append parts.skipped
    exact hparts.append rest.skipped

theorem Parts.skipped : ∀ (p : Parts) (s : State), Skipped p.commands s (p.skip s)
  | .last part, s => (part.skipped s).append (skipped_enter rfl)
  | .cons part parts, s => by
    refine (part.skipped s).append fun t => ?_
    have hdivide : Skipped [.op Opcode.otherwise] t (enter Opcode.otherwise t) :=
      skipped_enter rfl t
    exact hdivide.append parts.skipped

end

end SpendScript
