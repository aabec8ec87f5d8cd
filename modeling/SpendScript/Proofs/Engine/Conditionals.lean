import SpendScript.Proofs.Engine.Disassembly
import SpendScript.Proofs.Engine.Structured
import SpendScript.Proofs.Limits.Length

/-!
# Open conditionals

To see whether a command is to be run, the engine looks at the innermost open conditional only.
That answers for all of them, since a conditional that is opened in a part that is not taken is
skipped as a whole: neither `OP_ELSE` nor `OP_ENDIF` can make anything inside it taken.

* `Condition.Nested`: how the open conditionals depend on each other.
* `Engine.Occurs`: a state of the run of a script, also one in which it fails.
* `Engine.ChangesInnermost`: a computation that leaves the outer conditionals alone.

Results:
* `Condition.nested_cons`: what one conditional more has to meet.
* `Condition.Nested.isExecuting_iff`: the innermost conditional answers for all.
* `Engine.runPlain_nested`: a command keeps the conditionals nested, wherever it stops;
  `Engine.loop_nested`, `Engine.Trace.nested`: so do runs.
* `Engine.runPlain_skipped_items`: a skipped command leaves both stacks alone.
* `Engine.conditionalsAnswered`: all this for every state of a run.
-/

namespace SpendScript

/-! ## Nested conditionals -/

namespace Condition

/-- Inside a part that is not taken, every conditional is skipped, and no other one is. The
innermost conditional comes first. -/
structure Nested (cs : List Condition) : Prop where
  inner_skipped : ∀ inner c outer, cs = inner ++ c :: outer → c ≠ .taken →
    ∀ d ∈ inner, d = .skipped
  exists_outer : ∀ inner outer, cs = inner ++ .skipped :: outer → ∃ d ∈ outer, d ≠ .taken

variable {c : Condition} {cs : List Condition}

theorem nested_nil : Nested [] where
  inner_skipped inner c outer h := by simp at h
  exists_outer inner outer h := by simp at h

/-- One conditional more is skipped just if it stands in a part that is not taken. -/
theorem nested_cons :
    Nested (c :: cs) ↔ Nested cs ∧ (c = .skipped ↔ ∃ d ∈ cs, d ≠ .taken) := by
  constructor
  · intro h
    refine ⟨⟨fun inner d outer heq hd e he => ?_, fun inner outer heq => ?_⟩, fun hc => ?_, ?_⟩
    · exact h.inner_skipped (c :: inner) d outer (congrArg (c :: ·) heq) hd e
        (List.mem_cons_of_mem c he)
    · exact h.exists_outer (c :: inner) outer (congrArg (c :: ·) heq)
    · exact h.exists_outer [] cs (congrArg (· :: cs) hc)
    · rintro ⟨d, hmem, hd⟩
      obtain ⟨inner, outer, rfl⟩ := List.append_of_mem hmem
      exact h.inner_skipped (c :: inner) d outer rfl hd c List.mem_cons_self
  · rintro ⟨h, hc⟩
    refine ⟨fun inner d outer heq hd e he => ?_, fun inner outer heq => ?_⟩
    · cases inner with
      | nil => cases he
      | cons b inner =>
        obtain ⟨rfl, rfl⟩ := List.cons.inj heq
        rcases List.mem_cons.mp he with rfl | he
        · exact hc.mpr ⟨d, List.mem_append_right inner List.mem_cons_self, hd⟩
        · exact h.inner_skipped inner d outer rfl hd e he
    · cases inner with
      | nil =>
        obtain ⟨rfl, rfl⟩ := List.cons.inj heq
        exact hc.mp rfl
      | cons b inner =>
        obtain ⟨rfl, rfl⟩ := List.cons.inj heq
        exact h.exists_outer inner outer rfl

namespace Nested

/-- Where the innermost conditional is taken, so are all. -/
theorem all_taken (h : Nested (.taken :: cs)) : ∀ d ∈ cs, d = .taken := by
  intro d hmem
  by_contra hd
  have hskipped : Condition.taken = .skipped := (nested_cons.mp h).2.mpr ⟨d, hmem, hd⟩
  cases hskipped

/-- The innermost conditional answers for all. -/
theorem isExecuting_iff {s : State} (h : Nested s.conditions) :
    s.isExecuting = true ↔ ∀ c ∈ s.conditions, c = .taken := by
  unfold State.isExecuting
  cases hs : s.conditions with
  | nil => simp
  | cons c outer =>
    rw [hs] at h
    rw [List.forall_mem_cons, beq_iff_eq]
    constructor
    · rintro rfl
      exact ⟨rfl, h.all_taken⟩
    · exact And.left

theorem outer (h : Nested (c :: cs)) : Nested cs :=
  (nested_cons.mp h).1

/-- The other part of a conditional is skipped just if the first one was. -/
theorem switch (h : Nested (c :: cs)) : Nested (c.switch :: cs) := by
  have hswitch : c.switch = .skipped ↔ c = .skipped := by cases c <;> decide
  rw [nested_cons, hswitch]
  exact nested_cons.mp h

/-- In a part that is taken, a conditional with a condition can be opened. -/
theorem cons_of_executing {s : State} (h : Nested s.conditions) (hexec : s.isExecuting = true)
    (hc : c ≠ .skipped) : Nested (c :: s.conditions) := by
  refine nested_cons.mpr ⟨h, iff_of_false hc ?_⟩
  rintro ⟨d, hmem, hd⟩
  exact hd (h.isExecuting_iff.mp hexec d hmem)

/-- In a part that is not taken, a skipped conditional can be opened. -/
theorem cons_skipped {s : State} (h : Nested s.conditions) (hskip : s.isExecuting = false) :
    Nested (.skipped :: s.conditions) := by
  refine nested_cons.mpr ⟨h, iff_of_true rfl ?_⟩
  have hnot : ¬∀ c ∈ s.conditions, c = .taken := by
    rw [← h.isExecuting_iff, hskip]
    exact Bool.false_ne_true
  push Not at hnot
  exact hnot

end Nested

end Condition

namespace Engine

open Condition (Nested)

variable {α β : Type} {env : Env} {s₀ s t : State} {past : List Executed} {place : Place}
  {code : Opcode} {c : Command} {data : Bytes}

/-! ## Single opcodes -/

theorem Blind.conditions_finalState {m : Engine α} (h : Blind m) (s : State) :
    (finalState (m s)).conditions = s.conditions := by
  have hsame : m s = mapState (State.withConditions s.conditions) (m s) := h s s.conditions
  rw [hsame, finalState_mapState]
  rfl

theorem openBranch_skipping (negated : Bool) (hskip : s.isExecuting = false) :
    openBranch env negated s = .ok () { s with conditions := .skipped :: s.conditions } := by
  unfold openBranch
  rw [get_bind, hskip]
  rfl

/-- Of the state, at most the count of operations, the events and the innermost open conditional
have changed, which `f` replaces. Where the computation has halted, that one is left alone, too. -/
inductive ChangesInnermost (f : Condition → List Condition) (s : State) :
    EStateM.Result Halt State Unit → Prop
  | ok {c : Condition} {outer : List Condition} {operations : ℕ} {events : List Event}
      (h : s.conditions = c :: outer) :
      ChangesInnermost f s
        (.ok () { s with conditions := f c ++ outer, operations := operations, events := events })
  | error {operations : ℕ} {events : List Event} (e : Halt) :
      ChangesInnermost f s (.error e { s with operations := operations, events := events })

theorem ChangesInnermost.items {f : Condition → List Condition}
    {r : EStateM.Result Halt State Unit} (h : ChangesInnermost f s r) :
    (finalState r).stack = s.stack ∧ (finalState r).alt = s.alt := by
  cases h with
  | ok _ => exact ⟨rfl, rfl⟩
  | error e => exact ⟨rfl, rfl⟩

theorem replaceInnermost_changesInnermost (f : Condition → List Condition) (s : State) :
    ChangesInnermost f s (replaceInnermost f s) := by
  cases hs : s.conditions with
  | nil =>
    rw [replaceInnermost_nil hs]
    exact .error _
  | cons c outer =>
    rw [replaceInnermost_cons hs]
    exact .ok hs

/-- An opcode of flow control does to the conditionals what its operation does. -/
theorem changesInnermost_of_perform {f : Condition → List Condition}
    (hcode : code.isConditional = true)
    (hperform : ∀ s, ChangesInnermost f s (perform env code (Operation.ofOpcode code) s))
    (s : State) : ChangesInnermost f s (runOpcode env code s) := by
  rw [runOpcode_branch hcode]
  split_ifs
  · exact .error _
  · have h := hperform (started s code)
    generalize perform env code (Operation.ofOpcode code) (started s code) = r at h
    cases h with
    | ok hs => exact .ok hs
    | error e => exact .error e

theorem otherwise_changesInnermost (s : State) :
    ChangesInnermost (fun c => [c.switch]) s (runOpcode env Opcode.otherwise s) :=
  changesInnermost_of_perform rfl (replaceInnermost_changesInnermost _) s

theorem endIf_changesInnermost (s : State) :
    ChangesInnermost (fun _ => []) s (runOpcode env Opcode.endIf s) :=
  changesInnermost_of_perform rfl (replaceInnermost_changesInnermost _) s

/-! ## Commands -/

/-- Wherever the computation stops, it leaves nested conditionals nested. -/
def KeepsNested (m : Engine α) : Prop :=
  ∀ s, Nested s.conditions → Nested (finalState (m s)).conditions

namespace KeepsNested

theorem of_conditions {m : Engine α}
    (h : ∀ s, (finalState (m s)).conditions = s.conditions) : KeepsNested m := by
  intro s hs
  rw [h s]
  exact hs

theorem of_blind {m : Engine α} (h : Blind m) : KeepsNested m :=
  of_conditions h.conditions_finalState

theorem bind {m : Engine α} {f : α → Engine β} (hm : KeepsNested m) (hf : ∀ a, KeepsNested (f a)) :
    KeepsNested (m >>= f) := by
  intro s hs
  have hnested := hm s hs
  cases hr : m s with
  | ok a t =>
    rw [hr] at hnested
    rw [bind_of_eq_ok hr]
    exact hf a t hnested
  | error e t =>
    rw [hr] at hnested
    rw [bind_of_eq_error hr]
    exact hnested

end KeepsNested

theorem openBranch_nested (negated : Bool) : KeepsNested (openBranch env negated) := by
  intro s hs
  cases hexec : s.isExecuting with
  | false =>
    rw [openBranch_skipping negated hexec]
    exact hs.cons_skipped hexec
  | true =>
    have hopen : openBranch env negated s = (popCondition env >>= fun holds => modify fun t =>
        { t with conditions := (if holds != negated then .taken else .notTaken) :: t.conditions })
          s := by
      unfold openBranch
      rw [get_bind, if_pos hexec]
      rfl
    have hblind : Blind (popCondition env) := popCondition_blind
    have hpop := hblind.conditions_finalState s
    rw [hopen]
    cases hr : popCondition env s with
    | ok holds t =>
      rw [hr] at hpop
      change t.conditions = s.conditions at hpop
      rw [bind_of_eq_ok hr]
      show Nested (_ :: t.conditions)
      rw [hpop]
      exact hs.cons_of_executing hexec (by split_ifs <;> decide)
    | error e t =>
      rw [hr] at hpop
      change t.conditions = s.conditions at hpop
      rw [bind_of_eq_error hr]
      show Nested t.conditions
      rw [hpop]
      exact hs

theorem replaceInnermost_nested {f : Condition → List Condition}
    (hf : ∀ c outer, Nested (c :: outer) → Nested (f c ++ outer)) :
    KeepsNested (replaceInnermost f) := by
  intro s hs
  cases hconditions : s.conditions with
  | nil =>
    rw [replaceInnermost_nil hconditions]
    exact hs
  | cons c outer =>
    rw [hconditions] at hs
    rw [replaceInnermost_cons hconditions]
    exact hf c outer hs

/-- The operations of conditionals keep what `KeepsNested` says, and no others touch them. -/
theorem perform_nested (code : Opcode) (op : Operation) : KeepsNested (perform env code op) := by
  cases hop : op.isConditional with
  | false => exact .of_blind (perform_blind code hop)
  | true =>
    cases op with
    | openBranch negated => exact openBranch_nested negated
    | switchBranch => exact replaceInnermost_nested (f := fun c => [c.switch]) fun _ _ h => h.switch
    | closeBranch => exact replaceInnermost_nested (f := fun _ => []) fun _ _ h => h.outer
    | _ => cases hop

theorem conditions_of_plain (hc : c.isConditional = false) (s : State) :
    (finalState (runPlain env c s)).conditions = s.conditions := by
  cases hexec : s.isExecuting with
  | true =>
    rw [runPlain_executing hexec]
    exact (execute_blind hc).conditions_finalState s
  | false =>
    rw [runPlain_skipping hexec hc]
    exact (skip_blind c).conditions_finalState s

/-- A command keeps the conditionals nested, also where it fails. -/
theorem runPlain_nested (c : Command) : KeepsNested (runPlain env c) := by
  cases hc : c.isConditional with
  | false => exact .of_conditions (conditions_of_plain hc)
  | true =>
    obtain ⟨code, rfl, hcode⟩ : ∃ code, c = .op code ∧ code.isConditional = true := by
      rcases Command.isConditional_iff.mp hc with rfl | rfl | rfl | rfl <;> exact ⟨_, rfl, rfl⟩
    intro s hs
    show Nested (finalState (runOpcode env code s)).conditions
    rw [runOpcode_branch hcode]
    split_ifs
    · exact hs
    · exact perform_nested code _ (started s code) hs

theorem runNext_nested (n : ℕ) : KeepsNested (runNext env n) := by
  induction n with
  | zero => exact .of_conditions fun _ => rfl
  | succ n ih =>
    intro s hs
    cases hp : s.pending with
    | nil =>
      rw [runNext_nil hp]
      exact hs
    | cons c rest =>
      rw [runNext_succ hp]
      exact (runPlain_nested c).bind (fun _ => ih) (fetched s rest) hs

theorem settle_blind (data : Bytes) : Blind (settle data) := by
  refine .bind (.of_ignores fun _ _ => pop_ignores) fun item => ?_
  refine .bind (.of_ignores fun _ _ => .require _) fun _ => ?_
  refine .bind (.of_ignores fun _ _ => .lift _) fun cs => ?_
  exact .bind (emit_blind _) fun _ => .modify fun _ _ => rfl

theorem runCommand_nested (c : Command) : KeepsNested (runCommand env c) := by
  intro s hs
  cases hreveals : reveals s c with
  | false =>
    rw [runCommand_of_reveals_eq_false hreveals]
    exact runPlain_nested c s hs
  | true =>
    cases c with
    | op code => cases hreveals
    | push p =>
      rw [runCommand_of_reveals hreveals]
      exact (runPlain_nested _).bind (fun _ => (runNext_nested 3).bind fun _ =>
        .of_blind (settle_blind p.data)) s hs

/-! ## Runs -/

theorem loop_nested (n : ℕ) : KeepsNested (loop env n) := by
  induction n with
  | zero => exact .of_conditions fun _ => rfl
  | succ n ih =>
    intro s hs
    cases hp : s.pending with
    | nil =>
      rw [loop_nil hp]
      exact hs
    | cons c rest =>
      rw [loop_succ hp]
      exact (runCommand_nested c).bind
        (fun _ => (KeepsNested.of_blind checkStackSize_blind).bind fun _ => ih) (fetched s rest) hs

theorem finish_nested : KeepsNested finish := by
  refine .of_conditions fun s => ?_
  unfold finish
  rw [get_bind]
  split_ifs
  · rfl
  · match s.stack with
    | [] => rfl
    | [item] =>
      show (finalState ((if ScriptNumber.truth item = true then pure () else fail .evalFalse :
        Engine Unit) { s with stack := [] })).conditions = s.conditions
      split_ifs <;> rfl
    | _ :: _ :: _ => rfl

/-- A run opens its first conditional itself, and so keeps them nested. -/
theorem run_nested (script : Script) (cache : SigCache) :
    Nested (finalState (run env (State.start script cache))).conditions := by
  rw [run_start]
  split_ifs
  · exact Condition.nested_nil
  · split
    · exact Condition.nested_nil
    · exact (loop_nested _).bind (fun _ => finish_nested) _ Condition.nested_nil

theorem Trace.nested (h : Trace env s₀ past place s) (hs₀ : Nested s₀.conditions) :
    Nested s.conditions := by
  refine h.keeps (P := fun _ s => Nested s.conditions) hs₀ ?_ ?_
  · intro past place s t c rest _ _ hrun hs
    have ht : Nested (finalState (runPlain env c (fetched s rest))).conditions :=
      runPlain_nested c (fetched s rest) hs
    rwa [hrun] at ht
  · intro past data s t _ hsettle hs
    rwa [settle_conditions hsettle]

/-- A state of the run of a script: at a point, while the next command is run, or where the run has
come to its end, with an error or without. -/
inductive Occurs (script : Script) (env : Env) (cache : SigCache) : State → Prop
  | point {past : List Executed} {place : Place} {s : State}
      (h : Trace env (State.start script cache) past place s) : Occurs script env cache s
  | fetched {past : List Executed} {place : Place} {s : State} {c : Command} {rest : List Command}
      (h : Trace env (State.start script cache) past place s) (hp : s.pending = c :: rest) :
      Occurs script env cache (fetched s rest)
  | ended : Occurs script env cache (script.execute env cache).state

theorem Occurs.nested {script : Script} {cache : SigCache} (h : Occurs script env cache s) :
    Nested s.conditions := by
  cases h with
  | point h => exact h.nested Condition.nested_nil
  | fetched h _ => exact h.nested Condition.nested_nil
  | ended =>
    rw [Script.state_execute]
    exact run_nested script cache

/-! ## Skipped commands -/

theorem skip_items (c : Command) (s : State) :
    (finalState (skip c s)).stack = s.stack ∧ (finalState (skip c s)).alt = s.alt := by
  have hreserved : ∀ code (t : State), (finalState (refuseReserved code t)).stack = t.stack ∧
      (finalState (refuseReserved code t)).alt = t.alt := by
    intro code t
    unfold refuseReserved
    split_ifs <;> exact ⟨rfl, rfl⟩
  cases c with
  | push p =>
    rw [skip]
    split_ifs <;> exact ⟨rfl, rfl⟩
  | op code =>
    rw [skip]
    split_ifs
    · exact ⟨rfl, rfl⟩
    · by_cases hlimit : Limits.operations < s.operations + 1
      · rw [bind_of_eq_error (by rw [count_apply, if_pos hlimit])]
        exact ⟨rfl, rfl⟩
      · rw [bind_of_eq_ok (by rw [count_apply, if_neg hlimit])]
        exact hreserved code { s with operations := s.operations + 1 }
    · exact hreserved code s

/-- A conditional that is opened in a part that is not taken asks for no condition. -/
theorem opening_skipped_items (negated : Bool) (hskip : s.isExecuting = false) :
    (finalState (runOpcode env (Opcode.opening negated) s)).stack = s.stack ∧
      (finalState (runOpcode env (Opcode.opening negated) s)).alt = s.alt := by
  rw [runOpcode_branch (by cases negated <;> rfl),
    show Operation.ofOpcode (Opcode.opening negated) = .openBranch negated by
      cases negated <;> rfl]
  split_ifs
  · exact ⟨rfl, rfl⟩
  · rw [perform, openBranch_skipping negated (s := started s (Opcode.opening negated)) hskip]
    exact ⟨rfl, rfl⟩

/-- A skipped command leaves both stacks alone, also where it fails. -/
theorem runPlain_skipped_items (hskip : s.isExecuting = false) (c : Command) :
    (finalState (runPlain env c s)).stack = s.stack ∧
      (finalState (runPlain env c s)).alt = s.alt := by
  cases hc : c.isConditional with
  | false =>
    rw [runPlain_skipping hskip hc]
    exact skip_items c s
  | true =>
    rcases Command.isConditional_iff.mp hc with rfl | rfl | rfl | rfl
    · exact opening_skipped_items false hskip
    · exact opening_skipped_items true hskip
    · exact (otherwise_changesInnermost s).items
    · exact (endIf_changesInnermost s).items

theorem reveals_of_skipping (hskip : s.isExecuting = false) (c : Command) :
    reveals s c = false := by
  cases c with
  | op code => rfl
  | push p => rw [reveals, hskip, Bool.false_and]

/-! ## Whole runs -/

/-- Whatever the script, balanced or not, in every state of its run: a conditional inside one that
is not taken is skipped, and a skipped one is inside one that is not taken; so the innermost one
tells whether all are taken. And in any state: a command that is skipped leaves both stacks alone,
also where it fails, and reveals nothing; `OP_ELSE` turns the innermost conditional to its other
part and `OP_ENDIF` closes it, if they do not fail, and all others stay as they are. -/
theorem conditionalsAnswered (script : Script) (env : Env) (cache : SigCache) :
    (∀ s, Occurs script env cache s →
      (∀ inner c outer, s.conditions = inner ++ c :: outer → c ≠ .taken →
        ∀ d ∈ inner, d = .skipped) ∧
      (∀ inner outer, s.conditions = inner ++ .skipped :: outer → ∃ d ∈ outer, d ≠ .taken) ∧
      (s.isExecuting = true ↔ ∀ c ∈ s.conditions, c = .taken)) ∧
    (∀ s c, s.isExecuting = false →
      runCommand env c s = runPlain env c s ∧
      (finalState (runCommand env c s)).stack = s.stack ∧
      (finalState (runCommand env c s)).alt = s.alt) ∧
    (∀ s, ChangesInnermost (fun c => [c.switch]) s (runCommand env (.op Opcode.otherwise) s)) ∧
    ∀ s, ChangesInnermost (fun _ => []) s (runCommand env (.op Opcode.endIf) s) := by
  refine ⟨fun s h => ?_, fun s c hskip => ?_, otherwise_changesInnermost, endIf_changesInnermost⟩
  · have hnested := h.nested
    exact ⟨hnested.inner_skipped, hnested.exists_outer, hnested.isExecuting_iff⟩
  · have hplain : runCommand env c s = runPlain env c s :=
      runCommand_of_reveals_eq_false (reveals_of_skipping hskip c)
    rw [hplain]
    exact ⟨rfl, runPlain_skipped_items hskip c⟩

/-- A conditional in the part of another one that is not taken, and this one in a part that is. -/
def threeOpen : Script :=
  .ofCommands [.op Opcode.one, .op Opcode.ifTrue, .op Opcode.zero, .op Opcode.ifTrue,
    .op Opcode.ifTrue, .op Opcode.otherwise, .op Opcode.dup]

theorem conditionalsAnswered_threeOpen :
    ∃ s, Occurs threeOpen ⟨1, Flags.default⟩ Script.noCache s ∧
      s.conditions = [.skipped, .notTaken, .taken] ∧ Condition.notTaken ≠ .taken ∧
      (∀ d ∈ [Condition.skipped], d = .skipped) ∧
      (∃ d ∈ [Condition.notTaken, .taken], d ≠ .taken) ∧
      s.isExecuting = false ∧
      (finalState (runCommand ⟨1, Flags.default⟩ (.op Opcode.dup) s)).stack = s.stack := by
  obtain ⟨s, hloop, hs⟩ := exists_of_endsWith
    (r := loop ⟨1, Flags.default⟩ 6 (State.start threeOpen Script.noCache))
    (p := fun s => decide (s.conditions = [.skipped, .notTaken, .taken])) (by decide +kernel)
  have hconditions := of_decide_eq_true hs
  obtain ⟨past, htrace⟩ := Trace.start.exists_of_loop hloop
  obtain ⟨hnested, hskipped, -⟩ := conditionalsAnswered threeOpen ⟨1, Flags.default⟩ Script.noCache
  obtain ⟨hinner, houter, hiff⟩ := hnested s (.point htrace)
  have hskip : s.isExecuting = false := by
    rw [State.isExecuting, hconditions]
    rfl
  exact ⟨s, .point htrace, hconditions, by decide, hinner [.skipped] .notTaken [.taken] hconditions
    (by decide), houter [] [.notTaken, .taken] hconditions, hskip, (hskipped s _ hskip).2.1⟩

end Engine

end SpendScript
