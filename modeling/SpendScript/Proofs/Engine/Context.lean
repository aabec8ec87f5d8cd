import SpendScript.Proofs.Engine.Frame

/-!
# What operations do not look at

An operation works on the items, the cache and the events of a state. Of the rest, only the
conditional opcodes look at the open conditionals, only counting looks at the count of operations,
and nothing but fetching looks at the commands. Where the rest is changed, the operation does the
same, and what it leaves is changed in the same way.

Results:
* `Context`: the rest; `Engine.Ignores`: a change of it makes no difference; `Ignores.bind`: neither
  does it to sequences.
* `KeepsConditions`, `KeepsOperations`: changes that let the open conditionals or the count of
  operations be.
* `Engine.perform_ignores`, `Engine.runPlain_ignores`: the operations and the commands, by what they
  look at.
-/

namespace SpendScript

/-- What a state holds besides the items, the cache and the events. -/
structure Context where
  conditions : List Condition
  operations : ℕ
  position : ℕ
  pending : List Command
  segmentStarts : List ℕ

namespace State

def context (s : State) : Context :=
  ⟨s.conditions, s.operations, s.position, s.pending, s.segmentStarts⟩

def withContext (k : Context) (s : State) : State :=
  { s with
    conditions := k.conditions
    operations := k.operations
    position := k.position
    pending := k.pending
    segmentStarts := k.segmentStarts }

/-- The state in a changed context. -/
def mapContext (g : Context → Context) (s : State) : State :=
  s.withContext (g s.context)

end State

/-- The change lets the open conditionals be. -/
def KeepsConditions (g : Context → Context) : Prop :=
  ∀ k conditions, g { k with conditions := conditions } = { g k with conditions := conditions }

/-- The change lets the count of operations be. -/
def KeepsOperations (g : Context → Context) : Prop :=
  ∀ k n, g { k with operations := n } = { g k with operations := n }

/-- Whether an operation counts the keys that it checks. -/
def Operation.countsKeys : Operation → Bool
  | .checkMultiSig _ => true
  | _ => false

namespace Engine

variable {α β : Type} {env : Env} {s : State} {g : Context → Context}

/-- The result with a change of the state that it leaves. -/
def mapState (f : State → State) : EStateM.Result Halt State α → EStateM.Result Halt State α
  | .ok a t => .ok a (f t)
  | .error e t => .error e (f t)

/-- In a changed context, the computation does the same and leaves what it leaves in that
context. -/
def Ignores (g : Context → Context) (m : Engine α) : Prop :=
  ∀ s, m (s.mapContext g) = mapState (State.mapContext g) (m s)

namespace Ignores

theorem pure (a : α) : Ignores g (Pure.pure a : Engine α) :=
  fun _ => rfl

theorem throw (e : Halt) : Ignores g (MonadExcept.throw e : Engine α) :=
  fun _ => rfl

theorem fail (e : ScriptError) : Ignores g (Engine.fail e : Engine α) :=
  throw _

theorem bind {m : Engine α} {f : α → Engine β} (hm : Ignores g m) (hf : ∀ a, Ignores g (f a)) :
    Ignores g (m >>= f) := by
  intro s
  have hs := hm s
  cases h : m s with
  | ok a t =>
    rw [h] at hs
    rw [bind_of_eq_ok hs, bind_of_eq_ok h]
    exact hf a t
  | error e t =>
    rw [h] at hs
    rw [bind_of_eq_error hs, bind_of_eq_error h]
    rfl

/-- A computation that first looks at the state, but at nothing that is changed. -/
theorem get_bind {f : State → Engine α} (hf : ∀ s, f (s.mapContext g) = f s)
    (hignores : ∀ s, Ignores g (f s)) : Ignores g (MonadState.get >>= f) := by
  intro s
  rw [Engine.get_bind, Engine.get_bind, hf]
  exact hignores s s

theorem modify {f : State → State} (hf : ∀ s, f (s.mapContext g) = (f s).mapContext g) :
    Ignores g (modify f) :=
  fun s => congrArg (EStateM.Result.ok ()) (hf s)

theorem ite {p : Prop} [Decidable p] {m n : Engine α} (hm : Ignores g m) (hn : Ignores g n) :
    Ignores g (if p then m else n) := by
  split_ifs
  · exact hm
  · exact hn

theorem lift (r : Except ScriptError α) : Ignores g (Engine.lift r) := by
  cases r with
  | error e => exact fail e
  | ok a => exact pure a

theorem require (answer : Bool) : Ignores g (Engine.require answer) :=
  ite (pure ()) (fail _)

/-- What is set to a fixed value stays at it. -/
theorem context_eq {m : Engine α} (h : Ignores g m) (hs : g s.context = s.context) {a : α}
    {t : State} (hm : m s = .ok a t) : t.context = g t.context := by
  have hignores := h s
  rw [State.mapContext, hs, show s.withContext s.context = s from rfl, hm] at hignores
  simp only [mapState, EStateM.Result.ok.injEq, true_and] at hignores
  exact congrArg State.context hignores

end Ignores

/-! ## The stack -/

theorem emit_ignores (e : Event) : Ignores g (emit e) :=
  .modify fun _ => rfl

theorem setStack_ignores (stack : Stack) : Ignores g (setStack stack) :=
  .modify fun _ => rfl

theorem push_ignores (item : Bytes) : Ignores g (push item) :=
  .modify fun _ => rfl

theorem rearrange_ignores (f : Stack → Except ScriptError Stack) : Ignores g (rearrange f) :=
  .get_bind (fun _ => rfl) fun _ => .bind (.lift _) setStack_ignores

theorem pop_ignores : Ignores g pop := by
  refine .get_bind (fun _ => rfl) fun s => ?_
  split
  · exact .bind (setStack_ignores _) fun _ => .pure _
  · exact .fail _

theorem popTwo_ignores : Ignores g popTwo := by
  refine .get_bind (fun _ => rfl) fun s => ?_
  split
  · exact .bind (setStack_ignores _) fun _ => .pure _
  · exact .fail _

theorem popThree_ignores : Ignores g popThree := by
  refine .get_bind (fun _ => rfl) fun s => ?_
  split
  · exact .bind (setStack_ignores _) fun _ => .pure _
  · exact .fail _

theorem popMany_ignores (n : ℕ) : Ignores g (popMany n) :=
  .get_bind (fun _ => rfl) fun _ => .bind (.lift _) fun _ => .bind (setStack_ignores _) fun _ =>
    .pure _

/-! ## Numbers and answers -/

theorem popNumber_ignores : Ignores g popNumber :=
  .bind pop_ignores fun _ => .lift _

theorem popTwoNumbers_ignores : Ignores g popTwoNumbers :=
  .bind popTwo_ignores fun _ => .bind (.lift _) fun _ => .bind (.lift _) fun _ => .pure _

theorem popThreeNumbers_ignores : Ignores g popThreeNumbers :=
  .bind popThree_ignores fun _ => .bind (.lift _) fun _ => .bind (.lift _) fun _ =>
    .bind (.lift _) fun _ => .pure _

theorem pushNumber_ignores (n : ℤ) : Ignores g (pushNumber n) :=
  .ite (push_ignores _) (.throw _)

theorem count_ignores (hg : KeepsOperations g) (n : ℕ) : Ignores g (count n) := by
  have heq : ∀ s : State, (s.mapContext g).operations = s.operations := fun s =>
    congrArg Context.operations (hg s.context s.operations)
  refine .bind (.modify fun s => ?_) fun _ => .get_bind (fun s => ?_) fun _ =>
    .ite (.fail _) (.pure _)
  · rw [heq]
    exact congrArg (State.withContext · s) (hg s.context (s.operations + n)).symm
  · rw [heq]

theorem conclude_ignores (verify answer : Bool) : Ignores g (conclude verify answer) :=
  .ite (.require _) (push_ignores _)

theorem popDepth_ignores : Ignores g popDepth :=
  .bind popNumber_ignores fun _ => .ite (.fail _) (.pure _)

/-! ## Conditionals -/

theorem conditions_mapContext (hg : KeepsConditions g) (s : State) :
    (s.mapContext g).conditions = s.conditions :=
  congrArg Context.conditions (hg s.context s.conditions)

theorem isExecuting_mapContext (hg : KeepsConditions g) (s : State) :
    (s.mapContext g).isExecuting = s.isExecuting := by
  rw [State.isExecuting, conditions_mapContext hg, State.isExecuting]

/-- Changing the open conditionals commutes with a change that lets them be. -/
theorem mapContext_conditions (hg : KeepsConditions g) (s : State) (conditions : List Condition) :
    { s.mapContext g with conditions := conditions } =
      { s with conditions := conditions }.mapContext g :=
  congrArg (State.withContext · s) (hg s.context conditions).symm

theorem popCondition_ignores : Ignores g (popCondition env) := by
  refine .get_bind (fun _ => rfl) fun s => ?_
  split
  · exact .fail _
  · exact .bind (setStack_ignores _) fun _ => .ite (.fail _) (.pure _)

theorem openBranch_ignores (hg : KeepsConditions g) (negated : Bool) :
    Ignores g (openBranch env negated) := by
  have hopen : ∀ c : Condition,
      Ignores g (modify fun s => { s with conditions := c :: s.conditions }) := by
    refine fun c => .modify fun s => ?_
    rw [conditions_mapContext hg]
    exact mapContext_conditions hg s _
  refine .get_bind (fun s => by rw [isExecuting_mapContext hg]) fun s => ?_
  split_ifs
  · exact .bind popCondition_ignores fun _ => .bind (.pure _) hopen
  · exact .bind (.pure _) hopen

theorem replaceInnermost_ignores (hg : KeepsConditions g) (f : Condition → List Condition) :
    Ignores g (replaceInnermost f) := by
  refine .get_bind (fun s => by rw [conditions_mapContext hg]) fun s => ?_
  split
  · exact .fail _
  · exact .modify fun s => mapContext_conditions hg s _

/-! ## Signature checks -/

theorem checkSignature_ignores (item key : Bytes) : Ignores g (checkSignature env item key) := by
  refine .ite (.pure _) (.get_bind (fun _ => rfl) fun s => ?_)
  split
  · exact .pure _
  split
  · exact .bind (.modify fun _ => rfl) fun _ => .pure _
  · exact .ite (.fail _) (.bind (emit_ignores _) fun _ => .pure _)
  · exact .throw _

/-- What the checks do not look at, the search for keys does not. -/
theorem Ignores.matchKeys {check : Bytes → Bytes → Engine Bool}
    (hcheck : ∀ item key, Ignores g (check item key)) (keys : List Bytes) :
    ∀ items, Ignores g (Engine.matchKeys check keys items) := by
  induction keys with
  | nil =>
    intro items
    cases items <;> exact .pure _
  | cons key keys ih =>
    intro items
    cases items with
    | nil => exact .pure _
    | cons item items =>
      unfold Engine.matchKeys
      exact .ite (.pure _) (.bind (hcheck item key) fun _ =>
        .ite (ih items) (ih (item :: items)))

/-- The part of a check that comes after the keys are counted. -/
def checkCounted (env : Env) (keyCount : ℤ) : Engine Bool := do
  let keys ← popMany keyCount.toNat
  let sigCount ← popNumber
  if sigCount < 0 then fail (.invalidSignatureCount (.negativeSignatures sigCount))
  else if keyCount < sigCount then
    fail (.invalidSignatureCount (.moreSignaturesThanKeys sigCount keyCount))
  else
    let signatures ← popMany sigCount.toNat
    let _ ← pop
    matchKeys (checkSignature env) keys signatures

theorem checkCounted_ignores (keyCount : ℤ) : Ignores g (checkCounted env keyCount) :=
  .bind (popMany_ignores _) fun keys => .bind popNumber_ignores fun _ => .ite (.fail _) <|
    .ite (.fail _) <| .bind (popMany_ignores _) fun items => .bind pop_ignores fun _ =>
      .matchKeys checkSignature_ignores keys items

theorem checkMultiSig_ignores (hg : KeepsOperations g) : Ignores g (checkMultiSig env) :=
  .bind popNumber_ignores fun keyCount => .ite (.fail _) <| .ite (.fail _) <|
    .bind (count_ignores hg _) fun _ => checkCounted_ignores keyCount

/-! ## Operations and commands -/

theorem perform_ignores (code : Opcode) {op : Operation}
    (hconditions : op.isConditional = true → KeepsConditions g)
    (hoperations : op.countsKeys = true → KeepsOperations g) : Ignores g (perform env code op) := by
  cases op with
  | pushNumber n => exact pushNumber_ignores n
  | nothing => exact .pure _
  | invalid => exact .fail _
  | reserved => exact .fail _
  | disabled => exact .fail _
  | openBranch negated => exact openBranch_ignores (hconditions rfl) negated
  | switchBranch => exact replaceInnermost_ignores (hconditions rfl) fun c => [c.switch]
  | closeBranch => exact replaceInnermost_ignores (hconditions rfl) fun _ => []
  | verify => exact .bind pop_ignores fun _ => .require _
  | stop => exact .fail _
  | toAlt => exact .bind pop_ignores fun _ => .modify fun _ => rfl
  | fromAlt =>
    refine .get_bind (fun _ => rfl) fun s => ?_
    split
    · exact .fail _
    · exact .modify fun _ => rfl
  | dupIfTrue =>
    refine .bind pop_ignores fun item => ?_
    split_ifs
    · exact .bind (push_ignores _) fun _ => push_ignores _
    · exact push_ignores _
  | depth => exact .get_bind (fun _ => rfl) fun _ => pushNumber_ignores _
  | pick => exact .bind popDepth_ignores fun _ => rearrange_ignores _
  | roll => exact .bind popDepth_ignores fun _ => rearrange_ignores _
  | size =>
    refine .get_bind (fun _ => rfl) fun s => ?_
    split
    · exact .fail _
    · exact pushNumber_ignores _
  | equal verify => exact .bind popTwo_ignores fun _ => conclude_ignores _ _
  | unary f => exact .bind popNumber_ignores fun _ => pushNumber_ignores _
  | binary f => exact .bind popTwoNumbers_ignores fun _ => pushNumber_ignores _
  | verifyNumbersEqual => exact .bind popTwoNumbers_ignores fun _ => .require _
  | within => exact .bind popThreeNumbers_ignores fun _ => pushNumber_ignores _
  | hash f => exact .bind pop_ignores fun _ => push_ignores _
  | checkSig verify =>
    exact .bind popTwo_ignores fun _ => .bind (checkSignature_ignores _ _) fun _ =>
      conclude_ignores _ _
  | checkMultiSig verify =>
    exact .bind (checkMultiSig_ignores (hoperations rfl)) fun _ => conclude_ignores _ _
  | drop | dup | copyBelow | rot | swap | nip | tuck => exact rearrange_ignores _

theorem runOpcode_ignores (hconditions : KeepsConditions g) (hoperations : KeepsOperations g)
    (code : Opcode) : Ignores g (runOpcode env code) := by
  have hact : Ignores g (do
      let s ← get
      if State.isExecuting s || code.isConditional then
        emit (.executing code s.stack.length)
        perform env code (Operation.ofOpcode code)) := by
    refine .get_bind (fun s => by rw [isExecuting_mapContext hconditions]; rfl) fun s => ?_
    refine .ite (.bind (emit_ignores _) fun _ => ?_) (.pure _)
    exact perform_ignores code (fun _ => hconditions) fun _ => hoperations
  exact .ite (.fail _) (.ite (.bind (count_ignores hoperations 1) fun _ => hact) hact)

theorem admitPush_ignores (hg : KeepsConditions g) (p : Push) : Ignores g (admitPush env p) :=
  .ite (.fail _) <| .get_bind (fun s => by rw [isExecuting_mapContext hg]) fun _ =>
    .ite (.pure _) (.ite (.fail _) (.pure _))

theorem runPlain_ignores (hconditions : KeepsConditions g) (hoperations : KeepsOperations g)
    (c : Command) : Ignores g (runPlain env c) := by
  cases c with
  | op code => exact runOpcode_ignores hconditions hoperations code
  | push p =>
    exact .bind (admitPush_ignores hconditions p) fun _ => .ite (push_ignores _) (.pure _)

theorem checkStackSize_ignores : Ignores g checkStackSize :=
  .get_bind (fun _ => rfl) fun _ => .ite (.fail _) (.pure _)

end Engine

end SpendScript
