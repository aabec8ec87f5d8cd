import Mathlib.Data.Int.Notation
import SpendScript.Proofs.Cache
import SpendScript.Proofs.Engine.Steps

/-!
# What operations leave alone

An operation changes the two stacks, the counters and the cache. It never touches the commands to
come, only the conditional opcodes touch the open conditionals, and what it remembers is what a
signature check finds.

Results:
* `SigCache.Sound`: the remembered results are right; `Engine.Frame`: the commands to come and the
  soundness of the cache are kept; `Engine.DataFrame`: and so are the open conditionals;
  `Engine.CheckFrame`: and so are the stacks and the count of operations.
* `Engine.checkSignature_checkFrame`, `Keeps.matchKeys`: checks keep `CheckFrame`.
* `Engine.perform_frame`, `Engine.runOpcode_frame`: every opcode keeps `Frame`.
* `Engine.perform_dataFrame`, `Engine.runOpcode_dataFrame`: the others keep `DataFrame`.
-/

namespace SpendScript

/-- Every remembered result is what the check finds. -/
def SigCache.Sound (cache : SigCache) : Prop :=
  ∀ e ∈ cache.entries, e.1.verdict = .decided e.2

theorem SigCache.sound_empty (capacity : ℕ) (picks : ℕ → ℕ) :
    SigCache.Sound (Cache.empty capacity picks) := by
  intro e he
  cases he

theorem SigCache.Sound.insert {cache : SigCache} (h : SigCache.Sound cache) {check : SigCheck}
    {valid : Bool} (hc : check.verdict = .decided valid) :
    SigCache.Sound (cache.insert check valid) := by
  intro e he
  rcases Cache.mem_insert he with rfl | he
  · exact hc
  · exact h e he

/-- Whether an operation works on the open conditionals. -/
def Operation.isConditional : Operation → Bool
  | .openBranch _ | .switchBranch | .closeBranch => true
  | _ => false

namespace Engine

/-- The commands to come are the same, and the cache is sound if it was. -/
structure Frame (s s' : State) : Prop where
  pending_eq : s'.pending = s.pending
  position_eq : s'.position = s.position
  segmentStarts_eq : s'.segmentStarts = s.segmentStarts
  sound : SigCache.Sound s.cache → SigCache.Sound s'.cache

/-- The open conditionals are the same, too. -/
structure DataFrame (s s' : State) : Prop extends Frame s s' where
  conditions_eq : s'.conditions = s.conditions

/-- The stacks and the count of operations are the same, too. -/
structure CheckFrame (s s' : State) : Prop extends DataFrame s s' where
  stack_eq : s'.stack = s.stack
  alt_eq : s'.alt = s.alt
  operations_eq : s'.operations = s.operations

instance : Std.Refl Frame :=
  ⟨fun _ => ⟨rfl, rfl, rfl, id⟩⟩

instance : IsTrans State Frame :=
  ⟨fun _ _ _ h h' => ⟨h'.pending_eq.trans h.pending_eq, h'.position_eq.trans h.position_eq,
    h'.segmentStarts_eq.trans h.segmentStarts_eq, fun hs => h'.sound (h.sound hs)⟩⟩

instance : Std.Refl DataFrame :=
  ⟨fun s => ⟨refl s, rfl⟩⟩

instance : IsTrans State DataFrame :=
  ⟨fun _ _ _ h h' => ⟨IsTrans.trans _ _ _ h.toFrame h'.toFrame,
    h'.conditions_eq.trans h.conditions_eq⟩⟩

instance : Std.Refl CheckFrame :=
  ⟨fun s => ⟨refl s, rfl, rfl, rfl⟩⟩

instance : IsTrans State CheckFrame :=
  ⟨fun _ _ _ h h' => ⟨IsTrans.trans _ _ _ h.toDataFrame h'.toDataFrame,
    h'.stack_eq.trans h.stack_eq, h'.alt_eq.trans h.alt_eq,
    h'.operations_eq.trans h.operations_eq⟩⟩

variable {env : Env}

/-! ## The stack -/

theorem setStack_dataFrame (stack : Stack) : Keeps DataFrame (setStack stack) :=
  Keeps.modify fun _ => ⟨⟨rfl, rfl, rfl, id⟩, rfl⟩

theorem push_dataFrame (item : Bytes) : Keeps DataFrame (push item) :=
  Keeps.modify fun _ => ⟨⟨rfl, rfl, rfl, id⟩, rfl⟩

theorem emit_dataFrame (e : Event) : Keeps DataFrame (emit e) :=
  Keeps.modify fun _ => ⟨⟨rfl, rfl, rfl, id⟩, rfl⟩

theorem rearrange_dataFrame (f : Stack → Except ScriptError Stack) :
    Keeps DataFrame (rearrange f) :=
  Keeps.bind .get fun _ => Keeps.bind (.lift _) fun _ => setStack_dataFrame _

theorem pop_dataFrame : Keeps DataFrame pop := by
  refine Keeps.bind .get fun s => ?_
  split
  · exact Keeps.bind (setStack_dataFrame _) fun _ => .pure _
  · exact .fail _

theorem popTwo_dataFrame : Keeps DataFrame popTwo := by
  refine Keeps.bind .get fun s => ?_
  split
  · exact Keeps.bind (setStack_dataFrame _) fun _ => .pure _
  · exact .fail _

theorem popThree_dataFrame : Keeps DataFrame popThree := by
  refine Keeps.bind .get fun s => ?_
  split
  · exact Keeps.bind (setStack_dataFrame _) fun _ => .pure _
  · exact .fail _

theorem popMany_dataFrame (n : ℕ) : Keeps DataFrame (popMany n) :=
  Keeps.bind .get fun _ => Keeps.bind (.lift _) fun _ =>
    Keeps.bind (setStack_dataFrame _) fun _ => .pure _

/-! ## Numbers and answers -/

theorem popNumber_dataFrame : Keeps DataFrame popNumber :=
  Keeps.bind pop_dataFrame fun _ => .lift _

theorem popTwoNumbers_dataFrame : Keeps DataFrame popTwoNumbers :=
  Keeps.bind popTwo_dataFrame fun _ => Keeps.bind (.lift _) fun _ => Keeps.bind (.lift _) fun _ =>
    .pure _

theorem popThreeNumbers_dataFrame : Keeps DataFrame popThreeNumbers :=
  Keeps.bind popThree_dataFrame fun _ => Keeps.bind (.lift _) fun _ =>
    Keeps.bind (.lift _) fun _ => Keeps.bind (.lift _) fun _ => .pure _

theorem pushNumber_dataFrame (n : ℤ) : Keeps DataFrame (pushNumber n) := by
  unfold pushNumber
  split_ifs
  · exact push_dataFrame _
  · exact .throw _

theorem count_dataFrame (n : ℕ) : Keeps DataFrame (count n) := by
  refine Keeps.bind (.modify fun _ => ⟨⟨rfl, rfl, rfl, id⟩, rfl⟩) fun _ =>
    Keeps.bind .get fun s => ?_
  split_ifs
  · exact .fail _
  · exact .pure _

theorem conclude_dataFrame (verify answer : Bool) : Keeps DataFrame (conclude verify answer) := by
  unfold conclude
  split_ifs
  · exact .require _
  · exact push_dataFrame _

theorem popDepth_dataFrame : Keeps DataFrame popDepth := by
  refine Keeps.bind popNumber_dataFrame fun depth => ?_
  split_ifs
  · exact .fail _
  · exact .pure _

/-! ## Signature checks -/

theorem checkSignature_checkFrame (signature key : Bytes) :
    Keeps CheckFrame (checkSignature env signature key) := by
  unfold checkSignature
  split
  · exact .pure _
  · refine Keeps.bind .get fun s => ?_
    split
    · exact .pure _
    · split
      · rename_i valid hv
        refine Keeps.bind (.modify fun _ => ?_) fun _ => .pure _
        exact ⟨⟨⟨rfl, rfl, rfl, fun hs => hs.insert hv⟩, rfl⟩, rfl, rfl, rfl⟩
      · split_ifs
        · exact .fail _
        · refine Keeps.bind (.modify fun _ => ?_) fun _ => .pure _
          exact ⟨⟨⟨rfl, rfl, rfl, id⟩, rfl⟩, rfl, rfl, rfl⟩
      · exact .throw _

/-- Whatever the checks keep, the search for keys keeps. -/
theorem Keeps.matchKeys {R : State → State → Prop} [Std.Refl R] [IsTrans State R]
    {check : Bytes → Bytes → Engine Bool} (hcheck : ∀ sig key, Keeps R (check sig key))
    (keys : List Bytes) : ∀ signatures, Keeps R (Engine.matchKeys check keys signatures) := by
  induction keys with
  | nil =>
    intro signatures
    cases signatures <;> exact .pure _
  | cons key keys ih =>
    intro signatures
    cases signatures with
    | nil => exact .pure _
    | cons sig sigs =>
      unfold Engine.matchKeys
      split_ifs
      · exact .pure _
      · refine Keeps.bind (hcheck sig key) fun valid => ?_
        split_ifs
        · exact ih sigs
        · exact ih (sig :: sigs)

theorem checkSignature_dataFrame (signature key : Bytes) :
    Keeps DataFrame (checkSignature env signature key) :=
  (checkSignature_checkFrame signature key).mono fun _ _ h => h.toDataFrame

theorem checkMultiSig_dataFrame : Keeps DataFrame (checkMultiSig env) := by
  refine Keeps.bind popNumber_dataFrame fun keyCount => ?_
  split_ifs
  · exact .fail _
  · exact .fail _
  · refine Keeps.bind (count_dataFrame _) fun _ => Keeps.bind (popMany_dataFrame _) fun keys =>
      Keeps.bind popNumber_dataFrame fun sigCount => ?_
    split_ifs
    · exact .fail _
    · exact .fail _
    · exact Keeps.bind (popMany_dataFrame _) fun signatures => Keeps.bind pop_dataFrame fun _ =>
        .matchKeys checkSignature_dataFrame keys signatures

/-! ## Operations -/

theorem popCondition_dataFrame : Keeps DataFrame (popCondition env) := by
  refine Keeps.bind .get fun s => ?_
  split
  · exact .fail _
  · refine Keeps.bind (setStack_dataFrame _) fun _ => ?_
    split_ifs
    · exact .fail _
    · exact .pure _

/-- What looks at the open conditionals alone does not tell apart, the opcodes of conditionals keep
if their condition does. -/
theorem perform_keeps_of_isConditional {R : State → State → Prop} [Std.Refl R] [IsTrans State R]
    {op : Operation} (hop : op.isConditional = true)
    (hR : ∀ s conditions, R s { s with conditions := conditions })
    (hpop : Keeps R (popCondition env)) (code : Opcode) : Keeps R (perform env code op) := by
  have hreplace : ∀ f, Keeps R (replaceInnermost f) := by
    refine fun f => Keeps.bind .get fun s => ?_
    split
    · exact .fail _
    · exact .modify fun s => hR s _
  cases op with
  | openBranch negated =>
    have hopen : ∀ c : Condition,
        Keeps R (modify fun s => { s with conditions := c :: s.conditions }) :=
      fun c => .modify fun s => hR s _
    refine Keeps.bind .get fun s => ?_
    split_ifs
    · exact Keeps.bind hpop fun _ => Keeps.bind (.pure _) hopen
    · exact Keeps.bind (.pure _) hopen
  | switchBranch => exact hreplace fun c => [c.switch]
  | closeBranch => exact hreplace fun _ => []
  | _ => cases hop

/-- Operations on data leave the open conditionals alone. -/
theorem perform_dataFrame (code : Opcode) {op : Operation} (h : op.isConditional = false) :
    Keeps DataFrame (perform env code op) := by
  cases op with
  | pushNumber n => exact pushNumber_dataFrame n
  | nothing => exact .pure _
  | invalid => exact .fail _
  | reserved => exact .fail _
  | disabled => exact .fail _
  | openBranch negated => cases h
  | switchBranch => cases h
  | closeBranch => cases h
  | verify => exact Keeps.bind pop_dataFrame fun _ => .require _
  | stop => exact .fail _
  | toAlt => exact Keeps.bind pop_dataFrame fun _ => .modify fun _ => ⟨⟨rfl, rfl, rfl, id⟩, rfl⟩
  | fromAlt =>
    refine Keeps.bind .get fun s => ?_
    split
    · exact .fail _
    · exact .modify fun _ => ⟨⟨rfl, rfl, rfl, id⟩, rfl⟩
  | dupIfTrue =>
    refine Keeps.bind pop_dataFrame fun item => ?_
    split_ifs
    · exact Keeps.bind (push_dataFrame _) fun _ => push_dataFrame _
    · exact push_dataFrame _
  | depth => exact Keeps.bind .get fun _ => pushNumber_dataFrame _
  | pick => exact Keeps.bind popDepth_dataFrame fun _ => rearrange_dataFrame _
  | roll => exact Keeps.bind popDepth_dataFrame fun _ => rearrange_dataFrame _
  | size =>
    refine Keeps.bind .get fun s => ?_
    split
    · exact .fail _
    · exact pushNumber_dataFrame _
  | equal verify => exact Keeps.bind popTwo_dataFrame fun _ => conclude_dataFrame _ _
  | unary f => exact Keeps.bind popNumber_dataFrame fun _ => pushNumber_dataFrame _
  | binary f => exact Keeps.bind popTwoNumbers_dataFrame fun _ => pushNumber_dataFrame _
  | verifyNumbersEqual => exact Keeps.bind popTwoNumbers_dataFrame fun _ => .require _
  | within => exact Keeps.bind popThreeNumbers_dataFrame fun _ => pushNumber_dataFrame _
  | hash f => exact Keeps.bind pop_dataFrame fun _ => push_dataFrame _
  | checkSig verify =>
    exact Keeps.bind popTwo_dataFrame fun _ => Keeps.bind (checkSignature_dataFrame _ _) fun _ =>
      conclude_dataFrame _ _
  | checkMultiSig verify => exact Keeps.bind checkMultiSig_dataFrame fun _ => conclude_dataFrame _ _
  | drop | dup | copyBelow | rot | swap | nip | tuck => exact rearrange_dataFrame _

theorem perform_frame (code : Opcode) (op : Operation) : Keeps Frame (perform env code op) := by
  cases hop : op.isConditional with
  | false => exact (perform_dataFrame code hop).mono fun _ _ h => h.toFrame
  | true =>
    exact perform_keeps_of_isConditional hop (fun _ _ => ⟨rfl, rfl, rfl, id⟩)
      (popCondition_dataFrame.mono fun _ _ h => h.toFrame) code

/-! ## Opcodes -/

/-- Whatever `perform` keeps, an opcode keeps. -/
theorem Keeps.runOpcode {R : State → State → Prop} [Std.Refl R] [IsTrans State R]
    (hR : ∀ s s', DataFrame s s' → R s s') {code : Opcode}
    (h : Keeps R (perform env code (Operation.ofOpcode code))) :
    Keeps R (Engine.runOpcode env code) := by
  unfold Engine.runOpcode
  split
  · exact .fail _
  · have hrest : Keeps R (do
        let s ← MonadState.get
        if s.isExecuting || code.isConditional then
          emit (.executing code s.stack.length)
          perform env code (Operation.ofOpcode code)) := by
      refine Keeps.bind .get fun s => ?_
      split_ifs
      · exact Keeps.bind ((emit_dataFrame _).mono hR) fun _ => h
      · exact .pure _
    split_ifs
    · exact Keeps.bind ((count_dataFrame 1).mono hR) fun _ => hrest
    · exact hrest

theorem runOpcode_frame (code : Opcode) : Keeps Frame (runOpcode env code) :=
  Keeps.runOpcode (fun _ _ h => h.toFrame) (perform_frame code _)

theorem runOpcode_dataFrame {code : Opcode} (h : (Operation.ofOpcode code).isConditional = false) :
    Keeps DataFrame (runOpcode env code) :=
  Keeps.runOpcode (fun _ _ h => h) (perform_dataFrame code h)

end Engine

end SpendScript
