import SpendScript.Proofs.Engine.Context

/-!
# What does not depend on the open conditionals

An operation on data does the same whatever conditionals are open around it, and leaves them as
they are.

Results:
* `Engine.Blind`: such a computation; `Blind.bind`: so are sequences.
* `Engine.perform_blind`: the operations on data.
* `Blind.conditions_eq`: the open conditionals stay, also where the computation halts.
-/

namespace SpendScript

/-- The state with other open conditionals. -/
def State.withConditions (conditions : List Condition) (s : State) : State :=
  { s with conditions := conditions }

namespace Engine

variable {α β : Type} {env : Env} {s : State}

/-- The computation neither looks at the open conditionals nor changes them. -/
def Blind (m : Engine α) : Prop :=
  ∀ s conditions,
    m (s.withConditions conditions) = mapState (State.withConditions conditions) (m s)

/-- The computation ignores that the open conditionals are replaced. -/
theorem blind_iff {m : Engine α} :
    Blind m ↔ ∀ conditions, Ignores (fun k => { k with conditions := conditions }) m :=
  forall_comm

/-- Replacing the open conditionals lets the count of operations be. -/
theorem keepsOperations_conditions (conditions : List Condition) :
    KeepsOperations fun k => { k with conditions := conditions } :=
  fun _ _ => rfl

namespace Blind

theorem of_ignores {m : Engine α} (h : ∀ g, KeepsOperations g → Ignores g m) : Blind m :=
  blind_iff.mpr fun conditions => h _ (keepsOperations_conditions conditions)

theorem pure (a : α) : Blind (Pure.pure a : Engine α) :=
  of_ignores fun _ _ => .pure a

theorem fail (e : ScriptError) : Blind (Engine.fail e : Engine α) :=
  of_ignores fun _ _ => .fail e

theorem bind {m : Engine α} {f : α → Engine β} (hm : Blind m) (hf : ∀ a, Blind (f a)) :
    Blind (m >>= f) :=
  blind_iff.mpr fun conditions =>
    .bind (blind_iff.mp hm conditions) fun a => blind_iff.mp (hf a) conditions

/-- A computation that first looks at the state, but not at the open conditionals. -/
theorem get_bind {f : State → Engine α}
    (hf : ∀ s conditions, f (s.withConditions conditions) = f s) (hblind : ∀ s, Blind (f s)) :
    Blind (MonadState.get >>= f) :=
  blind_iff.mpr fun conditions =>
    .get_bind (fun s => hf s conditions) fun s => blind_iff.mp (hblind s) conditions

theorem modify {f : State → State}
    (hf : ∀ s conditions, f (s.withConditions conditions) = (f s).withConditions conditions) :
    Blind (modify f) :=
  blind_iff.mpr fun conditions => .modify fun s => hf s conditions

theorem ite {p : Prop} [Decidable p] {m n : Engine α} (hm : Blind m) (hn : Blind n) :
    Blind (if p then m else n) := by
  split_ifs
  · exact hm
  · exact hn

/-- The open conditionals stay as they are. -/
theorem conditions_eq {m : Engine α} (h : Blind m) {a : α} {t : State} (hm : m s = .ok a t) :
    t.conditions = s.conditions :=
  congrArg Context.conditions ((blind_iff.mp h s.conditions).context_eq rfl hm)

end Blind

theorem emit_blind (e : Event) : Blind (emit e) :=
  .of_ignores fun _ _ => emit_ignores e

theorem push_blind (item : Bytes) : Blind (push item) :=
  .of_ignores fun _ _ => push_ignores item

theorem count_blind (n : ℕ) : Blind (count n) :=
  .of_ignores fun _ hg => count_ignores hg n

theorem popCondition_blind : Blind (popCondition env) :=
  .of_ignores fun _ _ => popCondition_ignores

theorem checkStackSize_blind : Blind checkStackSize :=
  .of_ignores fun _ _ => checkStackSize_ignores

/-- Operations on data do not depend on the open conditionals. -/
theorem perform_blind (code : Opcode) {op : Operation} (h : op.isConditional = false) :
    Blind (perform env code op) :=
  .of_ignores fun _ hg => perform_ignores code (fun hop => absurd hop (by simp [h])) fun _ => hg

end Engine

end SpendScript
