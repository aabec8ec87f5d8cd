import SpendScript.Proofs.Engine.Steps
import SpendScript.Proofs.Machine.Number

/-!
# Machine states

The machine keeps its commands in one list with a counter, and its stack in a list that grows at the
end, which it reaches by indexes from the beginning. A state of the engine is a view of that.

* `Machine.State`, `Machine`: states, and computations that may be refused and may panic.
* `State.view`: the state of the engine that a state of the machine stands for.
* `State.Valid`: what the machine keeps, and its bounds rest on.
* `Machine.Simulates`: from valid states, a computation of the machine does what a computation of the
  engine does: it leaves a valid state and a value with a property, or it is refused for the same
  reason. It never panics, and the computation of the engine never faults.

Results:
* `Simulates.bind` and its kind: simulation goes from the parts of a computation to the whole.
-/

namespace SpendScript

/-- A state of the machine. Only the stack is reached by indexes; of the other lists, one end is used,
which comes first. -/
structure Machine.State where
  /-- The stack, the bottom first. -/
  stack : List Bytes
  alt : List Bytes
  conditions : List Condition
  /-- Counted operations of the current part, in 32 bits. -/
  operations : ℤ
  /-- The position of the next command. -/
  counter : ℕ
  /-- All commands, those that have been run, too. -/
  commands : List Command
  segmentStarts : List ℕ
  cache : SigCache
  events : List Event

/-- Computations of the machine. -/
abbrev Machine := EStateM (Stop ScriptError) Machine.State

namespace Machine

/-! ## Parts of computations -/

/-- Stops with an error. -/
def refuse {α : Type} (e : ScriptError) : Machine α :=
  throw (.error e)

/-- A computation without a state. -/
def eval {α : Type} : Attempt ScriptError α → Machine α
  | .ok a => pure a
  | .error stop => throw stop

/-- A computation without a state that is never refused. -/
def exec {α : Type} : Checked α → Machine α
  | .ok a => pure a
  | .error p => throw (.panic p)

/-- A computation without a state whose refusal is a value. -/
def attempt {α ε : Type} : Attempt ε α → Machine (Except ε α)
  | .ok a => pure (.ok a)
  | .error (.error e) => pure (.error e)
  | .error (.panic p) => throw (.panic p)

def setStack (stack : List Bytes) : Machine Unit :=
  modify fun σ => { σ with stack := stack }

def push (item : Bytes) : Machine Unit :=
  modify fun σ => { σ with stack := σ.stack ++ [item] }

/-- Records an event. -/
def emit (e : Event) : Machine Unit :=
  modify fun σ => { σ with events := e :: σ.events }

section Sequences

variable {α β : Type} {m : Machine α} {f : α → Machine β} {σ τ : Machine.State}

theorem get_bind (f : Machine.State → Machine β) (σ : Machine.State) : (get >>= f) σ = f σ σ :=
  rfl

theorem bind_of_eq_ok {a : α} (h : m σ = .ok a τ) : (m >>= f) σ = f a τ := by
  simp only [bind, EStateM.bind, h]

theorem bind_of_eq_error {stop : Stop ScriptError} (h : m σ = .error stop τ) :
    (m >>= f) σ = .error stop τ := by
  simp only [bind, EStateM.bind, h]

end Sequences

/-! ## Views -/

namespace State

/-- The state of the engine that a state of the machine stands for. -/
def view (σ : State) : SpendScript.State :=
  ⟨σ.stack.reverse, σ.alt, σ.conditions, σ.operations.toNat, σ.counter, σ.commands.drop σ.counter,
    σ.segmentStarts, σ.cache, σ.events⟩

/-- Whether the run is in no skipped part. -/
def isExecuting (σ : State) : Bool :=
  match σ.conditions with
  | [] => true
  | c :: _ => c == .taken

theorem isExecuting_view (σ : State) : σ.view.isExecuting = σ.isExecuting :=
  rfl

end State

/-- Whether an item has at most the bytes that a push may have. -/
def Small (item : Bytes) : Prop :=
  item.length ≤ Limits.elementSize

/-- What the machine keeps between two operations. -/
structure State.Valid (σ : State) : Prop where
  operations_nonneg : 0 ≤ σ.operations
  operations_le : σ.operations ≤ Limits.operations
  counter_le : σ.counter ≤ σ.commands.length
  /-- The position after the bytes to come is a word. -/
  bytes_lt : σ.counter + Command.totalLength (σ.commands.drop σ.counter) < Number.wordSize
  stack_small : ∀ item ∈ σ.stack, Small item
  alt_small : ∀ item ∈ σ.alt, Small item

namespace State.Valid

variable {σ : State}

theorem withStack (h : σ.Valid) {stack : List Bytes} (hs : ∀ item ∈ stack, Small item) :
    { σ with stack := stack }.Valid :=
  ⟨h.operations_nonneg, h.operations_le, h.counter_le, h.bytes_lt, hs, h.alt_small⟩

theorem withAlt (h : σ.Valid) {alt : List Bytes} (ha : ∀ item ∈ alt, Small item) :
    { σ with alt := alt }.Valid :=
  ⟨h.operations_nonneg, h.operations_le, h.counter_le, h.bytes_lt, h.stack_small, ha⟩

theorem withConditions (h : σ.Valid) (conditions : List Condition) :
    { σ with conditions := conditions }.Valid :=
  ⟨h.operations_nonneg, h.operations_le, h.counter_le, h.bytes_lt, h.stack_small, h.alt_small⟩

theorem withCache (h : σ.Valid) (cache : SigCache) : { σ with cache := cache }.Valid :=
  ⟨h.operations_nonneg, h.operations_le, h.counter_le, h.bytes_lt, h.stack_small, h.alt_small⟩

theorem withEvents (h : σ.Valid) (events : List Event) : { σ with events := events }.Valid :=
  ⟨h.operations_nonneg, h.operations_le, h.counter_le, h.bytes_lt, h.stack_small, h.alt_small⟩

end State.Valid

/-! ## Simulation -/

variable {α β : Type} {P : α → Prop} {Q : β → Prop}

/-- The machine returns a value with a property in a valid state, and the engine returns the same
value in its view; or both are refused for the same reason. -/
inductive Matches (P : α → Prop) : EStateM.Result (Stop ScriptError) State α →
    EStateM.Result Halt SpendScript.State α → Prop
  | ok {a : α} {σ : State} (ha : P a) (hσ : σ.Valid) : Matches P (.ok a σ) (.ok a σ.view)
  | error (e : ScriptError) (σ : State) : Matches P (.error (.error e) σ) (.error (.error e) σ.view)

/-- From valid states, the computation of the machine matches that of the engine. -/
def Simulates (P : α → Prop) (m : Machine α) (e : Engine α) : Prop :=
  ∀ ⦃σ⦄, σ.Valid → Matches P (m σ) (e σ.view)

/-- Any value. -/
def Any : α → Prop :=
  fun _ => True

/-- Sequences match if their first parts do and the second parts do wherever the first ones return. -/
theorem Matches.bind {m : Machine α} {e : Engine α} {f : α → Machine β} {g : α → Engine β} {σ : State}
    (h : Matches P (m σ) (e σ.view))
    (hf : ∀ a σ', e σ.view = .ok a σ'.view → P a → σ'.Valid → Matches Q (f a σ') (g a σ'.view)) :
    Matches Q ((m >>= f) σ) ((e >>= g) σ.view) := by
  generalize hr : m σ = r at h
  generalize hr' : e σ.view = r' at h
  cases h with
  | ok ha hσ =>
    rw [Engine.bind_of_eq_ok hr', bind_of_eq_ok hr]
    exact hf _ _ hr' ha hσ
  | error e σ' =>
    rw [Engine.bind_of_eq_error hr', bind_of_eq_error hr]
    exact .error e σ'

namespace Simulates

theorem bind {m : Machine α} {e : Engine α} {f : α → Machine β} {g : α → Engine β}
    (hm : Simulates P m e) (hf : ∀ a, P a → Simulates Q (f a) (g a)) :
    Simulates Q (m >>= f) (e >>= g) :=
  fun _ hσ => (hm hσ).bind fun a _ _ ha hσ' => hf a ha hσ'

theorem pure {a : α} (ha : P a) : Simulates P (Pure.pure a : Machine α) (Pure.pure a) :=
  fun _ hσ => .ok ha hσ

theorem refuse (e : ScriptError) : Simulates P (Machine.refuse e : Machine α) (Engine.fail e) :=
  fun σ _ => .error e σ

/-- Computations that first look at the state. -/
theorem get_bind {f : State → Machine β} {g : SpendScript.State → Engine β}
    (hf : ∀ σ, σ.Valid → Matches Q (f σ σ) (g σ.view σ.view)) :
    Simulates Q (MonadState.get >>= f) (MonadState.get >>= g) :=
  fun σ hσ => hf σ hσ

theorem modify {f : State → State} {g : SpendScript.State → SpendScript.State}
    (hf : ∀ σ, σ.Valid → (f σ).Valid ∧ (f σ).view = g σ.view) :
    Simulates Any (modify f : Machine Unit) (modify g) := by
  intro σ hσ
  obtain ⟨hvalid, hview⟩ := hf σ hσ
  show Matches Any (.ok () (f σ)) (.ok () (g σ.view))
  rw [← hview]
  exact .ok trivial hvalid

theorem ite {p : Prop} [Decidable p] {m m' : Machine α} {e e' : Engine α} (hm : Simulates P m e)
    (hm' : Simulates P m' e') :
    Simulates P (if p then m else m') (if p then e else e') := by
  split_ifs
  · exact hm
  · exact hm'

theorem eval {r : Attempt ScriptError α} {r' : Except ScriptError α} (h : r = .ofExcept r')
    (hP : ∀ a, r' = .ok a → P a) : Simulates P (Machine.eval r) (Engine.lift r') := by
  subst h
  cases r' with
  | error e => exact refuse e
  | ok a => exact pure (hP a rfl)

/-- A computation that never panics, for a value that the engine has without it. -/
theorem exec {r : Checked α} {a : α} (h : r = .ok a) {f : α → Machine β} {e : Engine β}
    (hf : Simulates Q (f a) e) : Simulates Q (Machine.exec r >>= f) e := by
  subst h
  exact hf

end Simulates

/-! ## The stack -/

theorem push_simulates {item : Bytes} (h : Small item) :
    Simulates Any (push item) (Engine.push item) := by
  refine .modify fun σ hσ => ⟨hσ.withStack fun item' hitem => ?_, ?_⟩
  · rcases List.mem_append.mp hitem with hitem | hitem
    · exact hσ.stack_small item' hitem
    · exact List.mem_singleton.mp hitem ▸ h
  · show SpendScript.State.mk (σ.stack ++ [item]).reverse _ _ _ _ _ _ _ _ = _
    rw [List.reverse_append]
    rfl

theorem emit_simulates (e : Event) : Simulates Any (emit e) (Engine.emit e) :=
  .modify fun _ hσ => ⟨hσ.withEvents _, rfl⟩

end Machine

end SpendScript
