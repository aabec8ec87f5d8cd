import Mathlib.Order.Defs.Unbundled
import SpendScript.Engine.Run

/-!
# Computations on states

How the parts of a computation on engine states act, and the relations that a computation keeps
between the state it starts in and the state it returns in.

Results:
* `Engine.bind_eq_ok`, `Engine.bind_of_eq_ok`: a sequence returns if and only if both of its parts
  do.
* `Engine.replaceInnermost`: what an opcode does to the innermost open conditional.
* `Engine.Keeps`: the relations a computation keeps; `Keeps.bind`: they compose.
-/

namespace SpendScript.Engine

variable {α β : Type}

/-! ## Parts of computations -/

theorem pure_apply (a : α) (s : State) : (pure a : Engine α) s = .ok a s :=
  rfl

theorem fail_apply (e : ScriptError) (s : State) :
    (fail e : Engine α) s = .error (.error e) s :=
  rfl

theorem lift_ok (a : α) : (lift (.ok a) : Engine α) = pure a :=
  rfl

theorem bind_of_eq_ok {m : Engine α} {f : α → Engine β} {s t : State} {a : α}
    (h : m s = .ok a t) : (m >>= f) s = f a t := by
  simp only [bind, EStateM.bind, h]

theorem bind_of_eq_error {m : Engine α} {f : α → Engine β} {s t : State} {e : Halt}
    (h : m s = .error e t) : (m >>= f) s = .error e t := by
  simp only [bind, EStateM.bind, h]

theorem bind_congr_apply {m m' : Engine α} {f : α → Engine β} {s s' : State} (h : m s = m' s') :
    (m >>= f) s = (m' >>= f) s' := by
  simp only [bind, EStateM.bind, h]

theorem get_bind (f : State → Engine β) (s : State) : (get >>= f) s = f s s :=
  rfl

theorem bind_eq_ok {m : Engine α} {f : α → Engine β} {s s' : State} {b : β} :
    (m >>= f) s = .ok b s' ↔ ∃ a t, m s = .ok a t ∧ f a t = .ok b s' := by
  cases h : m s with
  | ok a t =>
    rw [bind_of_eq_ok h]
    constructor
    · intro hf
      exact ⟨a, t, rfl, hf⟩
    · rintro ⟨_, _, ⟨⟩, hf⟩
      exact hf
  | error e t =>
    rw [bind_of_eq_error h]
    constructor
    · intro hf
      cases hf
    · rintro ⟨_, _, ⟨⟩, -⟩

/-- Only the states in which the first part returns matter. -/
theorem bind_congr_of_ok {m : Engine α} {f g : α → Engine β} {s : State}
    (h : ∀ a t, m s = .ok a t → f a t = g a t) : (m >>= f) s = (m >>= g) s := by
  cases hm : m s with
  | ok a t =>
    rw [bind_of_eq_ok hm, bind_of_eq_ok hm]
    exact h a t hm
  | error e t => rw [bind_of_eq_error hm, bind_of_eq_error hm]

theorem lift_eq_ok {r : Except ScriptError α} {s s' : State} {a : α} :
    lift r s = .ok a s' ↔ r = .ok a ∧ s' = s := by
  cases r with
  | error e =>
    constructor
    · intro h
      cases h
    · rintro ⟨⟨⟩, -⟩
  | ok b =>
    constructor
    · rintro ⟨⟩
      exact ⟨rfl, rfl⟩
    · rintro ⟨⟨⟩, rfl⟩
      rfl

theorem require_eq_ok {answer : Bool} {s s' : State} {u : Unit} :
    require answer s = .ok u s' ↔ answer = true ∧ s' = s := by
  cases answer with
  | false =>
    constructor
    · intro h
      cases h
    · rintro ⟨⟨⟩, -⟩
  | true =>
    constructor
    · rintro ⟨⟩
      exact ⟨rfl, rfl⟩
    · rintro ⟨-, rfl⟩
      rfl

theorem count_apply (n : Nat) (s : State) :
    count n s =
      if Limits.operations < s.operations + n then
        .error (.error .tooManyOperations) { s with operations := s.operations + n }
      else .ok () { s with operations := s.operations + n } := by
  show (if Limits.operations < s.operations + n then fail .tooManyOperations else pure ())
    { s with operations := s.operations + n } = _
  by_cases h : Limits.operations < s.operations + n
  · rw [if_pos h, if_pos h]
    rfl
  · rw [if_neg h, if_neg h]
    rfl

/-- Puts what `f` gives in the place of the innermost open conditional. It is `switchBranch` if `f`
gives its other part, and `closeBranch` if `f` gives nothing. -/
def replaceInnermost (f : Condition → List Condition) : Engine Unit := do
  match (← get).conditions with
  | [] => fail (.invalidState .noOpenConditional)
  | c :: outer => modify fun s => { s with conditions := f c ++ outer }

theorem replaceInnermost_nil {f : Condition → List Condition} {s : State}
    (hs : s.conditions = []) :
    replaceInnermost f s = .error (.error (.invalidState .noOpenConditional)) s := by
  unfold replaceInnermost
  rw [get_bind, hs]
  rfl

theorem replaceInnermost_cons {f : Condition → List Condition} {s : State} {c : Condition}
    {outer : List Condition} (hs : s.conditions = c :: outer) :
    replaceInnermost f s = .ok () { s with conditions := f c ++ outer } := by
  unfold replaceInnermost
  rw [get_bind, hs]
  rfl

/-- Whether a result is a state with a property. -/
def endsWith (r : EStateM.Result Halt State Unit) (p : State → Bool) : Bool :=
  match r with
  | .ok _ s => p s
  | .error _ _ => false

theorem exists_of_endsWith {r : EStateM.Result Halt State Unit} {p : State → Bool}
    (h : endsWith r p = true) : ∃ s, r = .ok () s ∧ p s = true := by
  cases r with
  | ok _ s => exact ⟨s, rfl, h⟩
  | error _ _ => cases h

/-! ## Relations that are kept -/

/-- Where `m` returns, the state before and the state after it are related by `R`. -/
def Keeps (R : State → State → Prop) (m : Engine α) : Prop :=
  ∀ ⦃s a s'⦄, m s = .ok a s' → R s s'

namespace Keeps

variable {R : State → State → Prop}

theorem mono {R' : State → State → Prop} {m : Engine α} (h : Keeps R m)
    (hR : ∀ s s', R s s' → R' s s') : Keeps R' m := by
  intro s a s' hm
  exact hR s s' (h hm)

theorem throw (e : Halt) : Keeps R (MonadExcept.throw e : Engine α) := by
  intro s a s' h
  cases h

theorem fail (e : ScriptError) : Keeps R (Engine.fail e : Engine α) :=
  throw _

theorem modify {f : State → State} (h : ∀ s, R s (f s)) : Keeps R (modify f) := by
  rintro s a s' ⟨⟩
  exact h s

theorem bind [IsTrans State R] {m : Engine α} {f : α → Engine β} (hm : Keeps R m)
    (hf : ∀ a, Keeps R (f a)) : Keeps R (m >>= f) := by
  intro s b s' h
  obtain ⟨a, t, ha, hb⟩ := bind_eq_ok.mp h
  exact IsTrans.trans _ _ _ (hm ha) (hf a hb)

variable [Std.Refl R]

theorem pure (a : α) : Keeps R (Pure.pure a : Engine α) := by
  rintro s b s' ⟨⟩
  exact refl s

theorem get : Keeps R (MonadState.get : Engine State) := by
  rintro s b s' ⟨⟩
  exact refl s

theorem lift (r : Except ScriptError α) : Keeps R (Engine.lift r) := by
  intro s a s' h
  rw [(lift_eq_ok.mp h).2]
  exact refl s

theorem require (answer : Bool) : Keeps R (Engine.require answer) := by
  intro s a s' h
  rw [(require_eq_ok.mp h).2]
  exact refl s

end Keeps

end SpendScript.Engine
