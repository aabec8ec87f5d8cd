import Mathlib.Algebra.GroupWithZero.Nat
import Mathlib.Control.Basic
import Mathlib.Data.Int.Notation
import Mathlib.Data.Nat.Notation
import SpendScript.Field.Fault
import SpendScript.Number.Binary
import SpendScript.Number.Word

/-!
# Operations that can panic

A list in memory can be indexed outside its range, and a machine integer can leave its range. The
operations here are the ones that the machine stops at, each with the condition under which it
stops.

* `Panic`: the reasons. `Checked`: computations that may panic.
* `Attempt`: computations that may also be refused. `Attempt.ofExcept`: those that cannot panic.
* `Checked.item`, `Checked.slice`, `Checked.splitOff`, …: accesses to lists.
* `Checked.sub`, `Checked.addWord`, `Checked.int64`, …: integers.

Results:
* One lemma for each operation: within its range it gives what the unchecked operation gives.
* `Checked.slice_reverse`: a range that is counted from the end.
-/

namespace SpendScript

/-- Why a computation panics. -/
inductive Panic where
  /-- An index or a range does not lie inside its list. -/
  | outOfRange
  /-- An integer leaves its range. -/
  | overflow
  /-- A value that has to be there is not. -/
  | unexpected
  /-- An assumption of the arithmetic is broken. -/
  | fault (f : Fault)
  /-- A recursion is not at its end when its budget is. -/
  | unfinished
deriving DecidableEq, Repr

/-- Computations that may panic. -/
abbrev Checked := Except Panic

/-- Why a computation has no value: it is refused, or it panics. -/
inductive Stop (ε : Type) where
  | error (e : ε)
  | panic (p : Panic)
deriving DecidableEq, Repr

/-- Computations that may be refused and may panic. -/
abbrev Attempt (ε : Type) := Except (Stop ε)

theorem ok_bind {ε α β : Type} (a : α) (f : α → Except ε β) : (Except.ok a >>= f) = f a :=
  rfl

namespace Checked

variable {α β ε : Type}

/-- A computation that may fault, among those that may panic. -/
def ofFault : Except Fault α → Checked α
  | .ok a => .ok a
  | .error f => .error (.fault f)

theorem ofFault_eq_ok {r : Except Fault α} {a : α} : ofFault r = .ok a ↔ r = .ok a := by
  cases r with
  | error f => simp [ofFault]
  | ok b => simp [ofFault]

theorem ofFault_map (f : α → β) (r : Except Fault α) : ofFault (f <$> r) = f <$> ofFault r := by
  cases r <;> rfl

/-- A sequence whose parts can only fault can only fault. -/
theorem ofFault_bind {α' : Type} {h : α → α'} {m : Except Fault α} {f : α' → Checked β}
    {g : α → Except Fault β} (hf : ∀ a, f (h a) = ofFault (g a)) :
    (ofFault (h <$> m) >>= f) = ofFault (m >>= g) := by
  cases m with
  | error e => rfl
  | ok a => exact hf a

theorem ofFault_bind_map {α' β' : Type} {h : α → α'} {h' : β → β'} {m : Except Fault α}
    {f : α' → Checked β'} {g : α → Except Fault β}
    (hf : ∀ a, f (h a) = ofFault (h' <$> g a)) :
    (ofFault (h <$> m) >>= f) = ofFault (h' <$> (m >>= g)) := by
  rw [map_bind]
  exact ofFault_bind hf

/-- The value of a computation that must not fail. -/
def expect : Except ε α → Checked α
  | .ok a => .ok a
  | .error _ => .error .unexpected

/-! ## Lists -/

/-- The item at an index. -/
def item (l : List α) (i : ℕ) : Checked α :=
  match l[i]? with
  | some a => .ok a
  | none => .error .outOfRange

/-- The items from index `i` to before index `j`. -/
def slice (l : List α) (i j : ℕ) : Checked (List α) :=
  if i ≤ j ∧ j ≤ l.length then .ok ((l.take j).drop i) else .error .outOfRange

/-- The items before an index and those from it on. -/
def splitOff (l : List α) (i : ℕ) : Checked (List α × List α) :=
  if i ≤ l.length then .ok (l.take i, l.drop i) else .error .outOfRange

/-- The item at an index and the other ones. -/
def remove (l : List α) (i : ℕ) : Checked (α × List α) :=
  match l[i]? with
  | some a => .ok (a, l.eraseIdx i)
  | none => .error .outOfRange

/-- Puts an item before the one at an index, or at the end. -/
def insert (l : List α) (i : ℕ) (a : α) : Checked (List α) :=
  if i ≤ l.length then .ok (l.insertIdx i a) else .error .outOfRange

/-- The items from index `i` to before index `j`, and the other ones. -/
def drain (l : List α) (i j : ℕ) : Checked (List α × List α) :=
  if i ≤ j ∧ j ≤ l.length then .ok ((l.take j).drop i, l.take i ++ l.drop j)
  else .error .outOfRange

/-! ## Integers -/

/-- The difference of numbers without a sign. -/
def sub (a b : ℕ) : Checked ℕ :=
  if b ≤ a then .ok (a - b) else .error .overflow

/-- The sum of words of 64 bits. -/
def addWord (a b : ℕ) : Checked ℕ :=
  if a + b < Number.wordSize then .ok (a + b) else .error .overflow

/-- The sum of a list of words. -/
def sumWords (ns : List ℕ) : Checked ℕ :=
  ns.foldlM addWord 0

/-- A result in 64 bits, of which one is for the sign. -/
def int64 (n : ℤ) : Checked ℤ :=
  if Number.fitsSigned n then .ok n else .error .overflow

/-- A result in 32 bits, of which one is for the sign. -/
def int32 (n : ℤ) : Checked ℤ :=
  if -0x80000000 ≤ n ∧ n < 0x80000000 then .ok n else .error .overflow

/-- The remainder of a division by a number that must not be zero. -/
def rem (a m : ℕ) : Checked ℕ :=
  if m = 0 then .error (.fault .divisionByZero) else .ok (a % m)

/-- The power modulo a number that must not be zero. -/
def powMod (m base e : ℕ) : Checked ℕ :=
  if m = 0 then .error (.fault .divisionByZero) else .ok (Number.powMod m base e)

/-! ## Within their ranges -/

variable {l : List α} {i j a b m : ℕ} {n : ℤ}

theorem item_eq_ok {x : α} (h : l[i]? = some x) : item l i = .ok x := by
  rw [item, h]

theorem remove_eq_ok {x : α} (h : l[i]? = some x) : remove l i = .ok (x, l.eraseIdx i) := by
  rw [remove, h]

theorem slice_eq_ok (hij : i ≤ j) (hj : j ≤ l.length) : slice l i j = .ok ((l.take j).drop i) :=
  if_pos ⟨hij, hj⟩

theorem splitOff_eq_ok (h : i ≤ l.length) : splitOff l i = .ok (l.take i, l.drop i) :=
  if_pos h

theorem insert_eq_ok (h : i ≤ l.length) (x : α) : insert l i x = .ok (l.insertIdx i x) :=
  if_pos h

theorem drain_eq_ok (hij : i ≤ j) (hj : j ≤ l.length) :
    drain l i j = .ok ((l.take j).drop i, l.take i ++ l.drop j) :=
  if_pos ⟨hij, hj⟩

theorem sub_eq_ok (h : b ≤ a) : sub a b = .ok (a - b) :=
  if_pos h

theorem addWord_eq_ok (h : a + b < Number.wordSize) : addWord a b = .ok (a + b) :=
  if_pos h

theorem int64_eq_ok (h : Number.fitsSigned n = true) : int64 n = .ok n :=
  if_pos h

theorem int32_eq_ok (hl : -0x80000000 ≤ n) (hu : n < 0x80000000) : int32 n = .ok n :=
  if_pos ⟨hl, hu⟩

theorem rem_eq_ok (h : 0 < m) (a : ℕ) : rem a m = .ok (a % m) :=
  if_neg (Nat.ne_of_gt h)

theorem powMod_eq_ok (h : 0 < m) (base e : ℕ) : powMod m base e = .ok (Number.powMod m base e) :=
  if_neg (Nat.ne_of_gt h)

/-- A sum whose value fits into a word does not leave the range on the way to it. -/
theorem foldlM_addWord (ns : List ℕ) (h : a + ns.sum < Number.wordSize) :
    ns.foldlM addWord a = .ok (a + ns.sum) := by
  induction ns generalizing a with
  | nil => rfl
  | cons k ns ih =>
    rw [List.sum_cons, ← Nat.add_assoc] at h ⊢
    rw [List.foldlM_cons, addWord_eq_ok (by omega)]
    exact ih h

theorem sumWords_eq_ok {ns : List ℕ} (h : ns.sum < Number.wordSize) : sumWords ns = .ok ns.sum := by
  rw [sumWords, foldlM_addWord ns (by rwa [Nat.zero_add]), Nat.zero_add]

/-! ## Positions counted from the end -/

/-- The range of a list that begins `j` and ends `i` items before its end. -/
theorem drop_take_reverse (l : List α) (hij : i ≤ j) (hj : j ≤ l.length) :
    (l.reverse.take (l.length - i)).drop (l.length - j) = ((l.drop i).take (j - i)).reverse := by
  rw [List.take_reverse, List.drop_reverse, Nat.sub_sub_self (Nat.le_trans hij hj), List.length_drop]
  congr 2
  omega

theorem slice_reverse (l : List α) (hij : i ≤ j) (hj : j ≤ l.length) :
    slice l.reverse (l.length - j) (l.length - i) = .ok ((l.drop i).take (j - i)).reverse := by
  rw [slice_eq_ok (by omega) (by rw [List.length_reverse]; omega), drop_take_reverse l hij hj]

theorem drain_reverse (l : List α) (hij : i ≤ j) (hj : j ≤ l.length) :
    drain l.reverse (l.length - j) (l.length - i) =
      .ok (((l.drop i).take (j - i)).reverse, (l.drop j).reverse ++ (l.take i).reverse) := by
  rw [drain_eq_ok (by omega) (by rw [List.length_reverse]; omega), drop_take_reverse l hij hj,
    List.take_reverse, List.drop_reverse, Nat.sub_sub_self hj, Nat.sub_sub_self (Nat.le_trans hij hj)]

theorem splitOff_reverse (l : List α) (h : i ≤ l.length) :
    splitOff l.reverse (l.length - i) = .ok ((l.drop i).reverse, (l.take i).reverse) := by
  rw [splitOff_eq_ok (by rw [List.length_reverse]; omega), List.take_reverse, List.drop_reverse,
    Nat.sub_sub_self h]

theorem insert_append (l l' : List α) (x : α) :
    insert (l ++ l') l.length x = .ok (l ++ x :: l') := by
  rw [insert_eq_ok (by simp)]
  congr 1
  induction l with
  | nil => rfl
  | cons y l ih => exact congrArg (y :: ·) ih

end Checked

namespace Attempt

variable {α β ε ε' : Type}

/-- A refusal. -/
def fail (e : ε) : Attempt ε α :=
  .error (.error e)

/-- A computation that may panic, among those that may also be refused. -/
def check : Checked α → Attempt ε α
  | .ok a => .ok a
  | .error p => .error (.panic p)

theorem check_ok (a : α) : (check (.ok a) : Attempt ε α) = .ok a :=
  rfl

/-- A computation that may be refused, among those that may also panic. -/
def ofExcept : Except ε α → Attempt ε α
  | .ok a => .ok a
  | .error e => fail e

/-- The value of a computation that must not be refused. -/
def expect : Attempt ε α → Checked α
  | .ok a => .ok a
  | .error (.error _) => .error .unexpected
  | .error (.panic p) => .error p

/-- Gives another reason for a refusal. -/
def mapError (f : ε → ε') : Attempt ε α → Attempt ε' α
  | .ok a => .ok a
  | .error (.error e) => fail (f e)
  | .error (.panic p) => .error (.panic p)

end Attempt

end SpendScript
