import SpendScript.Script.Error

/-!
# The data stack

A list of byte strings, the top first. An operation that needs more items than there are fails and
changes nothing.

* `Stack.pick`, `Stack.roll`: an item from a given depth, copied or moved to the top.
* `Stack.dup`, `Stack.copyBelow`, `Stack.rot`, `Stack.swap`, `Stack.drop`: moves of groups of items.
-/

namespace SpendScript

/-- Byte strings, the top first. -/
abbrev Stack := List Bytes

namespace Stack

/-- Gives `result` if the stack has at least `n` items. -/
def needing (n : Nat) (s result : Stack) : Except ScriptError Stack :=
  if n ≤ s.length then .ok result else .error (.stackTooShort n s.length)

/-- The top `n` items, the lowest of them first, and the rest. -/
def popMany (n : Nat) (s : Stack) : Except ScriptError (List Bytes × Stack) :=
  if n ≤ s.length then .ok ((s.take n).reverse, s.drop n)
  else .error (.stackTooShort n s.length)

/-! ## Groups of items -/

def drop (n : Nat) (s : Stack) : Except ScriptError Stack :=
  needing n s (List.drop n s)

/-- Copies the top group. -/
def dup (n : Nat) (s : Stack) : Except ScriptError Stack :=
  needing n s (s.take n ++ s)

/-- Copies the second group. -/
def copyBelow (n : Nat) (s : Stack) : Except ScriptError Stack :=
  needing (2 * n) s ((List.drop n s).take n ++ s)

/-- Moves the third group to the top. -/
def rot (n : Nat) (s : Stack) : Except ScriptError Stack :=
  needing (3 * n) s
    ((List.drop (2 * n) s).take n ++ s.take (2 * n) ++ List.drop (3 * n) s)

/-- Moves the second group to the top. -/
def swap (n : Nat) (s : Stack) : Except ScriptError Stack :=
  needing (2 * n) s ((List.drop n s).take n ++ s.take n ++ List.drop (2 * n) s)

/-! ## Single items -/

/-- Removes the second item. -/
def nip : Stack → Except ScriptError Stack
  | a :: _ :: s => .ok (a :: s)
  | s => .error (.stackTooShort 2 s.length)

/-- Copies the top item below the second one. -/
def tuck : Stack → Except ScriptError Stack
  | a :: b :: s => .ok (a :: b :: a :: s)
  | s => .error (.stackTooShort 2 s.length)

/-- Copies the item at a depth; the top has depth zero. -/
def pick (depth : Nat) (s : Stack) : Except ScriptError Stack :=
  match s[depth]? with
  | some item => .ok (item :: s)
  | none => .error (.stackTooShort (depth + 1) s.length)

/-- Moves the item at a depth to the top. -/
def roll (depth : Nat) (s : Stack) : Except ScriptError Stack :=
  match s[depth]? with
  | some item => .ok (item :: s.eraseIdx depth)
  | none => .error (.stackTooShort (depth + 1) s.length)

end Stack

end SpendScript
