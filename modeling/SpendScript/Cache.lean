/-!
# Bounded caches

A map with a bound on the number of its entries. An insertion into a full cache first evicts an
entry, and a stream of picks, given with the empty cache, decides which one.

* `Cache.get?`: the value of a key.
* `Cache.insert`: adds or replaces an entry.
-/

namespace SpendScript

/-- At most `capacity` entries. The eviction numbered `i` removes the entry at `picks i`, counted
round and round, and the last entry takes its place. -/
structure Cache (κ ν : Type) where
  capacity : Nat
  picks : Nat → Nat
  entries : List (κ × ν)
  evictions : Nat

namespace Cache

variable {κ ν : Type} [DecidableEq κ]

def empty (capacity : Nat) (picks : Nat → Nat) : Cache κ ν :=
  ⟨capacity, picks, [], 0⟩

/-- The most entries that a cache can be made for, `7 * 2 ^ 56`: with seven of eight places taken
and eight bytes for each place, more of them could not be addressed. -/
def largest : Nat :=
  0x700000000000000

def size (c : Cache κ ν) : Nat :=
  c.entries.length

/-- The value of a key, if there is an entry for it. -/
def get? (c : Cache κ ν) (k : κ) : Option ν :=
  c.entries.lookup k

/-- Whether there is an entry for a key. -/
def contains (c : Cache κ ν) (k : κ) : Bool :=
  (c.get? k).isSome

/-- The items without the one at an index; the last item takes its place. -/
def swapRemove {α : Type} (i : Nat) (items : List α) : List α :=
  match items.getLast? with
  | none => []
  | some last => (items.set i last).dropLast

/-- Removes one entry. -/
def evict (c : Cache κ ν) : Cache κ ν :=
  { c with
    entries := swapRemove (c.picks c.evictions % c.size) c.entries
    evictions := c.evictions + 1 }

/-- Replaces the value of a key in its place. -/
def replace (k : κ) (v : ν) : List (κ × ν) → List (κ × ν)
  | [] => []
  | e :: es => if e.1 = k then (k, v) :: es else e :: replace k v es

/-- Sets the value of a key. A key without an entry evicts another one if the cache is full; a
cache of capacity zero stores nothing. -/
def insert (c : Cache κ ν) (k : κ) (v : ν) : Cache κ ν :=
  if c.capacity = 0 then c
  else if c.contains k then { c with entries := replace k v c.entries }
  else
    let c := if c.capacity ≤ c.size then c.evict else c
    { c with entries := c.entries ++ [(k, v)] }

end Cache

end SpendScript
