import SpendScript.Bytes
import SpendScript.Field.Fault
import SpendScript.Number.Binary

/-!
# Deterministic nonces

The candidates of RFC 6979, section 3.2, over any keyed hash with 32-byte results. A candidate
that is out of range and one that gives no signature advance the generator in the same way, so
the candidates form one sequence.

* `Nonce.start`: the state that a secret and a digest determine.
* `Nonce.candidate`, `Nonce.advance`: the next candidate, and the step to the one after it.
* `Nonce.search`: the first candidate that is in range and accepted, among a number of candidates.
-/

namespace SpendScript.Nonce

/-- A keyed hash: the key, then the message. -/
abbrev KeyedHash := Bytes → Bytes → Bytes

/-- The key and the value of the generator. -/
structure State where
  key : Bytes
  value : Bytes

/-- A number in at least `width` big-endian bytes. -/
def octets (width n : Nat) : Bytes :=
  Bytes.padLeft width (Bytes.ofNat n)

/-- The number in the leftmost `qlen` bits of a byte string; all of it if it is shorter. -/
def leftmostBits (qlen : Nat) (bs : Bytes) : Nat :=
  Bytes.toNat bs >>> (8 * bs.length - qlen)

/-! ## The generator -/

/-- Rekeys with `extra` after the value, then hashes the value. -/
def rekey (mac : KeyedHash) (s : State) (extra : Bytes) : State :=
  let key := mac s.key (s.value ++ extra)
  ⟨key, mac key s.value⟩

/-- The state before the first candidate, from the secret and the digest modulo the order. -/
def start (mac : KeyedHash) (order secret z : Nat) : State :=
  let width := Number.byteLength order
  let seed := octets width secret ++ octets width (z % order)
  let s : State := ⟨List.replicate 32 0, List.replicate 32 1⟩
  rekey mac (rekey mac s (0 :: seed)) (1 :: seed)

/-- Hashes the value `rounds` times and joins the results. -/
def draw (mac : KeyedHash) : (rounds : Nat) → State → Bytes × State
  | 0, s => ([], s)
  | n + 1, s =>
    let value := mac s.key s.value
    let (rest, s) := draw mac n ⟨s.key, value⟩
    (value ++ rest, s)

/-- The next candidate and the state after it: as many 32-byte results as fill the width of the
order, cut to its bits. -/
def candidate (mac : KeyedHash) (order : Nat) (s : State) : Nat × State :=
  let (bs, s) := draw mac ((Number.byteLength order + 31) / 32) s
  (leftmostBits (Number.bitLength order) bs, s)

/-- The step between two candidates. -/
def advance (mac : KeyedHash) (s : State) : State :=
  rekey mac s [0]

/-! ## The search -/

/-- How many candidates are tried where no other bound is given. Signing itself loops without a
bound until a candidate is accepted, so a search that has used up its candidates is a missing
result, and what is proved about signing holds with any bound. -/
def attempts : Nat := 65536

/-- The first result of `accept` on the candidates in `[1, order)`, among `n` candidates. -/
def search {α : Type} (mac : KeyedHash) (order : Nat)
    (accept : Nat → Except Fault (Option α)) : (n : Nat) → State → Except Fault (Option α)
  | 0, _ => .ok none
  | n + 1, s => do
    let (k, s) := candidate mac order s
    let found ← if 0 < k ∧ k < order then accept k else .ok none
    match found with
    | some a => return some a
    | none => search mac order accept n (advance mac s)

end SpendScript.Nonce
