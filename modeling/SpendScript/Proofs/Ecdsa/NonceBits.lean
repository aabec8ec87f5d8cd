import Mathlib.Algebra.Order.Floor.Div
import Mathlib.Data.Nat.Size
import Mathlib.Tactic.Ring
import SpendScript.Digest.Hmac
import SpendScript.Ecdsa.Nonce
import SpendScript.Proofs.Encoding.Bytes

/-!
# Nonces by bits

RFC 6979, section 3.2, is written in bits: conversions cut and pad bit strings to the bit length of
the order, and a candidate takes results of the keyed hash until there are enough bits. The
generator works with bytes and shifts, and knows how many results it needs.

Specification: the section on bit strings, in `Nonce.Spec`. The keyed hash is any function with
results of 32 bytes.

Results:
* `Nonce.start_eq`: the state before the first candidate, for every order and secret below it.
* `Nonce.candidate_eq`: the next candidate and the state after it, for every order and state.
-/

namespace SpendScript.Nonce

/-- A keyed hash with results of 32 bytes. -/
structure Mac where
  hash : KeyedHash
  length_hash (key message : Bytes) : (hash key message).length = 32

/-- The keyed hash that signing uses. -/
def Mac.hmacSha256 : Mac :=
  ⟨Digest.hmacSha256, Digest.hmacSha256_length⟩

/-! ## Specification: RFC 6979, section 3.2, over bit strings -/

namespace Spec

/-- The `width` lowest bits of a number, highest first. -/
def bitsOfNat : (width n : ℕ) → List Bool
  | 0, _ => []
  | width + 1, n => n.testBit width :: bitsOfNat width n

/-- The bits of a byte string, the highest one of each byte first. -/
def bits (bs : Bytes) : List Bool :=
  bs.flatMap fun b => bitsOfNat 8 b.toNat

theorem length_bits (bs : Bytes) : (bits bs).length = 8 * bs.length := by
  induction bs with
  | nil => rfl
  | cons b bs ih =>
    rw [bits, List.flatMap_cons, List.length_append, ← bits, ih, List.length_cons, Nat.mul_succ,
      Nat.add_comm]
    rfl

/-- The number that bits spell, highest first. -/
def natOfBits (bits : List Bool) : ℕ :=
  bits.foldl (fun n b => 2 * n + b.toNat) 0

/-- The bit length of the order. -/
def qlen (q : ℕ) : ℕ :=
  Nat.size q

/-- The leftmost `qlen` bits as a number; fewer bits are padded with zeros on the left. -/
def bits2int (q : ℕ) (bits : List Bool) : ℕ :=
  if qlen q < bits.length then natOfBits (bits.take (qlen q))
  else natOfBits (List.replicate (qlen q - bits.length) false ++ bits)

/-- A number in `⌈qlen / 8⌉` bytes, highest first. -/
def int2octets (q x : ℕ) : Bytes :=
  (Bytes.ofNatLE (qlen q ⌈/⌉ 8) x).reverse

variable (mac : Mac) (q : ℕ)

/-- Steps b to g: the state before the first candidate. -/
def init (x z : ℕ) : State :=
  let x := int2octets q x
  let h := int2octets q (z % q)
  let v := List.replicate 32 0x01
  let k := List.replicate 32 0x00
  let k := mac.hash k (v ++ [0x00] ++ x ++ h)
  let v := mac.hash k v
  let k := mac.hash k (v ++ [0x01] ++ x ++ h)
  let v := mac.hash k v
  ⟨k, v⟩

/-- Step h.2: as long as `t` has fewer than `qlen` bits, hashes the value and appends it. -/
def fill (s : State) (t : Bytes) : Bytes × State :=
  if (bits t).length < qlen q then
    let v := mac.hash s.key s.value
    fill ⟨s.key, v⟩ (t ++ v)
  else (t, s)
termination_by qlen q - (bits t).length
decreasing_by
  simp only [length_bits, List.length_append, mac.length_hash] at *
  omega

/-- Steps h.1 to h.3: the next candidate. -/
def generate (s : State) : ℕ × State :=
  let (t, s) := fill mac q s []
  (bits2int q (bits t), s)

/-- The end of step h: the state after a candidate that is not taken. -/
def update (s : State) : State :=
  let k := mac.hash s.key (s.value ++ [0x00])
  ⟨k, mac.hash k s.value⟩

/-- The state before candidate `i`. -/
def stateAt (x z : ℕ) : (i : ℕ) → State
  | 0 => init mac q x z
  | i + 1 => update mac (generate mac q (stateAt x z i)).2

/-- Candidate `i`, counted from zero over all candidates. -/
def candidateAt (x z i : ℕ) : ℕ :=
  (generate mac q (stateAt mac q x z i)).1

/-- The values of `k` that step h gives, in their order: those of the first `n` candidates that are
within `[1, q - 1]`. -/
def values (x z n : ℕ) : List ℕ :=
  ((List.range n).map (candidateAt mac q x z)).filter fun k => 1 ≤ k ∧ k ≤ q - 1

end Spec

/-! ## Bit strings and numbers -/

open Spec

theorem natOfBits_concat (bs : List Bool) (b : Bool) :
    natOfBits (bs ++ [b]) = 2 * natOfBits bs + b.toNat := by
  rw [natOfBits, List.foldl_concat, ← natOfBits]

theorem natOfBits_append (as bs : List Bool) :
    natOfBits (as ++ bs) = natOfBits as * 2 ^ bs.length + natOfBits bs := by
  induction bs using List.reverseRecOn with
  | nil =>
    rw [List.append_nil, List.length_nil, pow_zero, Nat.mul_one]
    rfl
  | append_singleton bs b ih =>
    rw [← List.append_assoc, natOfBits_concat, natOfBits_concat, ih, List.length_append,
      List.length_singleton, pow_succ]
    ring

theorem natOfBits_lt (bs : List Bool) : natOfBits bs < 2 ^ bs.length := by
  induction bs using List.reverseRecOn with
  | nil => decide
  | append_singleton bs b ih =>
    have := b.toNat_lt
    rw [natOfBits_concat, List.length_append, List.length_singleton, pow_succ]
    omega

theorem natOfBits_zeros (k : ℕ) : natOfBits (List.replicate k false) = 0 := by
  induction k with
  | zero => rfl
  | succ k ih =>
    rw [List.replicate_succ', natOfBits_concat, ih]
    rfl

/-- To take the leftmost bits is to shift the others out. -/
theorem natOfBits_take (k : ℕ) (bs : List Bool) :
    natOfBits (bs.take k) = natOfBits bs >>> (bs.length - k) := by
  have hlow := natOfBits_lt (bs.drop k)
  have happend := natOfBits_append (bs.take k) (bs.drop k)
  rw [List.take_append_drop] at happend
  rw [List.length_drop] at hlow happend
  rw [Nat.shiftRight_eq_div_pow, happend, Nat.mul_comm, Nat.mul_add_div (Nat.two_pow_pos _),
    Nat.div_eq_of_lt hlow, Nat.add_zero]

theorem length_bitsOfNat (width n : ℕ) : (bitsOfNat width n).length = width := by
  induction width with
  | zero => rfl
  | succ width ih => rw [bitsOfNat, List.length_cons, ih]

theorem natOfBits_bitsOfNat (width n : ℕ) : natOfBits (bitsOfNat width n) = n % 2 ^ width := by
  induction width with
  | zero => rw [pow_zero, Nat.mod_one]; rfl
  | succ width ih =>
    have hbit : natOfBits [n.testBit width] = n / 2 ^ width % 2 := by
      rw [← Nat.toNat_testBit]
      exact Nat.zero_add _
    rw [bitsOfNat, ← List.singleton_append, natOfBits_append, length_bitsOfNat, ih, hbit,
      Nat.mod_pow_succ, Nat.add_comm, Nat.mul_comm]

theorem natOfBits_bits (bs : Bytes) : natOfBits (bits bs) = Bytes.toNat bs := by
  induction bs using List.reverseRecOn with
  | nil => rfl
  | append_singleton bs b ih =>
    rw [bits, List.flatMap_append, ← bits, natOfBits_append, ih, List.flatMap_singleton,
      length_bitsOfNat, natOfBits_bitsOfNat, Nat.mod_eq_of_lt b.toNat_lt, Bytes.toNat_concat]
    rfl

/-! ## Widths -/

theorem qlen_eq (q : ℕ) : qlen q = Number.bitLength q :=
  (Number.bitLength_eq_size q).symm

theorem ceilDiv_qlen (q : ℕ) : qlen q ⌈/⌉ 8 = Number.byteLength q := by
  rw [Nat.ceilDiv_eq_add_pred_div, qlen_eq]
  rfl

/-- The bits of a string are enough exactly if its bytes fill the width of the order. -/
theorem length_bits_lt_iff {q : ℕ} {bs : Bytes} :
    (bits bs).length < qlen q ↔ bs.length < Number.byteLength q := by
  rw [length_bits, qlen_eq, Number.byteLength]
  omega

/-! ## Conversions -/

/-- A number below the order, padded to the width of the order, is its fixed-width encoding. -/
theorem octets_eq {q x : ℕ} (h : x < q) : octets (Number.byteLength q) x = int2octets q x := by
  have hlt : x < 256 ^ Number.byteLength q := h.trans (Number.lt_pow_byteLength q)
  rw [octets, int2octets, ceilDiv_qlen]
  apply Bytes.toNat_inj
  · rw [Bytes.length_padLeft (Bytes.length_ofNat_le (Number.byteLength_pos (by omega)) hlt),
      List.length_reverse, Bytes.length_ofNatLE]
  · rw [Bytes.toNat_padLeft, Bytes.toNat_ofNat, Bytes.toNat_reverse, Bytes.toNatLE_ofNatLE hlt]

theorem leftmostBits_eq (q : ℕ) (bs : Bytes) :
    leftmostBits (Number.bitLength q) bs = bits2int q (bits bs) := by
  unfold leftmostBits bits2int
  rw [← qlen_eq, ← natOfBits_bits, ← length_bits]
  split_ifs with h
  · rw [natOfBits_take]
  · rw [natOfBits_append, natOfBits_zeros, Nat.zero_mul, Nat.zero_add,
      Nat.sub_eq_zero_of_le (Nat.le_of_not_lt h), Nat.shiftRight_zero]

/-! ## The generator -/

variable (mac : Mac) {q : ℕ}

theorem start_eq {x : ℕ} (hx : x < q) (z : ℕ) : start mac.hash q x z = Spec.init mac q x z := by
  have hz : z % q < q := Nat.mod_lt z (by omega)
  simp only [start, Spec.init, octets_eq hx, octets_eq hz, rekey, List.append_assoc,
    List.cons_append, List.nil_append]

/-- Rounds are drawn one by one until the bits are enough; their number is known before. -/
theorem fill_eq (q rounds : ℕ) (s : State) (t : Bytes)
    (h : rounds = (Number.byteLength q - t.length + 31) / 32) :
    fill mac q s t = (t ++ (draw mac.hash rounds s).1, (draw mac.hash rounds s).2) := by
  induction rounds generalizing s t with
  | zero =>
    have henough : ¬(bits t).length < qlen q := by
      rw [length_bits_lt_iff]
      omega
    rw [fill, if_neg henough, draw, List.append_nil]
  | succ rounds ih =>
    have hmore : (bits t).length < qlen q := by
      rw [length_bits_lt_iff]
      omega
    rw [fill, if_pos hmore, ih, draw, List.append_assoc]
    rw [List.length_append, mac.length_hash]
    omega

theorem candidate_eq (q : ℕ) (s : State) : candidate mac.hash q s = generate mac q s := by
  unfold candidate generate
  rw [fill_eq mac q _ s [] rfl, List.nil_append]
  exact congrArg (·, _) (leftmostBits_eq q _)

theorem advance_eq (s : State) : advance mac.hash s = update mac s :=
  rfl

end SpendScript.Nonce
