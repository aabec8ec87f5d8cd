/-!
# Bytes

Byte strings are lists of bytes. Numbers are read and written in both byte orders.

* `ofNat`, `toNat`: highest byte first, with no needless leading zero.
* `ofNatLE`, `toNatLE`: lowest byte first, in a fixed width.
-/

namespace SpendScript

/-- A byte string. -/
abbrev Bytes := List UInt8

namespace Bytes

/-! ## Highest byte first -/

/-- The number whose base-256 digits are `bs`, highest first. -/
def toNat (bs : Bytes) : Nat :=
  bs.foldl (fun n b => n * 256 + b.toNat) 0

/-- The base-256 digits of `n`, highest first; zero has none. -/
def digits (n : Nat) : Bytes :=
  if n = 0 then [] else digits (n / 256) ++ [UInt8.ofNat n]
termination_by n

/-- The shortest non-empty spelling of `n`: zero is one zero byte. -/
def ofNat (n : Nat) : Bytes :=
  if n = 0 then [0] else digits n

/-- Zero bytes in front up to `width`; a longer string stays whole. -/
def padLeft (width : Nat) (bs : Bytes) : Bytes :=
  List.replicate (width - bs.length) 0 ++ bs

theorem length_digits_le {k : Nat} :
    ∀ {n : Nat}, n < Nat.pow 256 k → (digits n).length ≤ k := by
  induction k with
  | zero =>
    intro n h
    have : n = 0 := Nat.lt_one_iff.1 h
    simp [this, digits]
  | succ k ih =>
    intro n h
    unfold digits
    split
    · simp
    · have hm : n < 256 * Nat.pow 256 k := by rw [Nat.mul_comm]; exact h
      simpa using ih (Nat.div_lt_of_lt_mul hm)

theorem length_ofNat_le {k n : Nat} (hk : 0 < k) (h : n < Nat.pow 256 k) :
    (ofNat n).length ≤ k := by
  unfold ofNat
  split
  · exact hk
  · exact length_digits_le h

theorem length_padLeft {width : Nat} {bs : Bytes} (h : bs.length ≤ width) :
    (padLeft width bs).length = width := by
  simp only [padLeft, List.length_append, List.length_replicate]
  omega

/-! ## Lowest byte first -/

/-- The number whose base-256 digits are `bs`, lowest first. -/
def toNatLE : Bytes → Nat
  | [] => 0
  | b :: bs => b.toNat + 256 * toNatLE bs

/-- The `width` lowest base-256 digits of `n`, lowest first. -/
def ofNatLE : (width n : Nat) → Bytes
  | 0, _ => []
  | width + 1, n => UInt8.ofNat n :: ofNatLE width (n / 256)

/-! ## Order -/

/-- Order byte by byte; of two strings where one begins the other, the shorter comes first. -/
def le : Bytes → Bytes → Bool
  | [], _ => true
  | _ :: _, [] => false
  | a :: as, b :: bs => if a = b then le as bs else a.toNat ≤ b.toNat

end Bytes

end SpendScript
