import Mathlib.Data.List.GetD
import Mathlib.Tactic.SplitIfs
import SpendScript.Digest.Hmac

/-!
# SHA-256 with its schedule in a list

The schedule of a block grows at the end of an array, and each new word comes from four of the last
sixteen. In a list with the latest word first these are near the front, so that digests of closed
texts are cheap to evaluate.

Results:
* `Sha256.toList_schedule`: both ways give the same words.
* `sha256_eq`, `hmacSha256_eq`: the digest and the keyed hash with the schedule in a list.
-/

namespace SpendScript.Digest

/-- Only whole blocks are compressed. -/
theorem fold_congr {σ : Type} {compress compress' : σ → Array UInt32 → σ}
    (h : ∀ s block, block.size = 16 → compress s block = compress' s block) (start : σ)
    (ws : List UInt32) : fold compress start ws = fold compress' start ws := by
  have habsorb : absorb compress = absorb compress' := by
    funext acc w
    dsimp only [absorb]
    split_ifs with hsize
    · rw [h _ _ hsize]
    · rfl
  rw [fold, fold, habsorb]

namespace Sha256

/-- Adds `n` words to a schedule that has its latest word first. -/
def extend : (n : ℕ) → List UInt32 → List UInt32
  | 0, ws => ws
  | n + 1, ws =>
    extend n (nextWord (ws.getD 15 0) (ws.getD 14 0) (ws.getD 6 0) (ws.getD 1 0) :: ws)

theorem getD_eq_getD_reverse {w : Array UInt32} {i j : ℕ} (h : w.size = i + j + 1) :
    w.getD i 0 = w.toList.reverse.getD j 0 := by
  have hj : j < w.toList.length := by
    rw [Array.length_toList]
    omega
  rw [List.getD_reverse j hj, Array.length_toList, h, Array.getD_eq_getD_getElem?,
    ← Array.getElem?_toList, List.getD_eq_getElem?_getD]
  congr 2
  omega

/-- The words from the `i`-th new one on. -/
theorem toList_foldl_push (n i : ℕ) {w : Array UInt32} (hw : w.size = 16 + i) :
    ((List.range' i n).foldl (fun w i => w.push (nextWord (w.getD i 0) (w.getD (i + 1) 0)
      (w.getD (i + 9) 0) (w.getD (i + 14) 0))) w).toList = (extend n w.toList.reverse).reverse := by
  induction n generalizing i w with
  | zero => rw [List.range'_zero, List.foldl_nil, extend, List.reverse_reverse]
  | succ n ih =>
    rw [List.range'_succ, List.foldl_cons, ih (i + 1) (by rw [Array.size_push, hw, Nat.add_assoc]),
      Array.toList_push, List.reverse_append, List.reverse_singleton, List.singleton_append, extend,
      getD_eq_getD_reverse (j := 15) (by omega), getD_eq_getD_reverse (j := 14) (by omega),
      getD_eq_getD_reverse (j := 6) (by omega), getD_eq_getD_reverse (j := 1) (by omega)]

theorem toList_schedule {block : Array UInt32} (h : block.size = 16) :
    (schedule block).toList = (extend 48 block.toList.reverse).reverse := by
  rw [schedule, List.range_eq_range', toList_foldl_push 48 0 h]

/-- Folds one block into the chaining value, with the schedule in a list. -/
def compressList (s : State) (block : Array UInt32) : State :=
  let t := (constants.zip (extend 48 block.toList.reverse).reverse).foldl round s
  ⟨s.a + t.a, s.b + t.b, s.c + t.c, s.d + t.d, s.e + t.e, s.f + t.f, s.g + t.g, s.h + t.h⟩

theorem compress_eq (s : State) (block : Array UInt32) (h : block.size = 16) :
    compress s block = compressList s block := by
  rw [compress, toList_schedule h]
  rfl

end Sha256

/-- The SHA-256 digest, with the schedules in lists. -/
def sha256List (message : Bytes) : Bytes :=
  (fold Sha256.compressList Sha256.start
    (wordsBE (pad (lengthLE message).reverse message))).toBytes

theorem sha256_eq : sha256 = sha256List := by
  funext message
  rw [sha256, fold_congr Sha256.compress_eq]
  rfl

/-- The keyed hash over a hash function with blocks of 64 bytes. -/
def hmacWith (hash : Bytes → Bytes) (key message : Bytes) : Bytes :=
  let short := if 64 < key.length then hash key else key
  let block := short ++ List.replicate (64 - short.length) 0
  hash (block.map (· ^^^ 0x5c) ++ hash (block.map (· ^^^ 0x36) ++ message))

theorem hmacSha256_eq : hmacSha256 = hmacWith sha256List := by
  rw [← sha256_eq]
  rfl

end SpendScript.Digest
