import SpendScript.Bytes

/-!
# Blocks of words

What the three hash functions share: a message is padded to whole blocks of sixteen 32-bit words,
and a compression function folds the blocks into a chaining state.

* `pad`: the padding, with the length of the message at its end.
* `wordsBE`, `wordsLE`: a byte string as words in either byte order.
* `fold`: the chaining over blocks.
-/

namespace SpendScript.Digest

/-- Rotates a word to the left by an amount below 32. -/
def rotl (x : UInt32) (n : UInt32) : UInt32 :=
  (x <<< n) ||| (x >>> (32 - n))

/-- Rotates a word to the right by an amount below 32. -/
def rotr (x : UInt32) (n : UInt32) : UInt32 :=
  (x >>> n) ||| (x <<< (32 - n))

/-! ## Words and bytes -/

/-- The word with base-256 digits `a b c d`, highest first. -/
def word (a b c d : UInt8) : UInt32 :=
  (a.toUInt32 <<< 24) ||| (b.toUInt32 <<< 16) ||| (c.toUInt32 <<< 8) ||| d.toUInt32

/-- Groups of four bytes as words, highest byte first; an incomplete group is dropped. -/
def wordsBE : Bytes → List UInt32
  | a :: b :: c :: d :: rest => word a b c d :: wordsBE rest
  | _ => []

/-- Groups of four bytes as words, lowest byte first; an incomplete group is dropped. -/
def wordsLE : Bytes → List UInt32
  | a :: b :: c :: d :: rest => word d c b a :: wordsLE rest
  | _ => []

/-- The four bytes of a word, highest first. -/
def bytesBE (w : UInt32) : Bytes :=
  [(w >>> 24).toUInt8, (w >>> 16).toUInt8, (w >>> 8).toUInt8, w.toUInt8]

/-- The four bytes of a word, lowest first. -/
def bytesLE (w : UInt32) : Bytes :=
  [w.toUInt8, (w >>> 8).toUInt8, (w >>> 16).toUInt8, (w >>> 24).toUInt8]

/-! ## Padding and chaining -/

/-- One bit, zeros up to eight bytes short of a block, and the `tail` that tells the length. -/
def pad (tail : Bytes) (message : Bytes) : Bytes :=
  message ++ 0x80 :: List.replicate ((119 - message.length % 64) % 64) 0 ++ tail

/-- The number of bits of a message in eight bytes, lowest first. -/
def lengthLE (message : Bytes) : Bytes :=
  Bytes.ofNatLE 8 (8 * message.length)

/-- Collects words to a block and compresses each full block into the state. -/
def absorb {σ : Type} (compress : σ → Array UInt32 → σ) (acc : σ × Array UInt32) (w : UInt32) :
    σ × Array UInt32 :=
  let block := acc.2.push w
  if block.size = 16 then (compress acc.1 block, #[]) else (acc.1, block)

/-- The state after all blocks of `ws`. -/
def fold {σ : Type} (compress : σ → Array UInt32 → σ) (start : σ) (ws : List UInt32) : σ :=
  (ws.foldl (absorb compress) (start, #[])).1

end SpendScript.Digest
