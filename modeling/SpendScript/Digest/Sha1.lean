import SpendScript.Digest.Words

/-!
# SHA-1

The 160-bit hash function of the first secure hash family.

* `sha1`: the digest, always `sha1_length : 20` bytes.
-/

namespace SpendScript.Digest

namespace Sha1

/-- The five words of the chaining value. -/
structure State where
  a : UInt32
  b : UInt32
  c : UInt32
  d : UInt32
  e : UInt32

def start : State :=
  ⟨0x67452301, 0xefcdab89, 0x98badcfe, 0x10325476, 0xc3d2e1f0⟩

/-- The 80 words that a block of sixteen expands to. -/
def schedule (block : Array UInt32) : Array UInt32 :=
  (List.range 64).foldl
    (fun w i => w.push (rotl (w.getD (i + 13) 0 ^^^ w.getD (i + 8) 0 ^^^ w.getD (i + 2) 0 ^^^
      w.getD i 0) 1))
    block

/-- The function and the constant of round `t`, which change every twenty rounds. -/
def mix (t : Nat) (b c d : UInt32) : UInt32 :=
  if t < 20 then ((b &&& c) ^^^ (~~~b &&& d)) + 0x5a827999
  else if t < 40 then (b ^^^ c ^^^ d) + 0x6ed9eba1
  else if t < 60 then ((b &&& c) ^^^ (b &&& d) ^^^ (c &&& d)) + 0x8f1bbcdc
  else (b ^^^ c ^^^ d) + 0xca62c1d6

/-- Round `wt.2` with schedule word `wt.1`. -/
def round (s : State) (wt : UInt32 × Nat) : State :=
  ⟨rotl s.a 5 + mix wt.2 s.b s.c s.d + s.e + wt.1, s.a, rotl s.b 30, s.c, s.d⟩

/-- Folds one block into the chaining value. -/
def compress (s : State) (block : Array UInt32) : State :=
  let t := (schedule block).toList.zipIdx.foldl round s
  ⟨s.a + t.a, s.b + t.b, s.c + t.c, s.d + t.d, s.e + t.e⟩

/-- The words of the chaining value as bytes. -/
def State.toBytes (s : State) : Bytes :=
  bytesBE s.a ++ bytesBE s.b ++ bytesBE s.c ++ bytesBE s.d ++ bytesBE s.e

end Sha1

/-- The SHA-1 digest. -/
def sha1 (message : Bytes) : Bytes :=
  (fold Sha1.compress Sha1.start (wordsBE (pad (lengthLE message).reverse message))).toBytes

theorem sha1_length (message : Bytes) : (sha1 message).length = 20 := by
  simp [sha1, Sha1.State.toBytes, bytesBE]

end SpendScript.Digest
