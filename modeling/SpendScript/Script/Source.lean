import SpendScript.Bytes

/-!
# Byte sources

A stream of bytes that ends, or breaks, after the last of them. How it ends is noticed only by a
read that asks for more.
-/

namespace SpendScript

/-- What a read past the last byte finds. -/
inductive Ending where
  /-- Nothing more. -/
  | clean
  /-- A failure that tells that the stream ended too early. -/
  | unexpectedEnd
  /-- Any other failure, with its text. -/
  | broken (reason : String)
deriving DecidableEq, Repr

/-- The bytes to come and what follows them. -/
structure Source where
  bytes : Bytes
  ending : Ending
deriving DecidableEq

namespace Source

/-- A source that holds exactly these bytes. -/
def ofBytes (bs : Bytes) : Source :=
  ⟨bs, .clean⟩

/-- The next byte and the source after it, or the ending if there is none. -/
def readByte (s : Source) : Except Ending (UInt8 × Source) :=
  match s.bytes with
  | b :: rest => .ok (b, ⟨rest, s.ending⟩)
  | [] => .error s.ending

/-- The next `n` bytes and the source after them, or the ending if there are fewer. -/
def readExact (n : Nat) (s : Source) : Except Ending (Bytes × Source) :=
  if n ≤ s.bytes.length then .ok (s.bytes.take n, ⟨s.bytes.drop n, s.ending⟩)
  else .error s.ending

end Source

end SpendScript
