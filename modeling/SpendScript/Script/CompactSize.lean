import SpendScript.Script.Source

/-!
# Compact sizes

The length prefix of a serialized script: one byte below `0xfd`, else a marker byte and two, four
or eight bytes, lowest first.

* `encode`: the shortest form.
* `read`: reads any form from a source, also one that is longer than needed.
-/

namespace SpendScript.CompactSize

def marker2 : UInt8 := 0xfd

def marker4 : UInt8 := 0xfe

def marker8 : UInt8 := 0xff

/-- The shortest form of a number. -/
def encode (n : UInt64) : Bytes :=
  if n < 0xfd then [n.toUInt8]
  else if n ≤ 0xffff then marker2 :: Bytes.ofNatLE 2 n.toNat
  else if n ≤ 0xffffffff then marker4 :: Bytes.ofNatLE 4 n.toNat
  else marker8 :: Bytes.ofNatLE 8 n.toNat

/-- The number of bytes after a first byte. -/
def width (first : UInt8) : Nat :=
  if first = marker2 then 2 else if first = marker4 then 4 else if first = marker8 then 8 else 0

/-- The number at the start of a source, and the source after it. -/
def read (s : Source) : Except Ending (UInt64 × Source) := do
  let (first, s) ← s.readByte
  if width first = 0 then return (first.toUInt64, s)
  else
    let (digits, s) ← s.readExact (width first)
    return (UInt64.ofNat (Bytes.toNatLE digits), s)

end SpendScript.CompactSize
