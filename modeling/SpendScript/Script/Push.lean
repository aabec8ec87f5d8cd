import SpendScript.Script.Error

/-!
# Data pushes

Bytes that a script pushes, with the encoding of their length.

* `PushEncoding.maxLength`, `PushEncoding.shortest?`: how much an encoding holds, and which one is
  shortest for a length.
* `Push`: data that its encoding holds; made by `Push.ofBytes` and `Push.withEncoding`.
* `Push.isMinimal`: whether no other command pushes the same bytes in less space.
-/

namespace SpendScript

namespace PushEncoding

/-- The longest data an encoding holds. -/
def maxLength : PushEncoding → Nat
  | .direct => 75
  | .pushData1 => 255
  | .pushData2 => 65535

/-- The bytes before the data. -/
def headerLength : PushEncoding → Nat
  | .direct => 1
  | .pushData1 => 2
  | .pushData2 => 3

/-- The shortest encoding that holds `length` bytes. -/
def shortest? (length : Nat) : Option PushEncoding :=
  if length ≤ 75 then some .direct
  else if length ≤ 255 then some .pushData1
  else if length ≤ 65535 then some .pushData2
  else none

end PushEncoding

/-- Data and an encoding that holds it. -/
structure Push where
  data : Bytes
  encoding : PushEncoding
  length_le : data.length ≤ encoding.maxLength
deriving DecidableEq

namespace Push

/-- The data in the given encoding. -/
def withEncoding (data : Bytes) (encoding : PushEncoding) : Except ScriptError Push :=
  if h : data.length ≤ encoding.maxLength then .ok ⟨data, encoding, h⟩
  else .error (.pushTooLong data.length)

/-- The data in the shortest encoding that holds it. -/
def ofBytes (data : Bytes) : Except ScriptError Push :=
  match PushEncoding.shortest? data.length with
  | some encoding => withEncoding data encoding
  | none => .error (.pushTooLong data.length)

/-- Whether an opcode pushes this byte alone: one to sixteen, and minus one. -/
def hasOpcode (b : UInt8) : Bool :=
  decide (1 ≤ b ∧ b ≤ 16 ∨ b = 0x81)

/-- False if a shorter encoding, or an opcode of its own, pushes the same bytes. An empty direct
push is written as a zero byte, which is the opcode that pushes nothing. -/
def isMinimal (p : Push) : Bool :=
  match p.data with
  | [] => p.encoding == .direct
  | [b] => if hasOpcode b then false else p.encoding == .direct
  | data => PushEncoding.shortest? data.length == some p.encoding

/-! ## Bytes -/

/-- The opcode and the length bytes. -/
def header (p : Push) : Bytes :=
  match p.encoding with
  | .direct => [UInt8.ofNat p.data.length]
  | .pushData1 => [Opcode.pushData1, UInt8.ofNat p.data.length]
  | .pushData2 => Opcode.pushData2 :: Bytes.ofNatLE 2 p.data.length

def toBytes (p : Push) : Bytes :=
  p.header ++ p.data

/-- The number of bytes of `toBytes`. -/
def byteLength (p : Push) : Nat :=
  p.encoding.headerLength + p.data.length

end Push

end SpendScript
