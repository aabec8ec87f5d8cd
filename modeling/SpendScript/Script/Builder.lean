import SpendScript.Script.Basic
import SpendScript.Script.Number

/-!
# Building scripts

A builder collects commands in their canonical forms and keeps count of their bytes. An addition
that would make the script too long to be run is refused.

* `Builder.addOp`, `Builder.addOps`, `Builder.addData`, `Builder.addInt`: the additions.
* `Builder.canonicalSize`: the bytes that data takes.
* `Builder.toScript`: the result.
-/

namespace SpendScript

/-- Why an addition is refused. -/
inductive BuilderError where
  | opcodeRejected (code : Opcode)
  | opcodesRejected (count : Nat)
  | dataRejected (size : Nat)
  | elementTooBig (size : Nat)
  | integerRejected (n : Int)
deriving DecidableEq, Repr

/-- The text of an error. -/
def BuilderError.message : BuilderError → String
  | .opcodeRejected code => s!"adding opcode {code.toNat}" ++ tooLong
  | .opcodesRejected count => s!"adding {count} opcodes" ++ tooLong
  | .dataRejected size => s!"adding {size} bytes of data" ++ tooLong
  | .elementTooBig size =>
    s!"adding a data element of {size} bytes exceed the maximum allowed script element size of " ++
      toString Limits.elementSize
  | .integerRejected n => s!"adding integer {n}" ++ tooLong
where
  tooLong : String :=
    s!" would exceed the maximum allowed canonical script length of {Limits.scriptSize}"

/-- Commands and the number of their bytes. -/
structure Builder where
  commands : List Command
  byteLength : Nat

namespace Builder

def empty : Builder :=
  ⟨[], 0⟩

/-- The commands as a script of one part. -/
def toScript (b : Builder) : Script :=
  Script.ofCommands b.commands

/-! ## Opcodes -/

/-- Adds an opcode without a check. -/
def pushOp (b : Builder) (code : Opcode) : Builder :=
  ⟨b.commands ++ [.op code], b.byteLength + 1⟩

def addOp (b : Builder) (code : Opcode) : Except BuilderError Builder :=
  if Limits.scriptSize ≤ b.byteLength then .error (.opcodeRejected code)
  else .ok (b.pushOp code)

def addOps (b : Builder) (codes : List Opcode) : Except BuilderError Builder :=
  if Limits.scriptSize < b.byteLength + codes.length then .error (.opcodesRejected codes.length)
  else .ok ⟨b.commands ++ codes.map .op, b.byteLength + codes.length⟩

/-! ## Data -/

/-- The opcode that stands for data: nothing or a zero byte, one to sixteen, and minus one. -/
def opcodeFor? : Bytes → Option Opcode
  | [] => some Opcode.zero
  | [b] =>
    if b = 0 then some Opcode.zero
    else if b ≤ 16 then some (Opcode.one - 1 + b)
    else if b = 0x81 then some Opcode.negativeOne
    else none
  | _ => none

/-- The bytes of the canonical form of data. -/
def canonicalSize (data : Bytes) : Nat :=
  if (opcodeFor? data).isSome then 1
  else
    data.length +
      (if data.length ≤ 75 then 1
        else if data.length ≤ 255 then 2
        else if data.length ≤ 65535 then 3
        else 5)

/-- Adds the canonical form of data without a check of sizes. -/
def pushData (b : Builder) (data : Bytes) : Except BuilderError Builder :=
  match opcodeFor? data with
  | some code => .ok (b.pushOp code)
  | none =>
    match Push.ofBytes data with
    | .ok p => .ok ⟨b.commands ++ [.push p], b.byteLength + p.byteLength⟩
    | .error _ => .error (.dataRejected (canonicalSize data))

/-- Adds data. The size of the script is checked before the size of the element. -/
def addData (b : Builder) (data : Bytes) : Except BuilderError Builder :=
  if Limits.scriptSize < b.byteLength + canonicalSize data then
    .error (.dataRejected (canonicalSize data))
  else if Limits.elementSize < data.length then .error (.elementTooBig data.length)
  else b.pushData data

/-! ## Integers -/

/-- The opcode that pushes a small integer. -/
def opcodeForInt? (n : Int) : Option Opcode :=
  if n = 0 then some Opcode.zero
  else if n = -1 then some Opcode.negativeOne
  else if 1 ≤ n ∧ n ≤ 16 then some (Opcode.one - 1 + UInt8.ofNat n.toNat)
  else none

/-- Adds a 64-bit integer: an opcode of its own if there is one, else its shortest form. -/
def addInt (b : Builder) (n : Int) : Except BuilderError Builder :=
  if Limits.scriptSize < b.byteLength + 1 then .error (.integerRejected n)
  else
    match opcodeForInt? n with
    | some code => .ok (b.pushOp code)
    | none => b.addData (ScriptNumber.encode n)

end Builder

end SpendScript
