/-!
# Limits

The bounds that keep the work and the memory of a script run finite.
-/

namespace SpendScript.Limits

/-- Items on both stacks together. -/
def stackSize : Nat := 1000

/-- Bytes of each concatenated script. -/
def scriptSize : Nat := 10000

/-- Bytes of a pushed element. -/
def elementSize : Nat := 520

/-- Counted opcodes and checked keys of each concatenated script. -/
def operations : Nat := 201

/-- Keys of a multisignature check. -/
def multisigKeys : Nat := 20

/-- Bytes of a number that an opcode reads. -/
def numberSize : Nat := 4

end SpendScript.Limits
