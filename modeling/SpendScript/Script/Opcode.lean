/-!
# Opcodes

An opcode is a byte. This file names the opcodes and sorts them into classes.

* `Opcode.name?`, `Opcode.text`: the name, and a stand-in for bytes without one.
* `Opcode.isDisabled`, `Opcode.isConditional`, `Opcode.isCounted`: what the engine asks about an
  opcode before it looks at what the opcode does.
* `Opcode.smallInt?`: the number that an opcode pushes.
-/

namespace SpendScript

/-- The code of a command. -/
abbrev Opcode := UInt8

namespace Opcode

/-! ## Codes -/

def zero : Opcode := 0x00
/-- The longest data push whose length is its opcode. -/
def lastDirect : Opcode := 0x4b
def pushData1 : Opcode := 0x4c
def pushData2 : Opcode := 0x4d
def negativeOne : Opcode := 0x4f
def one : Opcode := 0x51
def sixteen : Opcode := 0x60
def ifTrue : Opcode := 0x63
def ifFalse : Opcode := 0x64
def otherwise : Opcode := 0x67
def endIf : Opcode := 0x68
def dup : Opcode := 0x76
def equal : Opcode := 0x87
def equalVerify : Opcode := 0x88
def hash160 : Opcode := 0xa9
def checkSig : Opcode := 0xac
def checkMultiSig : Opcode := 0xae
def checkMultiSigVerify : Opcode := 0xaf

/-! ## Names -/

/-- The names of the opcodes from `0x4c` to `0xb9`, in order. -/
def names : List String :=
  ["OP_PUSHDATA1", "OP_PUSHDATA2", "OP_PUSHDATA4", "OP_1NEGATE", "OP_RESERVED", "OP_1",
    "OP_2", "OP_3", "OP_4", "OP_5", "OP_6", "OP_7", "OP_8", "OP_9", "OP_10", "OP_11", "OP_12",
    "OP_13", "OP_14", "OP_15", "OP_16", "OP_NOP", "OP_VER", "OP_IF", "OP_NOTIF", "OP_VERIF",
    "OP_VERNOTIF", "OP_ELSE", "OP_ENDIF", "OP_VERIFY", "OP_RETURN", "OP_TOALTSTACK",
    "OP_FROMALTSTACK", "OP_2DROP", "OP_2DUP", "OP_3DUP", "OP_2OVER", "OP_2ROT", "OP_2SWAP",
    "OP_IFDUP", "OP_DEPTH", "OP_DROP", "OP_DUP", "OP_NIP", "OP_OVER", "OP_PICK", "OP_ROLL",
    "OP_ROT", "OP_SWAP", "OP_TUCK", "OP_CAT", "OP_SUBSTR", "OP_LEFT", "OP_RIGHT", "OP_SIZE",
    "OP_INVERT", "OP_AND", "OP_OR", "OP_XOR", "OP_EQUAL", "OP_EQUALVERIFY", "OP_RESERVED1",
    "OP_RESERVED2", "OP_1ADD", "OP_1SUB", "OP_2MUL", "OP_2DIV", "OP_NEGATE", "OP_ABS",
    "OP_NOT", "OP_0NOTEQUAL", "OP_ADD", "OP_SUB", "OP_MUL", "OP_DIV", "OP_MOD", "OP_LSHIFT",
    "OP_RSHIFT", "OP_BOOLAND", "OP_BOOLOR", "OP_NUMEQUAL", "OP_NUMEQUALVERIFY",
    "OP_NUMNOTEQUAL", "OP_LESSTHAN", "OP_GREATERTHAN", "OP_LESSTHANOREQUAL",
    "OP_GREATERTHANOREQUAL", "OP_MIN", "OP_MAX", "OP_WITHIN", "OP_RIPEMD160", "OP_SHA1",
    "OP_SHA256", "OP_HASH160", "OP_HASH256", "OP_CODESEPARATOR", "OP_CHECKSIG",
    "OP_CHECKSIGVERIFY", "OP_CHECKMULTISIG", "OP_CHECKMULTISIGVERIFY", "OP_NOP1",
    "OP_CHECKLOCKTIMEVERIFY", "OP_CHECKSEQUENCEVERIFY", "OP_NOP4", "OP_NOP5", "OP_NOP6",
    "OP_NOP7", "OP_NOP8", "OP_NOP9", "OP_NOP10"]

/-- The name of an opcode; direct pushes and undefined codes have none. -/
def name? (c : Opcode) : Option String :=
  if c = zero then some "OP_0"
  else if c < pushData1 then none
  else names[c.toNat - pushData1.toNat]?

/-- The name, or the code for an opcode without one. -/
def text (c : Opcode) : String :=
  (name? c).getD s!"OP_UNKNOWN{c.toNat}"

/-! ## Classes -/

/-- Splicing, bitwise and multiplying opcodes, which fail a script even where they are skipped. -/
def isDisabled (c : Opcode) : Bool :=
  decide (0x7e ≤ c ∧ c ≤ 0x81 ∨ 0x83 ≤ c ∧ c ≤ 0x86 ∨ c = 0x8d ∨ c = 0x8e ∨ 0x95 ≤ c ∧ c ≤ 0x99)

/-- Flow control, which runs in skipped branches too. -/
def isConditional (c : Opcode) : Bool :=
  decide (ifTrue ≤ c ∧ c ≤ endIf)

/-- Opcodes that count as operations: all after the one that pushes sixteen. -/
def isCounted (c : Opcode) : Bool :=
  decide (sixteen < c)

/-- The number from zero to sixteen that an opcode pushes. -/
def smallInt? (c : Opcode) : Option Nat :=
  if c = zero then some 0
  else if one ≤ c ∧ c ≤ sixteen then some (c.toNat - (one.toNat - 1))
  else none

end Opcode

end SpendScript
