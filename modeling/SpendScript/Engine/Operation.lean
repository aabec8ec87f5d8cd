import SpendScript.Script.Opcode

/-!
# Operations

What each opcode does. Opcodes that differ only in a parameter share one operation.

* `Operation.ofOpcode`: the table.
* `Unary.eval`, `Binary.eval`: the functions of the numeric opcodes.
-/

namespace SpendScript

/-! ## Numeric functions -/

/-- Functions of one number. -/
inductive Unary where
  | increment
  | decrement
  | negate
  | absolute
  | isZero
  | isNonzero
deriving DecidableEq, Repr

/-- Functions of two numbers. -/
inductive Binary where
  | add
  | subtract
  | both
  | either
  | equal
  | different
  | less
  | greater
  | atMost
  | atLeast
  | minimum
  | maximum
deriving DecidableEq, Repr

/-- One for true, zero for false. -/
def numberOfBool (b : Bool) : Int :=
  if b then 1 else 0

def Unary.eval : Unary → Int → Int
  | .increment, n => n + 1
  | .decrement, n => n - 1
  | .negate, n => -n
  | .absolute, n => n.natAbs
  | .isZero, n => numberOfBool (n == 0)
  | .isNonzero, n => numberOfBool (n != 0)

def Binary.eval : Binary → Int → Int → Int
  | .add, a, b => a + b
  | .subtract, a, b => a - b
  | .both, a, b => numberOfBool (a != 0 && b != 0)
  | .either, a, b => numberOfBool (a != 0 || b != 0)
  | .equal, a, b => numberOfBool (a == b)
  | .different, a, b => numberOfBool (a != b)
  | .less, a, b => numberOfBool (decide (a < b))
  | .greater, a, b => numberOfBool (decide (b < a))
  | .atMost, a, b => numberOfBool (decide (a ≤ b))
  | .atLeast, a, b => numberOfBool (decide (b ≤ a))
  | .minimum, a, b => min a b
  | .maximum, a, b => max a b

/-- The hash functions of the hash opcodes. -/
inductive HashFunction where
  | ripemd160
  | sha1
  | sha256
  | hash160
  | hash256
deriving DecidableEq, Repr

/-! ## The table -/

/-- What an opcode does. A count is a number of items that are moved together. -/
inductive Operation where
  | pushNumber (n : Int)
  | nothing
  | invalid
  | reserved
  | disabled
  /-- Opens a branch that is taken if the condition differs from `negated`. -/
  | openBranch (negated : Bool)
  | switchBranch
  | closeBranch
  | verify
  | stop
  | toAlt
  | fromAlt
  | drop (count : Nat)
  | dup (count : Nat)
  | copyBelow (count : Nat)
  | rot (count : Nat)
  | swap (count : Nat)
  | dupIfTrue
  | depth
  | nip
  | pick
  | roll
  | tuck
  | size
  /-- Compares two items and pushes the answer, or verifies it. -/
  | equal (verify : Bool)
  | unary (f : Unary)
  | binary (f : Binary)
  | verifyNumbersEqual
  | within
  | hash (f : HashFunction)
  | checkSig (verify : Bool)
  | checkMultiSig (verify : Bool)
deriving DecidableEq, Repr

/-- The operation of an opcode. Codes of data pushes and codes without a name are invalid. -/
def Operation.ofOpcode (c : Opcode) : Operation :=
  match Opcode.smallInt? c with
  | some n => .pushNumber n
  | none =>
    if c.isDisabled then .disabled
    else
      match c with
      | 0x4f => .pushNumber (-1)
      | 0x50 => .reserved
      | 0x61 => .nothing
      | 0x62 => .reserved
      | 0x63 => .openBranch false
      | 0x64 => .openBranch true
      | 0x65 => .reserved
      | 0x66 => .reserved
      | 0x67 => .switchBranch
      | 0x68 => .closeBranch
      | 0x69 => .verify
      | 0x6a => .stop
      | 0x6b => .toAlt
      | 0x6c => .fromAlt
      | 0x6d => .drop 2
      | 0x6e => .dup 2
      | 0x6f => .dup 3
      | 0x70 => .copyBelow 2
      | 0x71 => .rot 2
      | 0x72 => .swap 2
      | 0x73 => .dupIfTrue
      | 0x74 => .depth
      | 0x75 => .drop 1
      | 0x76 => .dup 1
      | 0x77 => .nip
      | 0x78 => .copyBelow 1
      | 0x79 => .pick
      | 0x7a => .roll
      | 0x7b => .rot 1
      | 0x7c => .swap 1
      | 0x7d => .tuck
      | 0x82 => .size
      | 0x87 => .equal false
      | 0x88 => .equal true
      | 0x89 => .reserved
      | 0x8a => .reserved
      | 0x8b => .unary .increment
      | 0x8c => .unary .decrement
      | 0x8f => .unary .negate
      | 0x90 => .unary .absolute
      | 0x91 => .unary .isZero
      | 0x92 => .unary .isNonzero
      | 0x93 => .binary .add
      | 0x94 => .binary .subtract
      | 0x9a => .binary .both
      | 0x9b => .binary .either
      | 0x9c => .binary .equal
      | 0x9d => .verifyNumbersEqual
      | 0x9e => .binary .different
      | 0x9f => .binary .less
      | 0xa0 => .binary .greater
      | 0xa1 => .binary .atMost
      | 0xa2 => .binary .atLeast
      | 0xa3 => .binary .minimum
      | 0xa4 => .binary .maximum
      | 0xa5 => .within
      | 0xa6 => .hash .ripemd160
      | 0xa7 => .hash .sha1
      | 0xa8 => .hash .sha256
      | 0xa9 => .hash .hash160
      | 0xaa => .hash .hash256
      | 0xac => .checkSig false
      | 0xad => .checkSig true
      | 0xae => .checkMultiSig false
      | 0xaf => .checkMultiSig true
      | c => if c = 0xab ∨ (0xb0 ≤ c ∧ c ≤ 0xb9) then .nothing else .invalid

end SpendScript
