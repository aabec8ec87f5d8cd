import SpendScript.Script.Error

/-!
# Numbers on the stack

A number is written lowest byte first, with its sign in the highest bit of the last byte. Opcodes
read numbers of at most four bytes in their shortest form; results may be longer.

* `ScriptNumber.encode`: the shortest form of an integer.
* `ScriptNumber.decode`: the reader of operands.
* `ScriptNumber.truth`: the reading of any byte string as a Boolean.
-/

namespace SpendScript.ScriptNumber

/-! ## Sign and magnitude -/

/-- Whether the sign bit is set. -/
def isNegative : Bytes → Bool
  | [] => false
  | [b] => 128 ≤ b
  | _ :: bs => isNegative bs

/-- The number without its sign bit. -/
def magnitude : Bytes → Nat
  | [] => 0
  | [b] => b.toNat % 128
  | b :: bs => b.toNat + 256 * magnitude bs

/-- The integer that a byte string of any length stands for. -/
def value (bs : Bytes) : Int :=
  if isNegative bs then -(magnitude bs) else magnitude bs

/-- Puts the sign into the last byte, or into a byte of its own if the last one is full. -/
def withSign (negative : Bool) : Bytes → Bytes
  | [] => []
  | [b] =>
    if 128 ≤ b then [b, if negative then 0x80 else 0]
    else [if negative then b ||| 0x80 else b]
  | b :: bs => b :: withSign negative bs

/-! ## Writing and reading -/

/-- The shortest form of an integer; zero is the empty string. -/
def encode (n : Int) : Bytes :=
  withSign (n < 0) (Bytes.digits n.natAbs).reverse

/-- Whether the last byte is needed: it has a bit besides the sign, or keeps the sign apart from
the full byte before it. -/
def isShortest : Bytes → Bool
  | [] => true
  | [b] => b.toNat % 128 != 0
  | [a, b] => b.toNat % 128 != 0 || 128 ≤ a
  | _ :: bs => isShortest bs

/-- The operand that a byte string spells: at most four bytes, in the shortest form. -/
def decode (bs : Bytes) : Except ScriptError Int :=
  if Limits.numberSize < bs.length then .error (.numberTooBig bs)
  else if isShortest bs then .ok (value bs)
  else .error (.numberNotMinimal bs)

/-! ## Booleans -/

/-- False for zero of either sign and any length. -/
def truth : Bytes → Bool
  | [] => false
  | [b] => b.toNat % 128 != 0
  | b :: bs => b != 0 || truth bs

/-- One for true, the empty string for false. -/
def ofBool (b : Bool) : Bytes :=
  if b then [1] else []

end SpendScript.ScriptNumber
