import SpendScript.Bytes
import SpendScript.Text.Quote

/-!
# Hexadecimal text

Two digits for each byte. Written digits are lower case, read digits may have either case.

* `encode`: the text of a byte string.
* `decode`: its inverse; `decodeExact` also fixes the number of bytes.
* `HexError.message`: what is wrong with a text.
-/

namespace SpendScript.Text.Hex

/-- Why a text does not spell a byte string. Positions count bytes of the text. -/
inductive HexError where
  | invalidCharacter (byte : UInt8) (position : Nat)
  | oddLength
  | invalidStringLength
deriving DecidableEq, Repr

/-! ## Writing -/

/-- The lower case digit of a number below sixteen. -/
def digit (n : Nat) : Char :=
  if n < 10 then Char.ofNat (48 + n) else Char.ofNat (87 + n)

/-- The two digits of a byte. -/
def encodeByte (b : UInt8) : List Char :=
  [digit (b.toNat / 16), digit (b.toNat % 16)]

/-- Two lower case digits for each byte. -/
def encode (bs : Bytes) : String :=
  String.ofList (bs.flatMap encodeByte)

/-- The digits of a number, lower case and without leading zeros. -/
def ofNat (n : Nat) : String :=
  String.ofList (Nat.toDigits 16 n)

/-- The digits of a number with zeros in front up to `width`. -/
def ofNatPadded (width n : Nat) : String :=
  let ds := Nat.toDigits 16 n
  String.ofList (List.replicate (width - ds.length) '0' ++ ds)

/-- The items of a list in brackets, each with the fewest digits. -/
def list (bs : Bytes) : String :=
  "[" ++ ", ".intercalate (bs.map fun b => ofNat b.toNat) ++ "]"

/-- The items of a list in brackets, each with two digits. -/
def listPadded (bs : Bytes) : String :=
  "[" ++ ", ".intercalate (bs.map fun b => String.ofList (encodeByte b)) ++ "]"

/-! ## Reading -/

/-- The value of an ASCII digit of either case. -/
def digitValue? (b : UInt8) : Option Nat :=
  if 48 ≤ b ∧ b ≤ 57 then some (b.toNat - 48)
  else if 97 ≤ b ∧ b ≤ 102 then some (b.toNat - 87)
  else if 65 ≤ b ∧ b ≤ 70 then some (b.toNat - 55)
  else none

/-- Reads digits pairwise; the first byte that is no digit is reported with its position. -/
def decodePairs (position : Nat) : Bytes → Except HexError Bytes
  | [] => .ok []
  | [_] => .error .oddLength
  | hi :: lo :: rest =>
    match digitValue? hi, digitValue? lo with
    | none, _ => .error (.invalidCharacter hi position)
    | some _, none => .error (.invalidCharacter lo (position + 1))
    | some h, some l => do
      let bs ← decodePairs (position + 2) rest
      return UInt8.ofNat (16 * h + l) :: bs

/-- The UTF-8 bytes of a text. -/
def utf8 (text : String) : Bytes :=
  text.toUTF8.toList

/-- The byte string that `text` spells. -/
def decode (text : String) : Except HexError Bytes :=
  let raw := utf8 text
  if raw.length % 2 = 1 then .error .oddLength else decodePairs 0 raw

/-- The byte string of exactly `width` bytes that `text` spells: an odd length is reported first,
then a wrong length, then a character that is no digit. -/
def decodeExact (width : Nat) (text : String) : Except HexError Bytes :=
  let raw := utf8 text
  if raw.length % 2 = 1 then .error .oddLength
  else if raw.length / 2 ≠ width then .error .invalidStringLength
  else decodePairs 0 raw

/-! ## Messages -/

/-- The text of an error; a stray byte is shown as the character of its value. -/
def HexError.message : HexError → String
  | .invalidCharacter byte position =>
    s!"Invalid character {quoteChar (Char.ofNat byte.toNat)} at position {position}"
  | .oddLength => "Odd number of digits"
  | .invalidStringLength => "Invalid string length"

end SpendScript.Text.Hex
