/-!
# 64-bit numbers

* `wordSize`: how many numbers a word of 64 bits can hold.
* `fitsWord`, `fitsSigned`: whether a number fits into a word, without and with a sign.
-/

namespace SpendScript.Number

/-- The number of words, `2 ^ 64`. -/
def wordSize : Nat :=
  0x10000000000000000

/-- Whether a number fits into 64 bits. -/
def fitsWord (n : Nat) : Bool :=
  n < wordSize

/-- Whether a number fits into 64 bits of which one is for the sign. -/
def fitsSigned (n : Int) : Bool :=
  -0x8000000000000000 ≤ n && n < 0x8000000000000000

end SpendScript.Number
