/-!
# Ranges of characters

A class of characters is given by ranges of code points.

* `Ranges.has`: whether a character is in one of the ranges.
-/

namespace SpendScript.Text

/-- The first and last code points of ranges, in ascending order. -/
abbrev Ranges := List (Nat × Nat)

/-- Whether a character is in one of the ranges. -/
def Ranges.has (rs : Ranges) (c : Char) : Bool :=
  rs.any fun range => range.1 ≤ c.toNat && c.toNat ≤ range.2

end SpendScript.Text
