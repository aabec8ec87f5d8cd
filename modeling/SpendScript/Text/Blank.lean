import SpendScript.Text.Ranges

/-!
# Blanks and separators

Cutting a text at its blanks and at its separators. Texts are lists of characters here.

* `isBlank`: the characters with the Unicode property White_Space.
* `trim`: a text without the blanks at its two ends.
* `split`: the parts between separators; `split_append_cons` cuts at one of them.
-/

namespace SpendScript.Text

/-! ## Blanks -/

/-- The ranges of the code points with the property White_Space. -/
def blankRanges : Ranges :=
  [(0x09, 0x0d), (0x20, 0x20), (0x85, 0x85), (0xa0, 0xa0), (0x1680, 0x1680), (0x2000, 0x200a),
    (0x2028, 0x2029), (0x202f, 0x202f), (0x205f, 0x205f), (0x3000, 0x3000)]

/-- Whether a character is white space, in ASCII or beyond. -/
def isBlank (c : Char) : Bool :=
  blankRanges.has c

/-- A text without the blanks at its end. -/
def trimRight (cs : List Char) : List Char :=
  (cs.reverse.dropWhile isBlank).reverse

/-- A text without the blanks at its two ends. -/
def trim (cs : List Char) : List Char :=
  trimRight (cs.dropWhile isBlank)

/-! ## Separators -/

/-- The parts of a text between its separators. A text without a separator is one part, so
there is always a first part. -/
def split (sep : Char) : List Char → List (List Char)
  | [] => [[]]
  | c :: cs =>
    if c = sep then [] :: split sep cs
    else
      match split sep cs with
      | [] => [[c]]
      | part :: parts => (c :: part) :: parts

theorem split_ne_nil (sep : Char) (cs : List Char) : split sep cs ≠ [] := by
  cases cs with
  | nil => simp [split]
  | cons c cs =>
    unfold split
    split
    · simp
    · split <;> simp

/-- A separator between two texts separates their parts. -/
theorem split_append_cons (sep : Char) (as bs : List Char) :
    split sep (as ++ sep :: bs) = split sep as ++ split sep bs := by
  induction as with
  | nil => simp [split]
  | cons a as ih =>
    by_cases h : a = sep
    · simp [split, h, ih]
    · simp only [List.cons_append, split, h, ite_false, ih]
      cases hs : split sep as with
      | nil => exact absurd hs (split_ne_nil sep as)
      | cons part parts => simp

end SpendScript.Text
