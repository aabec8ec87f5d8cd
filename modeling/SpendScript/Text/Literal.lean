/-!
# Literals

The parts of values that several formats share: quoted texts, escapes and digits.

* `closing`: the text up to a closing quote; `closing_length_lt` says that less is left.
* `escapes`: the characters that stand for others after a backslash.
* `digits?`: the number that digits spell.
-/

namespace SpendScript.Text

/-! ## Quotes -/

/-- The text up to the next `mark` that no backslash precedes, and what follows that mark. The
backslashes stay in the text. -/
def closing (mark : Char) : List Char → Option (List Char × List Char)
  | [] => none
  | '\\' :: c :: cs => (closing mark cs).map fun (body, rest) => ('\\' :: c :: body, rest)
  | c :: cs =>
    if c = mark then some ([], cs)
    else (closing mark cs).map fun (body, rest) => (c :: body, rest)

theorem closing_length_lt {mark : Char} {cs body rest : List Char}
    (h : closing mark cs = some (body, rest)) : rest.length < cs.length := by
  fun_induction closing mark cs generalizing body rest with
  | case1 => simp at h
  | case2 c cs ih =>
    obtain ⟨⟨b, r⟩, hr, he⟩ := Option.map_eq_some_iff.1 h
    cases he
    have := ih hr
    simp only [List.length_cons]
    omega
  | case3 cs => cases h; simp
  | case4 c cs _ _ ih =>
    obtain ⟨⟨b, r⟩, hr, he⟩ := Option.map_eq_some_iff.1 h
    cases he
    have := ih hr
    simp only [List.length_cons]
    omega

/-! ## Escapes -/

/-- The characters that are written with a backslash and one character, with that character. -/
def escapes : List (Char × Char) :=
  [('b', '\x08'), ('t', '\t'), ('n', '\n'), ('f', '\x0c'), ('r', '\r'), ('"', '"'), ('\\', '\\')]

/-- The character of a code point, unless it is a surrogate or too large. -/
def ofCodePoint? (n : Nat) : Option Char :=
  if n.isValidChar then some (Char.ofNat n) else none

/-! ## Digits -/

/-- The value of a digit of either case in a base up to sixteen. -/
def digitIn? (base : Nat) (c : Char) : Option Nat :=
  let value :=
    if '0' ≤ c ∧ c ≤ '9' then c.toNat - '0'.toNat
    else if 'a' ≤ c ∧ c ≤ 'f' then c.toNat - 'a'.toNat + 10
    else if 'A' ≤ c ∧ c ≤ 'F' then c.toNat - 'A'.toNat + 10
    else base
  if value < base then some value else none

/-- Appends digits to a number. -/
def extend? (base : Nat) : (n : Nat) → List Char → Option Nat
  | n, [] => some n
  | n, c :: cs => do extend? base (n * base + (← digitIn? base c)) cs

/-- The number that digits spell; there has to be at least one. -/
def digits? (base : Nat) (cs : List Char) : Option Nat :=
  if cs.isEmpty then none else extend? base 0 cs

/-- The number that decimal digits spell if none of them is a needless zero. -/
def decimal? (cs : List Char) : Option Nat :=
  if cs.head? = some '0' ∧ cs.length ≠ 1 then none else digits? 10 cs

end SpendScript.Text
