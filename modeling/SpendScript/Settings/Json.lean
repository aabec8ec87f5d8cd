import SpendScript.Settings.Entries
import SpendScript.Text.Literal

/-!
# Settings in JSON

A document is an object of scalars, or an array that lists them in a fixed order. Nothing else
can be a set of settings, so nothing else is read: no nested values, and of numbers only natural
ones.

* `Token.ofText?`: the tokens of a text.
* `read?`: the entries of a document.
-/

namespace SpendScript.Settings.Json

/-! ## Tokens -/

/-- The pieces that a document consists of. -/
inductive Token where
  /-- A brace, a bracket, a colon or a comma. -/
  | mark (c : Char)
  /-- A text between quotes, with its escapes resolved. -/
  | text (value : List Char)
  /-- Anything else up to the next space, mark or quote. -/
  | word (letters : List Char)
deriving DecidableEq, Repr

def isSpace (c : Char) : Bool :=
  c = ' ' || c = '\t' || c = '\n' || c = '\r'

def isMark (c : Char) : Bool :=
  "{}[]:,".toList.contains c

def isWordChar (c : Char) : Bool :=
  !isSpace c && !isMark c && c ≠ '"'

/-- Resolves escapes. Control characters have to be escaped, and surrogates are refused. -/
def unescape? : List Char → Option (List Char)
  | [] => some []
  | '\\' :: 'u' :: a :: b :: c :: d :: cs => do
    let char ← Text.ofCodePoint? (← Text.digits? 16 [a, b, c, d])
    return char :: (← unescape? cs)
  | '\\' :: c :: cs => do
    let char ← (('/', '/') :: Text.escapes).lookup c
    return char :: (← unescape? cs)
  | c :: cs =>
    if c.toNat < 32 ∨ c = '\\' then none else (unescape? cs).map (c :: ·)

/-- The tokens of a text. -/
def Token.ofText? (cs : List Char) : Option (List Token) :=
  match cs with
  | [] => some []
  | c :: cs =>
    if isSpace c then ofText? cs
    else if isMark c then (ofText? cs).map (.mark c :: ·)
    else if c = '"' then
      match _h : Text.closing '"' cs with
      | none => none
      | some (body, rest) => do
        let value ← unescape? body
        return .text value :: (← ofText? rest)
    else
      (ofText? (cs.dropWhile isWordChar)).map (.word (c :: cs.takeWhile isWordChar) :: ·)
termination_by cs.length
decreasing_by
  · simp
  · simp
  · have := Text.closing_length_lt _h
    simp only [List.length_cons]
    omega
  · have := (List.dropWhile_sublist isWordChar (l := cs)).length_le
    simp only [List.length_cons]
    omega

/-! ## Documents -/

/-- The value of a token. -/
def Token.scalar? : Token → Option Scalar
  | .mark _ => none
  | .text value => some (.text value)
  | .word letters =>
    if letters = "true".toList then some (.truth true)
    else if letters = "false".toList then some (.truth false)
    else (Text.decimal? letters).map fun n => .number n

/-- The members of an object, up to its end, which ends the document. -/
def members? : List Token → Option Entries
  | [.text name, .mark ':', value, .mark '}'] => do
    return [(String.ofList name, ← value.scalar?)]
  | .text name :: .mark ':' :: value :: .mark ',' :: rest => do
    return (String.ofList name, ← value.scalar?) :: (← members? rest)
  | _ => none

/-- The elements of an array, up to its end, which ends the document. -/
def elements? : List Token → Option (List Scalar)
  | [value, .mark ']'] => do return [← value.scalar?]
  | value :: .mark ',' :: rest => do return (← value.scalar?) :: (← elements? rest)
  | _ => none

/-- Names the elements of an array; there may be fewer of them than names. -/
def named? (names : List String) (values : List Scalar) : Option Entries :=
  if values.length ≤ names.length then some (names.zip values) else none

/-- The entries of a document. An array gives the values of the first of the `names`. -/
def read? (names : List String) (text : String) : Option Entries := do
  match ← Token.ofText? text.toList with
  | [.mark '{', .mark '}'] => return []
  | [.mark '[', .mark ']'] => return []
  | .mark '{' :: rest => members? rest
  | .mark '[' :: rest => named? names (← elements? rest)
  | _ => none

end SpendScript.Settings.Json
