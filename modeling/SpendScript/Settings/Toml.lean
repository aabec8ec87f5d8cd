import SpendScript.Settings.Entries
import SpendScript.Text.Literal

/-!
# Settings in TOML

A file of lines `name = value` with texts, truth values and whole numbers. No setting takes any
other value, so tables, arrays, fractions and dates are refused like what is malformed.

* `normalize?`: line ends are line feeds and other control characters are refused.
* `value?`, `key?`, `line?`: read from the front of a text and give the rest.
* `read?`: the entries of a file.
-/

namespace SpendScript.Settings.Toml

/-! ## Characters -/

def isSpace (c : Char) : Bool :=
  c = ' ' || c = '\t'

/-- Characters that occur nowhere in a file. Carriage returns are among them unless they are
part of a line end. -/
def isForbidden (c : Char) : Bool :=
  (c.toNat < 32 && c ≠ '\t' && c ≠ '\n') || c.toNat = 127

/-- The text with a line feed at each line end. -/
def normalize? : List Char → Option (List Char)
  | [] => some []
  | '\r' :: '\n' :: cs => (normalize? cs).map ('\n' :: ·)
  | c :: cs => if isForbidden c then none else (normalize? cs).map (c :: ·)

def skipSpaces (cs : List Char) : List Char :=
  cs.dropWhile isSpace

/-- What follows the end of a line; spaces and a comment may precede that end. -/
def lineEnd? (cs : List Char) : Option (List Char) :=
  match skipSpaces cs with
  | '\n' :: rest => some rest
  | '#' :: rest =>
    match rest.dropWhile (· ≠ '\n') with
    | '\n' :: rest => some rest
    | _ => none
  | _ => none

/-! ## Texts -/

/-- Where a reader of escapes stands. -/
inductive Mode where
  /-- Between characters. -/
  | reading
  /-- After a backslash and spaces; a line end has to follow. -/
  | endingLine
  /-- After a backslash and a line end; blanks are skipped. -/
  | joiningLines
deriving DecidableEq, Repr

/-- Resolves escapes. A backslash at the end of a line also removes the blanks after it. -/
def unescape? : Mode → List Char → Option (List Char)
  | .endingLine, [] => none
  | _, [] => some []
  | .endingLine, c :: cs =>
    if isSpace c then unescape? .endingLine cs
    else if c = '\n' then unescape? .joiningLines cs
    else none
  | .joiningLines, ' ' :: cs => unescape? .joiningLines cs
  | .joiningLines, '\t' :: cs => unescape? .joiningLines cs
  | .joiningLines, '\n' :: cs => unescape? .joiningLines cs
  | _, '\\' :: ' ' :: cs => unescape? .endingLine cs
  | _, '\\' :: '\t' :: cs => unescape? .endingLine cs
  | _, '\\' :: '\n' :: cs => unescape? .joiningLines cs
  | _, '\\' :: 'u' :: a :: b :: c :: d :: cs => do
    let char ← Text.ofCodePoint? (← Text.digits? 16 [a, b, c, d])
    return char :: (← unescape? .reading cs)
  | _, '\\' :: 'U' :: a :: b :: c :: d :: e :: f :: g :: h :: cs => do
    let char ← Text.ofCodePoint? (← Text.digits? 16 [a, b, c, d, e, f, g, h])
    return char :: (← unescape? .reading cs)
  | _, '\\' :: c :: cs => do
    let char ← Text.escapes.lookup c
    return char :: (← unescape? .reading cs)
  | _, c :: cs =>
    if c = '\\' then none else (unescape? .reading cs).map (c :: ·)

/-- The text up to three marks, and what follows them. Up to two more marks belong to the text.
With `escaped`, a mark after a backslash ends nothing. -/
def closingTriple (mark : Char) (escaped : Bool) : List Char → Option (List Char × List Char)
  | [] => none
  | [_] => none
  | c :: d :: cs =>
    if escaped && c = '\\' then
      (closingTriple mark escaped cs).map fun (body, rest) => (c :: d :: body, rest)
    else
      let run := ((c :: d :: cs).takeWhile (· = mark)).length
      if 3 ≤ run then
        let extra := min (run - 3) 2
        some (List.replicate extra mark, (c :: d :: cs).drop (extra + 3))
      else (closingTriple mark escaped (d :: cs)).map fun (body, rest) => (c :: body, rest)

/-- A text of several lines starts after the first line end, if that comes at once. -/
def dropLineEnd : List Char → List Char
  | '\n' :: cs => cs
  | cs => cs

/-- A text of one line after its opening mark. Only double quotes admit escapes. -/
def oneLine? (mark : Char) (cs : List Char) : Option (List Char × List Char) := do
  if mark = '"' then
    let (body, rest) ← Text.closing mark cs
    if body.contains '\n' then none else return (← unescape? .reading body, rest)
  else
    match cs.dropWhile fun c => c ≠ mark && c ≠ '\n' with
    | c :: rest => if c = mark then return (cs.takeWhile (· ≠ mark), rest) else none
    | [] => none

/-- A text of several lines after its three opening marks. -/
def manyLines? (mark : Char) (cs : List Char) : Option (List Char × List Char) := do
  let (body, rest) ← closingTriple mark (mark = '"') (dropLineEnd cs)
  if mark = '"' then return (← unescape? .reading body, rest) else return (body, rest)

/-! ## Values -/

/-- Removes underscores, which have to stand between digits. -/
def dropUnderscores? : List Char → Option (List Char)
  | [] => some []
  | [c] => if c = '_' then none else some [c]
  | c :: d :: cs =>
    if c = '_' then none
    else if d = '_' then
      match cs with
      | [] => none
      | e :: cs => (dropUnderscores? (e :: cs)).map (c :: ·)
    else (dropUnderscores? (d :: cs)).map (c :: ·)

/-- The number that digits in a base spell, with underscores between them. -/
def grouped? (base : Nat) (cs : List Char) : Option Int := do
  let n ← Text.digits? base (← dropUnderscores? cs)
  return n

/-- A decimal number without a sign, with underscores between its digits. -/
def unsigned? (cs : List Char) : Option Int := do
  let n ← Text.decimal? (← dropUnderscores? cs)
  return n

/-- A whole number: decimal with or without a sign, or after `0x`, `0o` or `0b`. -/
def whole? : List Char → Option Int
  | '0' :: 'x' :: ds => grouped? 16 ds
  | '0' :: 'o' :: ds => grouped? 8 ds
  | '0' :: 'b' :: ds => grouped? 2 ds
  | '-' :: ds => (unsigned? ds).map (-·)
  | '+' :: ds => unsigned? ds
  | ds => unsigned? ds

/-- A whole number of 64 bits, one of them for the sign. -/
def integer? (cs : List Char) : Option Int :=
  (whole? cs).filter Number.fitsSigned

/-- A value that is not quoted, up to a space, a comment or the end of the line. -/
def bare? (cs : List Char) : Option (Scalar × List Char) := do
  let inside := fun c => !isSpace c && c ≠ '\n' && c ≠ '#'
  let word := cs.takeWhile inside
  let rest := cs.dropWhile inside
  if word = "true".toList then return (.truth true, rest)
  else if word = "false".toList then return (.truth false, rest)
  else return (.number (← integer? word), rest)

/-- A value. -/
def value? : List Char → Option (Scalar × List Char)
  | '"' :: '"' :: '"' :: cs => do
    let (text, rest) ← manyLines? '"' cs
    return (.text text, rest)
  | '\'' :: '\'' :: '\'' :: cs => do
    let (text, rest) ← manyLines? '\'' cs
    return (.text text, rest)
  | '"' :: cs => do
    let (text, rest) ← oneLine? '"' cs
    return (.text text, rest)
  | '\'' :: cs => do
    let (text, rest) ← oneLine? '\'' cs
    return (.text text, rest)
  | cs => bare? cs

/-! ## Lines -/

def isKeyChar (c : Char) : Bool :=
  c.isAlphanum || c = '_' || c = '-'

/-- A name, quoted or not. -/
def key? : List Char → Option (List Char × List Char)
  | '"' :: cs => oneLine? '"' cs
  | '\'' :: cs => oneLine? '\'' cs
  | cs =>
    if (cs.takeWhile isKeyChar).isEmpty then none
    else some (cs.takeWhile isKeyChar, cs.dropWhile isKeyChar)

/-- A name, an equals sign and a value. -/
def entry? (cs : List Char) : Option ((String × Scalar) × List Char) := do
  let (key, rest) ← key? cs
  match skipSpaces rest with
  | '=' :: rest =>
    let (value, rest) ← value? (skipSpaces rest)
    return ((String.ofList key, value), rest)
  | _ => none

/-- A line, with or without an entry, and the lines after it. -/
def line? (cs : List Char) : Option (Entries × List Char) :=
  match lineEnd? cs with
  | some rest => some ([], rest)
  | none => do
    let (entry, rest) ← entry? (skipSpaces cs)
    return ([entry], ← lineEnd? rest)

/-- The entries of lines. A line is never empty, for it has an end. -/
def lines? (cs : List Char) : Option Entries :=
  if cs.isEmpty then some []
  else
    match line? cs with
    | none => none
    | some (entries, rest) =>
      if rest.length < cs.length then (lines? rest).map (entries ++ ·) else none
termination_by cs.length

/-- The entries of a file. A byte order mark may precede them, and the last line may lack its
end. -/
def read? (text : String) : Option Entries := do
  let cs := match text.toList with
    | '\ufeff' :: cs => cs
    | cs => cs
  lines? ((← normalize? cs) ++ ['\n'])

end SpendScript.Settings.Toml
