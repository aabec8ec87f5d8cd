import SpendScript.Text.Combining
import SpendScript.Text.Printable

/-!
# Quoted text

A text between quotes, with what cannot be read in it escaped.

* `quoteChar`: one character between single quotes.
* `quote`: a text between double quotes.
-/

namespace SpendScript.Text

/-- Whether a character is shown by its number: it would leave no mark, or change the look of the
character before it. -/
def isHidden (c : Char) : Bool :=
  !isPrintable c || isCombining c

/-- A character inside the quotes `mark`: the quote itself, the backslash and hidden characters
are escaped. -/
def escapeChar (mark c : Char) : String :=
  if c = '\x00' then "\\0"
  else if c = '\t' then "\\t"
  else if c = '\n' then "\\n"
  else if c = '\r' then "\\r"
  else if c = mark ∨ c = '\\' then String.ofList ['\\', c]
  else if isHidden c then "\\u\x7b" ++ String.ofList (Nat.toDigits 16 c.toNat) ++ "\x7d"
  else c.toString

/-- A character between single quotes. -/
def quoteChar (c : Char) : String :=
  "'" ++ escapeChar '\'' c ++ "'"

/-- A text between double quotes. -/
def quote (s : String) : String :=
  "\"" ++ String.join (s.toList.map (escapeChar '"')) ++ "\""

end SpendScript.Text
