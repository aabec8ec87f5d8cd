import SpendScript.Number.Word

/-!
# Named settings

What a settings file or document says: values under names.

* `Scalar`: a text, a truth value or a whole number.
* `Entries`: names with values, in their order.
* `Entries.text?`, `Entries.truth?`, `Entries.count?`: the value of a setting, or its default. They
  fail on a value of another kind.
-/

namespace SpendScript.Settings

/-- The value of a setting. -/
inductive Scalar where
  | text (value : List Char)
  | truth (value : Bool)
  | number (value : Int)
deriving DecidableEq, Repr

/-- Names with values. -/
abbrev Entries := List (String × Scalar)

namespace Entries

/-- Whether only the given names occur, and none twice. -/
def areAmong (names : List String) : Entries → Bool
  | [] => true
  | (name, _) :: rest =>
    names.contains name && (rest.lookup name).isNone && areAmong names rest

/-- A text that may be left out. -/
def text? (es : Entries) (name : String) : Option (Option String) :=
  match es.lookup name with
  | none => some none
  | some (.text value) => some (some (String.ofList value))
  | some _ => none

/-- A truth value, false if left out. -/
def truth? (es : Entries) (name : String) : Option Bool :=
  match es.lookup name with
  | none => some false
  | some (.truth value) => some value
  | some _ => none

/-- A number of 64 bits. -/
def count? (es : Entries) (name : String) (default : Nat) : Option Nat :=
  match es.lookup name with
  | none => some default
  | some (.number (.ofNat n)) => if Number.fitsWord n then some n else none
  | some _ => none

end Entries

end SpendScript.Settings
