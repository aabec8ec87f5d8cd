/-!
# Levels

How important a record is, and how much of it a logger lets through.

* `Level`: the importance of a record.
* `Verbosity`: a bound on it; `Verbosity.admits` compares the two.
* `Verbosity.ofName?`: reads the name of a bound in any letter case.
-/

namespace SpendScript.Log

/-- The importance of a record. -/
inductive Level where
  | error
  | warn
  | info
  | debug
  | trace
deriving DecidableEq, Repr

namespace Level

/-- The rank of a level; the most important level has the lowest rank. -/
def rank : Level → Nat
  | .error => 1
  | .warn => 2
  | .info => 3
  | .debug => 4
  | .trace => 5

def name : Level → String
  | .error => "ERROR"
  | .warn => "WARN"
  | .info => "INFO"
  | .debug => "DEBUG"
  | .trace => "TRACE"

end Level

/-- How much is let through: nothing, or all records down to a level. -/
inductive Verbosity where
  | off
  | upTo (level : Level)
deriving DecidableEq, Repr

namespace Verbosity

/-- The bound that lets everything through. -/
def all : Verbosity :=
  .upTo .trace

/-- Whether records of a level are let through. -/
def admits : Verbosity → Level → Bool
  | .off, _ => false
  | .upTo bound, level => level.rank ≤ bound.rank

def name : Verbosity → String
  | .off => "OFF"
  | .upTo level => level.name

/-- All bounds, from the tightest to the loosest. -/
def values : List Verbosity :=
  [.off, .upTo .error, .upTo .warn, .upTo .info, .upTo .debug, .upTo .trace]

/-- The bound of a name. Only the case of ASCII letters is free. -/
def ofName? (text : List Char) : Option Verbosity :=
  values.find? fun v => v.name.toList = text.map Char.toUpper

end Verbosity

end SpendScript.Log
