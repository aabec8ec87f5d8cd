import SpendScript.Log.Setup

/-!
# Delivery of records

A logger takes the records of its target and of everything below it: names are paths whose steps
are separated by two colons. The logger with the longest path decides whether a record is let
through; the record then goes to the sinks of all loggers above its target, and once more to a
sink that several of them share.

* `Loggers.chain`: the loggers above a target, the longest path first.
* `Loggers.recipients`: where a record goes.
* `Sink.lines`: what a sink holds after some records.
-/

namespace SpendScript.Log

/-- Something to be logged. -/
structure Record where
  target : String
  level : Level
  text : String
deriving DecidableEq, Repr

/-- The line of a record: its level in five columns, then its text. -/
def Record.line (r : Record) : String :=
  "[" ++ r.level.name ++ String.ofList (List.replicate (5 - r.level.name.length) ' ') ++ "] " ++ r.text

/-! ## Paths -/

/-- The steps of a path, between pairs of colons. -/
def steps : List Char → List (List Char)
  | [] => [[]]
  | ':' :: ':' :: cs => [] :: steps cs
  | c :: cs =>
    match steps cs with
    | [] => [[c]]
    | step :: rest => (c :: step) :: rest

/-- The path that a name spells. -/
def path (name : String) : List (List Char) :=
  steps name.toList

/-- Whether colons come in pairs that something follows, with `seen` colons just before. -/
def colonsPaired : (seen : Nat) → List Char → Bool
  | seen, [] => seen == 0
  | seen, c :: cs =>
    if c = ':' then seen < 2 && colonsPaired (seen + 1) cs
    else (seen == 0 || seen == 2) && colonsPaired 0 cs

/-- Whether a logger can have a name: it is not empty and its colons separate steps. -/
def isLoggerName (name : String) : Bool :=
  !name.isEmpty && colonsPaired 0 name.toList

/-- The loggers whose names cannot be used. -/
def Loggers.misnamed (ls : Loggers) : List Logger :=
  ls.named.filter fun l => !isLoggerName l.name

/-! ## Recipients -/

/-- A path and the paths above it, the longest first; the empty path is left out. -/
def ancestors (steps : List (List Char)) : List (List (List Char)) :=
  (List.range steps.length).reverse.map fun n => steps.take (n + 1)

namespace Loggers

/-- The named loggers at or above a target, the longest path first. -/
def chain (ls : Loggers) (target : String) : List Logger :=
  (ancestors (path target)).filterMap fun p => ls.named.find? fun l => path l.name == p

/-- How much is let through at a target. -/
def levelAt (ls : Loggers) (target : String) : Verbosity :=
  match ls.chain target with
  | [] => ls.root
  | l :: _ => l.level

/-- The sinks that a record goes to, those of the root last. -/
def recipients (ls : Loggers) (rootSinks : List String) (r : Record) : List String :=
  if (ls.levelAt r.target).admits r.level then
    (ls.chain r.target).flatMap Logger.sinks ++ rootSinks
  else []

end Loggers

/-- A sink, which may keep only the more important records. -/
structure Sink where
  name : String
  level : Verbosity

/-- The lines of the records that go to a sink, one for each time that it is a recipient. -/
def Sink.lines (sink : Sink) (recipients : Record → List String) (records : List Record) :
    List String :=
  (records.filter fun r => sink.level.admits r.level).flatMap fun r =>
    List.replicate ((recipients r).count sink.name) r.line

end SpendScript.Log
