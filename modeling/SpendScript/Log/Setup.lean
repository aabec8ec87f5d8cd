import SpendScript.Log.Level
import SpendScript.Text.Blank

/-!
# Logger expressions

An expression such as `info,engine=trace` lists directives between commas. A level alone sets the
level of the root; a name, with or without a level, sets that of a logger.

* `Directive.read`: reads one directive.
* `Setup`: what directives have set so far. Of two directives on one name the later one counts.
* `Setup.build`: the levels that result.
-/

namespace SpendScript.Log

/-! ## Directives -/

/-- One item of an expression. -/
inductive Directive where
  | root (level : Verbosity)
  | logger (name : String) (level : Verbosity)
deriving DecidableEq, Repr

/-- An item that is no directive, by the part of it that is at fault. -/
structure DirectiveError where
  text : String
deriving DecidableEq, Repr

/-- What is said about an item that is left out. -/
def DirectiveError.message (e : DirectiveError) : String :=
  s!"Ignoring invalid logging spec 'Logger spec parsing error: {e.text}'"

namespace Directive

/-- Reads an item. A name without a level, or with an empty one, lets everything through. Blanks
after a name belong to the name. -/
def read (item : List Char) : Except DirectiveError Directive :=
  match Text.split '=' item with
  | [part] =>
    match Verbosity.ofName? part with
    | some level => .ok (.root level)
    | none => .ok (.logger (String.ofList part) .all)
  | [name, part] =>
    let part := Text.trim part
    if part.isEmpty then .ok (.logger (String.ofList name) .all)
    else
      match Verbosity.ofName? part with
      | some level => .ok (.logger (String.ofList name) level)
      | none => .error ⟨String.ofList part⟩
  | _ => .error ⟨String.ofList item⟩

/-- The items of an expression, without the blanks around them; empty ones are left out. -/
def items (expression : String) : List (List Char) :=
  ((Text.split ',' expression.toList).map Text.trim).filter fun item => !item.isEmpty

/-- What the items of an expression say, in their order. -/
def readAll (expression : String) : List (Except DirectiveError Directive) :=
  (items expression).map read

end Directive

/-! ## Setting up loggers -/

/-- A named logger: the sinks that it writes to, and how much it lets through. -/
structure Logger where
  name : String
  sinks : List String
  level : Verbosity
deriving DecidableEq, Repr

/-- The logger of the root and the named ones, by ascending names. -/
structure Loggers where
  root : Verbosity
  named : List Logger
deriving DecidableEq, Repr

/-- Puts a logger in its place among loggers of ascending names; one of the same name gives
way. -/
def insertLogger (l : Logger) : List Logger → List Logger
  | [] => [l]
  | m :: ms =>
    if l.name < m.name then l :: m :: ms
    else if l.name = m.name then l :: ms
    else m :: insertLogger l ms

/-- What has been set so far. -/
structure Setup where
  /-- The sinks of the loggers that are set from now on. -/
  sinks : List String
  /-- The loggers that were set, by ascending names. -/
  loggers : List Logger
  root : Option Verbosity
deriving DecidableEq, Repr

namespace Setup

/-- Nothing is set. -/
def empty : Setup :=
  ⟨[], [], none⟩

def setRoot (s : Setup) (level : Verbosity) : Setup :=
  { s with root := some level }

def setSinks (s : Setup) (sinks : List String) : Setup :=
  { s with sinks := sinks }

/-- Sets a logger, which writes to the current sinks. -/
def setLogger (s : Setup) (name : String) (level : Verbosity) : Setup :=
  { s with loggers := insertLogger ⟨name, s.sinks, level⟩ s.loggers }

/-- Does what an item says; one that is no directive changes nothing. -/
def follow (s : Setup) : Except DirectiveError Directive → Setup
  | .ok (.root level) => s.setRoot level
  | .ok (.logger name level) => s.setLogger name level
  | .error _ => s

/-- Follows the items of an expression in their order. -/
def addExpression (s : Setup) (expression : String) : Setup :=
  (Directive.readAll expression).foldl follow s

/-- An expression on its own, without sinks. -/
def ofExpression (expression : String) : Setup :=
  empty.addExpression expression

/-- The loggers that were set, and the setup without them. A root that was not set lets errors
through. -/
def build (s : Setup) : Loggers × Setup :=
  (⟨s.root.getD (.upTo .error), s.loggers⟩, ⟨s.sinks, [], none⟩)

end Setup

end SpendScript.Log
