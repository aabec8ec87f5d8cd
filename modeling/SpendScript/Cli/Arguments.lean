import SpendScript.Number.Word
import SpendScript.Text.Literal

/-!
# Command line arguments

Which options a command line names, and with which values.

* `Argument`: what can be named; `Word` is the form of one word of a command line.
* `Arguments`: the options that were given.
* `Arguments.read`: reads a command line. The first word that is at fault is reported.
-/

namespace SpendScript.Cli

/-! ## Options -/

/-- Options with a text as value. -/
inductive TextOption where
  | configFile
  | logDir
  | logLevel
  | scriptSig
  | scriptPubkey
  | digest
deriving DecidableEq, Repr

/-- Options without a value. -/
inductive Switch where
  | noLogFiles
  | strictEncoding
  | minimalData
  | minimalIf
  | disasmOnly
deriving DecidableEq, Repr

/-- What a word can name. -/
inductive Argument where
  | text (option : TextOption)
  | cacheSize
  | switch (switch : Switch)
  | help
  | version
deriving DecidableEq, Repr

namespace Argument

/-- The long names, which follow two hyphens. -/
def longNames : List (String × Argument) :=
  [("configfile", .text .configFile), ("logdir", .text .logDir), ("loglevel", .text .logLevel),
    ("script-sig", .text .scriptSig), ("script-pubkey", .text .scriptPubkey), ("z", .text .digest),
    ("sig-cache-size", .cacheSize), ("nologfiles", .switch .noLogFiles),
    ("strict-encoding", .switch .strictEncoding), ("minimal-data", .switch .minimalData),
    ("minimal-if", .switch .minimalIf), ("disasm-only", .switch .disasmOnly),
    ("help", .help), ("version", .version)]

/-- The letters that may follow one hyphen instead. -/
def shortNames : List (Char × Argument) :=
  [('C', .text .configFile), ('d', .text .logLevel), ('h', .help), ('V', .version)]

/-- Whether an option has a value. -/
def takesValue : Argument → Bool
  | .text _ => true
  | .cacheSize => true
  | _ => false

/-- Whether the value has to follow an equals sign; otherwise it may be the next word. -/
def needsEquals : Argument → Bool
  | .text .configFile => false
  | .text .logDir => false
  | arg => arg.takesValue

end Argument

/-! ## Errors -/

/-- Why a command line does not start a run. -/
inductive ArgumentError where
  | unknown (word : String)
  | missingValue (option : TextOption)
  | missingEquals (word : String)
  | unexpectedValue (word : String)
  | repeated (arg : Argument)
  | invalidCount (value : String)
  | helpRequested
  | versionRequested
  | unreadableConfig (path : String)
  | invalidConfig (path : String)
deriving DecidableEq, Repr

/-! ## Words -/

/-- The form of a word. -/
inductive Word where
  /-- Two hyphens alone: what follows names no options. -/
  | separator
  /-- Two hyphens, a name, and what follows the first equals sign. -/
  | long (name : List Char) (value : Option (List Char))
  /-- One hyphen, a letter, and the rest of the word. -/
  | short (letter : Char) (rest : List Char)
  | plain
deriving DecidableEq, Repr

/-- What follows the first equals sign. -/
def afterEquals (cs : List Char) : Option (List Char) :=
  match cs.dropWhile (· ≠ '=') with
  | [] => none
  | _ :: value => some value

def Word.ofChars : List Char → Word
  | ['-', '-'] => .separator
  | '-' :: '-' :: cs => .long (cs.takeWhile (· ≠ '=')) (afterEquals cs)
  | '-' :: c :: cs => .short c cs
  | _ => .plain

/-- The value of a count: decimal digits of a 64-bit number after an optional plus sign. -/
def count? (value : String) : Option Nat :=
  let digits := match value.toList with
    | '+' :: ds => ds
    | ds => ds
  (Text.digits? 10 digits).filter Number.fitsWord

/-! ## Given options -/

/-- The options that were given. -/
structure Arguments where
  texts : List (TextOption × String)
  cacheSize : Option Nat
  switches : List Switch
deriving DecidableEq, Repr

namespace Arguments

def empty : Arguments :=
  ⟨[], none, []⟩

/-- The value of an option, if it was given. -/
def text? (a : Arguments) (option : TextOption) : Option String :=
  a.texts.lookup option

def setText (a : Arguments) (option : TextOption) (value : String) :
    Except ArgumentError Arguments :=
  if (a.text? option).isSome then .error (.repeated (.text option))
  else .ok { a with texts := (option, value) :: a.texts }

/-- Sets the cache size. A second value is refused before it is read. -/
def setCacheSize (a : Arguments) (value : String) : Except ArgumentError Arguments :=
  if a.cacheSize.isSome then .error (.repeated .cacheSize)
  else
    match count? value with
    | none => .error (.invalidCount value)
    | some n => .ok { a with cacheSize := some n }

def setSwitch (a : Arguments) (switch : Switch) : Except ArgumentError Arguments :=
  if a.switches.contains switch then .error (.repeated (.switch switch))
  else .ok { a with switches := switch :: a.switches }

/-- Sets an option that has its value. -/
def set (a : Arguments) (arg : Argument) (value : String) : Except ArgumentError Arguments :=
  match arg with
  | .text option => a.setText option value
  | .cacheSize => a.setCacheSize value
  | .switch switch => a.setSwitch switch
  | .help => .error .helpRequested
  | .version => .error .versionRequested

end Arguments

/-! ## Reading -/

/-- Where the reading of a command line stands. -/
structure Scan where
  given : Arguments
  /-- An option that was named without a value, and the value if a later word gave it. It is set
  when the next option is named. -/
  pending : Option (TextOption × Option String)
  /-- Whether the separator has been read. -/
  ended : Bool

namespace Scan

def start : Scan :=
  ⟨.empty, none, false⟩

/-- Sets the pending option. -/
def settle (s : Scan) : Except ArgumentError Arguments :=
  match s.pending with
  | none => .ok s.given
  | some (option, none) => .error (.missingValue option)
  | some (option, some value) => s.given.setText option value

/-- Sets the pending option and then one that has its value. -/
def give (s : Scan) (arg : Argument) (value : String) : Except ArgumentError Scan := do
  let given ← s.settle
  return ⟨← given.set arg value, none, s.ended⟩

/-- Sets the pending option and waits for the value of another one. -/
def await (s : Scan) (option : TextOption) : Except ArgumentError Scan := do
  return ⟨← s.settle, some (option, none), s.ended⟩

/-- Reads an option with the value that is attached to it, if any. -/
def name (s : Scan) (word : String) (arg : Argument) (equals : Bool)
    (value : Option (List Char)) : Except ArgumentError Scan :=
  if arg.needsEquals && !equals then .error (.missingEquals word)
  else
    match value, arg with
    | some value, arg =>
      if arg.takesValue then s.give arg (String.ofList value) else .error (.unexpectedValue word)
    | none, .text option => s.await option
    | none, arg => s.give arg ""

/-- Reads a word that follows one hyphen. A value is attached with or without an equals sign, and
what is attached to an option without a value is not looked at. -/
def nameShort (s : Scan) (word : String) (arg : Argument) (attached : List Char) :
    Except ArgumentError Scan :=
  if !arg.takesValue then s.name word arg false none
  else
    match attached with
    | [] => s.name word arg false none
    | '=' :: value => s.name word arg true (some value)
    | value => s.name word arg false (some value)

/-- Reads a word that names no option: it has to be the value of the pending one. -/
def supply (s : Scan) (word : String) : Except ArgumentError Scan :=
  match s.pending with
  | some (option, none) => .ok { s with pending := some (option, some word) }
  | _ => .error (.unknown word)

/-- Reads a word. -/
def step (s : Scan) (word : String) : Except ArgumentError Scan :=
  if s.ended then .error (.unknown word)
  else
    match Word.ofChars word.toList with
    | .separator => .ok { s with ended := true }
    | .long name value =>
      match Argument.longNames.lookup (String.ofList name) with
      | some arg => s.name word arg value.isSome value
      | none => .error (.unknown word)
    | .short letter rest =>
      match Argument.shortNames.lookup letter with
      | some arg => s.nameShort word arg rest
      | none => .error (.unknown word)
    | .plain => s.supply word

end Scan

/-- Reads a command line, without the name of the program. -/
def Arguments.read (words : List String) : Except ArgumentError Arguments := do
  (← words.foldlM Scan.step Scan.start).settle

end SpendScript.Cli
