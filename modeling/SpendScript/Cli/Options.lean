import SpendScript.Cli.Arguments
import SpendScript.Settings.Policy
import SpendScript.Settings.Toml

/-!
# Options of a run

The command line comes before the configuration file, and the file before the defaults.

* `Options.ofConfig?`: what a configuration file says.
* `Options.withArguments`: what a command line says, on top of something else.
* `Options.read`: reads both.
-/

namespace SpendScript.Cli

/-- What a run is to do. -/
structure Options where
  logDir : Option String
  noLogFiles : Bool
  /-- A logger expression. -/
  logLevel : String
  flags : Flags
  scriptSig : Option String
  scriptPubkey : Option String
  /-- The signed digest in hexadecimal. -/
  digest : Option String
  disasmOnly : Bool
deriving DecidableEq, Repr

namespace Options

def default : Options :=
  ⟨none, false, "info", .default, none, none, none, false⟩

/-- Where log files go, unless there are to be none. -/
def logFileDir (o : Options) : Option String :=
  if o.noLogFiles then none else o.logDir

/-! ## The configuration file -/

/-- The names of all settings of a configuration file. -/
def names : List String :=
  ["logdir", "nologfiles", "loglevel", "script-sig", "script-pubkey", "z", "disasm-only"] ++
    Flags.names

/-- The options of a configuration file; what it leaves out has its default. -/
def ofConfig? (text : String) : Option Options := do
  let es ← Settings.Toml.read? text
  if es.areAmong names then
    return {
      logDir := ← es.text? "logdir"
      noLogFiles := ← es.truth? "nologfiles"
      logLevel := (← es.text? "loglevel").getD default.logLevel
      flags := ← Flags.ofEntries? es
      scriptSig := ← es.text? "script-sig"
      scriptPubkey := ← es.text? "script-pubkey"
      digest := ← es.text? "z"
      disasmOnly := ← es.truth? "disasm-only" }
  else none

/-! ## The command line -/

/-- The options of a command line; what it leaves out is taken from `base`. -/
def withArguments (base : Options) (a : Arguments) : Options :=
  let chosen := fun (switch : Switch) (otherwise : Bool) => a.switches.contains switch || otherwise
  { logDir := a.text? .logDir <|> base.logDir
    noLogFiles := chosen .noLogFiles base.noLogFiles
    logLevel := (a.text? .logLevel).getD base.logLevel
    flags := {
      strictEncoding := chosen .strictEncoding base.flags.strictEncoding
      minimalData := chosen .minimalData base.flags.minimalData
      minimalIf := chosen .minimalIf base.flags.minimalIf
      cacheSize := a.cacheSize.getD base.flags.cacheSize }
    scriptSig := a.text? .scriptSig <|> base.scriptSig
    scriptPubkey := a.text? .scriptPubkey <|> base.scriptPubkey
    digest := a.text? .digest <|> base.digest
    disasmOnly := chosen .disasmOnly base.disasmOnly }

/-- What the options are on top of: the configuration file, or the defaults if none is named.
`contents` reads a file. -/
def base {m : Type → Type} [Monad m] (contents : String → m (Option String)) (a : Arguments) :
    m (Except ArgumentError Options) := do
  match a.text? .configFile with
  | none => return .ok default
  | some path =>
    match ← contents path with
    | none => return .error (.unreadableConfig path)
    | some text =>
      match ofConfig? text with
      | none => return .error (.invalidConfig path)
      | some options => return .ok options

/-- The options of a command line. `contents` reads a file. -/
def read {m : Type → Type} [Monad m] (contents : String → m (Option String))
    (words : List String) : m (Except ArgumentError Options) := do
  match Arguments.read words with
  | .error e => return .error e
  | .ok a => return (← base contents a).map fun o => o.withArguments a

end Options

end SpendScript.Cli
