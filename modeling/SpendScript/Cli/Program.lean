import SpendScript.Cli.Options
import SpendScript.Engine.Run
import SpendScript.Files.Host
import SpendScript.Log.Delivery
import SpendScript.Script.View

/-!
# The program

Decodes the scripts of the command line, shows them, runs them one after the other as one script,
and prints the verdict.

* `Options.run`: the report of a run, or why there is none.
* `Options.logging`: which records go where.
* `Options.openLogs`: the log files, or why one cannot be opened.
* `Options.result`, `ArgumentError.result`: all that the program writes, and its exit status.
* `execute`: the program on a host.
-/

namespace SpendScript.Cli

/-- The name that the program goes by. -/
def programName : String :=
  "kestrel-script"

def programVersion : String :=
  "0.4.0"

/-- The target of the records of the program itself. -/
def programTarget : String :=
  "kestrel_script"

/-- The target of the records of a script run. -/
def engineTarget : String :=
  "kestrel_txscript"

/-! ## Running scripts -/

/-- Why the given scripts are not run. -/
inductive RunError where
  | missingScript
  | hex (name : String) (cause : Text.Hex.HexError)
  | parse (name : String) (cause : ScriptError)
  | digestTooLong (length : Nat)
  | fault (cause : Fault)
deriving DecidableEq, Repr

namespace RunError

def message : RunError → String
  | .missingScript => "no script was given, pass --script-sig and/or --script-pubkey"
  | .hex name cause => s!"{name} is not valid hex: {cause.message}"
  | .parse name cause => s!"{name} does not parse: {cause.message}"
  | .digestTooLong length => s!"z must be at most 32 bytes, got {length}"
  | .fault _ => "the run broke off"

def status : RunError → Nat
  | .fault _ => 101
  | _ => 2

end RunError

/-- The bytes that a text spells in hexadecimal; blanks around it do not count. -/
def decodeHex (name text : String) : Except RunError Bytes :=
  (Text.Hex.decode (String.ofList (Text.trim text.toList))).mapError (.hex name)

/-- The script that a text spells; without a text it is empty. -/
def decodeScript (name : String) : Option String → Except RunError Script
  | none => .ok Script.empty
  | some text => do
    let bytes ← decodeHex name text
    (Script.ofBytes bytes).mapError (.parse name)

/-- The digest that a text spells; without a text it is zero. -/
def decodeDigest : Option String → Except RunError Nat
  | none => .ok 0
  | some text => do
    let bytes ← decodeHex "z" text
    if 32 < bytes.length then throw (.digestTooLong bytes.length) else return bytes.toNat

/-- What is shown of a script: its class and its commands, and with `full` a listing. -/
def describe (full : Bool) (name : String) (script : Script) : String :=
  s!"{name} ({script.scriptClass.name}): {script.text}\n" ++ if full then script.view else ""

/-- The policy in words. -/
def flagsText (f : Flags) : String :=
  "EngineFlags \x7b strict_encoding: " ++ toString f.strictEncoding ++ ", minimal_data: " ++
    toString f.minimalData ++ ", minimal_if: " ++ toString f.minimalIf ++ ", sig_cache_size: " ++
    toString f.cacheSize ++ " \x7d"

/-- The record of something that happened in a run. -/
def eventRecord : Event → Log.Record
  | .executing code depth =>
    ⟨engineTarget, .trace, s!"Executing {code.text} with stack depth {depth}"⟩
  | .runningRedeemScript commands =>
    ⟨engineTarget, .debug, s!"Running redeem script {(Script.ofCommands commands).text}"⟩
  | .checkFailed cause => ⟨engineTarget, .debug, s!"Signature check failed: {cause.message}"⟩

/-- What a run prints, what it logs, and whether the scripts are valid together. -/
structure Report where
  output : String
  valid : Bool
  records : List Log.Record
deriving DecidableEq

namespace Options

/-- The scripts that were given, with the names of their options. -/
def describeAll (o : Options) (scriptSig scriptPubkey : Script) : String :=
  (if o.scriptSig.isSome then describe o.disasmOnly "script-sig" scriptSig else "") ++
    (if o.scriptPubkey.isSome then describe o.disasmOnly "script-pubkey" scriptPubkey else "")

/-- Runs two scripts as one and adds the verdict to what is shown of them. -/
def evaluate (o : Options) (shown : String) (script : Script) (digest : Nat) :
    Except RunError Report := do
  let cache ← (Script.cacheFor o.flags.cacheSize).mapError .fault
  let begin : Log.Record := ⟨programTarget, .debug,
    s!"Evaluating {script.commands.length} commands with flags {flagsText o.flags}"⟩
  let outcome := script.execute ⟨digest, o.flags⟩ cache
  let records := begin :: outcome.state.events.reverse.map eventRecord
  match outcome.result with
  | .ok _ => .ok ⟨shown ++ "valid\n", true, records⟩
  | .error (.error e) => .ok ⟨shown ++ s!"invalid: {e.message}\n", false, records⟩
  | .error (.fault f) => .error (.fault f)

/-- The report of a run. The signature script comes before the script public key. -/
def run (o : Options) : Except RunError Report := do
  if o.scriptSig.isNone && o.scriptPubkey.isNone then throw .missingScript
  let scriptSig ← decodeScript "script-sig" o.scriptSig
  let scriptPubkey ← decodeScript "script-pubkey" o.scriptPubkey
  let digest ← decodeDigest o.digest
  let shown := o.describeAll scriptSig scriptPubkey
  if o.disasmOnly then return ⟨shown, true, []⟩
  else o.evaluate shown (scriptSig ++ scriptPubkey) digest

end Options

/-! ## Logging -/

/-- The sink of all records that are shown at once. -/
def consoleSink : Log.Sink :=
  ⟨"stderr", .all⟩

/-- The names of the log files, with their sinks. -/
def fileSinks : List (String × Log.Sink) :=
  [("kestrel.log", ⟨"log_file", .all⟩), ("kestrel_err.log", ⟨"err_log_file", .upTo .warn⟩)]

/-- A log file that cannot be opened. -/
structure LogFileError where
  path : String
  cause : Files.Fault
deriving DecidableEq, Repr

def LogFileError.message (e : LogFileError) : String :=
  s!"Log appender error: {e.path}: {e.cause.message}"

/-- Opens log files in a directory, in order, up to the first that cannot be opened. The paths may
name variables of the environment, but a fault is reported with the path as it was given. -/
def openFiles {m : Type → Type} [Monad m] (host : Files.Host m) (dir : String) :
    List (String × Log.Sink) → m (Except LogFileError (List (String × Log.Sink)))
  | [] => return .ok []
  | (name, sink) :: rest => do
    let given := Files.join dir name
    let path ← Files.expand host.value? given
    match ← host.openLog path with
    | .error cause => return .error ⟨given, cause⟩
    | .ok _ => return (← openFiles host dir rest).map ((path, sink) :: ·)

/-- The paths of the open log files, with their sinks. -/
def Options.openLogs {m : Type → Type} [Monad m] (host : Files.Host m) (o : Options) :
    m (Except LogFileError (List (String × Log.Sink))) :=
  match o.logFileDir with
  | none => return .ok []
  | some dir => openFiles host dir fileSinks

/-- Which records go where. -/
structure Logging where
  loggers : Log.Loggers
  rootSinks : List String
  /-- What is said about items of expressions that are left out. -/
  warnings : List String

namespace Logging

/-- The lines of a sink. -/
def lines (l : Logging) (sink : Log.Sink) (records : List Log.Record) : List String :=
  sink.lines (l.loggers.recipients l.rootSinks) records

/-- Says that loggers cannot have their names. -/
def misnamedText (misnamed : List Log.Logger) : List String :=
  ["Logger configuration error: Configuration errors: ["] ++
    misnamed.flatMap (fun l =>
      ["    InvalidLoggerName(", s!"        {Text.quote l.name},", "    ),"]) ++
    ["]"]

end Logging

/-- Sets the loggers: records from `INFO` on, then the expression of the environment, then that
of the options. Records go to the console and to `files`. -/
def Options.logging (o : Options) (environment : String) (files : List (String × Log.Sink)) :
    Logging :=
  let sinks := consoleSink.name :: files.map fun file => file.2.name
  let setup := (Log.Setup.empty.setRoot (.upTo .info)).setSinks sinks
  let items := Log.Directive.readAll environment ++ Log.Directive.readAll o.logLevel
  let warnings := items.filterMap fun item =>
    match item with
    | .ok _ => none
    | .error e => some e.message
  ⟨((setup.addExpression environment).addExpression o.logLevel).build.1, sinks, warnings⟩

/-! ## The whole program -/

/-- All that the program writes, and its exit status. -/
structure Result where
  status : Nat
  output : String
  /-- The lines of the error output. -/
  errors : List String
  /-- The paths of the log files, and their lines. -/
  logFiles : List (String × List String)
deriving DecidableEq

/-- Runs the program with options. `environment` is a logger expression, and `files` are the
paths of the open log files. -/
def Options.result (o : Options) (environment : String) (files : List (String × Log.Sink)) :
    Result :=
  let l := o.logging environment files
  let write := fun (records : List Log.Record) =>
    files.map fun file => (file.1, l.lines file.2 records)
  match l.loggers.misnamed with
  | m :: ms => ⟨1, "", l.warnings ++ Logging.misnamedText (m :: ms), write []⟩
  | [] =>
    let greeting : Log.Record := ⟨programTarget, .info, s!"{programName} v{programVersion}"⟩
    match o.run with
    | .error e =>
      let records := [greeting]
      ⟨e.status, "", l.warnings ++ l.lines consoleSink records ++ [e.message], write records⟩
    | .ok report =>
      let records := greeting :: report.records
      ⟨if report.valid then 0 else 1, report.output,
        l.warnings ++ l.lines consoleSink records, write records⟩

/-! ## Command lines that start no run -/

/-- How the program is called. -/
def usage : String :=
  s!"Usage: {programName} [OPTIONS]\n\nOptions:\n" ++
  "  -C, --configfile <CONFIG_FILE>  Path of config file.\n" ++
  "      --logdir <LOG_DIR>          Directory to log output.\n" ++
  "      --nologfiles                Disable logging to files.\n" ++
  "  -d, --loglevel=<LEVEL>          Logging levels.\n" ++
  "      --script-sig=<HEX>          Signature script.\n" ++
  "      --script-pubkey=<HEX>       Script public key.\n" ++
  "      --z=<HEX>                   Digest that the signatures commit to.\n" ++
  "      --strict-encoding           Fail on malformed signatures or keys.\n" ++
  "      --minimal-data              Require the shortest encoding for data pushes.\n" ++
  "      --minimal-if                Require minimal conditions.\n" ++
  "      --sig-cache-size=<ENTRIES>  Maximum number of cached signature checks.\n" ++
  "      --disasm-only               Print the scripts without evaluating them.\n" ++
  "  -h, --help                      Print help.\n" ++
  "  -V, --version                   Print version.\n"

/-- What is printed if a command line starts no run. -/
def ArgumentError.message : ArgumentError → String
  | .unknown word => s!"error: unexpected argument '{word}' found\n"
  | .missingValue _ => "error: a value is required but none was supplied\n"
  | .missingEquals word => s!"error: an equal sign is needed when assigning a value in '{word}'\n"
  | .unexpectedValue word => s!"error: unexpected value in '{word}'\n"
  | .repeated _ => "error: an argument cannot be used multiple times\n"
  | .invalidCount value => s!"error: invalid value '{value}'\n"
  | .helpRequested => usage
  | .versionRequested => s!"{programName} {programVersion}\n"
  | .unreadableConfig path => s!"error: cannot read '{path}'\n"
  | .invalidConfig path => s!"error: failed parsing config file '{path}'\n"

/-- The result of a command line that starts no run. -/
def ArgumentError.result (e : ArgumentError) : Result :=
  ⟨1, e.message ++ "\n", [], []⟩

/-! ## On a host -/

/-- The result of a run whose log files cannot be opened. Nothing is logged. -/
def LogFileError.result (e : LogFileError) : Result :=
  ⟨1, "", [e.message], []⟩

/-- The result of the program on a host, where only directories and empty log files are made. -/
def result {m : Type → Type} [Monad m] (host : Files.Host m) (words : List String) : m Result := do
  match ← Options.read host.contents? words with
  | .error e => return e.result
  | .ok o =>
    match ← o.openLogs host with
    | .error e => return e.result
    | .ok files => return o.result ((← host.value? "RUST_LOG").getD "") files

/-- Runs the program on a host and writes its log files. -/
def execute {m : Type → Type} [Monad m] (host : Files.Host m) (words : List String) :
    m Result := do
  let r ← result host words
  r.logFiles.forM fun (path, lines) => host.append path (String.join (lines.map (· ++ "\n")))
  return r

end SpendScript.Cli
