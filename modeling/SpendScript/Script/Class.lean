import SpendScript.Script.Basic

/-!
# Script classes

The standard forms of locks, told by their shape alone: a key or a hash is not looked into beyond
its length and first byte.

* `Script.keyLock?`, `Script.keyHashLock?`, `Script.scriptHashLock?`, `Script.multisigParams?`:
  the shapes, each with what it holds.
* `ScriptClass.ofScript`: the class of a script.
* `Script.paysTo`: the hash that a lock pays to.
-/

namespace SpendScript

/-- A form of a lock. -/
inductive ScriptClass where
  | nonStandard
  | pubKey
  | pubKeyHash
  | scriptHash
  | multiSig
deriving DecidableEq, Repr

/-- Why a text names no class, or why a script pays to no hash. -/
inductive ClassError where
  | unknownName (text : String)
  | paysToNoHash (scriptClass : ScriptClass)
deriving DecidableEq, Repr

namespace ScriptClass

def name : ScriptClass → String
  | .nonStandard => "nonstandard"
  | .pubKey => "pubkey"
  | .pubKeyHash => "pubkeyhash"
  | .scriptHash => "scripthash"
  | .multiSig => "multisig"

/-- The class with a given name. -/
def ofName (text : String) : Except ClassError ScriptClass :=
  match [nonStandard, pubKey, pubKeyHash, scriptHash, multiSig].find? (name · == text) with
  | some c => .ok c
  | none => .error (.unknownName text)

end ScriptClass

/-- The text of an error. -/
def ClassError.message : ClassError → String
  | .unknownName text => s!"invalid script class {text}"
  | .paysToNoHash c => s!"public key encoding invalid: {c.name} script does not pay to a hash"

namespace Script

/-! ## Shapes -/

/-- Whether data has the length and the first byte of an encoded key. -/
def isKeyShaped : Bytes → Bool
  | [] => false
  | tag :: body =>
    body.length == 32 && (tag == 0x02 || tag == 0x03) || body.length == 64 && tag == 0x04

/-- The key of a lock that is a key and a signature check. -/
def keyLock? : List Command → Option Bytes
  | [.push key, .op check] =>
    if check = Opcode.checkSig ∧ isKeyShaped key.data then some key.data else none
  | _ => none

/-- The hash of a lock that compares the hash of a key and checks a signature. -/
def keyHashLock? : List Command → Option Bytes
  | [.op dup, .op hash, .push p, .op equal, .op check] =>
    if dup = Opcode.dup ∧ hash = Opcode.hash160 ∧ p.data.length = 20 ∧
        equal = Opcode.equalVerify ∧ check = Opcode.checkSig then some p.data
    else none
  | _ => none

/-- The hash of a lock that compares the hash of a revealed script. -/
def scriptHashLock? : List Command → Option Bytes
  | [.op hash, .push p, .op equal] =>
    if hash = Opcode.hash160 ∧ p.data.length = 20 ∧ equal = Opcode.equal then some p.data
    else none
  | _ => none

/-- Whether a command pushes data of the shape of a key. -/
def pushesKey (c : Command) : Bool :=
  c.data?.any isKeyShaped

/-- How many signatures by how many keys a bare multisignature lock asks for. -/
def multisigParams? : List Command → Option (Nat × Nat)
  | .op required :: rest =>
    match rest.reverse with
    | .op check :: .op count :: keys => do
      let m ← required.smallInt?
      let n ← count.smallInt?
      if check = Opcode.checkMultiSig ∧ keys.all pushesKey ∧ keys.length = n ∧ 1 ≤ m ∧ m ≤ n ∧
          n ≤ Limits.multisigKeys then some (m, n)
      else none
    | _ => none
  | _ => none

end Script

/-! ## Classification -/

/-- The class of a list of commands. -/
def ScriptClass.ofCommands (cs : List Command) : ScriptClass :=
  if (Script.keyLock? cs).isSome then .pubKey
  else if (Script.keyHashLock? cs).isSome then .pubKeyHash
  else if (Script.scriptHashLock? cs).isSome then .scriptHash
  else if (Script.multisigParams? cs).isSome then .multiSig
  else .nonStandard

namespace Script

/-- The class of a script. -/
def scriptClass (s : Script) : ScriptClass :=
  ScriptClass.ofCommands s.commands

/-- Data of the width of a hash, as a hash. -/
def asHash160 (c : ScriptClass) (data : Bytes) : Except ClassError (ScriptClass × Digest.Hash160) :=
  if h : data.length = 20 then .ok (c, ⟨data, h⟩) else .error (.paysToNoHash c)

/-- The class and the hash that a lock pays to; a key is hashed as it is written. Other locks pay
to no hash. -/
def paysTo (s : Script) : Except ClassError (ScriptClass × Digest.Hash160) :=
  match keyLock? s.commands, keyHashLock? s.commands, scriptHashLock? s.commands with
  | some key, _, _ => .ok (.pubKey, Digest.hash160 key)
  | none, some hash, _ => asHash160 .pubKeyHash hash
  | none, none, some hash => asHash160 .scriptHash hash
  | none, none, none => .error (.paysToNoHash s.scriptClass)

end Script

end SpendScript
