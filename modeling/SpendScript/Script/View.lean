import SpendScript.Script.Class

/-!
# Disassembly

A script with one command on a line. Branches are indented, a push of a standard script is
followed by the disassembly of that script, and a multisignature check tells how many signatures
it asks for.

* `Script.view`: the text.
* `Script.multisigBefore?`: what a multisignature check reads, told from the commands before it.
-/

namespace SpendScript.Script

/-- The opcode of a command. -/
def opcode? : Command → Option Opcode
  | .op code => some code
  | .push _ => none

/-- How many signatures by how many keys a check asks for if these commands, the latest first,
come before it. -/
def multisigBefore? : List Command → Option (Nat × Nat)
  | .op count :: rest => do
    let n ← count.smallInt?
    if rest.length < n then none
    else
      match rest.drop n with
      | .op required :: _ => do
        let m ← required.smallInt?
        if (rest.take n).all (·.data?.isSome) then some (m, n) else none
      | _ => none
  | _ => none

/-! ## Indentation -/

/-- The level of a command that follows commands at `level`. -/
def levelOf (level : Nat) (c : Command) : Nat :=
  if opcode? c = some Opcode.endIf ∨ opcode? c = some Opcode.otherwise then level - 1 else level

/-- The level after a command that stands at `level`. -/
def levelAfter (level : Nat) (c : Command) : Nat :=
  if opcode? c = some Opcode.ifTrue ∨ opcode? c = some Opcode.ifFalse ∨
      opcode? c = some Opcode.otherwise then level + 1
  else level

/-- Blanks in front of a command at `level`. -/
def indent (margin level : Nat) : String :=
  String.ofList (List.replicate (margin + 2 * level) ' ')

/-! ## Lines -/

/-- A push: its encoding, its length and its data. -/
def pushText (p : Push) : String :=
  let body := s!"{p.data.length} {Text.Hex.encode p.data}"
  match p.encoding with
  | .direct => "OP_PUSHBYTES_" ++ body
  | .pushData1 => "OP_PUSHDATA1 " ++ body
  | .pushData2 => "OP_PUSHDATA2 " ++ body

/-- The standard script that data spells. -/
def nested? (data : Bytes) : Option (List Command) :=
  match Command.decode data with
  | .ok cs => if ScriptClass.ofCommands cs = .nonStandard then none else some cs
  | .error _ => none

/-- The lines of a push; `expand` writes a script at a margin. -/
def pushLines (expand : Nat → List Command → String) (width : Nat) (p : Push) : String :=
  match nested? p.data with
  | none => pushText p
  | some cs =>
    let blanks := indent width 0
    pushText p ++ "\n" ++ blanks ++ "    -- Begin Redeem Script --\n" ++ expand (width + 4) cs ++
      blanks ++ "    -- End Redeem Script --"

/-- The line of an opcode after the commands `before`, the latest first. -/
def opLine (before : List Command) (code : Opcode) : String :=
  if code = Opcode.checkMultiSig ∨ code = Opcode.checkMultiSigVerify then
    match multisigBefore? before with
    | some (m, n) => code.text ++ s!" // {m} of {n}"
    | none => code.text
  else code.text

/-- The lines of commands that follow `before`, the latest first, at `level`. -/
def lines (expand : Nat → List Command → String) (margin : Nat) :
    (before : List Command) → (level : Nat) → List Command → String
  | _, _, [] => ""
  | before, level, c :: rest =>
    let here := levelOf level c
    let line := match c with
      | .op code => opLine before code
      | .push p => pushLines expand (margin + 2 * here) p
    indent margin here ++ line ++ "\n" ++
      lines expand margin (c :: before) (levelAfter here c) rest

/-- The disassembly at a margin, with scripts in pushes down to a given depth. -/
def viewWithin : (depth margin : Nat) → List Command → String
  | 0, _, _ => ""
  | depth + 1, margin, cs => lines (viewWithin depth) margin [] 0 cs

/-- The disassembly. A script in a push is shorter than the script that pushes it, so its length
bounds the depth. -/
def view (s : Script) : String :=
  viewWithin (s.byteLength + 1) 0 s.commands

end SpendScript.Script
