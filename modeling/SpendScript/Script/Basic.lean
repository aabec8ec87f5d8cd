import SpendScript.Digest.Hash
import SpendScript.Script.Push

/-!
# Scripts

A script is a list of commands, each an opcode or a data push. A script made by concatenation
remembers where its parts begin.

* `Command.decode`: the commands that a byte string spells. `Command.encode` is its inverse.
* `Script.append`: concatenation, with the offsets of the parts in `Script.segmentStarts`.
* `Script.text`: the assembly text.
-/

namespace SpendScript

/-- One step of a script. -/
inductive Command where
  | op (code : Opcode)
  | push (push : Push)
deriving DecidableEq

namespace Command

/-- The data of a push. -/
def data? : Command → Option Bytes
  | .op _ => none
  | .push p => some p.data

/-- A push in the shortest encoding. -/
def ofData (data : Bytes) : Except ScriptError Command :=
  .push <$> Push.ofBytes data

/-- The opcode's name, or the data in hexadecimal. -/
def text : Command → String
  | .op code => code.text
  | .push p => Text.Hex.encode p.data

/-! ## Bytes -/

def toBytes : Command → Bytes
  | .op code => [code]
  | .push p => p.toBytes

/-- The number of bytes of `toBytes`. -/
def byteLength : Command → Nat
  | .op _ => 1
  | .push p => p.byteLength

/-- The bytes of a list of commands. -/
def encode (cs : List Command) : Bytes :=
  cs.flatMap toBytes

/-- The number of bytes of `encode`. -/
def totalLength : List Command → Nat
  | [] => 0
  | c :: cs => c.byteLength + totalLength cs

/-- A push of `length` bytes from the start of `tail`, and what follows it. -/
def readData (encoding : PushEncoding) (length : Nat) (h : length ≤ encoding.maxLength)
    (tail : Bytes) : Except ScriptError (Command × Bytes) :=
  if length ≤ tail.length then
    .ok (.push ⟨tail.take length, encoding, Nat.le_trans (List.length_take_le _ _) h⟩,
      tail.drop length)
  else .error (.malformedPush length tail.length)

/-- The command whose first byte is `code`, and what follows it. -/
def read (code : Opcode) (tail : Bytes) : Except ScriptError (Command × Bytes) :=
  if h : 1 ≤ code ∧ code ≤ Opcode.lastDirect then
    readData .direct code.toNat (UInt8.le_iff_toNat_le.1 h.2) tail
  else if code = Opcode.pushData1 then
    match tail with
    | length :: tail => readData .pushData1 length.toNat (Nat.le_of_lt_succ length.toNat_lt) tail
    | [] => .error (.malformedPushSize [code])
  else if code = Opcode.pushData2 then
    match tail with
    | lo :: hi :: tail =>
      readData .pushData2 (lo.toNat + 256 * hi.toNat)
        (by have := lo.toNat_lt; have := hi.toNat_lt; simp only [PushEncoding.maxLength]; omega)
        tail
    | short => .error (.malformedPushSize (code :: short))
  else .ok (.op code, tail)

theorem readData_length {encoding : PushEncoding} {length : Nat} {h : length ≤ encoding.maxLength}
    {tail rest : Bytes} {c : Command} (hr : readData encoding length h tail = .ok (c, rest)) :
    rest.length ≤ tail.length := by
  unfold readData at hr
  split at hr
  · simp only [Except.ok.injEq, Prod.mk.injEq] at hr
    rw [← hr.2, List.length_drop]
    exact Nat.sub_le _ _
  · simp at hr

theorem read_length {code : Opcode} {tail rest : Bytes} {c : Command}
    (hr : read code tail = .ok (c, rest)) : rest.length ≤ tail.length := by
  unfold read at hr
  split at hr
  · exact readData_length hr
  split at hr
  · split at hr
    · exact Nat.le_succ_of_le (readData_length hr)
    · simp at hr
  split at hr
  · split at hr
    · exact Nat.le_succ_of_le (Nat.le_succ_of_le (readData_length hr))
    · simp at hr
  · simp only [Except.ok.injEq, Prod.mk.injEq] at hr
    exact hr.2 ▸ Nat.le_refl _

/-- The commands that a byte string spells. Every byte that begins no push is an opcode. -/
def decode (bs : Bytes) : Except ScriptError (List Command) :=
  match bs with
  | [] => .ok []
  | code :: tail =>
    match _h : read code tail with
    | .error e => .error e
    | .ok (c, rest) => do
      let cs ← decode rest
      return c :: cs
termination_by bs.length
decreasing_by
  exact Nat.lt_succ_of_le (read_length _h)

end Command

/-- Commands, and the places after the first command where a concatenated part begins. -/
structure Script where
  commands : List Command
  segmentStarts : List Nat
deriving DecidableEq

namespace Script

/-- A script of one part. -/
def ofCommands (cs : List Command) : Script :=
  ⟨cs, []⟩

def empty : Script :=
  ofCommands []

/-- Whether the commands are equal; the parts do not matter. -/
def sameCommands (s t : Script) : Bool :=
  decide (s.commands = t.commands)

/-- One script after the other. The second one begins a part, unless one of the two is empty. -/
def append (s t : Script) : Script :=
  let offset := s.commands.length
  let start := if offset = 0 ∨ t.commands = [] then [] else [offset]
  ⟨s.commands ++ t.commands, s.segmentStarts ++ start ++ t.segmentStarts.map (· + offset)⟩

instance : Append Script := ⟨append⟩

/-- The first `n` commands, with the parts that begin among them. -/
def take (n : Nat) (s : Script) : Script :=
  ⟨s.commands.take n, s.segmentStarts.filter (· < n)⟩

/-! ## Bytes and text -/

/-- The script that a byte string spells. -/
def ofBytes (bs : Bytes) : Except ScriptError Script :=
  ofCommands <$> Command.decode bs

def toBytes (s : Script) : Bytes :=
  Command.encode s.commands

/-- The number of bytes of `toBytes`. -/
def byteLength (s : Script) : Nat :=
  Command.totalLength s.commands

/-- The hash that a pay-to-script-hash lock commits to. -/
def hash160 (s : Script) : Digest.Hash160 :=
  Digest.hash160 s.toBytes

/-- The commands on one line, with blanks between them. -/
def text (s : Script) : String :=
  " ".intercalate (s.commands.map Command.text)

end Script

end SpendScript
