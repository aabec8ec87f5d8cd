import SpendScript.Proofs.Script.Lines
import SpendScript.Proofs.Script.Parts
import SpendScript.Proofs.Script.Shapes

/-!
# Scripts in pushes

The disassembly shows a push of a standard script together with that script, and would do the same
for the pushes in it. But a standard script pushes only hashes, which are too short to spell a
standard script, and keys, whose first byte spells a push of few bytes, with which no standard
script begins. So the writer comes back from every script in a push without going deeper.

* `Script.Standard`: the standard scripts, one case for each form.
* `Script.Writes`: the writer without a bound on its depth, as a relation.
* `Line.marker?`: the lines around a script in a push.

Results:
* `Script.nested?_eq_none_of_mem`: a push in an expanded script is not expanded.
* `Script.writes_lines`, `Script.Writes.eq_lines`: the writer ends, and what it writes.
* `Script.markers_blocks`: the markers come in pairs.
* `Script.expandsOnce`: what is written, that the writer goes one level deep, and the markers read
  from the text.
-/

namespace SpendScript

/-! ## Standard scripts -/

namespace Script

variable {cs ds ks : List Command} {c : Command} {p q : Push} {data : Bytes}

/-- A standard script. -/
inductive Standard : List Command → Prop
  | key {p : Push} (h : isKeyShaped p.data = true) : Standard [.push p, .op Opcode.checkSig]
  | keyHash {p : Push} (h : p.data.length = 20) :
      Standard [.op Opcode.dup, .op Opcode.hash160, .push p, .op Opcode.equalVerify,
        .op Opcode.checkSig]
  | scriptHash {p : Push} (h : p.data.length = 20) :
      Standard [.op Opcode.hash160, .push p, .op Opcode.equal]
  | multisig {required count : Opcode} {ks : List Command} (hpos : 1 ≤ ks.length)
      (hks : ∀ c ∈ ks, pushesKey c = true) :
      Standard (.op required :: (ks ++ [.op count]) ++ [.op Opcode.checkMultiSig])

theorem standard_of_class (h : ScriptClass.ofCommands cs ≠ .nonStandard) : Standard cs := by
  unfold ScriptClass.ofCommands at h
  split_ifs at h with hkey hkeyHash hscriptHash hmultisig
  · obtain ⟨key, hkey⟩ := Option.isSome_iff_exists.mp hkey
    obtain ⟨p, rfl, hshape, -⟩ := keyLock?_eq_some.mp hkey
    exact .key hshape
  · obtain ⟨hash, hhash⟩ := Option.isSome_iff_exists.mp hkeyHash
    obtain ⟨p, rfl, hlength, -⟩ := keyHashLock?_eq_some.mp hhash
    exact .keyHash hlength
  · obtain ⟨hash, hhash⟩ := Option.isSome_iff_exists.mp hscriptHash
    obtain ⟨p, rfl, hlength, -⟩ := scriptHashLock?_eq_some.mp hhash
    exact .scriptHash hlength
  · obtain ⟨⟨m, n⟩, hparams⟩ := Option.isSome_iff_exists.mp hmultisig
    obtain ⟨required, count, ks, rfl, -, -, hks, hlength, hpos, hle, -⟩ :=
      multisigParams?_eq_some.mp hparams
    exact .multisig (by omega) hks
  · exact absurd rfl h

theorem length_lt_of_mem (h : .push p ∈ cs) : p.data.length < Command.totalLength cs := by
  have hheader : 1 ≤ p.encoding.headerLength := by cases p.encoding <;> decide
  have hpush : (Command.push p).byteLength = p.encoding.headerLength + p.data.length := rfl
  obtain ⟨front, back, rfl⟩ := List.append_of_mem h
  rw [Command.totalLength_append, Command.totalLength]
  omega

namespace Standard

/-- In every encoding of its pushes, a standard script is longer than a hash. -/
theorem lt_totalLength (h : Standard cs) : 20 < Command.totalLength cs := by
  cases h with
  | @key p h =>
    have hlength := length_of_isKeyShaped h
    have hlt := length_lt_of_mem (p := p) (List.mem_cons_self (l := [.op Opcode.checkSig]))
    omega
  | @keyHash p h =>
    rw [← h]
    exact length_lt_of_mem (by simp)
  | @scriptHash p h =>
    rw [← h]
    exact length_lt_of_mem (by simp)
  | @multisig required count ks hpos hks =>
    obtain ⟨c, hc⟩ := List.exists_mem_of_length_pos hpos
    obtain ⟨p, rfl, hshape⟩ := pushesKey_iff.mp (hks c hc)
    have hlength := length_of_isKeyShaped hshape
    have hlt : p.data.length < Command.totalLength
        (.op required :: (ks ++ [.op count]) ++ [.op Opcode.checkMultiSig]) :=
      length_lt_of_mem (by simp [hc])
    omega

/-- What a standard script pushes. -/
theorem data_cases (h : Standard cs) (hp : .push p ∈ cs) :
    p.data.length = 20 ∨ isKeyShaped p.data = true := by
  cases h with
  | key h =>
    obtain rfl : p = _ := by simpa using hp
    exact Or.inr h
  | keyHash h =>
    obtain rfl : p = _ := by simpa using hp
    exact Or.inl h
  | scriptHash h =>
    obtain rfl : p = _ := by simpa using hp
    exact Or.inl h
  | multisig _ hks =>
    obtain ⟨q, hq, hshape⟩ := pushesKey_iff.mp (hks (.push p) (by simpa using hp))
    cases hq
    exact Or.inr hshape

/-- If a standard script begins with a push, it pushes a key. -/
theorem length_of_cons (h : Standard (.push p :: cs)) : 33 ≤ p.data.length := by
  cases h with
  | key h =>
    have hlength := length_of_isKeyShaped h
    omega

end Standard

/-! ## Pushes in standard scripts -/

theorem nested?_eq_some : nested? data = some cs ↔
    Command.decode data = .ok cs ∧ ScriptClass.ofCommands cs ≠ .nonStandard := by
  unfold nested?
  cases Command.decode data with
  | error e => exact iff_of_false nofun (fun h => by cases h.1)
  | ok ds =>
    dsimp only
    split_ifs with hclass
    · refine iff_of_false nofun ?_
      rintro ⟨hds, hcs⟩
      cases hds
      exact hcs hclass
    · rw [Option.some.injEq, Except.ok.injEq, eq_comm, iff_self_and]
      rintro rfl
      exact hclass

theorem nested?_eq_none_of_length (h : data.length = 20) : nested? data = none := by
  rw [Option.eq_none_iff_forall_ne_some]
  intro cs hcs
  obtain ⟨hdecode, hclass⟩ := nested?_eq_some.mp hcs
  have htotal := Command.totalLength_of_decode hdecode
  have hlt := (standard_of_class hclass).lt_totalLength
  omega

/-- Bytes that begin like a key begin with a push of few bytes. -/
theorem exists_push_of_isKeyShaped (h : isKeyShaped data = true)
    (hdecode : Command.decode data = .ok cs) :
    ∃ (p : Push) (rest : List Command), cs = .push p :: rest ∧ p.data.length ≤ 4 := by
  cases data with
  | nil => cases h
  | cons tag body =>
    obtain ⟨c, tail, rest, hread, -, rfl⟩ := Command.exists_of_decode_cons hdecode
    have htag : tag = 0x02 ∨ tag = 0x03 ∨ tag = 0x04 := by
      simp only [isKeyShaped, Bool.or_eq_true, Bool.and_eq_true, beq_iff_eq] at h
      tauto
    have hdirect : 1 ≤ tag ∧ tag ≤ Opcode.lastDirect := by
      rcases htag with rfl | rfl | rfl <;> decide
    have hsmall : tag.toNat ≤ 4 := by
      rcases htag with rfl | rfl | rfl <;> decide
    unfold Command.read at hread
    rw [dif_pos hdirect] at hread
    obtain ⟨bytes, hle, hlength, -, rfl⟩ := Command.exists_of_readData hread
    exact ⟨_, rest, rfl, hlength ▸ hsmall⟩

theorem nested?_eq_none_of_isKeyShaped (h : isKeyShaped data = true) : nested? data = none := by
  rw [Option.eq_none_iff_forall_ne_some]
  intro cs hcs
  obtain ⟨hdecode, hclass⟩ := nested?_eq_some.mp hcs
  obtain ⟨p, rest, rfl, hle⟩ := exists_push_of_isKeyShaped h hdecode
  have hlength := (standard_of_class hclass).length_of_cons
  omega

/-- A push in an expanded script is not expanded. -/
theorem nested?_eq_none_of_mem (h : nested? data = some cs) (hq : .push q ∈ cs) :
    nested? q.data = none := by
  rcases (standard_of_class (nested?_eq_some.mp h).2).data_cases hq with hlength | hshape
  · exact nested?_eq_none_of_length hlength
  · exact nested?_eq_none_of_isKeyShaped hshape

theorem expanded?_eq_none_of_mem (h : nested? data = some cs) : ∀ c ∈ cs, expanded? c = none := by
  intro c hc
  cases c with
  | op code => rfl
  | push q => exact nested?_eq_none_of_mem h hc

/-! ## The writer -/

/-- The writer, without a bound on its depth: after the commands `before`, at `level`, it writes the
text of the commands, and calls itself for scripts in pushes, in calls at most `depth` deep. -/
inductive Writes : (depth margin : ℕ) → (before : List Command) → (level : ℕ) → List Command →
    String → Prop
  | done {depth margin level : ℕ} {before : List Command} : Writes depth margin before level [] ""
  | op {depth margin level : ℕ} {before rest : List Command} {code : Opcode} {text : String}
      (hrest : Writes depth margin (.op code :: before)
        (levelAfter (levelOf level (.op code)) (.op code)) rest text) :
      Writes depth margin before level (.op code :: rest)
        (indent margin (levelOf level (.op code)) ++ opLine before code ++ "\n" ++ text)
  | push {depth margin level : ℕ} {before rest : List Command} {p : Push} {text : String}
      (hp : nested? p.data = none)
      (hrest : Writes depth margin (.push p :: before)
        (levelAfter (levelOf level (.push p)) (.push p)) rest text) :
      Writes depth margin before level (.push p :: rest)
        (indent margin (levelOf level (.push p)) ++ pushText p ++ "\n" ++ text)
  | script {depth margin level : ℕ} {before rest cs : List Command} {p : Push}
      {inner text : String} (hp : nested? p.data = some cs)
      (hinner : Writes depth (margin + 2 * levelOf level (.push p) + 4) [] 0 cs inner)
      (hrest : Writes (depth + 1) margin (.push p :: before)
        (levelAfter (levelOf level (.push p)) (.push p)) rest text) :
      Writes (depth + 1) margin before level (.push p :: rest)
        (indent margin (levelOf level (.push p)) ++
          (pushText p ++ "\n" ++ indent (margin + 2 * levelOf level (.push p)) 0 ++
            "    -- Begin Redeem Script --\n" ++ inner ++
            indent (margin + 2 * levelOf level (.push p)) 0 ++ "    -- End Redeem Script --") ++
          "\n" ++ text)

variable {depth bound margin level : ℕ} {before : List Command} {text : String}
  {expand : ℕ → List Command → String}

/-- Any bound on the depth that the calls keep to gives what the writer writes. -/
theorem Writes.eq_lines (h : Writes depth margin before level cs text) (hbound : depth ≤ bound) :
    text = lines (viewWithin bound) margin before level cs := by
  induction h generalizing bound with
  | done => rfl
  | op hrest ih =>
    rw [ih hbound]
    rfl
  | push hp hrest ih =>
    rw [ih hbound]
    simp only [lines, pushLines, hp]
  | script hp hinner hrest ihinner ihrest =>
    obtain ⟨bound, rfl⟩ := Nat.exists_eq_add_of_le' (Nat.le_of_add_left_le hbound)
    rw [ihinner (Nat.le_of_succ_le_succ hbound), ihrest hbound]
    simp only [lines, pushLines, hp, viewWithin]

/-- If nothing is expanded, the writer does not call itself. -/
theorem writes_lines_of_forall (h : ∀ c ∈ cs, expanded? c = none) :
    Writes depth margin before level cs (lines expand margin before level cs) := by
  induction cs generalizing before level with
  | nil => exact .done
  | cons c cs ih =>
    obtain ⟨hc, hcs⟩ := List.forall_mem_cons.mp h
    cases c with
    | op code => exact .op (ih hcs)
    | push p =>
      have hp : nested? p.data = none := hc
      simp only [lines, pushLines, hp]
      exact .push hp (ih hcs)

/-- The writer ends, whatever the script. The calls for scripts in pushes call nothing: what stands
for deeper calls does not matter. -/
theorem writes_lines (deeper : ℕ → List Command → String) :
    Writes 1 margin before level cs
      (lines (fun width ds => lines deeper width [] 0 ds) margin before level cs) := by
  induction cs generalizing before level with
  | nil => exact .done
  | cons c cs ih =>
    cases c with
    | op code => exact .op ih
    | push p =>
      cases hp : nested? p.data with
      | none =>
        simp only [lines, pushLines, hp]
        exact .push hp ih
      | some ds =>
        simp only [lines, pushLines, hp]
        exact .script hp (writes_lines_of_forall (expanded?_eq_none_of_mem hp)) ih

/-- The bound of the disassembly is large enough. -/
theorem writes_view (s : Script) : Writes 1 0 [] 0 s.commands s.view := by
  have hview : s.view = lines (viewWithin s.byteLength) 0 [] 0 s.commands := rfl
  rw [hview]
  cases hlength : s.byteLength with
  | zero =>
    have hle := Command.length_le_totalLength s.commands
    have htotal : Command.totalLength s.commands = 0 := hlength
    have hnil : s.commands = [] := List.eq_nil_of_length_eq_zero (by omega)
    rw [hnil]
    exact .done
  | succ bound => exact writes_lines (viewWithin bound)

/-! ## Markers -/

end Script

/-- The beginning or the end of a script in a push. -/
inductive Marker where
  | opens
  | closes
deriving DecidableEq

/-- The marker that a line is. -/
def Line.marker? (l : Line) : Option Marker :=
  if l.text = Script.opening then some .opens
  else if l.text = Script.closing then some .closes
  else none

namespace Script

variable {expand : ℕ → List Command → List Line} {margin level width : ℕ}
  {before cs : List Command} {c : Command}

/-- The line of a command is no marker. -/
theorem marker?_firstText : Line.marker? ⟨width, firstText before c⟩ = none := by
  have hhead := (namesCommand_firstText before c).head_eq
  have hopening : firstText before c ≠ opening := by
    intro h
    rw [h] at hhead
    exact absurd hhead (by decide)
  have hclosing : firstText before c ≠ closing := by
    intro h
    rw [h] at hhead
    exact absurd hhead (by decide)
  rw [Line.marker?, if_neg hopening, if_neg hclosing]

/-- Whether a command is a push of a standard script. -/
def expands (c : Command) : Bool :=
  (expanded? c).isSome

theorem markers_block
    (h : ∀ width ds, (∀ d ∈ ds, expanded? d = none) →
      (expand width ds).filterMap Line.marker? = []) :
    (block expand width before c).filterMap Line.marker? =
      if expands c then [.opens, .closes] else [] := by
  rw [block, List.filterMap_cons_none marker?_firstText, expands]
  cases hc : expanded? c with
  | none => rfl
  | some ds =>
    have hds : ∀ d ∈ ds, expanded? d = none := by
      cases c with
      | op code => cases hc
      | push p => exact expanded?_eq_none_of_mem hc
    have hopens : Line.marker? ⟨width + 4, opening⟩ = some .opens := if_pos rfl
    have hcloses : Line.marker? ⟨width + 4, closing⟩ = some .closes := by
      rw [Line.marker?, if_neg (show closing ≠ opening by decide), if_pos rfl]
    simp only [List.cons_append, List.filterMap_cons_some hopens, List.filterMap_append, h _ _ hds,
      List.filterMap_cons_some hcloses, List.filterMap_nil, List.nil_append, Option.isSome_some,
      if_true]

/-- The markers come in pairs, one for each command that is expanded. -/
theorem markers_blocksFrom
    (h : ∀ width ds, (∀ d ∈ ds, expanded? d = none) →
      (expand width ds).filterMap Line.marker? = []) :
    (blocksFrom expand margin before level cs).flatten.filterMap Line.marker? =
      (List.replicate (cs.countP expands) [.opens, .closes]).flatten := by
  induction cs generalizing before level with
  | nil => rfl
  | cons c cs ih =>
    rw [blocksFrom, List.flatten_cons, List.filterMap_append, markers_block h, ih]
    cases hc : expands c with
    | false =>
      rw [List.countP_cons_of_neg (by rw [hc]; exact Bool.false_ne_true)]
      rfl
    | true =>
      rw [List.countP_cons_of_pos hc, List.replicate_succ, List.flatten_cons, if_pos rfl]

theorem markers_linesWithin (depth : ℕ) : ∀ width ds, (∀ d ∈ ds, expanded? d = none) →
    (linesWithin depth width ds).filterMap Line.marker? = [] := by
  induction depth with
  | zero => exact fun _ _ _ => rfl
  | succ depth ih =>
    intro width ds hds
    have hnone : ds.countP expands = 0 := by
      rw [List.countP_eq_zero]
      intro d hd
      rw [expands, hds d hd]
      exact Bool.false_ne_true
    rw [linesWithin, markers_blocksFrom ih, hnone]
    rfl

theorem markers_blocks (s : Script) : s.blocks.flatten.filterMap Line.marker? =
    (List.replicate (s.commands.countP expands) [.opens, .closes]).flatten :=
  markers_blocksFrom (markers_linesWithin s.byteLength)

/-- Scripts in pushes are shown one level deep. The writer, which has no bound on its depth, ends
for every script: it calls itself for scripts in pushes, and those calls call nothing; the
disassembly is what it writes. A push in a script that is expanded is not expanded. So the markers
in the text come in pairs, a beginning and its end, one pair for each push that is expanded. -/
theorem expandsOnce (s : Script) :
    Writes 1 0 [] 0 s.commands s.view ∧
      (∀ depth text, Writes depth 0 [] 0 s.commands text → text = s.view) ∧
      (∀ (data : Bytes) (cs : List Command) (q : Push), nested? data = some cs → .push q ∈ cs →
        nested? q.data = none) ∧
      (Line.readAll s.view).filterMap Line.marker? =
        (List.replicate (s.commands.countP expands) [.opens, .closes]).flatten := by
  refine ⟨writes_view s, fun depth text h => ?_, fun _ _ _ => nested?_eq_none_of_mem, ?_⟩
  · rw [h.eq_lines (Nat.le_add_right depth 1), (writes_view s).eq_lines (Nat.le_add_left 1 depth)]
  · rw [readAll_view, markers_blocks]

end Script

end SpendScript
