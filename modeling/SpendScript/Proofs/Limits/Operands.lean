import Mathlib.Algebra.BigOperators.Group.List.Basic
import SpendScript.Proofs.Engine.Counting
import SpendScript.Proofs.Engine.Segments

/-!
# Limits of concatenated scripts

The limits on sizes and operations hold for each operand of a concatenation on its own, in whatever
order the concatenations are made. To what a script does, its operands make no other difference.

Results:
* `Concatenation`: operands and how they are put together; `Concatenation.parts_script`,
  `Concatenation.starts_script`: they are the parts of the script.
* `Concatenation.limitedPerOperand`: what is limited, and what is not.
-/

namespace SpendScript

/-- Scripts without inner parts, put together by concatenation. -/
inductive Concatenation where
  | operand (cs : List Command) (hne : cs ≠ [])
  | join (left right : Concatenation)

namespace Concatenation

/-- The script that is made. -/
def script : Concatenation → Script
  | .operand cs _ => .ofCommands cs
  | .join left right => left.script ++ right.script

/-- What it is made of, from the first to the last. -/
def operands : Concatenation → List (List Command)
  | .operand cs _ => [cs]
  | .join left right => left.operands ++ right.operands

/-! ## The parts of the script -/

theorem commands_script (t : Concatenation) : t.script.commands = t.operands.flatten := by
  induction t with
  | operand cs hne => exact List.flatten_singleton.symm
  | join left right ihl ihr =>
    show left.script.commands ++ right.script.commands = _
    rw [ihl, ihr, operands, List.flatten_append]

theorem commands_ne_nil (t : Concatenation) : t.script.commands ≠ [] := by
  induction t with
  | operand cs hne => exact hne
  | join left right ihl _ => exact List.append_ne_nil_of_left_ne_nil ihl _

theorem operands_ne_nil (t : Concatenation) : t.operands ≠ [] := by
  intro hnil
  refine t.commands_ne_nil ?_
  rw [commands_script, hnil]
  rfl

theorem segmented_script (t : Concatenation) : t.script.Segmented := by
  induction t with
  | operand cs hne => exact Script.segmented_ofCommands cs
  | join left right ihl ihr => exact ihl.append ihr

/-- The operands are the parts. -/
theorem parts_script (t : Concatenation) : t.script.parts = t.operands := by
  induction t with
  | operand cs hne => exact Engine.parts_eq_singleton hne fun _ _ _ => List.not_mem_nil
  | join left right ihl ihr =>
    rw [script, Script.parts_append left.segmented_script, ihl, ihr, operands]

theorem offsets_add {α : Type} (i j : ℕ) (parts : List (List α)) :
    Engine.offsets (i + j) parts = (Engine.offsets i parts).map (· + j) := by
  induction parts generalizing i with
  | nil => rfl
  | cons part parts ih =>
    rw [Engine.offsets, Nat.add_right_comm, ih, Engine.offsets, List.map_cons]

/-- Each operand after the first one begins a part. -/
theorem starts_script (t : Concatenation) :
    0 :: t.script.segmentStarts = Engine.offsets 0 t.operands := by
  induction t with
  | operand cs hne => rfl
  | join left right ihl ihr =>
    have hstarts : (left.script ++ right.script).segmentStarts =
        left.script.segmentStarts ++ [left.script.commands.length] ++
          right.script.segmentStarts.map (· + left.script.commands.length) := by
      show _ ++ (if _ then _ else _) ++ _ = _
      rw [if_neg]
      rintro (h | h)
      · exact left.commands_ne_nil (List.length_eq_zero_iff.mp h)
      · exact right.commands_ne_nil h
    rw [script, hstarts, operands, Engine.offsets_append, ← ihl, ← commands_script, offsets_add,
      ← ihr, List.append_assoc, List.map_cons, Nat.zero_add]
    rfl

end Concatenation

/-! ## The limits -/

/-- The run was stopped by a limit that holds for each part on its own. -/
def Outcome.PartLimited (o : Outcome) : Prop :=
  (∃ size, o.result = .error (.error (.scriptTooBig size))) ∨
    o.result = .error (.error .tooManyOperations)

namespace Concatenation

variable {cs : List Command} {before after : List (List Command)}

/-- The sizes are accepted if every operand is short enough. -/
theorem checkScriptSizes_iff (t : Concatenation) (cache : SigCache) :
    Engine.checkScriptSizes (State.start t.script cache) = .ok () (State.start t.script cache) ↔
      ∀ operand ∈ t.operands, Command.totalLength operand ≤ Limits.scriptSize := by
  rw [← parts_script, Engine.checkScriptSizes_start]
  show _ ↔ t.script.SizesAllowed
  rw [← Script.oversize?_eq_none]
  cases t.script.oversize? <;> simp

/-- The first operand that is too long is reported. -/
theorem execute_of_tooBig {t : Concatenation} (env : Env) (cache : SigCache)
    (hoperands : t.operands = before ++ cs :: after)
    (hbefore : ∀ operand ∈ before, Command.totalLength operand ≤ Limits.scriptSize)
    (hcs : Limits.scriptSize < Command.totalLength cs) :
    (t.script.execute env cache).result =
      .error (.error (.scriptTooBig (Command.totalLength cs))) := by
  have hoversize : t.script.oversize? = some (Command.totalLength cs) := by
    rw [Script.oversize?, parts_script, hoperands, List.map_append, List.find?_append,
      List.find?_eq_none.mpr, Option.none_or, List.map_cons]
    · exact List.find?_cons_of_pos (by exact decide_eq_true hcs)
    · simpa using hbefore
  rw [Script.execute, Engine.run_start, if_neg t.commands_ne_nil, hoversize]

/-- The limits hold for each operand on its own, and its operands make no other difference to what a
script does. The sizes are accepted just if no operand is too long, and the first one that is too
long is reported. At any point of a run, the count of operations is the number of the counted
opcodes that have been passed in the operand, or in the revealed script, of the last command,
together with the keys of the multisignature checks that have been run in it. Scripts with the same
commands end alike, wherever their parts begin, unless one of these limits stops one of them; and
where more parts begin, a script that is valid stays valid. -/
theorem limitedPerOperand :
    (∀ (t : Concatenation) (env : Env) (cache : SigCache),
      (Engine.checkScriptSizes (State.start t.script cache) =
          .ok () (State.start t.script cache) ↔
        ∀ operand ∈ t.operands, Command.totalLength operand ≤ Limits.scriptSize) ∧
      (∀ before operand after, t.operands = before ++ operand :: after →
        (∀ other ∈ before, Command.totalLength other ≤ Limits.scriptSize) →
        Limits.scriptSize < Command.totalLength operand →
        (t.script.execute env cache).result =
          .error (.error (.scriptTooBig (Command.totalLength operand)))) ∧
      ∀ past place s, Engine.Trace env (State.start t.script cache) past place s →
        ∃ scripts : List (List Command),
          (∀ script ∈ scripts, ∃ p, Command.push p ∈ past.map Executed.command ∧
            Command.decode p.data = .ok script) ∧
          ∃ st : Standing (t.operands ++ scripts) past s,
            s.operations = (st.current.map fun e => e.command.cost).sum +
              (st.current.map fun e => Engine.keysCounted e.state e.command).sum) ∧
    ∀ (s s' : Script) (env : Env) (cache : SigCache), s'.commands = s.commands →
      (¬(s.execute env cache).PartLimited → ¬(s'.execute env cache).PartLimited →
        (s'.execute env cache).observed = (s.execute env cache).observed) ∧
      (s.segmentStarts ⊆ s'.segmentStarts → (s.execute env cache).result = .ok () →
        (s'.execute env cache).result = .ok ()) := by
  refine ⟨fun t env cache => ⟨t.checkScriptSizes_iff cache, fun before operand after => ?_,
    fun past place s htrace => ?_⟩, fun s s' env cache hcommands => ⟨fun hs hs' => ?_,
      fun hstarts hok => ?_⟩⟩
  · exact execute_of_tooBig env cache
  · obtain ⟨scripts, hlayout, st, hcount⟩ :=
      htrace.counted rfl rfl t.operands_ne_nil t.commands_script t.starts_script
    refine ⟨scripts, hlayout.exists_push, st, hcount.trans ?_⟩
    exact List.sum_map_add
  · obtain ⟨hsize, hcount⟩ := not_or.mp hs
    obtain ⟨hsize', hcount'⟩ := not_or.mp hs'
    exact Script.observed_of_sameCommands hcommands
      (Script.sizesAllowed_of_result (not_exists.mp hsize))
      (Script.sizesAllowed_of_result (not_exists.mp hsize')) hcount hcount'
  · have hfits : ∀ size, (s.execute env cache).result ≠ .error (.error (.scriptTooBig size)) := by
      intro size h
      rw [hok] at h
      cases h
    have hsizes := Script.sizesAllowed_of_result hfits
    rcases Script.execute_coarser env cache hcommands.symm hstarts hsizes with h | h
    · exact (congrArg Prod.fst h).trans hok
    · rw [hok] at h
      cases h

/-- A one and then an operation that does nothing, as two operands. -/
def oneNop : Concatenation :=
  .join (.operand [.op Opcode.one] (List.cons_ne_nil _ _))
    (.operand [.op 0x61] (List.cons_ne_nil _ _))

/-- A push of more bytes than an operand may have. -/
def longPush : List Command :=
  [.push ⟨List.replicate 10001 0, .pushData2, by rw [List.length_replicate]; decide⟩]

theorem totalLength_longPush : Command.totalLength longPush = 10004 := by
  simp only [longPush, Command.totalLength, Command.byteLength, Push.byteLength,
    PushEncoding.headerLength, List.length_replicate]

/-- The long operand is reported; the one counted operation is the second operand's own; and the
script is valid with one part and with two. -/
theorem limitedPerOperand_oneNop :
    ((Concatenation.join (.operand [.op Opcode.one] (List.cons_ne_nil _ _))
        (.operand longPush (List.cons_ne_nil _ _))).script.execute ⟨1, Flags.default⟩
          Script.noCache).result = .error (.error (.scriptTooBig 10004)) ∧
      (∃ past s, Engine.Trace ⟨1, Flags.default⟩ (State.start oneNop.script Script.noCache) past
          .list s ∧ s.operations = 1 ∧
        ∃ scripts : List (List Command), ∃ st : Standing (oneNop.operands ++ scripts) past s,
          s.operations = (st.current.map fun e => e.command.cost).sum +
            (st.current.map fun e => Engine.keysCounted e.state e.command).sum) ∧
      (oneNop.script.execute ⟨1, Flags.default⟩ Script.noCache).observed =
        ((Script.ofCommands oneNop.script.commands).execute ⟨1, Flags.default⟩
          Script.noCache).observed ∧
      (oneNop.script.execute ⟨1, Flags.default⟩ Script.noCache).result = .ok () := by
  have hok : ((Script.ofCommands oneNop.script.commands).execute ⟨1, Flags.default⟩
      Script.noCache).result = .ok () := by decide +kernel
  have hok' : (oneNop.script.execute ⟨1, Flags.default⟩ Script.noCache).result = .ok () :=
    (limitedPerOperand.2 (.ofCommands oneNop.script.commands) oneNop.script _ _ rfl).2
      (List.nil_subset _) hok
  have hunlimited : ∀ {o : Outcome}, o.result = .ok () → ¬o.PartLimited := by
    rintro o ho (⟨size, h⟩ | h) <;> rw [ho] at h <;> cases h
  have hloop : Engine.loop ⟨1, Flags.default⟩ 2 (State.start oneNop.script Script.noCache) =
      .ok () _ := rfl
  obtain ⟨past, htrace⟩ := Engine.Trace.start.exists_of_loop hloop
  obtain ⟨scripts, -, hcount⟩ := (limitedPerOperand.1 oneNop _ _).2.2 _ _ _ htrace
  refine ⟨?_, ⟨past, _, htrace, rfl, scripts, hcount⟩, ?_, hok'⟩
  · rw [← totalLength_longPush]
    refine (limitedPerOperand.1 _ _ _).2.1 [[.op Opcode.one]] longPush [] rfl ?_ ?_
    · decide
    · rw [totalLength_longPush]
      decide
  · exact (limitedPerOperand.2 (.ofCommands oneNop.script.commands) oneNop.script _ _ rfl).1
      (hunlimited hok) (hunlimited hok')

end Concatenation

end SpendScript
