import SpendScript.Proofs.Engine.Counting
import SpendScript.Proofs.Limits.StackSize
import SpendScript.Proofs.Machine.Safety

/-!
# What every run keeps within its limits

No item grows longer than a push may be, and no more operations are counted than allowed, whatever
the commands are. The machine keeps these limits between two operations; an operation does not look
at the commands, so what the machine does without any stands for what the engine does with all.

Results:
* `State.Limited`: the items are short and the count is within its limit.
* `State.Limited.runPlain`: a command keeps this, `Engine.Trace.limited`: so does a run.
* `Engine.Layout.drop_position`: the position and the beginnings of parts lie in the commands.
* `Script.limitsKept`: all limits at every point of a run.
-/

namespace SpendScript

/-- No item is longer than a push may be, and no more operations are counted than allowed. -/
structure State.Limited (s : State) : Prop where
  operations_le : s.operations ≤ Limits.operations
  stack_small : ∀ item ∈ s.stack, Machine.Small item
  alt_small : ∀ item ∈ s.alt, Machine.Small item

namespace Engine

variable {env : Env} {s₀ s t : State} {past : List Executed} {place : Place} {c : Command}
  {rest : List Command} {data : Bytes} {scripts : List (List Command)} {i : ℕ}

/-! ## Without the commands -/

/-- The context without the commands. -/
def withoutCommands (k : Context) : Context :=
  { k with position := 0, pending := [], segmentStarts := [] }

/-- The state of the machine that holds the same as a state of the engine, but no commands. -/
def toMachine (s : State) : Machine.State :=
  ⟨s.stack.reverse, s.alt, s.conditions, s.operations, 0, [], [], s.cache, s.events⟩

theorem view_toMachine (s : State) : (toMachine s).view = s.mapContext withoutCommands := by
  unfold Machine.State.view toMachine
  rw [List.reverse_reverse]
  rfl

theorem valid_toMachine (h : s.Limited) : (toMachine s).Valid :=
  ⟨Int.natCast_nonneg _, Int.ofNat_le.mpr h.operations_le, Nat.le_refl 0,
    show 0 < Number.wordSize by decide,
    fun item hitem => h.stack_small item (List.mem_reverse.mp hitem), h.alt_small⟩

/-- A valid state of the machine that holds the same shows that the limits are kept. -/
theorem limited_of_valid {σ : Machine.State} (hσ : σ.Valid)
    (h : σ.view = s.mapContext withoutCommands) : s.Limited := by
  have hoperations : s.operations = σ.operations.toNat :=
    (congrArg State.operations h).symm
  have hstack : s.stack = σ.stack.reverse := (congrArg State.stack h).symm
  have halt : s.alt = σ.alt := (congrArg State.alt h).symm
  refine ⟨?_, fun item hitem => ?_, fun item hitem => ?_⟩
  · rw [hoperations]
    have := hσ.operations_le
    omega
  · rw [hstack, List.mem_reverse] at hitem
    exact hσ.stack_small item hitem
  · rw [halt] at hitem
    exact hσ.alt_small item hitem

theorem exists_view_of_matches {α : Type} {P : α → Prop} {a : α}
    {r : EStateM.Result (Stop ScriptError) Machine.State α}
    (h : Machine.Matches P r (.ok a t)) : ∃ σ : Machine.State, σ.Valid ∧ σ.view = t := by
  cases h with
  | ok _ hσ => exact ⟨_, hσ, rfl⟩

/-- A command keeps the limits. -/
theorem runPlain_limited (h : s.Limited) (hitems : s.items < 0x8000000000000000)
    (hrun : runPlain env c s = .ok () t) : t.Limited := by
  have hview := view_toMachine s
  have hmatches : Machine.Matches Machine.Any
      (Machine.runCommand env (pure ()) c (toMachine s)) (runPlain env c (toMachine s).view) :=
    Machine.runCommand_matches_runPlain (pure ()) c (valid_toMachine h) (by rwa [hview])
      (by rw [hview]; rfl)
  have hignores : Ignores withoutCommands (runPlain env c) :=
    runPlain_ignores (fun _ _ => rfl) (fun _ _ => rfl) c
  rw [hview, hignores s, hrun] at hmatches
  obtain ⟨σ, hσ, hview'⟩ := exists_view_of_matches hmatches
  exact limited_of_valid hσ hview'

theorem settle_limited (h : s.Limited) (hsettle : settle data s = .ok () t) : t.Limited := by
  obtain ⟨item, stack, cs, hs, -, -, rfl⟩ := settle_eq_ok.mp hsettle
  refine ⟨h.operations_le, fun item' hitem => h.stack_small item' ?_, h.alt_small⟩
  rw [hs]
  exact List.mem_cons_of_mem _ hitem

theorem fetched_limited (h : s.Limited) (rest : List Command) : (fetched s rest).Limited :=
  ⟨(fetched_operations_le s rest).trans h.operations_le, h.stack_small, h.alt_small⟩

/-- A run keeps the limits, since it never holds so many items that their number would not fit into
a word. -/
theorem Trace.limited (h : Trace env s₀ past place s) (hitems : s₀.items ≤ Limits.stackSize)
    (hs₀ : s₀.Limited) : s.Limited := by
  refine h.keeps (P := fun _ s => s.Limited) hs₀ ?_ ?_
  · intro past place s t c rest h _ hrun hlimited
    have hfew : s.items ≤ Limits.stackSize + 2 := (h.items_le hitems).trans place.capacity_le
    exact runPlain_limited (fetched_limited hlimited rest) (hfew.trans_lt (by decide)) hrun
  · intro past data s t _ hsettle hlimited
    exact settle_limited hlimited hsettle

/-! ## Within the commands -/

/-- What comes next are the commands of the script and of the revealed ones, from the position
on. -/
theorem Layout.drop_position (h : Layout s₀ past s scripts) :
    s.pending = (s₀.pending ++ scripts.flatten).drop s.position ∧
      s.position ≤ (s₀.pending ++ scripts.flatten).length := by
  rw [← h.commands_eq, h.position_eq, ← List.length_map (f := Executed.command)]
  exact ⟨List.drop_left.symm, by rw [List.length_append]; exact Nat.le_add_right _ _⟩

/-- Every part begins within the commands, or right behind them. -/
theorem Layout.le_of_mem_segmentStarts (h : Layout s₀ past s scripts)
    (hstarts : ∀ i ∈ s₀.segmentStarts, i ≤ s₀.pending.length) (hi : i ∈ s.segmentStarts) :
    i ≤ (s₀.pending ++ scripts.flatten).length := by
  rw [List.length_append]
  rw [h.segmentStarts_eq, List.mem_append] at hi
  rcases hi with hi | hi
  · exact Nat.le_add_right_of_le (hstarts i hi)
  · exact (le_of_mem_offsets hi).2

end Engine

/-! ## Whole runs -/

namespace Script

open Engine (Trace)

theorem limited_start (script : Script) (cache : SigCache) : (State.start script cache).Limited :=
  ⟨Nat.zero_le _, List.forall_mem_nil _, List.forall_mem_nil _⟩

/-- Before each command, in the list and in a lock, in the script and in a revealed one: no item on
either stack is longer than 520 bytes; at most 201 operations are counted in the current part, one
for each counted opcode, run or skipped, and one for each key of a multisignature check; the
position, and the positions where parts begin, lie within the commands of the script and of the
revealed scripts. -/
theorem limitsKept {script : Script} (hmade : script.Made) (env : Env) (cache : SigCache)
    (past : List Executed) (place : Place) (s : State)
    (h : Trace env (State.start script cache) past place s) :
    (∀ item ∈ s.stack, item.length ≤ 520) ∧ (∀ item ∈ s.alt, item.length ≤ 520) ∧
      s.operations ≤ 201 ∧
      (∀ c rest t, s.pending = c :: rest →
        Engine.runPlain env c (Engine.fetched s rest) = .ok () t →
        t.operations = (if s.position ∈ s.segmentStarts then 0 else s.operations) +
          (c.cost + Engine.keysCounted (Engine.fetched s rest) c)) ∧
      ∃ revealed : List (List Command),
        (∀ cs ∈ revealed, ∃ p, Command.push p ∈ past.map Executed.command ∧
          Command.decode p.data = .ok cs) ∧
        s.pending = (script.commands ++ revealed.flatten).drop s.position ∧
        s.position ≤ (script.commands ++ revealed.flatten).length ∧
        ∀ i ∈ s.segmentStarts, i ≤ (script.commands ++ revealed.flatten).length := by
  have hlimited := h.limited (Nat.zero_le _) (limited_start script cache)
  obtain ⟨revealed, hlayout⟩ := h.layout rfl
  obtain ⟨hpending, hposition⟩ := hlayout.drop_position
  refine ⟨hlimited.stack_small, hlimited.alt_small, hlimited.operations_le, ?_, revealed,
    hlayout.exists_push, hpending, hposition, fun i hi => ?_⟩
  · intro c rest t _ hrun
    exact Engine.runPlain_operations hrun
  · exact hlayout.le_of_mem_segmentStarts (fun i hi => (hmade.segmented i hi).le) hi

/-- An item and its copy, and then a check of no signatures against one key, as a part of its
own. -/
def unsignedCheck : Script :=
  ofCommands [.op Opcode.one, .op Opcode.dup] ++
    ofCommands [.op 0x00, .op 0x00, .op Opcode.one, .op Opcode.one, .op Opcode.checkMultiSig]

theorem exists_loop_unsignedCheck :
    ∃ s, Engine.loop ⟨1, Flags.default⟩ 7 (State.start unsignedCheck noCache) = .ok () s ∧
      s.stack = [[1], [1], [1]] ∧ s.operations = 2 ∧ s.position = 7 ∧ s.segmentStarts = [2] := by
  obtain ⟨s, hloop, hs⟩ := Engine.exists_of_endsWith
    (r := Engine.loop ⟨1, Flags.default⟩ 7 (State.start unsignedCheck noCache))
    (p := fun s => decide (s.stack = [[1], [1], [1]] ∧ s.operations = 2 ∧ s.position = 7 ∧
      s.segmentStarts = [2])) (by decide +kernel)
  exact ⟨s, hloop, of_decide_eq_true hs⟩

/-- At its end, the check and its key are counted, the copying in the first part no longer is. -/
theorem limitsKept_unsignedCheck : unsignedCheck.Made ∧
    ∃ past s, Trace ⟨1, Flags.default⟩ (State.start unsignedCheck noCache) past .list s ∧
      (s.stack = [[1], [1], [1]] ∧ s.operations = 2 ∧ s.position = 7 ∧ s.segmentStarts = [2]) ∧
      (∀ item ∈ s.stack, item.length ≤ 520) ∧ s.operations ≤ 201 ∧
      ∃ revealed : List (List Command),
        s.position ≤ (unsignedCheck.commands ++ revealed.flatten).length ∧
        ∀ i ∈ s.segmentStarts, i ≤ (unsignedCheck.commands ++ revealed.flatten).length := by
  have hmade : unsignedCheck.Made := .append (.ofCommands _) (.ofCommands _)
  obtain ⟨s, hloop, hs⟩ := exists_loop_unsignedCheck
  obtain ⟨past, htrace⟩ := Trace.start.exists_of_loop hloop
  obtain ⟨hstack, -, hoperations, -, revealed, -, -, hposition, hstarts⟩ :=
    limitsKept hmade _ _ past .list s htrace
  exact ⟨hmade, past, s, htrace, hs, hstack, hoperations, revealed, hposition, hstarts⟩

end Script

end SpendScript
