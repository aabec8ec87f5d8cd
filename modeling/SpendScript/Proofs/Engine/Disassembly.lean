import SpendScript.Proofs.Engine.Counting
import SpendScript.Proofs.Engine.Success
import SpendScript.Proofs.Script.Annotations
import SpendScript.Proofs.Script.Number

/-!
# The disassembly and the run

The disassembly counts levels of indentation and tells what multisignature checks read, from the
commands alone. A run that comes to a command agrees with it.

* `Engine.takeKeys`, `Engine.matchCounted`: the parts of a multisignature check between and after
  the two counts that it reads.
* `Engine.ReadsCounts`: what a check reads; `Engine.LineAgrees`: a line that agrees with a run.
* `Script.checkAfterNops`: a check that comes after many other opcodes.

Results:
* `Engine.length_conditions_of_runPlain`: a command changes the number of open conditionals as it
  changes the level; `Engine.Trace.levelFrom_eq`: so they agree wherever a run comes.
* `Engine.Trace.stack_of_pushed`: what the last commands have pushed lies on the stack.
* `Engine.disassemblyAgrees`: the indentation and the annotations of the commands that a run comes
  to, and the annotation of multisignature locks.
* `Engine.not_forall_readsBoth`: beyond the limit of operations, only one of two counts is read.
-/

namespace SpendScript

namespace Engine

open Script (levelOf levelAfter levelFrom)

variable {env : Env} {script : Script} {cache : SigCache} {s t u : State} {past : List Executed}
  {place : Place} {c : Command} {rest : List Command} {code : Opcode} {m n : ℕ}

/-- The opcodes of conditionals act in skipped parts, too. -/
theorem exists_perform_of_runOpcode (hcode : code.isConditional = true)
    (h : runOpcode env code s = .ok () t) :
    ∃ u, u.conditions = s.conditions ∧ perform env code (Operation.ofOpcode code) u = .ok () t := by
  rw [runOpcode_branch hcode] at h
  split_ifs at h
  exact ⟨started s code, rfl, h⟩

theorem length_conditions_of_openBranch {negated : Bool} (h : openBranch env negated s = .ok () t) :
    t.conditions.length = s.conditions.length + 1 := by
  unfold openBranch at h
  rw [get_bind] at h
  split_ifs at h
  · obtain ⟨holds, u, hpop, hmodify⟩ := bind_eq_ok.mp h
    cases hmodify
    exact congrArg (fun conditions : List Condition => conditions.length + 1)
      (popCondition_dataFrame hpop).conditions_eq
  · cases h
    rfl

theorem length_conditions_of_replaceInnermost {f : Condition → List Condition}
    (hf : ∀ c, (f c).length = n) (h : replaceInnermost f s = .ok () t) :
    t.conditions.length = s.conditions.length - 1 + n := by
  cases hs : s.conditions with
  | nil =>
    rw [replaceInnermost_nil hs] at h
    cases h
  | cons c outer =>
    rw [replaceInnermost_cons hs] at h
    cases h
    rw [List.length_append, hf, List.length_cons, Nat.add_sub_cancel, Nat.add_comm]

/-- A command changes the number of open conditionals as it changes the level. -/
theorem length_conditions_of_runPlain (h : runPlain env c s = .ok () t) :
    t.conditions.length = levelAfter (levelOf s.conditions.length c) c := by
  cases hc : c.isConditional with
  | false => rw [Script.level_of_plain hc, (runPlain_dataFrame hc h).conditions_eq]
  | true =>
    rcases Command.isConditional_iff.mp hc with rfl | rfl | rfl | rfl
    · obtain ⟨u, hu, hperform⟩ := exists_perform_of_runOpcode rfl h
      exact hu ▸ length_conditions_of_openBranch hperform
    · obtain ⟨u, hu, hperform⟩ := exists_perform_of_runOpcode rfl h
      exact hu ▸ length_conditions_of_openBranch hperform
    · obtain ⟨u, hu, hperform⟩ := exists_perform_of_runOpcode rfl h
      exact hu ▸ length_conditions_of_replaceInnermost (f := fun c => [c.switch]) (fun _ => rfl)
        hperform
    · obtain ⟨u, hu, hperform⟩ := exists_perform_of_runOpcode rfl h
      exact hu ▸ length_conditions_of_replaceInnermost (f := fun _ => []) (fun _ => rfl) hperform

theorem settle_conditions {data : Bytes} (h : settle data s = .ok () t) :
    t.conditions = s.conditions := by
  obtain ⟨item, stack, cs, -, -, -, rfl⟩ := settle_eq_ok.mp h
  rfl

/-- Wherever a run comes, as many conditionals are open as the level tells. -/
theorem Trace.levelFrom_eq (h : Trace env (State.start script cache) past place s) :
    levelFrom 0 (past.map Executed.command) = s.conditions.length := by
  refine h.keeps (P := fun past s =>
    levelFrom 0 (past.map Executed.command) = s.conditions.length) rfl ?_ ?_
  · intro past place s t c rest _ _ hrun ih
    rw [List.map_append, levelFrom, List.foldl_append]
    change levelFrom 0 (past.map Executed.command) = (fetched s rest).conditions.length at ih
    show levelAfter (levelOf (levelFrom 0 (past.map Executed.command)) c) c = _
    rw [ih, length_conditions_of_runPlain hrun]
  · intro past data s t _ hsettle ih
    rw [ih, settle_conditions hsettle]

/-! ## What has been pushed -/

/-- In a lock, so many commands are to come as are left of it. -/
theorem Trace.length_pending (h : Trace env s past place t) :
    ∀ data left, place = .lock data left → t.pending.length = left := by
  induction h with
  | start | command | reveal => exact fun _ _ hplace => by cases hplace
  | push _ _ hreveals hrun =>
    rintro _ _ ⟨⟩
    rw [(runPlain_frame _ hrun).pending_eq]
    exact length_pending_of_reveals hreveals
  | lock _ hp hrun ih =>
    rintro _ _ ⟨⟩
    have hlength := ih _ _ rfl
    rw [hp, List.length_cons] at hlength
    rw [(runPlain_frame _ hrun).pending_eq]
    exact Nat.succ.inj hlength

/-- As long as the commands of the script itself are run, what the last commands have pushed lies on
the stack, if they were not skipped. -/
theorem Trace.stack_of_pushed (h : Trace env (State.start script cache) past place s)
    (hlength : past.length < script.commands.length) (hexec : s.isExecuting = true)
    {front : List (Option Bytes)} {items : List Bytes}
    (hitems : (past.map Executed.command).map Command.pushed? = front ++ items.map some) :
    ∃ below, s.stack = items.reverse ++ below := by
  refine h.keeps (P := fun past s => past.length < script.commands.length → s.isExecuting = true →
    ∀ front items, (past.map Executed.command).map Command.pushed? = front ++ items.map some →
      ∃ below, s.stack = items.reverse ++ below) ?_ ?_ ?_ hlength hexec front items hitems
  · intro _ _ front items hitems
    have hnil : items.map some = [] := (List.append_eq_nil_iff.mp hitems.symm).2
    rw [List.map_eq_nil_iff.mp hnil]
    exact ⟨_, rfl⟩
  · intro past place s t c rest _ _ hrun ih hlength hexec front items hitems
    rcases List.eq_nil_or_concat items with rfl | ⟨items, item, rfl⟩
    · exact ⟨_, rfl⟩
    rw [List.concat_eq_append, List.map_append, List.map_append, List.map_append,
      ← List.append_assoc] at hitems
    obtain ⟨hpast, hlast⟩ := List.append_inj' hitems rfl
    have hc : c.pushed? = some item := (List.cons.inj hlast).1
    have hconditions := (runPlain_dataFrame (Command.isConditional_of_pushed hc) hrun).conditions_eq
    have hexec' : (fetched s rest).isExecuting = true := by
      rw [← hexec, State.isExecuting, State.isExecuting, hconditions]
    rw [List.length_append] at hlength
    obtain ⟨below, hbelow⟩ := ih (by omega) hexec' front items hpast
    obtain ⟨-, events, rfl⟩ := runPlain_pushed hexec' hc hrun
    refine ⟨below, ?_⟩
    rw [List.concat_eq_append, List.reverse_append, List.reverse_singleton, List.singleton_append,
      List.cons_append, ← hbelow]
    rfl
  · -- Once a lock is settled, all commands of the script itself are behind.
    intro past data s t htrace _ _ hlength
    obtain ⟨scripts, hlayout⟩ := htrace.layout rfl
    have hpending := List.eq_nil_of_length_eq_zero (htrace.length_pending _ _ rfl)
    have hcommands := congrArg List.length hlayout.commands_eq
    rw [hpending, List.append_nil, List.length_map, List.length_append] at hcommands
    have hpast : past.length = script.commands.length + scripts.flatten.length := hcommands
    omega

/-- A command that comes at the position of a command of the script is that command. -/
theorem Trace.exists_commands_eq (h : Trace env (State.start script cache) past place s)
    (hp : s.pending = c :: rest) (hpos : s.position < script.commands.length) :
    past.length = s.position ∧
      ∃ rest', script.commands = past.map Executed.command ++ c :: rest' := by
  obtain ⟨scripts, hlayout⟩ := h.layout rfl
  have hlength := hlayout.position_eq
  have hcommands := hlayout.commands_eq
  change past.map Executed.command ++ s.pending = script.commands ++ scripts.flatten at hcommands
  refine ⟨hlength.symm, ?_⟩
  rw [hp] at hcommands
  rcases List.append_eq_append_iff.mp hcommands with ⟨tail, hscript, htail⟩ | ⟨tail, hpast, -⟩
  · cases tail with
    | nil =>
      rw [hscript, List.append_nil, List.length_map] at hpos
      omega
    | cons d tail =>
      obtain ⟨rfl, -⟩ := List.cons.inj htail
      exact ⟨tail, hscript⟩
  · have hle := congrArg List.length hpast
    rw [List.length_map, List.length_append] at hle
    omega

/-! ## What a check reads -/

/-- Takes the keys of a check whose number has been read. They count as operations. -/
def takeKeys (keyCount : ℤ) : Engine (List Bytes) := do
  if keyCount < 0 then fail (.invalidKeyCount (.negativeKeys keyCount))
  else if (Limits.multisigKeys : ℤ) < keyCount then
    fail (.invalidKeyCount (.tooManyKeys keyCount))
  else
    count keyCount.toNat
    popMany keyCount.toNat

/-- Goes on with a check after the number of signatures has been read, too. -/
def matchCounted (env : Env) (keyCount : ℤ) (keys : List Bytes) (sigCount : ℤ) : Engine Bool := do
  if sigCount < 0 then fail (.invalidSignatureCount (.negativeSignatures sigCount))
  else if keyCount < sigCount then
    fail (.invalidSignatureCount (.moreSignaturesThanKeys sigCount keyCount))
  else
    let signatures ← popMany sigCount.toNat
    let _ ← pop
    matchKeys (checkSignature env) keys signatures

/-- A check reads two numbers. -/
theorem checkMultiSig_eq (env : Env) : checkMultiSig env = (do
    let keyCount ← popNumber
    let keys ← takeKeys keyCount
    let sigCount ← popNumber
    matchCounted env keyCount keys sigCount) := by
  unfold checkMultiSig
  refine bind_congr fun keyCount => ?_
  unfold takeKeys
  split_ifs
  · rfl
  · rfl
  · rw [bind_assoc]
    rfl

/-- A check that begins in `s` reads `n` as the number of keys, takes the keys, and reads `m` as the
number of signatures. -/
def ReadsBoth (env : Env) (s : State) (m n : ℕ) : Prop :=
  ∃ t keys u v, popNumber s = .ok (n : ℤ) t ∧ takeKeys n t = .ok keys u ∧
    popNumber u = .ok (m : ℤ) v ∧ checkMultiSig env s = matchCounted env n keys m v

/-- A check that begins in `s` reads both numbers, unless the keys exceed the limit of operations:
then it reads the number of keys and fails, with the other number still on the stack. -/
structure ReadsCounts (env : Env) (s : State) (m n : ℕ) : Prop where
  reads_both : s.operations + n ≤ Limits.operations → ReadsBoth env s m n
  fails : Limits.operations < s.operations + n → ∃ t u, popNumber s = .ok (n : ℤ) t ∧
    checkMultiSig env s = .error (.error .tooManyOperations) u ∧ u.stack = t.stack

/-- The counts and the keys lie on the stack. -/
theorem readsCounts_of_stack {keys : List Bytes} {below : Stack} (hm : m ≤ 16) (hn : n ≤ 16)
    (hkeys : keys.length = n)
    (hs : s.stack = ScriptNumber.encode (n : ℤ) ::
      (keys.reverse ++ ScriptNumber.encode (m : ℤ) :: below)) : ReadsCounts env s m n := by
  have hdecode : ∀ k : ℕ, k ≤ 16 →
      ScriptNumber.decode (ScriptNumber.encode (k : ℤ)) = .ok (k : ℤ) := by
    intro k hk
    rw [ScriptNumber.decode_encode, if_pos (by omega)]
  let t : State := { s with stack := keys.reverse ++ ScriptNumber.encode (m : ℤ) :: below }
  have hcount : popNumber s = .ok (n : ℤ) t := popNumber_eq_ok.mpr ⟨_, _, hs, hdecode n hn, rfl⟩
  have hmax : Limits.multisigKeys = 20 := rfl
  have htake : takeKeys n t = (count n >>= fun _ => popMany n) t := by
    unfold takeKeys
    rw [if_neg (by omega), if_neg (by omega), Int.toNat_natCast]
  refine ⟨fun hops => ?_, fun hops => ?_⟩
  · let u : State := { t with
      stack := ScriptNumber.encode (m : ℤ) :: below
      operations := s.operations + n }
    have hcounted : count n t = .ok () { t with operations := s.operations + n } :=
      count_eq_ok.mpr ⟨hops, rfl⟩
    have hpopped : takeKeys n t = .ok keys u := by
      rw [htake, bind_of_eq_ok hcounted]
      exact popMany_eq_ok.mpr ⟨_, rfl, hkeys, rfl⟩
    have hcount' : popNumber u = .ok (m : ℤ) { u with stack := below } :=
      popNumber_eq_ok.mpr ⟨_, _, rfl, hdecode m hm, rfl⟩
    refine ⟨t, keys, u, _, hcount, hpopped, hcount', ?_⟩
    rw [checkMultiSig_eq, bind_of_eq_ok hcount, bind_of_eq_ok hpopped, bind_of_eq_ok hcount']
  · have hfull : count n t = .error (.error .tooManyOperations)
        { t with operations := s.operations + n } := by
      rw [count_apply, if_pos hops]
    refine ⟨t, { t with operations := s.operations + n }, hcount, ?_, rfl⟩
    rw [checkMultiSig_eq, bind_of_eq_ok hcount]
    refine bind_of_eq_error ?_
    rw [htake]
    exact bind_of_eq_error hfull

theorem exists_pushed_of_data {cs : List Command} (h : ∀ c ∈ cs, c.data?.isSome = true) :
    ∃ items : List Bytes, cs.map Command.pushed? = items.map some := by
  induction cs with
  | nil => exact ⟨[], rfl⟩
  | cons c cs ih =>
    obtain ⟨hc, hcs⟩ := List.forall_mem_cons.mp h
    obtain ⟨items, hitems⟩ := ih hcs
    cases c with
    | op code => cases hc
    | push p => exact ⟨p.data :: items, congrArg (some p.data :: ·) hitems⟩

/-- A check reads what the commands before it tell. -/
theorem Trace.readsCounts (h : Trace env (State.start script cache) past place s)
    (hlength : past.length < script.commands.length) (hexec : s.isExecuting = true)
    (hbefore : Script.multisigBefore? (past.map Executed.command).reverse = some (m, n))
    (hu : u.stack = s.stack) : ReadsCounts env u m n := by
  obtain ⟨required, count, ks, below, hpast, hn, hm, hks, hdata⟩ :=
    Script.multisigBefore?_eq_some.mp hbefore
  rw [List.reverse_eq_iff] at hpast
  obtain ⟨keys, hkeys⟩ := exists_pushed_of_data fun c hc => hdata c (List.mem_reverse.mp hc)
  have hrequired : (Command.op required).pushed? = some (ScriptNumber.encode (m : ℤ)) :=
    Option.map_eq_some_iff.mpr ⟨m, hm, rfl⟩
  have hcount : (Command.op count).pushed? = some (ScriptNumber.encode (n : ℤ)) :=
    Option.map_eq_some_iff.mpr ⟨n, hn, rfl⟩
  have hitems : (past.map Executed.command).map Command.pushed? =
      below.reverse.map Command.pushed? ++
        (ScriptNumber.encode (m : ℤ) :: (keys ++ [ScriptNumber.encode (n : ℤ)])).map some := by
    rw [hpast, List.map_cons, List.map_append, List.map_singleton, ← hkeys, ← hrequired, ← hcount]
    simp
  obtain ⟨rest, hrest⟩ := h.stack_of_pushed hlength hexec hitems
  have hlen : keys.length = n := by
    rw [← hks, ← List.length_map (f := some), ← hkeys, List.length_map, List.length_reverse]
  have hs : u.stack = ScriptNumber.encode (n : ℤ) ::
      (keys.reverse ++ ScriptNumber.encode (m : ℤ) :: rest) := by
    rw [hu, hrest]
    simp
  exact readsCounts_of_stack (ofOpcode_of_smallInt hm).2.2.2 (ofOpcode_of_smallInt hn).2.2.2 hlen hs

/-! ## Checks after other opcodes -/

section Nops

open Script (RevealsNothingBefore Shields)

variable {xs ys cs : List Command} {stack : Stack} {used k : ℕ} {required : Opcode}

/-- In a script of one part, operations are counted from its beginning. -/
theorem operations_le_of_loop (hstarts : s.segmentStarts = []) (hr : RevealsNothingBefore xs ys)
    (hp : s.pending = xs ++ ys) (h : loop env xs.length s = .ok () t) :
    s.operations + (xs.map Command.cost).sum ≤ t.operations := by
  induction xs generalizing s with
  | nil =>
    cases h
    exact Nat.le_refl _
  | cons c xs ih =>
    rw [List.cons_append] at hp
    obtain ⟨u, hrun, -, hloop⟩ := (loop_cons hp _).mp h
    rw [runCommand_eq_of_revealsNothing (s := fetched s (xs ++ ys)) hr rfl] at hrun
    have hframe := runPlain_frame c hrun
    have hrest := ih (hframe.segmentStarts_eq.trans hstarts) hr.tail hframe.pending_eq hloop
    have hops : (fetched s (xs ++ ys)).operations = s.operations := by
      show (if s.position ∈ s.segmentStarts then 0 else s.operations) = _
      rw [hstarts, if_neg List.not_mem_nil]
    have hcost := runPlain_operations hrun
    rw [List.map_cons, List.sum_cons]
    omega

/-- Commands that do nothing are counted. -/
theorem OnTrack.exists_loop_nops (env : Env)
    (h : OnTrack s (List.replicate k (.op 0x61) ++ cs) stack used)
    (hlimit : used + k ≤ Limits.operations) (hsize : stack.length ≤ Limits.stackSize) :
    ∃ t, loop env k s = .ok () t ∧ OnTrack t cs stack (used + k) := by
  induction k generalizing s used with
  | zero => exact ⟨s, rfl, h⟩
  | succ k ih =>
    rw [List.replicate_succ, List.cons_append] at h
    obtain ⟨u, hrun, hu⟩ : ∃ u, runPlain env (.op 0x61) (Engine.fetched s _) = .ok () u ∧
        OnTrack u (List.replicate k (.op 0x61) ++ cs) stack (used + 1) :=
      h.exists_op (by decide) (by omega) fun s₀ h₀ => ⟨s₀, rfl, h₀⟩
    obtain ⟨t, hloop, ht⟩ := ih hu (by omega)
    refine ⟨t, (loop_cons h.pending_eq k).mpr ⟨u, hrun, ?_, hloop⟩, ?_⟩
    · rw [hu.alt_eq, hu.stack_eq, List.length_nil, Nat.zero_add]
      exact hsize
    · rwa [Nat.add_assoc, Nat.add_comm 1 k] at ht

end Nops

end Engine

namespace Script

open Engine (OnTrack)

variable {required : Opcode} {j k : ℕ}

def shortKey : Push :=
  ⟨[2, 2], .direct, by decide⟩

/-- A number, a key and a one. -/
def oneKey (required : Opcode) : List Command :=
  [.op required, .push shortKey, .op Opcode.one]

/-- A check of signatures by one key, after commands that do nothing. -/
def checkAfterNops (k : ℕ) (required : Opcode) : Script :=
  .ofCommands (List.replicate k (.op 0x61) ++ oneKey required ++ [.op Opcode.checkMultiSig])

theorem length_checkAfterNops (k : ℕ) (required : Opcode) :
    (checkAfterNops k required).commands.length = k + 4 := by
  show (List.replicate k (Command.op 0x61) ++ oneKey required ++ [_]).length = _
  rw [List.length_append, List.length_append, List.length_replicate]
  rfl

theorem pushes_oneKey (h : required.smallInt? = some j) : List.Forall₂ Command.Pushes
    (oneKey required) [ScriptNumber.encode (j : ℤ), shortKey.data, [1]] :=
  .cons ⟨Option.map_eq_some_iff.mpr ⟨j, h, rfl⟩, fun _ => trivial⟩ <|
    .cons ⟨rfl, fun _ => ⟨by decide, fun _ => by decide⟩⟩ <|
      .cons ⟨by decide +kernel, fun _ => trivial⟩ .nil

theorem lineAt?_checkAfterNops (h : required.smallInt? = some j) :
    (checkAfterNops k required).lineAt? (k + 3) =
      some ⟨0, Opcode.checkMultiSig.text ++ s!" // {j} of {1}"⟩ := by
  have hplain : ∀ c ∈ List.replicate k (Command.op 0x61) ++ oneKey required,
      c.isConditional = false := by
    refine List.forall_mem_append.mpr ⟨fun c hc => ?_, fun c hc => ?_⟩
    · rw [List.eq_of_mem_replicate hc]
      decide
    · obtain ⟨data, -, hdata⟩ := exists_mem_of_forall₂ (pushes_oneKey h) hc
      exact Command.isConditional_of_pushed hdata.pushed_eq
  have hbefore : multisigBefore?
      (List.replicate k (Command.op 0x61) ++ oneKey required).reverse = some (j, 1) := by
    rw [List.reverse_append]
    exact multisigBefore?_eq_some.mpr ⟨required, Opcode.one, [.push shortKey], _, rfl, rfl, h, rfl,
      List.forall_mem_singleton.mpr rfl⟩
  have hcommands : (checkAfterNops k required).commands =
      List.replicate k (.op 0x61) ++ oneKey required ++ .op Opcode.checkMultiSig :: [] := rfl
  have hline := lineAt?_eq hcommands
  rw [levelFrom_of_plain hplain, List.length_append, List.length_replicate] at hline
  refine hline.trans ?_
  rw [firstText, opLine_of_check (Or.inl rfl) hbefore]
  rfl

/-- A run comes to the check. -/
theorem exists_reached_checkAfterNops (env : Env) (hk : k ≤ 200)
    (h : required.smallInt? = some j) : ∃ s,
      Engine.Reached env (State.start (checkAfterNops k required) noCache) .list s ∧
      s.pending = [.op Opcode.checkMultiSig] ∧ s.position = k + 3 ∧ s.isExecuting = true ∧
      (Engine.fetched s []).operations = k := by
  have hshields : Shields [.op Opcode.checkMultiSig] := shields_append_op [] (by decide)
  have hstart : OnTrack (State.start (checkAfterNops k required) noCache)
      (List.replicate k (.op 0x61) ++ (oneKey required ++ [.op Opcode.checkMultiSig])) [] 0 :=
    ⟨⟨(List.append_assoc _ _ _), rfl, rfl, SigCache.sound_empty 0 fun _ => 0⟩, rfl, Nat.le_refl 0⟩
  have hlimit : 0 + k ≤ Limits.operations := by
    rw [Nat.zero_add]
    exact Nat.le_succ_of_le hk
  obtain ⟨t, hnops, ht⟩ := hstart.exists_loop_nops env hlimit (Nat.zero_le _)
  obtain ⟨s, hpushed, hs⟩ := ht.exists_loop_pushed env (pushes_oneKey h) hshields
    (show 0 + 3 ≤ Limits.stackSize by decide)
  have hloop : Engine.loop env (k + 3) (State.start (checkAfterNops k required) noCache) =
      .ok () s := by
    rw [Engine.loop_add, Engine.bind_of_eq_ok hnops]
    exact hpushed
  have hlength : (List.replicate k (Command.op 0x61) ++ oneKey required).length = k + 3 := by
    rw [List.length_append, List.length_replicate]
    rfl
  rw [← hlength] at hloop
  have hreveals := RevealsNothingBefore.of_shields hshields
    (List.replicate k (.op 0x61) ++ oneKey required)
  have hpassed := Engine.loop_passed hreveals rfl hloop
  have hle := Engine.operations_le_of_loop rfl hreveals rfl hloop
  have hcost : (List.replicate k (Command.op 0x61)).map Command.cost = List.replicate k 1 :=
    List.map_replicate
  rw [List.map_append, hcost, List.sum_append, List.sum_replicate_nat] at hle
  have hge := hs.operations_le
  refine ⟨s, ⟨_, hloop⟩, hs.pending_eq, ?_, hs.isExecuting, ?_⟩
  · rw [hpassed.position_eq, hlength]
    exact Nat.zero_add _
  · show (if s.position ∈ s.segmentStarts then 0 else s.operations) = k
    rw [hpassed.segmentStarts_eq]
    show s.operations = k
    change 0 + (k * 1 + _) ≤ s.operations at hle
    omega

end Script

/-! ## The disassembly -/

namespace Engine

open Script (checkAfterNops length_checkAfterNops exists_reached_checkAfterNops
  lineAt?_checkAfterNops)

/-- The line of a command agrees with a run that comes to it in `s`: it is indented by two blanks
for each open conditional, by one step less for else and end; and if it is an annotated check that
is executed, the check reads what is annotated. -/
structure LineAgrees (env : Env) (s : State) (c : Command) (rest : List Command) (line : Line) :
    Prop where
  blanks_eq : line.blanks = 2 * if c = .op Opcode.otherwise ∨ c = .op Opcode.endIf then
    s.conditions.length - 1 else s.conditions.length
  reads : ∀ code m n, c = .op code →
    code = Opcode.checkMultiSig ∨ code = Opcode.checkMultiSigVerify →
    line.text = code.text ++ s!" // {m} of {n}" → s.isExecuting = true →
    (fetched s rest).operations + 1 ≤ Limits.operations →
      runCommand env c (fetched s rest) =
          (checkMultiSig env >>= conclude (code == Opcode.checkMultiSigVerify))
            (started (fetched s rest) code) ∧
        ReadsCounts env (started (fetched s rest) code) m n

/-- The disassembly agrees with the run.

The lines that are read from it are those of the blocks, one block for each command. A run that
comes to the position of a command is about to fetch that command, and the first line of its block
agrees with the run. The last line of a multisignature lock tells what the lock asks for. -/
theorem disassemblyAgrees (script : Script) :
    (Line.readAll script.view = script.blocks.flatten ∧
      script.blocks.length = script.commands.length) ∧
    (∀ env cache place s c rest, Reached env (State.start script cache) place s →
      s.pending = c :: rest → s.position < script.commands.length →
        script.commands[s.position]? = some c ∧
          ∃ line, script.lineAt? s.position = some line ∧ LineAgrees env s c rest line) ∧
    ∀ m n, Script.multisigParams? script.commands = some (m, n) →
      (Line.readAll script.view).getLast? =
        some ⟨0, Opcode.checkMultiSig.text ++ s!" // {m} of {n}"⟩ := by
  refine ⟨⟨Script.readAll_view script, Script.length_blocks script⟩, ?_,
    fun m n => Script.getLast?_view⟩
  intro env cache place s c rest hreached hp hpos
  obtain ⟨past, htrace⟩ := exists_trace_iff.mpr hreached
  obtain ⟨hlength, rest', hcommands⟩ := htrace.exists_commands_eq hp hpos
  have hposition : (past.map Executed.command).length = s.position := by
    rw [List.length_map, hlength]
  have hline := Script.lineAt?_eq hcommands
  rw [hposition, htrace.levelFrom_eq] at hline
  refine ⟨?_, _, hline, by rw [Script.levelOf_eq], ?_⟩
  · rw [hcommands, ← hposition, List.getElem?_append_right (Nat.le_refl _), Nat.sub_self,
      List.getElem?_cons_zero]
  rintro code m n rfl hcode htext hexec hops
  have hbefore := Script.multisigBefore?_of_opLine hcode htext
  refine ⟨?_, htrace.readsCounts (by omega) hexec hbefore rfl⟩
  refine (runOpcode_eq_perform (s := fetched s rest) ?_ hexec hops).trans ?_
  · rcases hcode with rfl | rfl <;> decide
  · rcases hcode with rfl | rfl <;> rfl

/-- A check of one signature by one key reads this. -/
theorem disassemblyAgrees_oneOfOne : ∃ s line,
    Reached ⟨1, Flags.default⟩ (State.start (checkAfterNops 0 Opcode.one) Script.noCache) .list s ∧
      s.pending = [.op Opcode.checkMultiSig] ∧ s.position = 3 ∧
      (checkAfterNops 0 Opcode.one).lineAt? 3 = some line ∧
      line.text = Opcode.checkMultiSig.text ++ s!" // {1} of {1}" ∧
      ReadsBoth ⟨1, Flags.default⟩ (started (fetched s []) Opcode.checkMultiSig) 1 1 := by
  have hsmall : Opcode.smallInt? Opcode.one = some 1 := rfl
  obtain ⟨s, hreached, hp, hposition, hexec, hops⟩ :=
    exists_reached_checkAfterNops (k := 0) ⟨1, Flags.default⟩ (Nat.zero_le _) hsmall
  obtain ⟨-, line, hline, hagrees⟩ := (disassemblyAgrees (checkAfterNops 0 Opcode.one)).2.1
    ⟨1, Flags.default⟩ Script.noCache .list s _ [] hreached hp
    (by rw [hposition, length_checkAfterNops]; decide)
  rw [hposition] at hline
  have htext : line.text = Opcode.checkMultiSig.text ++ s!" // {1} of {1}" := by
    rw [lineAt?_checkAfterNops (k := 0) hsmall] at hline
    cases hline
    rfl
  obtain ⟨-, hreads⟩ := hagrees.reads _ 1 1 rfl (Or.inl rfl) htext hexec (by rw [hops]; decide)
  refine ⟨s, line, hreached, hp, hposition, hline, htext, hreads.reads_both ?_⟩
  show (fetched s []).operations + 1 + 1 ≤ Limits.operations
  rw [hops]
  decide

/-- After two hundred other opcodes a check is executed, but its key exceeds the limit of
operations, and the number of signatures is not read. -/
theorem not_forall_readsBoth :
    ¬∀ (script : Script) (env : Env) (cache : SigCache) (place : Place) (s : State)
      (code : Opcode) (rest : List Command) (line : Line) (m n : ℕ),
      Reached env (State.start script cache) place s → s.pending = .op code :: rest →
      s.position < script.commands.length → script.lineAt? s.position = some line →
      code = Opcode.checkMultiSig ∨ code = Opcode.checkMultiSigVerify →
      line.text = code.text ++ s!" // {m} of {n}" → s.isExecuting = true →
      (fetched s rest).operations + 1 ≤ Limits.operations →
        ReadsBoth env (started (fetched s rest) code) m n := by
  intro hall
  have hsmall : Opcode.smallInt? 0x52 = some 2 := rfl
  obtain ⟨s, hreached, hp, hposition, hexec, hops⟩ :=
    exists_reached_checkAfterNops ⟨1, Flags.default⟩ (Nat.le_refl 200) hsmall
  have hline := lineAt?_checkAfterNops (k := 200) hsmall
  rw [← hposition] at hline
  have hlt : s.position < (checkAfterNops 200 0x52).commands.length := by
    rw [hposition, length_checkAfterNops]
    decide
  obtain ⟨t, keys, u, v, hcount, hkeys, -⟩ := hall _ _ _ _ s Opcode.checkMultiSig [] _ 2 1
    hreached hp hlt hline (Or.inl rfl) rfl hexec (by rw [hops]; decide)
  -- The opcode and its key are the operations 201 and 202.
  obtain ⟨item, stack, -, -, rfl⟩ := popNumber_eq_ok.mp hcount
  obtain ⟨_, w, hcounted, -⟩ := bind_eq_ok.mp hkeys
  have hle := (count_eq_ok.mp hcounted).1
  change (fetched s []).operations + 1 + 1 ≤ Limits.operations at hle
  rw [hops] at hle
  exact absurd hle (by decide)

end Engine

end SpendScript
