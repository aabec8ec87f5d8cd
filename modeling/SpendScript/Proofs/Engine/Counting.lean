import Mathlib.Algebra.GroupWithZero.Nat
import SpendScript.Proofs.Engine.Trace
import SpendScript.Proofs.Engine.WellNested

/-!
# The count of operations

At any point of a run, the count of operations is what the commands of the current part have added
to it: one for each counted opcode, run or skipped, and the keys of each multisignature check that
was run.

Results:
* `Engine.keysCounted`, `Executed.operations`: what a command adds.
* `Engine.runPlain_operations`: a command adds this.
* `Standing`: where a run stands in a list of parts.
* `Engine.Trace.counted`: the count at any point.
-/

namespace SpendScript

namespace Engine

variable {α : Type} {env : Env} {s₀ s t : State} {past : List Executed} {place : Place}
  {c : Command} {rest : List Command} {data : Bytes}

/-! ## What a command adds -/

/-- The keys that a multisignature check counts if it is run: the number on top of the stack. -/
def keysCounted (s : State) : Command → ℕ
  | .op code =>
    if (Operation.ofOpcode code).countsKeys && s.isExecuting then
      match s.stack.head?.map ScriptNumber.decode with
      | some (.ok n) => n.toNat
      | _ => 0
    else 0
  | .push _ => 0

/-- A computation that ignores the count of operations lets it be. -/
theorem operations_eq_of_ignores {m : Engine α} {a : α}
    (h : Ignores (fun k => { k with operations := s.operations }) m) (hm : m s = .ok a t) :
    t.operations = s.operations :=
  congrArg Context.operations (h.context_eq rfl hm)

/-- Changing the count of operations lets the open conditionals be. -/
theorem keepsConditions_operations (n : ℕ) : KeepsConditions fun k => { k with operations := n } :=
  fun _ _ => rfl

theorem checkMultiSig_operations {valid : Bool} (h : checkMultiSig env s = .ok valid t) :
    ∃ item stack n, s.stack = item :: stack ∧ ScriptNumber.decode item = .ok n ∧
      t.operations = s.operations + n.toNat := by
  obtain ⟨item, keys, _, _, _, _, hs, hcount, -, -, -, -, hmatch⟩ := checkMultiSig_eq_ok.mp h
  refine ⟨item, _, _, hs, hcount, ?_⟩
  exact (Keeps.matchKeys checkSignature_checkFrame keys _ hmatch).operations_eq

/-- An operation that is run adds the keys that it checks. -/
theorem perform_operations {code : Opcode}
    (hexec : s.isExecuting = true ∨ (Operation.ofOpcode code).countsKeys = false)
    (h : perform env code (Operation.ofOpcode code) s = .ok () t) :
    t.operations = s.operations + keysCounted s (.op code) := by
  rw [keysCounted]
  generalize Operation.ofOpcode code = op at h hexec
  cases hop : op.countsKeys with
  | false =>
    refine operations_eq_of_ignores (perform_ignores code (fun _ => ?_) fun hkeys => ?_) h
    · exact keepsConditions_operations _
    · rw [hop] at hkeys
      cases hkeys
  | true =>
    rw [hop, Bool.true_eq_false, or_false] at hexec
    cases op with
    | checkMultiSig verify =>
      obtain ⟨valid, u, hcheck, hconclude⟩ := bind_eq_ok.mp h
      obtain ⟨item, stack, n, hs, hn, hu⟩ := checkMultiSig_operations hcheck
      rw [operations_eq_of_ignores (conclude_ignores _ _) hconclude, hu, hs, hexec, Bool.true_and,
        if_pos rfl]
      simp only [List.head?_cons, Option.map_some, hn]
    | _ => cases hop

/-- No conditional opcode counts keys. -/
theorem countsKeys_of_isConditional {code : Opcode} (h : code.isConditional = true) :
    (Operation.ofOpcode code).countsKeys = false := by
  have hall : ∀ i : Fin 256, Opcode.isConditional (UInt8.ofFin i) = true →
      (Operation.ofOpcode (UInt8.ofFin i)).countsKeys = false := by decide +kernel
  exact hall code.toFin h

/-- A command adds one if it is a counted opcode, and the keys that it checks if it is run. -/
theorem runPlain_operations (h : runPlain env c s = .ok () t) :
    t.operations = s.operations + (c.cost + keysCounted s c) := by
  cases c with
  | push p =>
    refine operations_eq_of_ignores (.bind (admitPush_ignores ?_ p) fun _ =>
      .ite (push_ignores _) (.pure _)) h
    exact keepsConditions_operations _
  | op code =>
    have hact : ∀ {u : State}, (do
        let s ← get
        if State.isExecuting s || code.isConditional then
          emit (.executing code s.stack.length)
          perform env code (Operation.ofOpcode code)) u = .ok () t →
        t.operations = u.operations + keysCounted u (.op code) := by
      intro u hact
      rw [get_bind] at hact
      split_ifs at hact with hruns
      · rw [Bool.or_eq_true] at hruns
        obtain ⟨_, v, hemit, hperform⟩ := bind_eq_ok.mp hact
        cases hemit
        exact perform_operations
          (s := { u with events := .executing code u.stack.length :: u.events })
          (hruns.imp_right countsKeys_of_isConditional) hperform
      · rw [Bool.or_eq_true, not_or, Bool.not_eq_true] at hruns
        cases hact
        rw [keysCounted, hruns.1, Bool.and_false]
        rfl
    change runOpcode env code s = .ok () t at h
    unfold runOpcode at h
    rw [Command.cost, ← Nat.add_assoc]
    split_ifs at h with hdisabled hcounted
    · cases h
    · obtain ⟨_, u, hcount, hrest⟩ := bind_eq_ok.mp h
      obtain ⟨-, rfl⟩ := count_eq_ok.mp hcount
      rw [if_pos hcounted]
      exact hact hrest
    · rw [if_neg hcounted]
      exact hact h

end Engine

/-! ## Where a run stands -/

/-- What the command has added to the count of operations. -/
def Executed.operations (e : Executed) : ℕ :=
  e.command.cost + Engine.keysCounted e.state e.command

/-- Where a run stands in a list of parts: in the part of the last command that it has executed. -/
structure Standing (parts : List (List Command)) (past : List Executed) (s : State) where
  /-- The parts before the current one, and after it. -/
  before : List (List Command)
  after : List (List Command)
  /-- The executed commands of the parts before the current one, and of the current one. -/
  done : List Executed
  current : List Executed
  /-- The commands of the current part that come next. -/
  left : List Command
  parts_eq : parts = before ++ (current.map Executed.command ++ left) :: after
  past_eq : past = done ++ current
  done_eq : done.map Executed.command = before.flatten
  pending_eq : s.pending = left ++ after.flatten
  current_ne_nil : past ≠ [] → current ≠ []

namespace Standing

variable {parts : List (List Command)} {past : List Executed} {s t : State} {c : Command}
  {cs rest : List Command} {e : Executed}

/-- Before anything has been executed, the run stands in the first part. -/
theorem exists_start (hparts : parts ≠ []) (hp : s.pending = parts.flatten) :
    ∃ st : Standing parts [] s, st.current = [] := by
  obtain ⟨part, parts, rfl⟩ := List.exists_cons_of_ne_nil hparts
  exact ⟨⟨[], parts, [], [], part, rfl, rfl, rfl, hp, fun h => absurd rfl h⟩, rfl⟩

theorem exists_of_flatten_eq_cons {parts : List (List Command)} (h : parts.flatten = c :: rest) :
    ∃ empties x after, parts = empties ++ (c :: x) :: after ∧ empties.flatten = [] ∧
      rest = x ++ after.flatten := by
  induction parts with
  | nil => cases h
  | cons part parts ih =>
    cases part with
    | cons d x =>
      obtain ⟨rfl, rfl⟩ := List.cons.inj h
      exact ⟨[], x, parts, rfl, rfl, rfl⟩
    | nil =>
      obtain ⟨empties, x, after, rfl, hempties, rfl⟩ := ih h
      exact ⟨[] :: empties, x, after, rfl, hempties, rfl⟩

/-- The next command belongs to the current part, or it is the first one of a later part. -/
theorem exists_fetched (st : Standing parts past s) (hp : s.pending = e.command :: rest)
    (ht : t.pending = rest) : ∃ st' : Standing parts (past ++ [e]) t,
      st'.current = (if st.left = [] then [] else st.current) ++ [e] := by
  obtain ⟨before, after, done, current, left, hparts, hpast, hdone, hpending, hne⟩ := st
  rw [hp] at hpending
  cases left with
  | cons d left =>
    obtain ⟨rfl, rfl⟩ := List.cons.inj hpending
    refine ⟨⟨before, after, done, current ++ [e], left, ?_, ?_, hdone, ht, fun _ => by simp⟩, ?_⟩
    · rw [hparts, List.map_append, List.append_assoc]
      rfl
    · rw [hpast, List.append_assoc]
    · rw [if_neg (List.cons_ne_nil _ _)]
  | nil =>
    obtain ⟨empties, x, after', rfl, hempties, rfl⟩ := exists_of_flatten_eq_cons hpending.symm
    refine ⟨⟨before ++ current.map Executed.command :: empties, after', past, [e], x, ?_, rfl, ?_,
      ht, fun _ => List.cons_ne_nil _ _⟩, ?_⟩
    · rw [hparts, List.append_nil, List.append_assoc]
      rfl
    · rw [hpast, List.map_append, hdone, List.flatten_append, List.flatten_cons, hempties,
        List.append_nil]
    · rw [if_pos rfl]
      rfl

/-- A part begins with the next command just if the current part has come to its end. -/
theorem position_mem_iff (st : Standing parts past s) (hpast : past ≠ [])
    (hposition : s.position = past.length) (hstarts : 0 :: s.segmentStarts = Engine.offsets 0 parts)
    (hp : s.pending ≠ []) : s.position ∈ s.segmentStarts ↔ st.left = [] := by
  obtain ⟨before, after, done, current, left, hparts, hpast', hdone, hpending, hne⟩ := st
  have hlength : s.position = before.flatten.length + current.length := by
    rw [hposition, hpast', List.length_append, ← hdone, List.length_map]
  have hcurrent := List.length_pos_iff.mpr (hne hpast)
  have hmem : s.position ∈ s.segmentStarts ↔ s.position ∈ Engine.offsets 0 parts := by
    rw [← hstarts, List.mem_cons, or_iff_right]
    omega
  rw [hmem]
  show _ ↔ left = []
  rw [hparts]
  constructor
  · intro hboundary
    by_contra hleft
    have := List.length_pos_iff.mpr hleft
    refine Engine.notMem_offsets ?_ ?_ hboundary
    · omega
    · rw [List.length_append, List.length_map]
      omega
  · rintro rfl
    obtain ⟨part, after, rfl⟩ : ∃ part rest, after = part :: rest :=
      List.exists_cons_of_ne_nil fun hnil => hp (by rw [hpending, hnil]; rfl)
    refine Engine.mem_offsets.mpr
      ⟨before ++ [current.map Executed.command], part, after, by simp, ?_⟩
    rw [hlength, List.flatten_concat, List.length_append, List.length_map, Nat.zero_add]

/-- A revealed script is one more part. -/
theorem exists_revealed (st : Standing parts past s) (ht : t.pending = s.pending ++ cs) :
    ∃ st' : Standing (parts ++ [cs]) past t, st'.current = st.current := by
  obtain ⟨before, after, done, current, left, hparts, hpast, hdone, hpending, hne⟩ := st
  refine ⟨⟨before, after ++ [cs], done, current, left, ?_, hpast, hdone, ?_, hne⟩, rfl⟩
  · rw [hparts, List.append_assoc]
    rfl
  · rw [ht, hpending, List.flatten_concat, List.append_assoc]

end Standing

/-! ## The count at any point -/

namespace Engine

variable {env : Env} {s₀ s t : State} {past : List Executed} {place : Place} {c : Command}
  {parts scripts : List (List Command)} {rest : List Command} {data : Bytes}

/-- The count of operations is what the executed commands of the current part have added. -/
def Counted (parts : List (List Command)) (past : List Executed) (s : State) : Prop :=
  ∃ st : Standing parts past s, s.operations = (st.current.map Executed.operations).sum

/-- The parts of the script and the revealed scripts are the parts of the run. -/
theorem Layout.starts_eq (h : Layout s₀ past s scripts) (hp : s₀.pending = parts.flatten)
    (hstarts : 0 :: s₀.segmentStarts = offsets 0 parts) :
    0 :: s.segmentStarts = offsets 0 (parts ++ scripts) := by
  rw [h.segmentStarts_eq, offsets_append, ← hstarts, hp, Nat.zero_add]
  rfl

theorem Counted.runPlain (h : Counted parts past s) (hposition : s.position = past.length)
    (hstarts : 0 :: s.segmentStarts = offsets 0 parts) (hp : s.pending = c :: rest)
    (hrun : runPlain env c (fetched s rest) = .ok () t) :
    Counted parts (past ++ [⟨c, fetched s rest⟩]) t := by
  obtain ⟨st, hcount⟩ := h
  have hpending : t.pending = rest := (runPlain_frame c hrun).pending_eq
  obtain ⟨st', hcurrent⟩ := st.exists_fetched (e := ⟨c, fetched s rest⟩) hp hpending
  refine ⟨st', ?_⟩
  have hfetched : (fetched s rest).operations =
      ((if st.left = [] then [] else st.current).map Executed.operations).sum := by
    show (if s.position ∈ s.segmentStarts then 0 else s.operations) = _
    by_cases hpast : past = []
    · -- Before the first command, nothing has been counted.
      have hnil : st.current = [] :=
        (List.append_eq_nil_iff.mp (st.past_eq.symm.trans hpast)).2
      rw [hcount, hnil, ite_self]
      exact ite_self 0
    · have hne : s.pending ≠ [] := hp ▸ List.cons_ne_nil _ _
      rw [if_congr (st.position_mem_iff hpast hposition hstarts hne) rfl rfl]
      split_ifs
      · rfl
      · exact hcount
  rw [hcurrent, runPlain_operations hrun, hfetched, List.map_append, List.sum_append,
    List.map_singleton, List.sum_singleton]
  rfl

/-- At any point of a run of a list of parts, the count of operations is what the executed commands
of the current part, or of the current revealed script, have added. -/
theorem Trace.counted (h : Trace env s₀ past place s) (hposition : s₀.position = 0)
    (hoperations : s₀.operations = 0) (hparts : parts ≠ []) (hp : s₀.pending = parts.flatten)
    (hstarts : 0 :: s₀.segmentStarts = offsets 0 parts) :
    ∃ scripts, Layout s₀ past s scripts ∧ Counted (parts ++ scripts) past s := by
  refine h.keeps (P := fun past s => ∃ scripts, Layout s₀ past s scripts ∧
    Counted (parts ++ scripts) past s) ?_ ?_ ?_
  · obtain ⟨st, hst⟩ := Standing.exists_start hparts hp
    refine ⟨[], ⟨hposition, (List.append_nil _).symm, (List.append_nil _).symm,
      List.forall_mem_nil _⟩, ?_⟩
    rw [List.append_nil]
    exact ⟨st, by rw [hoperations, hst]; rfl⟩
  · rintro past place s t c rest - hpending hrun ⟨scripts, hlayout, hcounted⟩
    exact ⟨scripts, hlayout.runPlain hpending hrun,
      hcounted.runPlain hlayout.position_eq (hlayout.starts_eq hp hstarts) hpending hrun⟩
  · rintro past data s t h hsettle ⟨scripts, hlayout, st, hcount⟩
    obtain ⟨cs, hcs, hlayout'⟩ := hlayout.settle (h.exists_push _ _ rfl) hsettle
    obtain ⟨st', hst'⟩ := st.exists_revealed hcs
    refine ⟨scripts ++ [cs], hlayout', ?_⟩
    rw [← List.append_assoc]
    refine ⟨st', ?_⟩
    obtain ⟨_, _, _, -, -, -, rfl⟩ := settle_eq_ok.mp hsettle
    rw [hst']
    exact hcount

end Engine

end SpendScript
