import SpendScript.Proofs.Script.Additions
import SpendScript.Proofs.Script.Coding

/-!
# Calls on a builder

A builder is changed in place: commands and their length are two variables, and a call that is
refused leaves them as they are at that moment. The length is kept by hand on several ways, and
every way keeps it exact.

* `Builder.InPlace`: the additions in place, one variable after the other.
* `Builder.Call`, `Builder.after`: the calls, and the builder after a sequence of them, some of which
  may have been refused.
* `Builder.Exact`: the length is that of the commands, within the limits.

Results:
* `Builder.InPlace.addOp_apply`, `Builder.InPlace.addData_apply`, …: a call in place does what the
  addition does, or changes nothing.
* `Builder.Exact.leave`, `Builder.Exact.after`: a call keeps a builder exact, and so do many.
* `Builder.Fares`: which calls fail, and how. `Builder.exactAfterCalls`: both, after any calls.
-/

namespace SpendScript.Builder

/-- Changes of a builder that may be refused. A refusal keeps what was changed before it. -/
abbrev InPlace := EStateM BuilderError Builder

namespace InPlace

/-! ## Additions in place -/

def addCommand (c : Command) : InPlace Unit :=
  modify fun b => { b with commands := b.commands ++ [c] }

def addLength (n : ℕ) : InPlace Unit :=
  modify fun b => { b with byteLength := b.byteLength + n }

/-- Adds an opcode without a check. -/
def pushOp (code : Opcode) : InPlace Unit := do
  addCommand (.op code)
  addLength 1

def addOp (code : Opcode) : InPlace Unit := do
  if Limits.scriptSize ≤ (← get).byteLength then throw (.opcodeRejected code)
  pushOp code

def addOps (codes : List Opcode) : InPlace Unit := do
  if Limits.scriptSize < (← get).byteLength + codes.length then
    throw (.opcodesRejected codes.length)
  codes.forM pushOp

/-- Adds the canonical form of data without a check of sizes. -/
def pushData (data : Bytes) : InPlace Unit :=
  match opcodeFor? data with
  | some code => pushOp code
  | none =>
    match Push.ofBytes data with
    | .error _ => throw (.dataRejected (canonicalSize data))
    | .ok p => do
      addLength p.byteLength
      addCommand (.push p)

def addData (data : Bytes) : InPlace Unit := do
  if Limits.scriptSize < (← get).byteLength + canonicalSize data then
    throw (.dataRejected (canonicalSize data))
  if Limits.elementSize < data.length then throw (.elementTooBig data.length)
  pushData data

def addInt (n : ℤ) : InPlace Unit := do
  if Limits.scriptSize < (← get).byteLength + 1 then throw (.integerRejected n)
  match opcodeForInt? n with
  | some code => pushOp code
  | none => addData (ScriptNumber.encode n)

/-- Takes the script out, which leaves the builder empty. -/
def drain : InPlace Script := do
  modify fun b => { b with byteLength := 0 }
  let commands := (← get).commands
  modify fun b => { b with commands := [] }
  return Script.ofCommands commands

/-! ## They do what the additions do -/

/-- An addition in place: a builder that refuses it stays as it is. -/
def settle (b : Builder) : Except BuilderError Builder → EStateM.Result BuilderError Builder Unit
  | .ok b' => .ok () b'
  | .error e => .error e b

variable (b : Builder)

theorem addOp_apply (code : Opcode) : addOp code b = settle b (b.addOp code) := by
  unfold addOp Builder.addOp
  show (if Limits.scriptSize ≤ b.byteLength then _ else _ : InPlace Unit) b = _
  split_ifs <;> rfl

/-- Opcode by opcode, the length grows with the commands. -/
theorem forM_pushOp_apply (codes : List Opcode) : codes.forM pushOp b =
    .ok () ⟨b.commands ++ codes.map .op, b.byteLength + codes.length⟩ := by
  induction codes generalizing b with
  | nil =>
    rw [List.map_nil, List.append_nil]
    rfl
  | cons code codes ih =>
    show codes.forM pushOp (b.pushOp code) = _
    rw [ih, Builder.pushOp, List.map_cons, List.length_cons, List.append_assoc,
      List.singleton_append, Nat.add_assoc, Nat.add_comm 1]

theorem addOps_apply (codes : List Opcode) : addOps codes b = settle b (b.addOps codes) := by
  unfold addOps Builder.addOps
  show (if Limits.scriptSize < b.byteLength + codes.length then _ else _ : InPlace Unit) b = _
  split_ifs
  · rfl
  · exact forM_pushOp_apply b codes

theorem pushData_apply (data : Bytes) : pushData data b = settle b (b.pushData data) := by
  unfold pushData Builder.pushData
  cases opcodeFor? data with
  | some code => rfl
  | none => cases Push.ofBytes data <;> rfl

theorem addData_apply (data : Bytes) : addData data b = settle b (b.addData data) := by
  unfold addData Builder.addData
  show (if Limits.scriptSize < b.byteLength + canonicalSize data then _ else _ : InPlace Unit) b = _
  by_cases hfull : Limits.scriptSize < b.byteLength + canonicalSize data
  · rw [if_pos hfull, if_pos hfull]
    rfl
  · rw [if_neg hfull, if_neg hfull]
    show (if Limits.elementSize < data.length then _ else _ : InPlace Unit) b = _
    split_ifs
    · rfl
    · exact pushData_apply b data

theorem addInt_apply (n : ℤ) : addInt n b = settle b (b.addInt n) := by
  unfold addInt Builder.addInt
  show (if Limits.scriptSize < b.byteLength + 1 then _ else _ : InPlace Unit) b = _
  split_ifs
  · rfl
  · cases opcodeForInt? n with
    | some code => rfl
    | none => exact addData_apply b _

end InPlace

/-! ## Calls -/

/-- A call on a builder. -/
inductive Call where
  | addOp (code : Opcode)
  | addOps (codes : List Opcode)
  | addData (data : Bytes)
  | addInt (n : ℤ)
  | drain

/-- Makes the call; only a drain gives something back. -/
def Call.run : Call → InPlace (Option Script)
  | .addOp code => do InPlace.addOp code; return none
  | .addOps codes => do InPlace.addOps codes; return none
  | .addData data => do InPlace.addData data; return none
  | .addInt n => do InPlace.addInt n; return none
  | .drain => do return some (← InPlace.drain)

/-- The builder after one call, which may have been refused. -/
def Call.leave (b : Builder) (call : Call) : Builder :=
  match call.run b with
  | .ok _ b' => b'
  | .error _ b' => b'

/-- The builder after a sequence of calls. -/
def after (calls : List Call) (b : Builder) : Builder :=
  calls.foldl Call.leave b

/-- What a call adds, or why it is refused. -/
def Call.addition (call : Call) (b : Builder) : Except BuilderError Builder :=
  match call with
  | .addOp code => b.addOp code
  | .addOps codes => b.addOps codes
  | .addData data => b.addData data
  | .addInt n => b.addInt n
  | .drain => .ok empty

variable {b b' : Builder} {call : Call} {e : BuilderError} {r : Option Script}

theorem Call.run_of_settle {m : InPlace Unit} {result : Except BuilderError Builder}
    (h : m b = InPlace.settle b result) :
    (∃ b', result = .ok b' ∧ (do m; return none : InPlace (Option Script)) b = .ok none b') ∨
      ∃ e, result = .error e ∧ (do m; return none : InPlace (Option Script)) b = .error e b := by
  simp only [bind, EStateM.bind, h]
  cases result with
  | ok b' => exact Or.inl ⟨b', rfl, rfl⟩
  | error e => exact Or.inr ⟨e, rfl, rfl⟩

/-- A call does what its addition does, or it is refused and changes nothing. -/
theorem Call.run_cases (b : Builder) (call : Call) :
    (∃ r b', call.addition b = .ok b' ∧ call.run b = .ok r b') ∨
      ∃ e, call.addition b = .error e ∧ call.run b = .error e b := by
  -- All calls but a drain are an addition in place, which gives nothing back.
  have hnone : ∀ {m : InPlace Unit}, call.run = (do m; return none) →
      m b = InPlace.settle b (call.addition b) →
      (∃ r b', call.addition b = .ok b' ∧ call.run b = .ok r b') ∨
        ∃ e, call.addition b = .error e ∧ call.run b = .error e b := by
    intro m hrun hm
    rw [hrun]
    exact (run_of_settle hm).imp_left fun ⟨b', hb'⟩ => ⟨none, b', hb'⟩
  cases call with
  | addOp code => exact hnone rfl (InPlace.addOp_apply b code)
  | addOps codes => exact hnone rfl (InPlace.addOps_apply b codes)
  | addData data => exact hnone rfl (InPlace.addData_apply b data)
  | addInt n => exact hnone rfl (InPlace.addInt_apply b n)
  | drain => exact Or.inl ⟨_, empty, rfl, rfl⟩

theorem Call.run_eq_error_iff :
    call.run b = .error e b' ↔ b' = b ∧ call.addition b = .error e := by
  rcases call.run_cases b with ⟨r, b'', hadd, hrun⟩ | ⟨e', hadd, hrun⟩
  · rw [hrun, hadd]
    exact iff_of_false (fun h => by cases h) (fun h => by cases h.2)
  · rw [hrun, hadd, Except.error.injEq, EStateM.Result.error.injEq]
    exact ⟨fun ⟨he, hb⟩ => ⟨hb.symm, he⟩, fun ⟨hb, he⟩ => ⟨he, hb.symm⟩⟩

theorem Call.addition_of_run (h : call.run b = .ok r b') : call.addition b = .ok b' := by
  rcases call.run_cases b with ⟨r', b'', hadd, hrun⟩ | ⟨e', hadd, hrun⟩
  · rw [hrun] at h
    cases h
    exact hadd
  · rw [hrun] at h
    cases h

/-! ## Exact builders -/

/-- The length is that of the commands, and neither it nor the data of a push is above its limit. -/
structure Exact (b : Builder) : Prop where
  byteLength_eq : b.byteLength = (Command.encode b.commands).length
  byteLength_le : b.byteLength ≤ Limits.scriptSize
  length_le : ∀ p, .push p ∈ b.commands → p.data.length ≤ Limits.elementSize

theorem exact_empty : Exact empty :=
  ⟨rfl, Nat.zero_le _, fun _ h => by cases h⟩

/-- Commands are added with their length. -/
theorem Exact.append (h : Exact b) {cs : List Command}
    (hroom : b.byteLength + (Command.encode cs).length ≤ Limits.scriptSize)
    (hdata : ∀ p, .push p ∈ cs → p.data.length ≤ Limits.elementSize) :
    Exact ⟨b.commands ++ cs, b.byteLength + (Command.encode cs).length⟩ := by
  refine ⟨?_, hroom, fun p hp => ?_⟩
  · show _ = (List.flatMap _ _).length
    rw [List.flatMap_append, List.length_append, h.byteLength_eq]
    rfl
  · exact (List.mem_append.mp hp).elim (h.length_le p) (hdata p)

theorem length_encode_ops (codes : List Opcode) :
    (Command.encode (codes.map .op)).length = codes.length := by
  induction codes with
  | nil => rfl
  | cons code codes ih =>
    rw [List.map_cons, Command.encode_cons, List.length_append, ih, List.length_cons,
      Nat.add_comm]
    rfl

theorem length_encode_canonical {data : Bytes} {c : Command} (h : canonical data = .ok c) :
    (Command.encode [c]).length = canonicalSize data := by
  rw [← byteLength_canonical h, Command.length_encode, Command.totalLength, Command.totalLength,
    Nat.add_zero]

theorem Exact.addOps (h : Exact b) {codes : List Opcode} (hb' : b.addOps codes = .ok b') :
    Exact b' := by
  unfold Builder.addOps at hb'
  split_ifs at hb' with hfull
  cases hb'
  rw [← length_encode_ops codes] at hfull ⊢
  refine h.append (Nat.not_lt.mp hfull) fun p hp => ?_
  obtain ⟨_, -, hp⟩ := List.mem_map.mp hp
  cases hp

theorem Exact.addOp (h : Exact b) {code : Opcode} (hb' : b.addOp code = .ok b') : Exact b' := by
  have hops : b.addOps [code] = .ok b' := by
    unfold Builder.addOp at hb'
    split_ifs at hb' with hfull
    rw [Builder.addOps, List.length_singleton, if_neg (by omega)]
    exact hb'
  exact h.addOps hops

theorem Exact.addData (h : Exact b) {data : Bytes} (hb' : b.addData data = .ok b') : Exact b' := by
  obtain ⟨hroom, hlen, c, hc, rfl⟩ := addData_eq_ok_iff.mp hb'
  rw [← length_encode_canonical hc] at hroom ⊢
  refine h.append hroom fun p hp => ?_
  rw [List.mem_singleton] at hp
  rw [data_of_canonical (hp ▸ hc)]
  exact hlen

theorem Exact.addInt (h : Exact b) {n : ℤ} (hb' : b.addInt n = .ok b') : Exact b' := by
  rw [addInt_eq] at hb'
  split_ifs at hb'
  exact h.addData hb'

/-- A call keeps a builder exact. -/
theorem Exact.addition (h : Exact b) (hb' : call.addition b = .ok b') : Exact b' := by
  cases call with
  | addOp code => exact h.addOp hb'
  | addOps codes => exact h.addOps hb'
  | addData data => exact h.addData hb'
  | addInt n => exact h.addInt hb'
  | drain =>
    cases hb'
    exact exact_empty

theorem Exact.leave (h : Exact b) (call : Call) : Exact (call.leave b) := by
  unfold Call.leave
  rcases call.run_cases b with ⟨r, b', hadd, hrun⟩ | ⟨e, -, hrun⟩
  · rw [hrun]
    exact h.addition hadd
  · rw [hrun]
    exact h

theorem Exact.after (h : Exact b) (calls : List Call) : Exact (after calls b) := by
  induction calls generalizing b with
  | nil => exact h
  | cons call calls ih => exact ih (h.leave call)

/-! ## Which calls fail -/

/-- How the calls on a builder fare. -/
structure Fares (b : Builder) : Prop where
  /-- A refused call changes neither the commands nor the length. -/
  unchanged : ∀ call e b', Call.run call b = .error e b' → b' = b
  /-- An opcode is refused if it would pass the limit. -/
  op_error : ∀ code e b', (Call.addOp code).run b = .error e b' ↔
    b' = b ∧ Limits.scriptSize < b.byteLength + 1 ∧ e = .opcodeRejected code
  ops_error : ∀ codes e b', (Call.addOps codes).run b = .error e b' ↔
    b' = b ∧ Limits.scriptSize < b.byteLength + codes.length ∧ e = .opcodesRejected codes.length
  /-- Data is refused if its canonical form would pass the limit, and else if it is too long. -/
  data_error : ∀ data e b', (Call.addData data).run b = .error e b' ↔ b' = b ∧
    (Limits.scriptSize < b.byteLength + canonicalSize data ∧
        e = .dataRejected (canonicalSize data) ∨
      b.byteLength + canonicalSize data ≤ Limits.scriptSize ∧ Limits.elementSize < data.length ∧
        e = .elementTooBig data.length)
  /-- Other data is added as one command, which has the canonical size. -/
  data_ok : ∀ data r b', (Call.addData data).run b = .ok r b' →
    ∃ c, canonical data = .ok c ∧ (Command.encode [c]).length = canonicalSize data ∧
      b' = ⟨b.commands ++ [c], b.byteLength + canonicalSize data⟩
  /-- A drain gives the script that was built. -/
  drain_eq : Call.drain.run b = .ok (some b.toScript) empty

theorem addOp_eq_error_iff {code : Opcode} : b.addOp code = .error e ↔
    Limits.scriptSize < b.byteLength + 1 ∧ e = .opcodeRejected code := by
  unfold addOp
  split_ifs with hfull
  · rw [Except.error.injEq, and_iff_right (Nat.lt_succ_of_le hfull), eq_comm]
  · exact iff_of_false (fun h => by cases h) (fun h => by omega)

theorem addOps_eq_error_iff {codes : List Opcode} : b.addOps codes = .error e ↔
    Limits.scriptSize < b.byteLength + codes.length ∧ e = .opcodesRejected codes.length := by
  unfold addOps
  split_ifs with hfull
  · rw [Except.error.injEq, and_iff_right hfull, eq_comm]
  · exact iff_of_false (fun h => by cases h) (fun h => hfull h.1)

theorem fares (b : Builder) : Fares b where
  unchanged _ _ _ h := (Call.run_eq_error_iff.mp h).1
  op_error _ _ _ := Call.run_eq_error_iff.trans (and_congr_right fun _ => addOp_eq_error_iff)
  ops_error _ _ _ := Call.run_eq_error_iff.trans (and_congr_right fun _ => addOps_eq_error_iff)
  data_error _ _ _ := Call.run_eq_error_iff.trans (and_congr_right fun _ => addData_eq_error_iff)
  data_ok _ _ _ h := by
    obtain ⟨-, -, c, hc, hb'⟩ := addData_eq_ok_iff.mp (Call.addition_of_run h)
    exact ⟨c, hc, length_encode_canonical hc, hb'⟩
  drain_eq := rfl

/-- After any calls on a new builder, refused ones among them, the length is that of the commands,
and the limits are kept. Then, too, a refused call changes nothing, and the calls that add opcodes
and data are refused exactly when what they add would pass the limit of the script, or else the
limit of an element. -/
theorem exactAfterCalls (calls : List Call) :
    Exact (after calls empty) ∧ Fares (after calls empty) :=
  ⟨exact_empty.after calls, fares _⟩

end SpendScript.Builder
