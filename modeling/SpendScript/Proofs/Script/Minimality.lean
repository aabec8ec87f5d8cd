import SpendScript.Proofs.Engine.Growth
import SpendScript.Proofs.Script.Builder
import SpendScript.Proofs.Script.Coding

/-!
# Minimal pushes

The rule for minimal pushes looks at the bytes of a push. It says that no command, opcode or push,
puts the same item on every stack and takes less space.

* `Command.AddsAlone`: run by itself, a command puts an item on whatever stack there is.

Results:
* `Push.isMinimal_iff`: the encoding is the shortest one, and no opcode stands for the data.
* `Command.item_of_op`: the items that opcodes add are the empty one and those of the rule.
* `Push.exists_shorter`: a push that is not minimal has a shorter replacement under every policy.
* `Push.minimalExact`: a push is minimal if and only if no command that adds its data is shorter,
  and all data but the bytes that opcodes stand for has one minimal push.
-/

namespace SpendScript

/-! ## Encodings -/

namespace PushEncoding

variable {length : ℕ} {e e' : PushEncoding}

/-- The shortest encoding holds the data, and has the shortest header of those that do. -/
theorem shortest_least (h : shortest? length = some e) : length ≤ e.maxLength ∧
    ∀ e' : PushEncoding, length ≤ e'.maxLength → e.headerLength ≤ e'.headerLength := by
  unfold shortest? at h
  split_ifs at h with h₁ h₂ h₃ <;> cases h
  · refine ⟨h₁, fun e' _ => ?_⟩
    cases e' <;> decide
  · refine ⟨h₂, fun e' h' => ?_⟩
    cases e' with
    | direct => exact absurd h' h₁
    | pushData1 | pushData2 => decide
  · refine ⟨h₃, fun e' h' => ?_⟩
    cases e' with
    | direct => exact absurd h' h₁
    | pushData1 => exact absurd h' h₂
    | pushData2 => decide

theorem exists_shortest_iff : (∃ e, shortest? length = some e) ↔ length ≤ 65535 := by
  unfold shortest?
  split_ifs <;> simp <;> omega

theorem headerLength_injective (h : e.headerLength = e'.headerLength) : e = e' := by
  cases e <;> cases e' <;> simp_all [headerLength]

theorem maxLength_le (e : PushEncoding) : e.maxLength ≤ 65535 := by
  cases e <;> decide

/-- Only the encoding with the longest header holds more than 255 bytes. -/
theorem maxLength_le_of_lt (h : e.headerLength < e'.headerLength) : e.maxLength ≤ 255 := by
  cases e with
  | direct | pushData1 => decide
  | pushData2 => cases e' <;> simp [headerLength] at h

end PushEncoding

namespace Push

variable {data : Bytes} {e : PushEncoding}

/-- The encoding of a minimal push is the shortest one, and no opcode stands for its data. -/
theorem isMinimal_iff (p : Push) : p.isMinimal = true ↔
    PushEncoding.shortest? p.data.length = some p.encoding ∧
      ∀ b, p.data = [b] → hasOpcode b = false := by
  unfold isMinimal
  match hdata : p.data with
  | [] =>
    have hdirect : PushEncoding.shortest? 0 = some .direct := rfl
    simp [hdirect, eq_comm (a := p.encoding)]
  | [b] =>
    have hdirect : PushEncoding.shortest? 1 = some .direct := rfl
    cases hb : hasOpcode b with
    | false => simp [hdirect, hb, eq_comm (a := p.encoding)]
    | true => simp [hb]
  | _ :: _ :: _ => simp

theorem withEncoding_isMinimal_iff :
    (∃ p, withEncoding data e = .ok p ∧ p.isMinimal = true) ↔
      PushEncoding.shortest? data.length = some e ∧ ∀ b, data = [b] → hasOpcode b = false := by
  unfold withEncoding
  constructor
  · rintro ⟨p, hp, hmin⟩
    split_ifs at hp
    cases hp
    exact (isMinimal_iff _).mp hmin
  · intro h
    have hle := (PushEncoding.shortest_least h.1).1
    refine ⟨⟨data, e, hle⟩, dif_pos hle, ?_⟩
    exact (isMinimal_iff _).mpr h

end Push

/-! ## Items that opcodes add -/

namespace Engine

variable {env : Env} {s t : State} {code : Opcode} {op : Operation}

theorem rearrange_bare {f : Stack → Except ScriptError Stack} (hs : s.stack = [])
    (hf : ∀ stack, f [] = .ok stack → stack = []) (h : rearrange f s = .ok () t) :
    t.stack = [] := by
  obtain ⟨stack, hstack, rfl⟩ := rearrange_eq_ok.mp h
  rw [hs] at hstack
  exact hf stack hstack

theorem isDisabled_of_runOpcode (h : runOpcode env code s = .ok () t) :
    code.isDisabled = false := by
  by_contra hdisabled
  unfold runOpcode at h
  rw [if_pos (eq_true_of_ne_false hdisabled)] at h
  cases h

theorem pushNumber_eq_ok {n : ℤ} (h : pushNumber n s = .ok () t) :
    t.stack = ScriptNumber.encode n :: s.stack := by
  unfold pushNumber at h
  split_ifs at h
  · cases h
    rfl
  · cases h

/-- With nothing on the stacks and no open conditional, an operation leaves nothing on the stack,
or its number. -/
theorem stack_of_perform_bare (hs : s.stack = []) (halt : s.alt = []) (hcond : s.conditions = [])
    (h : perform env code op s = .ok () t) :
    t.stack = [] ∨ t.stack = [ScriptNumber.encode op.constant] := by
  obtain ⟨stack, alt, conditions, operations, position, pending, starts, cache, events⟩ := s
  subst hs halt hcond
  cases op with
  | pushNumber n => exact .inr (pushNumber_eq_ok h)
  | depth =>
    simp only [perform, get_bind] at h
    exact .inr (pushNumber_eq_ok h)
  | nothing =>
    cases h
    exact .inl rfl
  | drop n | dup n | copyBelow n | rot n | swap n =>
    refine .inl (rearrange_bare rfl (fun stack hstack => ?_) h)
    obtain ⟨-, rfl⟩ := needing_eq_ok hstack
    simp
  -- all others take an item, or end or switch a conditional, or fail anyway
  | _ => cases h

end Engine

/-- The numbers of the opcodes. -/
theorem Operation.constant_ofOpcode (code : Opcode) :
    -1 ≤ (ofOpcode code).constant ∧ (ofOpcode code).constant ≤ 16 := by
  have h : ∀ i : Fin 256, -1 ≤ (ofOpcode (UInt8.ofFin i)).constant ∧
      (ofOpcode (UInt8.ofFin i)).constant ≤ 16 := by decide +kernel
  exact h code.toFin

/-- They are spelled by no byte, or by one that the rule for minimal pushes names. -/
theorem ScriptNumber.encode_of_small {n : ℤ} (hlo : -1 ≤ n) (hhi : n ≤ 16) :
    encode n = [] ∨ ∃ b ∈ encode n, encode n = [b] ∧ Push.hasOpcode b = true := by
  interval_cases n <;> decide +kernel

namespace Command

variable {env : Env} {c : Command} {item : Bytes}

/-- Run by itself, the command puts the item on whatever stack there is. -/
def AddsAlone (env : Env) (c : Command) (item : Bytes) : Prop :=
  ∀ stack : Stack, ∃ s : State,
    Engine.runCommand env c { State.start Script.empty Script.noCache with stack := stack } =
      .ok () s ∧ s.stack = item :: stack

theorem Adds.addsAlone (h : c.Adds item) (env : Env) : c.AddsAlone env item := by
  intro stack
  obtain ⟨events, hrun⟩ :=
    h env { State.start Script.empty Script.noCache with stack := stack } rfl rfl
  exact ⟨_, hrun, rfl⟩

/-- An opcode that adds an item to every stack adds it to the empty one, so it can only be one of
the small numbers. -/
theorem item_of_op {code : Opcode} (h : (op code).AddsAlone env item) :
    item = [] ∨ ∃ b, item = [b] ∧ Push.hasOpcode b = true := by
  obtain ⟨s, hrun, hs⟩ := h []
  have hd : code.isDisabled = false := Engine.isDisabled_of_runOpcode hrun
  obtain ⟨-, hperform⟩ := (Engine.runOpcode_executing hd rfl).mp hrun
  rcases Engine.stack_of_perform_bare rfl rfl rfl hperform with hnone | hitem
  · rw [hs] at hnone
    cases hnone
  · rw [hs] at hitem
    obtain rfl := (List.cons.inj hitem).1
    obtain ⟨hlo, hhi⟩ := Operation.constant_ofOpcode code
    rcases ScriptNumber.encode_of_small hlo hhi with hnil | ⟨b, -, hb⟩
    · exact .inl hnil
    · exact .inr ⟨b, hb⟩

theorem data_of_push {p : Push} (h : (push p).AddsAlone env item) : p.data = item := by
  obtain ⟨s, hrun, hs⟩ := h []
  rw [Engine.runCommand_eq_runPlain rfl, Engine.runPlain_push_executing rfl] at hrun
  obtain ⟨-, -, rfl⟩ := hrun
  exact (List.cons.inj hs).1

end Command

/-! ## The rule -/

namespace Push

variable {env : Env} {data : Bytes} {p : Push}

/-- A byte of the rule has an opcode, which adds it. -/
theorem exists_opcode {b : UInt8} (h : hasOpcode b = true) :
    ∃ code, (Command.op code).Adds [b] := by
  cases hcode : Builder.opcodeFor? [b] with
  | none =>
    rw [hasOpcode_of_opcodeFor hcode rfl] at h
    cases h
  | some code =>
    have hzero : b ≠ 0 := by
      rintro rfl
      cases h
    have hadds := Builder.adds_of_opcodeFor hcode
    rw [Builder.pushedFor, if_neg (by simpa using hzero)] at hadds
    exact ⟨code, hadds⟩

/-- In front of data of its own an opcode has a byte less than any push. -/
theorem exists_shorter_op {b : UInt8} (hdata : p.data = [b]) (hb : hasOpcode b = true) :
    ∃ c : Command, c.Adds p.data ∧ c.byteLength < p.byteLength := by
  obtain ⟨code, hadds⟩ := exists_opcode hb
  refine ⟨.op code, hdata ▸ hadds, ?_⟩
  rw [Command.byteLength, byteLength, hdata, List.length_singleton]
  have hpos : 1 ≤ p.encoding.headerLength := by cases p.encoding <;> decide
  omega

/-- Data in another encoding than the shortest one is pushed in the shortest one. It is not too long
for that: the longest encoding is the shortest one for all data that only it holds. -/
theorem exists_shorter_push (hdata : ∀ b, p.data = [b] → hasOpcode b = false)
    (henc : PushEncoding.shortest? p.data.length ≠ some p.encoding) :
    ∃ c : Command, c.Adds p.data ∧ c.byteLength < p.byteLength := by
  obtain ⟨q, hq⟩ := exists_ofBytes (p.length_le.trans p.encoding.maxLength_le)
  obtain ⟨hqdata, hqenc⟩ := ofBytes_eq_ok hq
  have hheader : q.encoding.headerLength < p.encoding.headerLength := by
    have hle := (PushEncoding.shortest_least hqenc).2 p.encoding p.length_le
    refine lt_of_le_of_ne hle fun heq => henc ?_
    rw [hqenc, PushEncoding.headerLength_injective heq]
  have hlen : q.data.length ≤ Limits.elementSize :=
    (q.length_le.trans (PushEncoding.maxLength_le_of_lt hheader)).trans (by decide)
  have hpushes : Command.Pushes (.push q) p.data :=
    ⟨congrArg some hqdata, fun _ => ⟨hlen, fun _ => isMinimal_of_ofBytes hq hdata⟩⟩
  refine ⟨.push q, hpushes.adds, ?_⟩
  rw [Command.byteLength, byteLength, byteLength, hqdata]
  omega

theorem exists_shorter (h : p.isMinimal = false) :
    ∃ c : Command, c.Adds p.data ∧ c.byteLength < p.byteLength := by
  by_cases hop : ∃ b, p.data = [b] ∧ hasOpcode b = true
  · obtain ⟨b, hdata, hb⟩ := hop
    exact exists_shorter_op hdata hb
  · have hdata : ∀ b, p.data = [b] → hasOpcode b = false := by
      intro b hb
      by_contra hopcode
      exact hop ⟨b, hb, eq_true_of_ne_false hopcode⟩
    refine exists_shorter_push hdata fun henc => ?_
    rw [p.isMinimal_iff.mpr ⟨henc, hdata⟩] at h
    cases h

/-- A minimal push is as short as any command that adds its data. -/
theorem byteLength_le_of_addsAlone {c : Command} (h : p.isMinimal = true)
    (hc : c.AddsAlone env p.data) : p.byteLength ≤ c.byteLength := by
  obtain ⟨henc, hdata⟩ := p.isMinimal_iff.mp h
  cases c with
  | op code =>
    rcases Command.item_of_op hc with hnil | ⟨b, hb, hopcode⟩
    · rw [hnil] at henc
      have hdirect : p.encoding = .direct := (Option.some.inj henc).symm
      rw [byteLength, hnil, hdirect]
      exact Nat.le_refl 1
    · rw [hdata b hb] at hopcode
      cases hopcode
  | push q =>
    have hq := Command.data_of_push hc
    rw [Command.byteLength, byteLength, byteLength, hq]
    refine Nat.add_le_add_right ?_ _
    exact (PushEncoding.shortest_least henc).2 _ (hq ▸ q.length_le)

/-- A push is minimal if and only if no command that adds its data to every stack is written in
fewer bytes; if it is not, a shorter one adds the data wherever it is executed, under every policy.
Of the encodings of a byte string exactly one makes a minimal push, if the string is short enough to
be pushed and is not one of the bytes that opcodes stand for. -/
theorem minimalExact (env : Env) :
    (∀ p : Push, p.isMinimal = true ↔
      ∀ c : Command, c.AddsAlone env p.data → p.toBytes.length ≤ c.toBytes.length) ∧
    (∀ p : Push, p.isMinimal = false →
      ∃ c : Command, c.Adds p.data ∧ c.toBytes.length < p.toBytes.length) ∧
    ∀ data : Bytes, (∃! e, ∃ p, withEncoding data e = .ok p ∧ p.isMinimal = true) ↔
      data.length ≤ 65535 ∧ ∀ b, data = [b] → ¬(1 ≤ b ∧ b ≤ 0x10 ∨ b = 0x81) := by
  simp only [length_toBytes, Command.length_toBytes]
  refine ⟨fun p => ⟨fun h c => byteLength_le_of_addsAlone h, fun h => ?_⟩,
    fun p => exists_shorter, fun data => ?_⟩
  · by_contra hmin
    obtain ⟨c, hadds, hlt⟩ := exists_shorter (Bool.eq_false_iff.mpr hmin)
    exact absurd (h c (hadds.addsAlone env)) (Nat.not_le_of_lt hlt)
  · have hrule : (∀ b, data = [b] → ¬(1 ≤ b ∧ b ≤ 0x10 ∨ b = 0x81)) ↔
        ∀ b, data = [b] → hasOpcode b = false := by
      simp only [hasOpcode, decide_eq_false_iff_not]
    simp only [withEncoding_isMinimal_iff, hrule, ← PushEncoding.exists_shortest_iff]
    constructor
    · rintro ⟨e, h, -⟩
      exact ⟨⟨e, h.1⟩, h.2⟩
    · rintro ⟨⟨e, he⟩, hdata⟩
      refine ⟨e, ⟨he, hdata⟩, fun e' h' => ?_⟩
      exact Option.some.inj (h'.1.symm.trans he)

/-- Two bytes after a length byte of their own are pushed in one byte less, and a single seven is
pushed by an opcode. -/
theorem minimalExact_instance :
    let p : Push := ⟨[7, 8], .pushData1, by decide⟩
    p.isMinimal = false ∧ (∃ c : Command, c.Adds [7, 8] ∧ c.toBytes.length < 4) ∧
      (∃! e, ∃ q, withEncoding [7, 8] e = .ok q ∧ q.isMinimal = true) ∧
      ¬∃! e, ∃ q, withEncoding [7] e = .ok q ∧ q.isMinimal = true := by
  intro p
  have hmin : p.isMinimal = false := by decide
  obtain ⟨-, hshorter, hunique⟩ := minimalExact ⟨0, Flags.default⟩
  refine ⟨hmin, hshorter p hmin, (hunique [7, 8]).mpr ⟨by decide, nofun⟩, fun h => ?_⟩
  exact ((hunique [7]).mp h).2 7 rfl (by decide)

end Push

end SpendScript
