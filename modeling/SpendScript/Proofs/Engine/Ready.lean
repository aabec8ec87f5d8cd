import SpendScript.Proofs.Engine.Checks
import SpendScript.Proofs.Engine.Opcodes

/-!
# What successful runs ask for

Runs of commands that skip nothing, told by what lies on the stack between them. Each lemma takes
one command, or a few pushes, off the front of a successful run.

Results:
* `Engine.Ready`: a point of a run where nothing is skipped.
* `Engine.Ready.of_loop_dup`, `Engine.Ready.of_loop_checkSig`, …: what the commands of locks ask of
  the stack.
-/

namespace SpendScript

namespace Engine

/-- Nothing is skipped, `cs` is yet to come, and the stack is `stack`. -/
structure Ready (s : State) (cs : List Command) (stack : Stack) : Prop where
  pending_eq : s.pending = cs
  stack_eq : s.stack = stack
  conditions_eq : s.conditions = []
  sound : SigCache.Sound s.cache

namespace Ready

variable {env : Env} {s t : State} {code : Opcode} {c : Command} {cs rest : List Command}
  {stack : Stack} {n : ℕ}

theorem withStack (h : Ready s cs stack) (stack' : Stack) :
    Ready { s with stack := stack' } cs stack' :=
  ⟨h.pending_eq, rfl, h.conditions_eq, h.sound⟩

theorem fetched (h : Ready s (c :: rest) stack) : Ready (fetched s rest) rest stack :=
  ⟨rfl, h.stack_eq, h.conditions_eq, h.sound⟩

theorem started (h : Ready s cs stack) (code : Opcode) : Ready (started s code) cs stack :=
  ⟨h.pending_eq, h.stack_eq, h.conditions_eq, h.sound⟩

theorem of_frame (h : Ready s cs stack) (hframe : DataFrame s t) (stack' : Stack) :
    Ready { t with stack := stack' } cs stack' :=
  ⟨hframe.pending_eq.trans h.pending_eq, rfl, hframe.conditions_eq.trans h.conditions_eq,
    hframe.sound h.sound⟩

theorem isExecuting (h : Ready s cs stack) : s.isExecuting = true :=
  isExecuting_of_conditions_eq_nil h.conditions_eq

/-! ## Single commands -/

/-- An opcode acts as soon as it is fetched. -/
theorem of_loop_op (h : Ready s (.op code :: rest) stack) (hd : code.isDisabled = false)
    (hloop : loop env (n + 1) s = .ok () t) :
    ∃ s₀ s', Ready s₀ rest stack ∧ perform env code (Operation.ofOpcode code) s₀ = .ok () s' ∧
      loop env n s' = .ok () t := by
  obtain ⟨s', hrun, -, hrest⟩ := (loop_cons h.pending_eq n).mp hloop
  obtain ⟨-, hperform⟩ := (runOpcode_executing hd h.fetched.isExecuting).mp hrun
  exact ⟨_, s', h.fetched.started code, hperform, hrest⟩

theorem of_loop_dup (h : Ready s (.op Opcode.dup :: rest) stack)
    (hloop : loop env (n + 1) s = .ok () t) :
    ∃ item below s', stack = item :: below ∧ Ready s' rest (item :: item :: below) ∧
      loop env n s' = .ok () t := by
  obtain ⟨s₀, s', h₀, hperform, hrest⟩ := h.of_loop_op (by decide) hloop
  obtain ⟨item, below, hs, rfl⟩ := perform_dup.mp hperform
  exact ⟨item, below, _, h₀.stack_eq.symm.trans hs, h₀.withStack _, hrest⟩

theorem of_loop_hash160 (h : Ready s (.op Opcode.hash160 :: rest) stack)
    (hloop : loop env (n + 1) s = .ok () t) :
    ∃ item below s', stack = item :: below ∧
      Ready s' rest ((Digest.hash160 item).bytes :: below) ∧ loop env n s' = .ok () t := by
  obtain ⟨s₀, s', h₀, hperform, hrest⟩ := h.of_loop_op (by decide) hloop
  obtain ⟨item, below, hs, rfl⟩ := perform_hash.mp hperform
  exact ⟨item, below, _, h₀.stack_eq.symm.trans hs, h₀.withStack _, hrest⟩

theorem of_loop_equalVerify (h : Ready s (.op Opcode.equalVerify :: rest) stack)
    (hloop : loop env (n + 1) s = .ok () t) :
    ∃ item below s', stack = item :: item :: below ∧ Ready s' rest below ∧
      loop env n s' = .ok () t := by
  obtain ⟨s₀, s', h₀, hperform, hrest⟩ := h.of_loop_op (by decide) hloop
  obtain ⟨item, below, hs, rfl⟩ := perform_equalVerify.mp hperform
  exact ⟨item, below, _, h₀.stack_eq.symm.trans hs, h₀.withStack _, hrest⟩

theorem of_loop_checkSig (h : Ready s (.op Opcode.checkSig :: rest) stack)
    (hloop : loop env (n + 1) s = .ok () t) :
    ∃ sig key below valid s', stack = key :: sig :: below ∧
      (valid = true → SignedBy env.digest key sig) ∧
      Ready s' rest (ScriptNumber.ofBool valid :: below) ∧ loop env n s' = .ok () t := by
  obtain ⟨s₀, s', h₀, hperform, hrest⟩ := h.of_loop_op (by decide) hloop
  obtain ⟨sig, key, below, valid, u, hs, hcheck, rfl⟩ := perform_checkSig.mp hperform
  have hframe := (checkSignature_checkFrame sig key hcheck).toDataFrame
  refine ⟨sig, key, below, valid, _, h₀.stack_eq.symm.trans hs, ?_,
    (h₀.withStack below).of_frame hframe _, hrest⟩
  rintro rfl
  exact checkSignature_eq_true (h₀.withStack below).sound hcheck

/-- A command that only adds an item leaves it on top of the stack. -/
theorem of_loop_push {data : Bytes} (h : Ready s (c :: rest) stack)
    (hr : Script.scriptHashLock? rest = none) (hc : c.pushed? = some data)
    (hloop : loop env (n + 1) s = .ok () t) :
    ∃ s', Ready s' rest (data :: stack) ∧ loop env n s' = .ok () t := by
  obtain ⟨s', hrun, -, hrest⟩ := (loop_cons h.pending_eq n).mp hloop
  rw [runCommand_eq_runPlain (s := Engine.fetched s rest) hr] at hrun
  obtain ⟨-, events, rfl⟩ := runPlain_pushed h.fetched.isExecuting hc hrun
  rw [h.fetched.stack_eq] at hrest
  exact ⟨{ Engine.fetched s rest with stack := data :: stack, events := events },
    ⟨rfl, rfl, h.conditions_eq, h.sound⟩, hrest⟩

/-- Commands that only add items leave them on the stack, the last one on top. -/
theorem of_loop_pushed {items : List Bytes} (h : Ready s (cs ++ rest) stack)
    (hr : Script.Shields rest) (hitems : cs.map Command.pushed? = items.map some)
    (hloop : loop env (cs.length + n) s = .ok () t) :
    ∃ s', Ready s' rest (items.reverse ++ stack) ∧ loop env n s' = .ok () t := by
  induction cs generalizing s items stack with
  | nil =>
    rw [List.map_nil, eq_comm, List.map_eq_nil_iff] at hitems
    subst hitems
    rw [List.length_nil, Nat.zero_add] at hloop
    exact ⟨s, h, hloop⟩
  | cons c cs ih =>
    cases items with
    | nil => cases hitems
    | cons item items =>
      rw [List.map_cons, List.map_cons, List.cons.injEq] at hitems
      rw [List.length_cons, Nat.add_right_comm] at hloop
      obtain ⟨s₁, h₁, hloop⟩ := of_loop_push h (hr cs) hitems.1 hloop
      obtain ⟨s', h', hrest⟩ := ih h₁ hitems.2 hloop
      refine ⟨s', ?_, hrest⟩
      rw [List.reverse_cons, List.append_assoc]
      exact h'

/-- The key count, the keys, the signature count, the signatures and one more item are taken. -/
theorem of_loop_checkMultiSig (h : Ready s (.op Opcode.checkMultiSig :: rest) stack)
    (hloop : loop env (n + 1) s = .ok () t) :
    ∃ keyCount keys sigCount sigs dummy below valid s',
      stack = keyCount :: (keys.reverse ++ sigCount :: (sigs.reverse ++ dummy :: below)) ∧
      ScriptNumber.decode keyCount = .ok (keys.length : ℤ) ∧
      ScriptNumber.decode sigCount = .ok (sigs.length : ℤ) ∧
      (valid = true → ∃ chosen, chosen.Sublist keys ∧
        List.Forall₂ (SignedBy env.digest) chosen sigs) ∧
      Ready s' rest (ScriptNumber.ofBool valid :: below) ∧ loop env n s' = .ok () t := by
  obtain ⟨s₀, s', h₀, hperform, hrest⟩ := h.of_loop_op (by decide) hloop
  obtain ⟨valid, u, hcheck, rfl⟩ := perform_checkMultiSig.mp hperform
  obtain ⟨keyCount, keys, sigCount, sigs, dummy, below, hs, hkeyCount, hsigCount, -, -, -,
    hmatch⟩ := checkMultiSig_eq_ok.mp hcheck
  have hframe := Keeps.matchKeys (fun sig key => checkSignature_checkFrame sig key) keys sigs hmatch
  refine ⟨keyCount, keys, sigCount, sigs, dummy, below, valid, _, h₀.stack_eq.symm.trans hs,
    hkeyCount, hsigCount, ?_, ?_, hrest⟩
  · rintro rfl
    exact matchKeys_eq_true (s := { s₀ with
      stack := below, operations := s₀.operations + keys.length }) keys sigs h₀.sound hmatch
  · rw [hframe.stack_eq]
    exact ⟨hframe.pending_eq.trans h₀.pending_eq, rfl, hframe.conditions_eq.trans h₀.conditions_eq,
      hframe.sound h₀.sound⟩

end Ready

end Engine

end SpendScript
