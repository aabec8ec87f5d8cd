import SpendScript.Proofs.Engine.Opcodes

/-!
# Growth of the stacks

How many items a computation adds to the two stacks. The stacks are measured only after a command, so
this bounds what they hold meanwhile.

Results:
* `Engine.perform_grows`: an operation adds at most as many items as its group has, or two.
* `Engine.runPlain_grows`, `Engine.runCommand_grows`: a command adds at most three, a command that
  reveals a script at most ten.
-/

namespace SpendScript

/-- The items on both stacks. -/
def State.items (s : State) : ℕ :=
  s.alt.length + s.stack.length

/-- How many items an operation adds at most. -/
def Operation.growth : Operation → ℕ
  | .dup n | .copyBelow n => n
  | _ => 2

/-- The number that an operation pushes whatever the stack holds. -/
def Operation.constant : Operation → ℤ
  | .pushNumber n => n
  | _ => 0

/-- The opcodes move groups of at most three items and push numbers up to 16. -/
theorem Operation.ofOpcode_bounded (code : Opcode) :
    (ofOpcode code).growth ≤ 3 ∧ (ofOpcode code).constant.natAbs ≤ 16 := by
  have h : ∀ i : Fin 256, (ofOpcode (UInt8.ofFin i)).growth ≤ 3 ∧
      (ofOpcode (UInt8.ofFin i)).constant.natAbs ≤ 16 := by decide +kernel
  exact h code.toFin

namespace Engine

variable {α β : Type} {env : Env} {j k : ℕ}

/-- The state `t` has at most `k` items more than the state `s`. -/
def GrownBy (k : ℕ) (s t : State) : Prop :=
  t.items ≤ s.items + k

instance : Std.Refl (GrownBy k) :=
  ⟨fun _ => Nat.le_add_right _ k⟩

instance : IsTrans State (GrownBy 0) :=
  ⟨fun _ _ _ h h' => Nat.le_trans h' h⟩

theorem CheckFrame.grownBy {s t : State} (h : CheckFrame s t) : GrownBy 0 s t := by
  show t.alt.length + t.stack.length ≤ s.alt.length + s.stack.length + 0
  rw [h.alt_eq, h.stack_eq]
  exact Nat.le_refl _

namespace Keeps

theorem grownBy_mono {m : Engine α} (h : Keeps (GrownBy j) m) (hjk : j ≤ k) :
    Keeps (GrownBy k) m :=
  h.mono fun s _ ht => Nat.le_trans ht (Nat.add_le_add_left hjk s.items)

/-- What the parts of a sequence add, adds up. -/
theorem grownBy_bind {m : Engine α} {f : α → Engine β} (hm : Keeps (GrownBy j) m)
    (hf : ∀ a, Keeps (GrownBy k) (f a)) : Keeps (GrownBy (j + k)) (m >>= f) := by
  intro s b t h
  obtain ⟨a, s₁, ha, hb⟩ := bind_eq_ok.mp h
  have h₁ := hm ha
  have h₂ := hf a hb
  unfold GrownBy at h₁ h₂ ⊢
  omega

/-- A first part that adds nothing does not count. -/
theorem grownBy_bind_left {m : Engine α} {f : α → Engine β} (hm : Keeps (GrownBy 0) m)
    (hf : ∀ a, Keeps (GrownBy k) (f a)) : Keeps (GrownBy k) (m >>= f) := by
  have h := grownBy_bind hm hf
  rwa [Nat.zero_add] at h

end Keeps

open Keeps (grownBy_mono grownBy_bind grownBy_bind_left)

/-! ## The stack -/

theorem emit_grows (e : Event) : Keeps (GrownBy 0) (emit e) :=
  Keeps.modify fun _ => Nat.le_refl _

theorem push_grows (item : Bytes) : Keeps (GrownBy 1) (push item) :=
  Keeps.modify fun _ => Nat.le_refl _

/-- A smaller stack has fewer items. -/
theorem grownBy_withStack {s : State} {stack : Stack} (h : stack.length ≤ s.stack.length + k) :
    GrownBy k s { s with stack := stack } := by
  show s.alt.length + stack.length ≤ s.alt.length + s.stack.length + k
  omega

theorem rearrange_grows {f : Stack → Except ScriptError Stack}
    (hf : ∀ s t, f s = .ok t → t.length ≤ s.length + k) : Keeps (GrownBy k) (rearrange f) := by
  intro s _ t h
  obtain ⟨stack, hstack, rfl⟩ := rearrange_eq_ok.mp h
  exact grownBy_withStack (hf _ _ hstack)

theorem needing_eq_ok {needed : ℕ} {s result t : Stack}
    (h : Stack.needing needed s result = .ok t) : needed ≤ s.length ∧ t = result := by
  unfold Stack.needing at h
  split_ifs at h with hneeded
  cases h
  exact ⟨hneeded, rfl⟩

theorem pop_grows : Keeps (GrownBy 0) pop := by
  intro s item t h
  obtain ⟨rest, hs, rfl⟩ := pop_eq_ok.mp h
  exact grownBy_withStack (by simp only [hs, List.length_cons]; omega)

theorem popTwo_grows : Keeps (GrownBy 0) popTwo := by
  intro s (a, b) t h
  obtain ⟨rest, hs, rfl⟩ := popTwo_eq_ok.mp h
  exact grownBy_withStack (by simp only [hs, List.length_cons]; omega)

theorem popThree_grows : Keeps (GrownBy 0) popThree := by
  intro s items t h
  unfold popThree at h
  rw [get_bind] at h
  match hs : s.stack with
  | [] | [_] | [_, _] =>
    rw [hs] at h
    cases h
  | c :: b :: a :: rest =>
    rw [hs] at h
    cases h
    exact grownBy_withStack (by simp only [hs, List.length_cons]; omega)

theorem popMany_grows (n : ℕ) : Keeps (GrownBy 0) (popMany n) := by
  intro s items t h
  obtain ⟨rest, hs, -, rfl⟩ := popMany_eq_ok.mp h
  exact grownBy_withStack (by simp only [hs, List.length_append]; omega)

/-! ## Numbers and answers -/

theorem popNumber_grows : Keeps (GrownBy 0) popNumber :=
  Keeps.bind pop_grows fun _ => .lift _

theorem popTwoNumbers_grows : Keeps (GrownBy 0) popTwoNumbers :=
  Keeps.bind popTwo_grows fun _ => Keeps.bind (.lift _) fun _ => Keeps.bind (.lift _) fun _ =>
    .pure _

theorem popThreeNumbers_grows : Keeps (GrownBy 0) popThreeNumbers :=
  Keeps.bind popThree_grows fun _ => Keeps.bind (.lift _) fun _ =>
    Keeps.bind (.lift _) fun _ => Keeps.bind (.lift _) fun _ => .pure _

theorem pushNumber_grows (n : ℤ) : Keeps (GrownBy 1) (pushNumber n) := by
  unfold pushNumber
  split_ifs
  · exact push_grows _
  · exact .throw _

theorem count_grows (n : ℕ) : Keeps (GrownBy 0) (count n) := by
  intro s _ t h
  rw [(count_eq_ok.mp h).2]
  exact Nat.le_refl _

theorem conclude_grows (verify answer : Bool) : Keeps (GrownBy 1) (conclude verify answer) := by
  unfold conclude
  split_ifs
  · exact .require _
  · exact push_grows _

theorem popDepth_grows : Keeps (GrownBy 0) popDepth := by
  refine Keeps.bind popNumber_grows fun depth => ?_
  split_ifs
  · exact .fail _
  · exact .pure _

theorem checkSignature_grows (signature key : Bytes) :
    Keeps (GrownBy 0) (checkSignature env signature key) :=
  (checkSignature_checkFrame signature key).mono fun _ _ h => h.grownBy

theorem checkMultiSig_grows : Keeps (GrownBy 0) (checkMultiSig env) := by
  refine Keeps.bind popNumber_grows fun keyCount => ?_
  split_ifs
  · exact .fail _
  · exact .fail _
  · refine Keeps.bind (count_grows _) fun _ => Keeps.bind (popMany_grows _) fun keys =>
      Keeps.bind popNumber_grows fun sigCount => ?_
    split_ifs
    · exact .fail _
    · exact .fail _
    · exact Keeps.bind (popMany_grows _) fun signatures => Keeps.bind pop_grows fun _ =>
        .matchKeys checkSignature_grows keys signatures

/-! ## Operations -/

theorem popCondition_grows : Keeps (GrownBy 0) (popCondition env) := by
  intro s holds t h
  unfold popCondition at h
  rw [get_bind] at h
  cases hs : s.stack with
  | nil =>
    rw [hs] at h
    cases h
  | cons item rest =>
    rw [hs] at h
    have ht : t = { s with stack := rest } := by
      obtain ⟨_, s₁, hset, hrest⟩ := bind_eq_ok.mp h
      cases hset
      split_ifs at hrest
      · cases hrest
      · cases hrest
        rfl
    rw [ht]
    exact grownBy_withStack (by simp only [hs, List.length_cons]; omega)

theorem toAlt_grows : Keeps (GrownBy 1) toAlt :=
  grownBy_bind_left pop_grows fun item => .modify fun s => by
    show s.alt.length + 1 + s.stack.length ≤ s.alt.length + s.stack.length + 1
    omega

theorem fromAlt_grows : Keeps (GrownBy 0) fromAlt := by
  intro s _ t h
  unfold fromAlt at h
  rw [get_bind] at h
  cases hs : s.alt with
  | nil =>
    rw [hs] at h
    cases h
  | cons item rest =>
    rw [hs] at h
    cases h
    show rest.length + (s.stack.length + 1) ≤ s.alt.length + s.stack.length + 0
    rw [hs, List.length_cons]
    omega

theorem dupIfTrue_grows : Keeps (GrownBy 2) dupIfTrue := by
  refine grownBy_bind_left pop_grows fun item => ?_
  split_ifs
  · exact grownBy_bind (push_grows _) fun _ => push_grows _
  · exact grownBy_mono (push_grows _) (by decide)

theorem size_grows : Keeps (GrownBy 1) size := by
  refine grownBy_bind_left .get fun s => ?_
  split
  · exact .fail _
  · exact pushNumber_grows _

theorem drop_grows (n : ℕ) : Keeps (GrownBy 0) (rearrange (Stack.drop n)) :=
  rearrange_grows fun s t h => by
    obtain ⟨hneeded, rfl⟩ := needing_eq_ok h
    rw [List.length_drop]
    omega

theorem dup_grows (n : ℕ) : Keeps (GrownBy n) (rearrange (Stack.dup n)) :=
  rearrange_grows fun s t h => by
    obtain ⟨hneeded, rfl⟩ := needing_eq_ok h
    simp only [List.length_append, List.length_take]
    omega

theorem copyBelow_grows (n : ℕ) : Keeps (GrownBy n) (rearrange (Stack.copyBelow n)) :=
  rearrange_grows fun s t h => by
    obtain ⟨hneeded, rfl⟩ := needing_eq_ok h
    simp only [List.length_append, List.length_take, List.length_drop]
    omega

theorem rot_grows (n : ℕ) : Keeps (GrownBy 0) (rearrange (Stack.rot n)) :=
  rearrange_grows fun s t h => by
    obtain ⟨hneeded, rfl⟩ := needing_eq_ok h
    simp only [List.length_append, List.length_take, List.length_drop]
    omega

theorem swap_grows (n : ℕ) : Keeps (GrownBy 0) (rearrange (Stack.swap n)) :=
  rearrange_grows fun s t h => by
    obtain ⟨hneeded, rfl⟩ := needing_eq_ok h
    simp only [List.length_append, List.length_take, List.length_drop]
    omega

theorem tuck_grows : Keeps (GrownBy 1) (rearrange Stack.tuck) :=
  rearrange_grows fun s t h => by
    unfold Stack.tuck at h
    split at h
    · cases h
      exact Nat.le_refl _
    · cases h

theorem nip_grows : Keeps (GrownBy 0) (rearrange Stack.nip) :=
  rearrange_grows fun s t h => by
    unfold Stack.nip at h
    split at h
    · cases h
      exact Nat.le_succ _
    · cases h

theorem pick_grows (depth : ℕ) : Keeps (GrownBy 1) (rearrange (Stack.pick depth)) :=
  rearrange_grows fun s t h => by
    unfold Stack.pick at h
    split at h
    · cases h
      exact Nat.le_refl _
    · cases h

theorem roll_grows (depth : ℕ) : Keeps (GrownBy 1) (rearrange (Stack.roll depth)) :=
  rearrange_grows fun s t h => by
    unfold Stack.roll at h
    split at h
    · cases h
      exact Nat.succ_le_succ (List.length_eraseIdx_le s depth)
    · cases h

/-- An operation adds at most as many items as its group has, or two. -/
theorem perform_grows (code : Opcode) (op : Operation) :
    Keeps (GrownBy op.growth) (perform env code op) := by
  have hzero : ∀ {m : Engine Unit}, Keeps (GrownBy 0) m → Keeps (GrownBy 2) m :=
    fun h => grownBy_mono h (Nat.zero_le 2)
  have hone : ∀ {m : Engine Unit}, Keeps (GrownBy 1) m → Keeps (GrownBy 2) m :=
    fun h => grownBy_mono h (by decide)
  cases op with
  | pushNumber n => exact hone (pushNumber_grows n)
  | nothing => exact .pure _
  | invalid => exact .fail _
  | reserved => exact .fail _
  | disabled => exact .fail _
  | openBranch _ | switchBranch | closeBranch =>
    exact hzero
      (perform_keeps_of_isConditional rfl (fun _ _ => Nat.le_refl _) popCondition_grows code)
  | verify => exact hzero (Keeps.bind pop_grows fun _ => .require _)
  | stop => exact .fail _
  | toAlt => exact hone toAlt_grows
  | fromAlt => exact hzero fromAlt_grows
  | drop n => exact hzero (drop_grows n)
  | dup n => exact dup_grows n
  | copyBelow n => exact copyBelow_grows n
  | rot n => exact hzero (rot_grows n)
  | swap n => exact hzero (swap_grows n)
  | dupIfTrue => exact dupIfTrue_grows
  | depth => exact hone (grownBy_bind_left .get fun _ => pushNumber_grows _)
  | nip => exact hzero nip_grows
  | pick => exact hone (grownBy_bind_left popDepth_grows pick_grows)
  | roll => exact hone (grownBy_bind_left popDepth_grows roll_grows)
  | tuck => exact hone tuck_grows
  | size => exact hone size_grows
  | equal verify => exact hone (grownBy_bind_left popTwo_grows fun _ => conclude_grows _ _)
  | unary f => exact hone (grownBy_bind_left popNumber_grows fun _ => pushNumber_grows _)
  | binary f => exact hone (grownBy_bind_left popTwoNumbers_grows fun _ => pushNumber_grows _)
  | verifyNumbersEqual => exact hzero (Keeps.bind popTwoNumbers_grows fun _ => .require _)
  | within => exact hone (grownBy_bind_left popThreeNumbers_grows fun _ => pushNumber_grows _)
  | hash f => exact hone (grownBy_bind_left pop_grows fun _ => push_grows _)
  | checkSig verify =>
    exact hone (grownBy_bind_left popTwo_grows fun _ =>
      grownBy_bind_left (checkSignature_grows _ _) fun _ => conclude_grows _ _)
  | checkMultiSig verify =>
    exact hone (grownBy_bind_left checkMultiSig_grows fun _ => conclude_grows _ _)

/-! ## Commands -/

theorem runOpcode_grows (code : Opcode) : Keeps (GrownBy 3) (runOpcode env code) := by
  unfold runOpcode
  split
  · exact .fail _
  · have hperform : Keeps (GrownBy 3) (perform env code (Operation.ofOpcode code)) :=
      grownBy_mono (perform_grows code _) (Operation.ofOpcode_bounded code).1
    have hrest : Keeps (GrownBy 3) (do
        let s ← MonadState.get
        if s.isExecuting || code.isConditional then
          emit (.executing code s.stack.length)
          perform env code (Operation.ofOpcode code)) := by
      refine grownBy_bind_left .get fun s => ?_
      split_ifs
      · exact grownBy_bind_left (emit_grows _) fun _ => hperform
      · exact .pure _
    split_ifs
    · exact grownBy_bind_left (count_grows 1) fun _ => hrest
    · exact hrest

/-- A command that reveals nothing adds at most three items. -/
theorem runPlain_grows (c : Command) : Keeps (GrownBy 3) (runPlain env c) := by
  cases c with
  | op code => exact runOpcode_grows code
  | push p =>
    refine grownBy_bind_left (admitPush_keeps p) fun admitted => ?_
    split_ifs
    · exact grownBy_mono (push_grows _) (by decide)
    · exact .pure _

theorem next_grows : Keeps (GrownBy 0) next := by
  intro s c t h
  cases hp : s.pending with
  | nil =>
    rw [next_nil hp] at h
    cases h
    exact Nat.le_refl _
  | cons c rest =>
    rw [next_cons hp] at h
    cases h
    exact Nat.le_refl _

theorem runNext_grows (n : ℕ) : Keeps (GrownBy (3 * n)) (runNext env n) := by
  induction n with
  | zero => exact .pure _
  | succ n ih =>
    refine grownBy_bind_left next_grows fun c => ?_
    split
    · exact .pure _
    · exact grownBy_mono (grownBy_bind (runPlain_grows _) fun _ => ih) (by omega)

theorem reveal_grows (data : Bytes) : Keeps (GrownBy 10) (reveal env data) := by
  refine grownBy_bind (push_grows data) fun _ => grownBy_bind (k := 0) (runNext_grows 3) fun _ => ?_
  refine Keeps.bind pop_grows fun _ => Keeps.bind (.require _) fun _ => Keeps.bind (.lift _) fun cs =>
    Keeps.bind (emit_grows _) fun _ => ?_
  exact .modify fun _ => Nat.le_refl _

/-- A command adds at most ten items: the revealed script and what its lock adds. -/
theorem runCommand_grows (c : Command) : Keeps (GrownBy 10) (runCommand env c) := by
  cases c with
  | op code => exact grownBy_mono (runOpcode_grows code) (by decide)
  | push p =>
    refine grownBy_bind_left (admitPush_keeps p) fun admitted => ?_
    split_ifs
    · refine grownBy_bind_left .get fun s => ?_
      split_ifs
      · exact reveal_grows p.data
      · exact grownBy_mono (push_grows _) (by decide)
    · exact .pure _

end Engine

end SpendScript
