import SpendScript.Proofs.Engine.Opcodes
import SpendScript.Proofs.Script.Number

/-!
# Derived stack opcodes

The opcodes that move groups of items do what `OP_PICK`, `OP_ROLL` and `OP_DROP` do to single items,
and fail as these do.

* `Stack.copyGroup`, `Stack.moveGroup`: a group below the top group is copied or moved to the top.
* `Stack.repeated`: a move made again and again.
* `Engine.performAll`: opcodes one after the other.

Results:
* `Stack.repeated_pick`, `Stack.repeated_roll`: single items from one depth make up a group;
  `Stack.copyGroup_succ`, `Stack.moveGroup_succ`: so a group is moved item by item.
* `Stack.swap_swap`, `Stack.rot_rot_rot`: the permutations of groups.
* `Engine.derivedOpcodes`: the opcodes.
-/

namespace SpendScript

/-! ## Moves of groups -/

namespace Stack

variable {d n skip : ℕ} {s t A B R : Stack} {f : Stack → Except ScriptError Stack}

/-- Copies `n` items below the top `skip` items to the top. -/
def copyGroup (skip n : ℕ) (s : Stack) : Except ScriptError Stack :=
  needing (skip + n) s ((List.drop skip s).take n ++ s)

/-- Moves `n` items below the top `skip` items to the top. -/
def moveGroup (skip n : ℕ) (s : Stack) : Except ScriptError Stack :=
  needing (skip + n) s ((List.drop skip s).take n ++ s.take skip ++ List.drop (skip + n) s)

/-- Moves nothing, but needs `n` items. -/
def stay (n : ℕ) (s : Stack) : Except ScriptError Stack :=
  needing n s s

/-- A move, made `n` times. -/
def repeated (f : Stack → Except ScriptError Stack) : ℕ → Stack → Except ScriptError Stack
  | 0, s => .ok s
  | n + 1, s => f s >>= repeated f n

theorem repeated_of_eq_ok (h : f s = .ok t) : repeated f (n + 1) s = repeated f n t := by
  rw [repeated, h]
  rfl

theorem dup_eq_copyGroup (n : ℕ) : dup n = copyGroup 0 n := by
  funext s
  simp only [dup, copyGroup, List.drop_zero, Nat.zero_add]

theorem copyBelow_eq_copyGroup (n : ℕ) : copyBelow n = copyGroup n n := by
  funext s
  simp only [copyBelow, copyGroup, Nat.two_mul]

theorem swap_eq_moveGroup (n : ℕ) : swap n = moveGroup n n := by
  funext s
  simp only [swap, moveGroup, Nat.two_mul]

theorem rot_eq_moveGroup (n : ℕ) : rot n = moveGroup (2 * n) n := by
  funext s
  simp only [rot, moveGroup, show 3 * n = 2 * n + n by omega]

/-- A stack that is deep enough begins with the two groups. -/
theorem exists_groups (h : skip + n ≤ s.length) :
    ∃ A B R, s = A ++ (B ++ R) ∧ A.length = skip ∧ B.length = n := by
  refine ⟨s.take skip, (List.drop skip s).take n, List.drop n (List.drop skip s), ?_, ?_, ?_⟩
  · simp only [List.take_append_drop]
  · simp; omega
  · simp; omega

theorem exists_two_groups (h : s.length = skip + n) :
    ∃ A B, s = A ++ B ∧ A.length = skip ∧ B.length = n := by
  refine ⟨s.take skip, List.drop skip s, (List.take_append_drop skip s).symm, ?_, ?_⟩
  · simp; omega
  · simp; omega

theorem needing_of_le (h : n ≤ s.length) : needing n s t = .ok t :=
  if_pos h

theorem needing_of_lt (h : s.length < n) : needing n s t = .error (.stackTooShort n s.length) :=
  if_neg (Nat.not_le_of_lt h)

theorem copyGroup_append (A B R : Stack) :
    copyGroup A.length B.length (A ++ (B ++ R)) = .ok (B ++ (A ++ (B ++ R))) := by
  unfold copyGroup
  rw [needing_of_le (by simp), List.drop_left, List.take_left]

theorem moveGroup_append (A B R : Stack) :
    moveGroup A.length B.length (A ++ (B ++ R)) = .ok (B ++ (A ++ R)) := by
  unfold moveGroup
  rw [needing_of_le (by simp), List.drop_left, List.take_left, List.take_left,
    ← List.drop_drop, List.drop_left, List.drop_left, List.append_assoc]

/-! ## Single items -/

theorem pick_append (A : Stack) (item : Bytes) (R : Stack) :
    pick A.length (A ++ item :: R) = .ok (item :: (A ++ item :: R)) := by
  simp [pick]

theorem pick_of_le (h : s.length ≤ d) : pick d s = .error (.stackTooShort (d + 1) s.length) := by
  simp [pick, h]

theorem roll_append (A : Stack) (item : Bytes) (R : Stack) :
    roll A.length (A ++ item :: R) = .ok (item :: (A ++ R)) := by
  simp [roll, List.eraseIdx_append_of_length_le]

theorem roll_of_le (h : s.length ≤ d) : roll d s = .error (.stackTooShort (d + 1) s.length) := by
  simp [roll, h]

/-- Picking from one depth again and again copies the group that ends there: the copy of an item
makes the next one as deep. -/
theorem repeated_pick (h : A.length + B.length = d + 1) :
    repeated (pick d) B.length (A ++ (B ++ R)) = .ok (B ++ (A ++ (B ++ R))) := by
  induction B using List.reverseRecOn generalizing A R with
  | nil => rfl
  | append_singleton B item ih =>
    rw [List.length_append, List.length_singleton] at h
    have hd : d = (A ++ B).length := by
      rw [List.length_append]
      omega
    have hpick : pick d (A ++ (B ++ [item] ++ R)) = .ok (item :: (A ++ (B ++ [item] ++ R))) := by
      simpa [hd] using pick_append (A ++ B) item R
    have hrest := ih (A := item :: A) (R := item :: R) (by simp; omega)
    rw [List.length_append, List.length_singleton, repeated_of_eq_ok hpick]
    simpa using hrest

/-- Rolling from one depth again and again moves the group that ends there. -/
theorem repeated_roll (h : A.length + B.length = d + 1) :
    repeated (roll d) B.length (A ++ (B ++ R)) = .ok (B ++ (A ++ R)) := by
  induction B using List.reverseRecOn generalizing A R with
  | nil => rfl
  | append_singleton B item ih =>
    rw [List.length_append, List.length_singleton] at h
    have hd : d = (A ++ B).length := by
      rw [List.length_append]
      omega
    have hroll : roll d (A ++ (B ++ [item] ++ R)) = .ok (item :: (A ++ (B ++ R))) := by
      simpa [hd] using roll_append (A ++ B) item R
    have hrest := ih (A := item :: A) (R := R) (by simp; omega)
    rw [List.length_append, List.length_singleton, repeated_of_eq_ok hroll]
    simpa using hrest

/-- A group is copied by picking its items from the depth of the lowest one. -/
theorem copyGroup_succ (skip n : ℕ) :
    copyGroup skip (n + 1) = repeated (pick (skip + n)) (n + 1) := by
  funext s
  by_cases hlen : skip + (n + 1) ≤ s.length
  · obtain ⟨A, B, R, rfl, rfl, hB⟩ := exists_groups hlen
    rw [← hB, copyGroup_append, repeated_pick (by omega)]
  · rw [repeated, pick_of_le (by omega)]
    exact needing_of_lt (by omega)

/-- A group is moved by rolling its items from the depth of the lowest one. -/
theorem moveGroup_succ (skip n : ℕ) :
    moveGroup skip (n + 1) = repeated (roll (skip + n)) (n + 1) := by
  funext s
  by_cases hlen : skip + (n + 1) ≤ s.length
  · obtain ⟨A, B, R, rfl, rfl, hB⟩ := exists_groups hlen
    rw [← hB, moveGroup_append, repeated_roll (by omega)]
  · rw [repeated, roll_of_le (by omega)]
    exact needing_of_lt (by omega)

/-! ## Permutations -/

theorem moveGroup_of_length (hA : A.length = skip) (hB : B.length = n) (R : Stack) :
    moveGroup skip n (A ++ (B ++ R)) = .ok (B ++ (A ++ R)) := by
  rw [← hA, ← hB, moveGroup_append]

/-- Swapping two groups twice changes nothing. -/
theorem swap_swap (n : ℕ) : repeated (swap n) 2 = stay (2 * n) := by
  funext s
  unfold stay
  by_cases hlen : n + n ≤ s.length
  · obtain ⟨A, B, R, rfl, hA, hB⟩ := exists_groups hlen
    have hfirst : swap n (A ++ (B ++ R)) = .ok (B ++ (A ++ R)) := by
      rw [swap_eq_moveGroup, moveGroup_of_length hA hB]
    have hsecond : swap n (B ++ (A ++ R)) = .ok (A ++ (B ++ R)) := by
      rw [swap_eq_moveGroup, moveGroup_of_length hB hA]
    rw [repeated_of_eq_ok hfirst, repeated_of_eq_ok hsecond, needing_of_le (by omega)]
    rfl
  · have hfirst : swap n s = .error (.stackTooShort (2 * n) s.length) :=
      needing_of_lt (by omega)
    rw [repeated, hfirst, needing_of_lt (by omega)]
    rfl

/-- Rotating three groups three times changes nothing. -/
theorem rot_rot_rot (n : ℕ) : repeated (rot n) 3 = stay (3 * n) := by
  funext s
  unfold stay
  by_cases hlen : n + (n + n) ≤ s.length
  · obtain ⟨A, T, R, rfl, hA, hT⟩ := exists_groups hlen
    obtain ⟨B, C, rfl, hB, hC⟩ := exists_two_groups hT
    -- the third group goes on top of the other two, whichever groups these are
    have hrot : ∀ A B C : Stack, A.length = n → B.length = n → C.length = n →
        rot n (A ++ (B ++ (C ++ R))) = .ok (C ++ (A ++ (B ++ R))) := by
      intro A B C hA hB hC
      rw [rot_eq_moveGroup, ← List.append_assoc,
        moveGroup_of_length (by rw [List.length_append]; omega) hC, List.append_assoc]
    rw [List.append_assoc, repeated_of_eq_ok (hrot A B C hA hB hC),
      repeated_of_eq_ok (hrot C A B hC hA hB), repeated_of_eq_ok (hrot B C A hB hC hA),
      needing_of_le (by simp; omega)]
    rfl
  · have hfirst : rot n s = .error (.stackTooShort (3 * n) s.length) :=
      needing_of_lt (by omega)
    rw [repeated, hfirst, needing_of_lt (by omega)]
    rfl

/-! ## What lies below -/

/-- The move needs `n` items, and leaves what lies below them as it is: it does the same on these
items alone. -/
structure MovesTop (n : ℕ) (f : Stack → Except ScriptError Stack) : Prop where
  short : ∀ s : Stack, s.length < n → f s = .error (.stackTooShort n s.length)
  above : ∀ top below : Stack, top.length = n →
    ∃ moved, f top = .ok moved ∧ f (top ++ below) = .ok (moved ++ below)

theorem movesTop_copyGroup (skip n : ℕ) : MovesTop (skip + n) (copyGroup skip n) := by
  constructor
  · intro s hs
    exact needing_of_lt hs
  · intro top below htop
    obtain ⟨A, B, rfl, rfl, rfl⟩ := exists_two_groups htop
    refine ⟨B ++ (A ++ B), ?_, ?_⟩
    · simpa using copyGroup_append A B []
    · simpa using copyGroup_append A B below

theorem movesTop_moveGroup (skip n : ℕ) : MovesTop (skip + n) (moveGroup skip n) := by
  constructor
  · intro s hs
    exact needing_of_lt hs
  · intro top below htop
    obtain ⟨A, B, rfl, rfl, rfl⟩ := exists_two_groups htop
    refine ⟨B ++ A, ?_, ?_⟩
    · simpa using moveGroup_append A B []
    · simpa using moveGroup_append A B below

theorem movesTop_nip : MovesTop 2 nip := by
  constructor
  · intro s hs
    match s with
    | [] | [_] => rfl
    | _ :: _ :: _ =>
      simp only [List.length_cons] at hs
      omega
  · intro top below htop
    obtain ⟨a, b, rfl⟩ := List.length_eq_two.mp htop
    exact ⟨[a], rfl, rfl⟩

theorem movesTop_tuck : MovesTop 2 tuck := by
  constructor
  · intro s hs
    match s with
    | [] | [_] => rfl
    | _ :: _ :: _ =>
      simp only [List.length_cons] at hs
      omega
  · intro top below htop
    obtain ⟨a, b, rfl⟩ := List.length_eq_two.mp htop
    exact ⟨[a, b, a], rfl, rfl⟩

/-! ## Nip and tuck -/

theorem nip_eq : nip = (swap 1 >=> drop 1) := by
  funext s
  by_cases hlen : 2 ≤ s.length
  · match s with
    | a :: b :: s => rfl
  · rw [movesTop_nip.short s (by omega), Bind.kleisliRight, swap, needing_of_lt (by omega)]
    rfl

theorem tuck_eq : tuck = (swap 1 >=> copyBelow 1) := by
  funext s
  by_cases hlen : 2 ≤ s.length
  · match s with
    | a :: b :: s => rfl
  · rw [movesTop_tuck.short s (by omega), Bind.kleisliRight, swap, needing_of_lt (by omega)]
    rfl

/-! ## Moves that can be made again -/

/-- Where the move `f` has been made, the move `g` can be made. -/
def Allows (f g : Stack → Except ScriptError Stack) : Prop :=
  ∀ s t, f s = .ok t → ∃ u, g t = .ok u

theorem Allows.exists_repeated (hf : Allows f f) (n : ℕ) (h : f s = .ok t) :
    ∃ u, repeated f n t = .ok u := by
  induction n generalizing s t with
  | zero => exact ⟨t, rfl⟩
  | succ n ih =>
    obtain ⟨u, hu⟩ := hf s t h
    rw [repeated_of_eq_ok hu]
    exact ih hu

/-- A move that does not make the stack shorter leaves enough items for itself. -/
theorem MovesTop.allows_self (hf : MovesTop n f)
    (hlen : ∀ s t, f s = .ok t → s.length ≤ t.length) : Allows f f := by
  intro s t h
  have hs : n ≤ s.length := by
    by_contra hshort
    rw [hf.short s (by omega)] at h
    cases h
  have ht := hlen s t h
  obtain ⟨moved, -, hmoved⟩ := hf.above (t.take n) (List.drop n t) (by simp; omega)
  rw [List.take_append_drop] at hmoved
  exact ⟨_, hmoved⟩

theorem movesTop_pick (d : ℕ) : MovesTop (d + 1) (pick d) := by
  constructor
  · intro s hs
    exact pick_of_le (by omega)
  · intro top below htop
    obtain ⟨A, B, rfl, rfl, hB⟩ := exists_two_groups htop
    obtain ⟨item, rfl⟩ := List.length_eq_one_iff.mp hB
    refine ⟨item :: (A ++ [item]), pick_append A item [], ?_⟩
    simpa using pick_append A item below

theorem movesTop_roll (d : ℕ) : MovesTop (d + 1) (roll d) := by
  constructor
  · intro s hs
    exact roll_of_le (by omega)
  · intro top below htop
    obtain ⟨A, B, rfl, rfl, hB⟩ := exists_two_groups htop
    obtain ⟨item, rfl⟩ := List.length_eq_one_iff.mp hB
    refine ⟨item :: A, ?_, ?_⟩
    · simpa using roll_append A item []
    · simpa using roll_append A item below

theorem pick_allows_self (d : ℕ) : Allows (pick d) (pick d) := by
  refine (movesTop_pick d).allows_self fun s t h => ?_
  unfold pick at h
  split at h <;> cases h
  exact Nat.le_succ s.length

theorem roll_allows_self (d : ℕ) : Allows (roll d) (roll d) := by
  refine (movesTop_roll d).allows_self fun s t h => ?_
  unfold roll at h
  split at h <;> cases h
  rw [List.length_cons, List.length_eraseIdx]
  split_ifs <;> omega

theorem length_of_moveGroup (h : moveGroup skip n s = .ok t) :
    skip + n ≤ s.length ∧ t.length = s.length := by
  unfold moveGroup needing at h
  split_ifs at h with hlen
  cases h
  refine ⟨hlen, ?_⟩
  simp only [List.length_append, List.length_take, List.length_drop]
  omega

theorem moveGroup_allows_self (skip n : ℕ) : Allows (moveGroup skip n) (moveGroup skip n) :=
  (movesTop_moveGroup skip n).allows_self fun _ _ h => Nat.le_of_eq (length_of_moveGroup h).2.symm

/-- A swap leaves enough items for what takes one or two of them. -/
theorem swap_allows_drop : Allows (moveGroup 1 1) (drop 1) := by
  intro s t h
  obtain ⟨hs, ht⟩ := length_of_moveGroup h
  exact ⟨_, needing_of_le (by omega)⟩

theorem swap_allows_over : Allows (moveGroup 1 1) (copyGroup 1 1) := by
  intro s t h
  obtain ⟨hs, ht⟩ := length_of_moveGroup h
  exact ⟨_, needing_of_le (by omega)⟩

end Stack

/-! ## Opcodes -/

namespace Opcode

def two : Opcode := 0x52
def three : Opcode := 0x53
def five : Opcode := 0x55
def twoDup : Opcode := 0x6e
def threeDup : Opcode := 0x6f
def twoOver : Opcode := 0x70
def twoRot : Opcode := 0x71
def twoSwap : Opcode := 0x72
def drop : Opcode := 0x75
def nip : Opcode := 0x77
def oneOver : Opcode := 0x78
def pick : Opcode := 0x79
def roll : Opcode := 0x7a
def rot : Opcode := 0x7b
def swap : Opcode := 0x7c
def tuck : Opcode := 0x7d

/-- The opcodes, `n` times. -/
def times (n : ℕ) (codes : List Opcode) : List Opcode :=
  (List.replicate n codes).flatten

end Opcode

namespace Engine

variable {env : Env} {f g : Stack → Except ScriptError Stack} {code digit : Opcode} {s : State}

/-- Performs opcodes one after the other: what they do where they are executed, without the count of
operations and the record of events, which `runOpcode` keeps besides. -/
def performAll (env : Env) : List Opcode → Engine Unit
  | [] => pure ()
  | code :: codes => do
    perform env code (Operation.ofOpcode code)
    performAll env codes

theorem performAll_append (env : Env) (codes codes' : List Opcode) :
    performAll env (codes ++ codes') = performAll env codes >>= fun _ => performAll env codes' := by
  induction codes with
  | nil => rfl
  | cons code codes ih => simp only [List.cons_append, performAll, ih, bind_assoc]

theorem performAll_singleton (env : Env) (code : Opcode) :
    performAll env [code] = perform env code (Operation.ofOpcode code) := by
  simp [performAll]

/-! ## Rearrangements -/

theorem rearrange_of_ok {t : Stack} (h : f s.stack = .ok t) :
    rearrange f s = .ok () { s with stack := t } :=
  rearrange_eq_ok.mpr ⟨t, h, rfl⟩

theorem rearrange_of_error {e : ScriptError} (h : f s.stack = .error e) :
    rearrange f s = .error (.error e) s := by
  unfold rearrange
  rw [get_bind, h]
  rfl

/-- Two rearrangements are one if the second cannot fail after the first. -/
theorem rearrange_bind_rearrange (h : Stack.Allows f g) :
    (rearrange f >>= fun _ => rearrange g) = rearrange (f >=> g) := by
  funext s
  cases hf : f s.stack with
  | error e =>
    have hboth : (f >=> g) s.stack = .error e := by
      rw [Bind.kleisliRight, hf]
      rfl
    rw [bind_of_eq_error (rearrange_of_error hf), rearrange_of_error hboth]
  | ok t =>
    obtain ⟨u, hu⟩ := h _ _ hf
    have hboth : (f >=> g) s.stack = .ok u := by
      rw [Bind.kleisliRight, hf]
      exact hu
    rw [bind_of_eq_ok (rearrange_of_ok hf), rearrange_of_ok hboth]
    exact rearrange_of_ok hu

theorem performAll_times {codes : List Opcode} (h : performAll env codes = rearrange f)
    (hf : Stack.Allows f f) (n : ℕ) :
    performAll env (Opcode.times n codes) = rearrange (Stack.repeated f n) := by
  induction n with
  | zero => rfl
  | succ n ih =>
    have hcodes : Opcode.times (n + 1) codes = codes ++ Opcode.times n codes := by
      simp [Opcode.times, List.replicate_succ]
    rw [hcodes, performAll_append, h, ih]
    exact rearrange_bind_rearrange fun s t hs => hf.exists_repeated n hs

/-- The number that an opcode pushes is the depth that the next opcode takes. -/
theorem performAll_depth {d : ℕ} {f : ℕ → Stack → Except ScriptError Stack}
    (hdigit : Operation.ofOpcode digit = .pushNumber d) (hd : d ≤ 16)
    (hcode : perform env code (Operation.ofOpcode code) = do rearrange (f (← popDepth))) :
    performAll env [digit, code] = rearrange (f d) := by
  funext s
  have hpush : perform env digit (Operation.ofOpcode digit) s =
      .ok () { s with stack := ScriptNumber.encode d :: s.stack } := by
    rw [hdigit]
    exact pushNumber_apply hd s
  have hnumber : popNumber { s with stack := ScriptNumber.encode d :: s.stack } = .ok (d : ℤ) s :=
    popNumber_eq_ok.mpr ⟨_, _, rfl, by rw [ScriptNumber.decode_encode, if_pos (by omega)], rfl⟩
  have hdepth : popDepth { s with stack := ScriptNumber.encode d :: s.stack } = .ok d s := by
    unfold popDepth
    rw [bind_of_eq_ok hnumber, if_neg (by omega)]
    rfl
  show (perform env digit (Operation.ofOpcode digit) >>= fun _ => performAll env [code]) s = _
  rw [bind_of_eq_ok hpush, performAll_singleton, hcode, bind_of_eq_ok hdepth]

/-- Fails unless the stack has `n` items, and does nothing otherwise. -/
def needs (n : ℕ) : Engine Unit := do
  let depth := (← get).stack.length
  if n ≤ depth then pure () else fail (.stackTooShort n depth)

theorem rearrange_stay (n : ℕ) : rearrange (Stack.stay n) = needs n := by
  funext s
  unfold needs
  rw [get_bind]
  by_cases h : n ≤ s.stack.length
  · rw [rearrange_of_ok (f := Stack.stay n) (Stack.needing_of_le h), if_pos h]
    rfl
  · have hshort : Stack.stay n s.stack = .error (.stackTooShort n s.stack.length) :=
      Stack.needing_of_lt (Nat.lt_of_not_le h)
    rw [rearrange_of_error hshort, if_neg h]
    rfl

/-- The opcode fails on fewer than `n` items and changes nothing then. On more, it does the same
to the top `n` items whatever lies below them, and nothing else. -/
structure WorksOnTop (env : Env) (n : ℕ) (code : Opcode) : Prop where
  short : ∀ s : State, s.stack.length < n →
    performAll env [code] s = .error (.error (.stackTooShort n s.stack.length)) s
  above : ∀ top : Stack, top.length = n → ∃ moved : Stack, ∀ (s : State) (below : Stack),
    s.stack = top ++ below → performAll env [code] s = .ok () { s with stack := moved ++ below }

theorem WorksOnTop.of_movesTop {n : ℕ} (hcode : performAll env [code] = rearrange f)
    (hf : Stack.MovesTop n f) : WorksOnTop env n code := by
  constructor
  · intro s hs
    rw [hcode]
    exact rearrange_of_error (hf.short s.stack hs)
  · intro top htop
    obtain ⟨moved, htopmoved, -⟩ := hf.above top [] htop
    refine ⟨moved, fun s below hs => ?_⟩
    obtain ⟨moved', h, h'⟩ := hf.above top below htop
    rw [htopmoved] at h
    cases h
    rw [hcode]
    exact rearrange_of_ok (hs ▸ h')

/-! ## What each opcode does -/

open Opcode (times)

theorem performAll_of_eq (hcode : perform env code (Operation.ofOpcode code) = rearrange f)
    (hfg : f = g) : performAll env [code] = rearrange g := by
  rw [performAll_singleton, hcode, hfg]

theorem performAll_pair {code' : Opcode} (h : performAll env [code] = rearrange f)
    (h' : performAll env [code'] = rearrange g) (hfg : Stack.Allows f g) :
    performAll env [code, code'] = rearrange (f >=> g) := by
  rw [← rearrange_bind_rearrange hfg, ← h, ← h', ← performAll_append]
  rfl

theorem performAll_dup : performAll env [.dup] = rearrange (Stack.copyGroup 0 1) :=
  performAll_of_eq rfl (Stack.dup_eq_copyGroup 1)

theorem performAll_twoDup : performAll env [.twoDup] = rearrange (Stack.copyGroup 0 2) :=
  performAll_of_eq rfl (Stack.dup_eq_copyGroup 2)

theorem performAll_threeDup : performAll env [.threeDup] = rearrange (Stack.copyGroup 0 3) :=
  performAll_of_eq rfl (Stack.dup_eq_copyGroup 3)

theorem performAll_oneOver : performAll env [.oneOver] = rearrange (Stack.copyGroup 1 1) :=
  performAll_of_eq rfl (Stack.copyBelow_eq_copyGroup 1)

theorem performAll_twoOver : performAll env [.twoOver] = rearrange (Stack.copyGroup 2 2) :=
  performAll_of_eq rfl (Stack.copyBelow_eq_copyGroup 2)

theorem performAll_swap : performAll env [.swap] = rearrange (Stack.moveGroup 1 1) :=
  performAll_of_eq rfl (Stack.swap_eq_moveGroup 1)

theorem performAll_twoSwap : performAll env [.twoSwap] = rearrange (Stack.moveGroup 2 2) :=
  performAll_of_eq rfl (Stack.swap_eq_moveGroup 2)

theorem performAll_rot : performAll env [.rot] = rearrange (Stack.moveGroup 2 1) :=
  performAll_of_eq rfl (Stack.rot_eq_moveGroup 1)

theorem performAll_twoRot : performAll env [.twoRot] = rearrange (Stack.moveGroup 4 2) :=
  performAll_of_eq rfl (Stack.rot_eq_moveGroup 2)

theorem performAll_drop : performAll env [.drop] = rearrange (Stack.drop 1) :=
  performAll_of_eq rfl rfl

theorem performAll_nip : performAll env [.nip] = rearrange Stack.nip :=
  performAll_of_eq rfl rfl

theorem performAll_tuck : performAll env [.tuck] = rearrange Stack.tuck :=
  performAll_of_eq rfl rfl

/-! ## Groups, item by item -/

/-- An opcode that copies a group copies its items. -/
theorem performAll_copyGroup (skip n : ℕ)
    (hcode : performAll env [code] = rearrange (Stack.copyGroup skip (n + 1)))
    (hdigit : Operation.ofOpcode digit = .pushNumber (skip + n : ℕ)) (hd : skip + n ≤ 16) :
    performAll env [code] = performAll env (times (n + 1) [digit, .pick]) := by
  have hpick : performAll env [digit, .pick] = rearrange (Stack.pick (skip + n)) :=
    performAll_depth hdigit hd rfl
  rw [hcode, performAll_times hpick (Stack.pick_allows_self _), Stack.copyGroup_succ]

/-- An opcode that moves a group moves its items. -/
theorem performAll_moveGroup (skip n : ℕ)
    (hcode : performAll env [code] = rearrange (Stack.moveGroup skip (n + 1)))
    (hdigit : Operation.ofOpcode digit = .pushNumber (skip + n : ℕ)) (hd : skip + n ≤ 16) :
    performAll env [code] = performAll env (times (n + 1) [digit, .roll]) := by
  have hroll : performAll env [digit, .roll] = rearrange (Stack.roll (skip + n)) :=
    performAll_depth hdigit hd rfl
  rw [hcode, performAll_times hroll (Stack.roll_allows_self _), Stack.moveGroup_succ]

theorem performAll_swap_swap (n : ℕ)
    (hcode : performAll env [code] = rearrange (Stack.moveGroup n n)) :
    performAll env (times 2 [code]) = needs (2 * n) := by
  rw [performAll_times hcode (Stack.moveGroup_allows_self n n), ← Stack.swap_eq_moveGroup,
    Stack.swap_swap, rearrange_stay]

theorem performAll_rot_rot_rot (n : ℕ)
    (hcode : performAll env [code] = rearrange (Stack.moveGroup (2 * n) n)) :
    performAll env (times 3 [code]) = needs (3 * n) := by
  rw [performAll_times hcode (Stack.moveGroup_allows_self (2 * n) n), ← Stack.rot_eq_moveGroup,
    Stack.rot_rot_rot, rearrange_stay]

theorem performAll_nip_eq : performAll env [.nip] = performAll env [.swap, .drop] := by
  rw [performAll_nip, Stack.nip_eq, Stack.swap_eq_moveGroup]
  exact (performAll_pair performAll_swap performAll_drop Stack.swap_allows_drop).symm

theorem performAll_tuck_eq : performAll env [.tuck] = performAll env [.swap, .oneOver] := by
  rw [performAll_tuck, Stack.tuck_eq, Stack.swap_eq_moveGroup, Stack.copyBelow_eq_copyGroup]
  exact (performAll_pair performAll_swap performAll_oneOver Stack.swap_allows_over).symm

/-! ## The derived opcodes -/

/-- The opcodes that move items, by the opcodes that move single items, as computations: the same
stack, or the same failure. -/
structure DerivedOpcodes (env : Env) : Prop where
  dup : performAll env [.dup] = performAll env [.zero, .pick]
  oneOver : performAll env [.oneOver] = performAll env [.one, .pick]
  swap : performAll env [.swap] = performAll env [.one, .roll]
  rot : performAll env [.rot] = performAll env [.two, .roll]
  twoDup : performAll env [.twoDup] = performAll env (times 2 [.one, .pick])
  threeDup : performAll env [.threeDup] = performAll env (times 3 [.two, .pick])
  twoOver : performAll env [.twoOver] = performAll env (times 2 [.three, .pick])
  twoSwap : performAll env [.twoSwap] = performAll env (times 2 [.three, .roll])
  twoRot : performAll env [.twoRot] = performAll env (times 2 [.five, .roll])
  nip : performAll env [.nip] = performAll env [.swap, .drop]
  tuck : performAll env [.tuck] = performAll env [.swap, .oneOver]
  swap_swap : performAll env (times 2 [.swap]) = needs 2
  twoSwap_twoSwap : performAll env (times 2 [.twoSwap]) = needs 4
  rot_rot_rot : performAll env (times 3 [.rot]) = needs 3
  twoRot_twoRot_twoRot : performAll env (times 3 [.twoRot]) = needs 6
  worksOnTop : ∀ row ∈ [(1, Opcode.dup), (2, .oneOver), (2, .swap), (3, .rot), (2, .twoDup),
    (3, .threeDup), (4, .twoOver), (4, .twoSwap), (6, .twoRot), (2, .nip), (2, .tuck)],
    WorksOnTop env row.1 row.2

/-- The derived opcodes are sequences of single copies and moves on every state, their permutations
return to where they began, and none of them reaches below the items that it names. -/
theorem derivedOpcodes (env : Env) : DerivedOpcodes env where
  dup := performAll_copyGroup 0 0 performAll_dup rfl (by decide)
  oneOver := performAll_copyGroup 1 0 performAll_oneOver rfl (by decide)
  swap := performAll_moveGroup 1 0 performAll_swap rfl (by decide)
  rot := performAll_moveGroup 2 0 performAll_rot rfl (by decide)
  twoDup := performAll_copyGroup 0 1 performAll_twoDup rfl (by decide)
  threeDup := performAll_copyGroup 0 2 performAll_threeDup rfl (by decide)
  twoOver := performAll_copyGroup 2 1 performAll_twoOver rfl (by decide)
  twoSwap := performAll_moveGroup 2 1 performAll_twoSwap rfl (by decide)
  twoRot := performAll_moveGroup 4 1 performAll_twoRot rfl (by decide)
  nip := performAll_nip_eq
  tuck := performAll_tuck_eq
  swap_swap := performAll_swap_swap 1 performAll_swap
  twoSwap_twoSwap := performAll_swap_swap 2 performAll_twoSwap
  rot_rot_rot := performAll_rot_rot_rot 1 performAll_rot
  twoRot_twoRot_twoRot := performAll_rot_rot_rot 2 performAll_twoRot
  worksOnTop := by
    simp only [List.forall_mem_cons, List.not_mem_nil, false_imp_iff, implies_true, and_true]
    exact ⟨.of_movesTop performAll_dup (Stack.movesTop_copyGroup 0 1),
      .of_movesTop performAll_oneOver (Stack.movesTop_copyGroup 1 1),
      .of_movesTop performAll_swap (Stack.movesTop_moveGroup 1 1),
      .of_movesTop performAll_rot (Stack.movesTop_moveGroup 2 1),
      .of_movesTop performAll_twoDup (Stack.movesTop_copyGroup 0 2),
      .of_movesTop performAll_threeDup (Stack.movesTop_copyGroup 0 3),
      .of_movesTop performAll_twoOver (Stack.movesTop_copyGroup 2 2),
      .of_movesTop performAll_twoSwap (Stack.movesTop_moveGroup 2 2),
      .of_movesTop performAll_twoRot (Stack.movesTop_moveGroup 4 2),
      .of_movesTop performAll_nip Stack.movesTop_nip,
      .of_movesTop performAll_tuck Stack.movesTop_tuck⟩

end Engine

end SpendScript
