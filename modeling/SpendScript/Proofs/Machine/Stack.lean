import SpendScript.Engine.Execute
import SpendScript.Proofs.Machine.State

/-!
# The stack of the machine

The operations on the stack of the machine, which reach its items by indexes from the bottom.

* `Machine.splitTop`, `Machine.popOne`, …: items off the stack.
* `Machine.rearrange`: moves of groups of items; `Machine.dup`, `Machine.rot`, …: the groups.
* `Machine.pick`, `Machine.roll`: an item from a given depth.

Results:
* Every operation simulates that of the engine. An index from the bottom is in range because the
  operation has compared the depth that it comes from with the length.
-/

namespace SpendScript.Machine

variable {σ : State} {s t : List Bytes} {n : ℕ}

/-! ## Items off the stack -/

/-- The top `n` items, the lowest one first. -/
def splitTop (n : ℕ) : Machine (List Bytes) := do
  let σ ← get
  if n ≤ σ.stack.length then
    let i ← exec (Checked.sub σ.stack.length n)
    let (kept, items) ← exec (Checked.splitOff σ.stack i)
    setStack kept
    return items
  else refuse (.stackTooShort n σ.stack.length)

/-- The top item. -/
def popOne : Machine Bytes := do
  match ← splitTop 1 with
  | [a] => return a
  | _ => throw (.panic .unexpected)

/-- The top two items, the lower one first. -/
def popTwo : Machine (Bytes × Bytes) := do
  match ← splitTop 2 with
  | [a, b] => return (a, b)
  | _ => throw (.panic .unexpected)

/-- The top three items, the lowest one first. -/
def popThree : Machine (Bytes × Bytes × Bytes) := do
  match ← splitTop 3 with
  | [a, b, c] => return (a, b, c)
  | _ => throw (.panic .unexpected)

theorem view_stack (h : σ.stack = s.reverse) : σ.view.stack = s := by
  show σ.stack.reverse = s
  rw [h, List.reverse_reverse]

theorem view_withStack (σ : State) (s : List Bytes) :
    { σ with stack := s.reverse }.view = { σ.view with stack := s } := by
  show SpendScript.State.mk s.reverse.reverse _ _ _ _ _ _ _ _ = _
  rw [List.reverse_reverse]
  rfl

/-- The machine may be taken to hold the reverse of a stack of the engine. -/
theorem exists_stack_eq_reverse (σ : State) : ∃ s : List Bytes, σ.stack = s.reverse :=
  ⟨σ.stack.reverse, σ.stack.reverse_reverse.symm⟩

theorem splitTop_of_le (h : σ.stack = s.reverse) (hn : n ≤ s.length) :
    splitTop n σ = .ok (s.take n).reverse { σ with stack := (s.drop n).reverse } := by
  have hlen : σ.stack.length = s.length := by rw [h, List.length_reverse]
  show (if n ≤ σ.stack.length then _ else _ : Machine (List Bytes)) σ = _
  rw [if_pos (hlen ▸ hn), Checked.sub_eq_ok (hlen ▸ hn)]
  show (exec (Checked.splitOff σ.stack (σ.stack.length - n)) >>= _ : Machine (List Bytes)) σ = _
  rw [hlen, h, Checked.splitOff_reverse s hn]
  rfl

theorem splitTop_of_lt (h : σ.stack = s.reverse) (hn : s.length < n) :
    splitTop n σ = .error (.error (.stackTooShort n s.length)) σ := by
  have hlen : σ.stack.length = s.length := by rw [h, List.length_reverse]
  show (if n ≤ σ.stack.length then _ else _ : Machine (List Bytes)) σ = _
  rw [if_neg (by omega), hlen]
  rfl

/-- What a computation that takes items off the stack leaves, matches. -/
theorem matches_taken {α : Type} {P : α → Prop} {a : α} (hσ : σ.Valid) (h : σ.stack = s.reverse)
    (ht : t ⊆ s) (ha : P a) :
    Matches P (.ok a { σ with stack := t.reverse }) (.ok a { σ.view with stack := t }) := by
  rw [← view_withStack]
  refine .ok ha (hσ.withStack fun item hitem => hσ.stack_small item ?_)
  rw [h, List.mem_reverse]
  exact ht (List.mem_reverse.mp hitem)

theorem splitTop_simulates (n : ℕ) :
    Simulates (fun items => items.length = n) (splitTop n) (Engine.popMany n) := by
  intro σ hσ
  obtain ⟨s, hs⟩ := exists_stack_eq_reverse σ
  have hpop : Engine.popMany n σ.view = (Engine.lift (Stack.popMany n s) >>= fun popped => do
      Engine.setStack popped.2
      return popped.1) σ.view := by
    unfold Engine.popMany
    rw [Engine.get_bind, view_stack hs]
  rw [hpop, Stack.popMany]
  by_cases hn : n ≤ s.length
  · rw [if_pos hn, splitTop_of_le hs hn]
    refine matches_taken hσ hs (List.drop_subset n s) ?_
    rw [List.length_reverse, List.length_take, Nat.min_eq_left hn]
  · rw [if_neg hn, splitTop_of_lt hs (Nat.lt_of_not_le hn)]
    exact .error _ σ

theorem popOne_simulates : Simulates Small popOne Engine.pop := by
  intro σ hσ
  obtain ⟨s, hs⟩ := exists_stack_eq_reverse σ
  unfold popOne Engine.pop
  rw [Engine.get_bind, view_stack hs]
  match s with
  | [] =>
    rw [bind_of_eq_error (splitTop_of_lt hs (by simp))]
    exact .error _ σ
  | a :: rest =>
    rw [bind_of_eq_ok (splitTop_of_le hs (by simp))]
    exact matches_taken hσ hs (List.subset_cons_self a rest) (hσ.stack_small a (by simp [hs]))

theorem popTwo_simulates : Simulates Any popTwo Engine.popTwo := by
  intro σ hσ
  obtain ⟨s, hs⟩ := exists_stack_eq_reverse σ
  unfold popTwo Engine.popTwo
  rw [Engine.get_bind, view_stack hs]
  match s with
  | [] | [_] =>
    rw [bind_of_eq_error (splitTop_of_lt hs (by simp))]
    exact .error _ σ
  | b :: a :: rest =>
    rw [bind_of_eq_ok (splitTop_of_le hs (by simp))]
    exact matches_taken hσ hs (List.subset_append_right [b, a] rest) trivial

theorem popThree_simulates : Simulates Any popThree Engine.popThree := by
  intro σ hσ
  obtain ⟨s, hs⟩ := exists_stack_eq_reverse σ
  unfold popThree Engine.popThree
  rw [Engine.get_bind, view_stack hs]
  match s with
  | [] | [_] | [_, _] =>
    rw [bind_of_eq_error (splitTop_of_lt hs (by simp))]
    exact .error _ σ
  | c :: b :: a :: rest =>
    rw [bind_of_eq_ok (splitTop_of_le hs (by simp))]
    exact matches_taken hσ hs (List.subset_append_right [c, b, a] rest) trivial

/-! ## Groups of items -/

/-- Rearranges a stack of at least `needed` items. -/
def rearrange (needed : ℕ) (f : List Bytes → Checked (List Bytes)) : Machine Unit := do
  let σ ← get
  if needed ≤ σ.stack.length then
    let stack ← exec (f σ.stack)
    setStack stack
  else refuse (.stackTooShort needed σ.stack.length)

/-- Removes the top group. -/
def drop (n : ℕ) (v : List Bytes) : Checked (List Bytes) := do
  let i ← Checked.sub v.length n
  return v.take i

/-- Copies the top group. -/
def dup (n : ℕ) (v : List Bytes) : Checked (List Bytes) := do
  let i ← Checked.sub v.length n
  let copy ← Checked.slice v i v.length
  return v ++ copy

/-- Copies the second group. -/
def copyBelow (n : ℕ) (v : List Bytes) : Checked (List Bytes) := do
  let i ← Checked.sub v.length (2 * n)
  let j ← Checked.sub v.length n
  let copy ← Checked.slice v i j
  return v ++ copy

/-- Moves the third group to the top. -/
def rot (n : ℕ) (v : List Bytes) : Checked (List Bytes) := do
  let i ← Checked.sub v.length (3 * n)
  let j ← Checked.sub v.length (2 * n)
  let (moved, kept) ← Checked.drain v i j
  return kept ++ moved

/-- Moves the second group to the top. -/
def swap (n : ℕ) (v : List Bytes) : Checked (List Bytes) := do
  let i ← Checked.sub v.length (2 * n)
  let j ← Checked.sub v.length n
  let (moved, kept) ← Checked.drain v i j
  return kept ++ moved

/-- Removes the second item. -/
def nip (v : List Bytes) : Checked (List Bytes) := do
  let i ← Checked.sub v.length 2
  let (_, kept) ← Checked.remove v i
  return kept

/-- Copies the top item below the second one. -/
def tuck (v : List Bytes) : Checked (List Bytes) := do
  let top ← Checked.item v (← Checked.sub v.length 1)
  let i ← Checked.sub v.dropLast.length 1
  Checked.insert v i top

/-- The machine rearranges a stack like the engine does. -/
structure Rearranges (needed : ℕ) (f : List Bytes → Checked (List Bytes))
    (g : Stack → Except ScriptError Stack) : Prop where
  refused : ∀ s : List Bytes, s.length < needed → g s = .error (.stackTooShort needed s.length)
  moved : ∀ s : List Bytes, needed ≤ s.length →
    ∃ t, g s = .ok t ∧ f s.reverse = .ok t.reverse ∧ t ⊆ s

theorem rearrange_simulates {needed : ℕ} {f : List Bytes → Checked (List Bytes)}
    {g : Stack → Except ScriptError Stack} (h : Rearranges needed f g) :
    Simulates Any (rearrange needed f) (Engine.rearrange g) := by
  intro σ hσ
  obtain ⟨s, hs⟩ := exists_stack_eq_reverse σ
  have hlen : σ.stack.length = s.length := by rw [hs, List.length_reverse]
  unfold Engine.rearrange
  rw [Engine.get_bind, view_stack hs]
  show Matches Any ((if needed ≤ σ.stack.length then _ else _ : Machine Unit) σ) _
  by_cases hn : needed ≤ s.length
  · obtain ⟨t, hg, hf, ht⟩ := h.moved s hn
    rw [if_pos (hlen ▸ hn), hg, hs, hf]
    exact matches_taken hσ hs ht trivial
  · rw [if_neg (by omega), h.refused s (Nat.lt_of_not_le hn), hlen]
    exact .error _ σ

/-- Operations that need a number of items and have a result wherever they have so many. -/
theorem Rearranges.of_needing {needed : ℕ} {f : List Bytes → Checked (List Bytes)}
    {g : Stack → Stack} (hf : ∀ s : List Bytes, needed ≤ s.length → f s.reverse = .ok (g s).reverse)
    (hg : ∀ s : List Bytes, g s ⊆ s) :
    Rearranges needed f fun s => Stack.needing needed s (g s) :=
  ⟨fun _ hs => if_neg (Nat.not_le.mpr hs), fun s hs => ⟨g s, if_pos hs, hf s hs, hg s⟩⟩

theorem drop_rearranges (n : ℕ) : Rearranges n (drop n) (Stack.drop n) := by
  refine .of_needing (fun s hs => ?_) fun s => List.drop_subset n s
  rw [drop, List.length_reverse, Checked.sub_eq_ok hs, ok_bind, List.take_reverse,
    Nat.sub_sub_self hs]
  rfl

theorem dup_rearranges (n : ℕ) : Rearranges n (dup n) (Stack.dup n) := by
  refine .of_needing (fun s hs => ?_) fun s =>
    List.append_subset.mpr ⟨List.take_subset n s, List.Subset.refl s⟩
  have hslice := Checked.slice_reverse s (Nat.zero_le n) hs
  rw [dup, List.length_reverse, Checked.sub_eq_ok hs, ok_bind]
  rw [Nat.sub_zero, List.drop_zero] at hslice
  rw [hslice, List.reverse_append]
  rfl

theorem copyBelow_rearranges (n : ℕ) : Rearranges (2 * n) (copyBelow n) (Stack.copyBelow n) := by
  refine .of_needing (fun s hs => ?_) fun s =>
    List.append_subset.mpr ⟨?_, List.Subset.refl s⟩
  · have hslice := Checked.slice_reverse s (show n ≤ 2 * n by omega) hs
    rw [copyBelow, List.length_reverse, Checked.sub_eq_ok hs, ok_bind,
      Checked.sub_eq_ok (show n ≤ s.length by omega), ok_bind, hslice, List.reverse_append,
      show 2 * n - n = n by omega]
    rfl
  · exact List.Subset.trans (List.take_subset n _) (List.drop_subset n s)

/-- The items between two depths are moved to the top. -/
theorem moved_rearranges {i j n : ℕ} (hj : j = i + n) {f : List Bytes → Checked (List Bytes)}
    (hf : ∀ v, f v = do
      let a ← Checked.sub v.length j
      let b ← Checked.sub v.length i
      let (moved, kept) ← Checked.drain v a b
      return kept ++ moved) :
    Rearranges j f fun s =>
      Stack.needing j s ((List.drop i s).take n ++ s.take i ++ List.drop j s) := by
  have hij : i ≤ j := by omega
  refine .of_needing (fun s hs => ?_) fun s => ?_
  · rw [hf, List.length_reverse, Checked.sub_eq_ok hs, ok_bind,
      Checked.sub_eq_ok (Nat.le_trans hij hs), ok_bind, Checked.drain_reverse s hij hs,
      show j - i = n by omega, ok_bind]
    simp only [List.reverse_append, List.append_assoc]
    rfl
  · have hmoved := List.Subset.trans (List.take_subset n _) (List.drop_subset i s)
    exact List.append_subset.mpr ⟨List.append_subset.mpr ⟨hmoved, List.take_subset _ s⟩,
      List.drop_subset _ s⟩

theorem rot_rearranges (n : ℕ) : Rearranges (3 * n) (rot n) (Stack.rot n) :=
  moved_rearranges (by omega) fun _ => rfl

theorem swap_rearranges (n : ℕ) : Rearranges (2 * n) (swap n) (Stack.swap n) :=
  moved_rearranges (by omega) fun _ => rfl

theorem nip_rearranges : Rearranges 2 nip Stack.nip := by
  refine ⟨fun s hs => ?_, fun s hs => ?_⟩
  · match s with
    | [] | [_] => rfl
    | _ :: _ :: s => exact absurd hs (by simp)
  · match s with
    | [] | [_] => simp at hs
    | a :: b :: s =>
      refine ⟨a :: s, rfl, ?_, List.cons_subset_cons a (List.subset_cons_self b s)⟩
      have hitem : (a :: b :: s).reverse[s.length]? = some b := by simp
      rw [nip, List.length_reverse, Checked.sub_eq_ok hs, ok_bind]
      show (Checked.remove (a :: b :: s).reverse s.length >>= _) = _
      rw [Checked.remove_eq_ok hitem, ok_bind]
      have hkept : (a :: b :: s).reverse.eraseIdx s.length = (a :: s).reverse := by
        simp [List.eraseIdx_append]
      exact congrArg Except.ok hkept

theorem tuck_rearranges : Rearranges 2 tuck Stack.tuck := by
  refine ⟨fun s hs => ?_, fun s hs => ?_⟩
  · match s with
    | [] | [_] => rfl
    | _ :: _ :: s => exact absurd hs (by simp)
  · match s with
    | [] | [_] => simp at hs
    | a :: b :: s =>
      refine ⟨a :: b :: a :: s, rfl, ?_, by simp⟩
      have hitem : (a :: b :: s).reverse[s.length + 1]? = some a := by simp
      have hlast : (a :: b :: s).reverse.dropLast.length = s.length + 1 := by simp
      rw [tuck, hlast, List.length_reverse, Checked.sub_eq_ok (show 1 ≤ (a :: b :: s).length by simp)]
      show (Checked.item (a :: b :: s).reverse (s.length + 1) >>= _) = _
      rw [Checked.item_eq_ok hitem, ok_bind, Checked.sub_eq_ok (by omega), ok_bind]
      have hinsert := Checked.insert_append s.reverse [b, a] a
      rw [List.length_reverse] at hinsert
      simpa using hinsert

/-! ## Values -/

/-- The value that the top item stands for. -/
def popValue {α : Type} (read : Bytes → Attempt ScriptError α) : Machine α := do
  match ← eval ([← popOne].mapM read) with
  | [a] => return a
  | _ => throw (.panic .unexpected)

/-- The top two items as numbers; the lower one is read first. -/
def popTwoNumbers : Machine (ℤ × ℤ) := do
  let (a, b) ← popTwo
  match ← eval ([a, b].mapM readNumber) with
  | [a, b] => return (a, b)
  | _ => throw (.panic .unexpected)

/-- The top three items as numbers; the lowest one is read first. -/
def popThreeNumbers : Machine (ℤ × ℤ × ℤ) := do
  let (a, b, c) ← popThree
  match ← eval ([a, b, c].mapM readNumber) with
  | [a, b, c] => return (a, b, c)
  | _ => throw (.panic .unexpected)

/-- Operands have 31 bits and a sign. -/
def Operand (n : ℤ) : Prop :=
  n.natAbs < 0x80000000

theorem popValue_simulates {α : Type} {P : α → Prop} {read : Bytes → Attempt ScriptError α}
    {r : Bytes → Except ScriptError α} (hread : ∀ item, read item = .ofExcept (r item))
    (hP : ∀ item a, r item = .ok a → P a) :
    Simulates P (popValue read) (Engine.pop >>= fun item => Engine.lift (r item)) := by
  refine popOne_simulates.bind fun item _ => ?_
  rw [List.mapM_cons, List.mapM_nil, hread]
  cases h : r item with
  | error e => exact .refuse e
  | ok a => exact .pure (hP item a h)

theorem popNumber_simulates : Simulates Operand (popValue readNumber) Engine.popNumber :=
  popValue_simulates readNumber_eq fun _ _ h => ScriptNumber.natAbs_lt_of_decode h

theorem popInt32_simulates : Simulates Operand (popValue readInt32) Engine.popNumber :=
  popValue_simulates readInt32_eq fun _ _ h => ScriptNumber.natAbs_lt_of_decode h

theorem popTwoNumbers_simulates :
    Simulates (fun ab => Operand ab.1 ∧ Operand ab.2) popTwoNumbers Engine.popTwoNumbers := by
  refine popTwo_simulates.bind fun ⟨a, b⟩ _ => ?_
  simp only [List.mapM_cons, List.mapM_nil, readNumber_eq]
  cases ha : ScriptNumber.decode a with
  | error e => exact .refuse e
  | ok m =>
    cases hb : ScriptNumber.decode b with
    | error e => exact .refuse e
    | ok n =>
      exact .pure ⟨ScriptNumber.natAbs_lt_of_decode ha, ScriptNumber.natAbs_lt_of_decode hb⟩

theorem popThreeNumbers_simulates : Simulates Any popThreeNumbers Engine.popThreeNumbers := by
  refine popThree_simulates.bind fun ⟨a, b, c⟩ _ => ?_
  simp only [List.mapM_cons, List.mapM_nil, readNumber_eq]
  cases ScriptNumber.decode a with
  | error e => exact .refuse e
  | ok m =>
    cases ScriptNumber.decode b with
    | error e => exact .refuse e
    | ok n =>
      cases ScriptNumber.decode c with
      | error e => exact .refuse e
      | ok k => exact .pure trivial

/-- Pushes a number. -/
def pushNumber (n : ℤ) : Machine Unit :=
  push (ScriptNumber.encode n)

theorem pushNumber_simulates {n : ℤ} (h : n.natAbs < 0x8000000000000000) :
    Simulates Any (pushNumber n) (Engine.pushNumber n) := by
  have hfits : Number.fitsSigned n = true := by
    simp only [Number.fitsSigned, Bool.and_eq_true, decide_eq_true_iff]
    omega
  unfold Engine.pushNumber
  rw [if_pos hfits]
  refine push_simulates (Nat.le_trans (ScriptNumber.length_encode_le ?_) (by decide))
  exact Nat.lt_trans h (by decide)

/-! ## Items from a depth -/

/-- The position of the item from the depth that the top item tells. -/
def depthIndex : Machine ℕ := do
  let depth ← popValue readInt32
  if depth < 0 then refuse (.invalidState (.negativeIndex depth))
  else
    let needed ← exec (Checked.addWord depth.toNat 1)
    let σ ← get
    if needed ≤ σ.stack.length then return σ.stack.length - needed
    else refuse (.stackTooShort needed σ.stack.length)

/-- Copies the item from a depth. -/
def pick : Machine Unit := do
  let i ← depthIndex
  let item ← exec (Checked.item (← get).stack i)
  push item

/-- Moves the item from a depth to the top. -/
def roll : Machine Unit := do
  let i ← depthIndex
  let (item, kept) ← exec (Checked.remove (← get).stack i)
  setStack kept
  push item

/-- Where there are enough items, the position from the bottom goes with the depth. -/
theorem depthIndex_bind_simulates {f : ℕ → Machine Unit}
    {g : ℕ → Stack → Except ScriptError Stack}
    (hrefused : ∀ (s : List Bytes) (d : ℕ), s.length ≤ d →
      g d s = .error (.stackTooShort (d + 1) s.length))
    (hmoved : ∀ σ, State.Valid σ → ∀ (s : List Bytes) (d : ℕ), σ.stack = s.reverse →
      d < s.length → Matches Any (f (s.length - (d + 1)) σ) (Engine.rearrange (g d) σ.view)) :
    Simulates Any (depthIndex >>= f) (Engine.popDepth >>= fun d => Engine.rearrange (g d)) := by
  unfold depthIndex Engine.popDepth
  rw [bind_assoc, bind_assoc]
  refine popInt32_simulates.bind fun depth hdepth => ?_
  by_cases hneg : depth < 0
  · rw [if_pos hneg, if_pos hneg]
    exact .refuse _
  rw [if_neg hneg, if_neg hneg, bind_assoc]
  have hsum : depth.toNat + 1 < Number.wordSize := by
    unfold Operand at hdepth
    unfold Number.wordSize
    omega
  refine .exec (Checked.addWord_eq_ok hsum) fun σ hσ => ?_
  obtain ⟨s, hs⟩ := exists_stack_eq_reverse σ
  have hlen : σ.stack.length = s.length := by rw [hs, List.length_reverse]
  show Matches Any (((if depth.toNat + 1 ≤ σ.stack.length then _ else _ : Machine ℕ) >>= f) σ) _
  by_cases hle : depth.toNat + 1 ≤ s.length
  · rw [if_pos (hlen ▸ hle), hlen]
    exact hmoved σ hσ s depth.toNat hs hle
  · rw [if_neg (by omega), hlen]
    show Matches Any _ (Engine.rearrange (g depth.toNat) σ.view)
    unfold Engine.rearrange
    rw [Engine.get_bind, view_stack hs, hrefused s _ (by omega)]
    exact .error _ σ

theorem getElem?_reverse_sub {s : List Bytes} {d : ℕ} (h : d < s.length) :
    s.reverse[s.length - (d + 1)]? = s[d]? := by
  rw [List.getElem?_reverse (by omega)]
  congr 1
  omega

theorem pick_simulates :
    Simulates Any pick (Engine.popDepth >>= fun d => Engine.rearrange (Stack.pick d)) := by
  refine depthIndex_bind_simulates (fun s d h => ?_) fun σ hσ s d hs hd => ?_
  · rw [Stack.pick, List.getElem?_eq_none h]
  · have hitem : s.reverse[s.length - (d + 1)]? = some s[d] := by
      rw [getElem?_reverse_sub hd, List.getElem?_eq_getElem hd]
    unfold Engine.rearrange
    rw [Engine.get_bind, view_stack hs, Stack.pick, List.getElem?_eq_getElem hd]
    show Matches Any ((exec (Checked.item σ.stack _) >>= push) σ) _
    rw [hs, Checked.item_eq_ok hitem]
    show Matches Any (.ok () { σ with stack := σ.stack ++ [s[d]] }) _
    rw [hs, ← List.reverse_cons]
    exact matches_taken hσ hs (by simp) trivial

theorem roll_simulates :
    Simulates Any roll (Engine.popDepth >>= fun d => Engine.rearrange (Stack.roll d)) := by
  refine depthIndex_bind_simulates (fun s d h => ?_) fun σ hσ s d hs hd => ?_
  · rw [Stack.roll, List.getElem?_eq_none h]
  · have hitem : s.reverse[s.length - (d + 1)]? = some s[d] := by
      rw [getElem?_reverse_sub hd, List.getElem?_eq_getElem hd]
    have hkept : s.reverse.eraseIdx (s.length - (d + 1)) = (s.eraseIdx d).reverse := by
      rw [List.eraseIdx_eq_take_drop_succ, List.eraseIdx_eq_take_drop_succ, List.take_reverse,
        List.drop_reverse, List.reverse_append, Nat.sub_sub_self hd,
        show s.length - (s.length - (d + 1) + 1) = d by omega]
    unfold Engine.rearrange
    rw [Engine.get_bind, view_stack hs, Stack.roll, List.getElem?_eq_getElem hd]
    show Matches Any ((exec (Checked.remove σ.stack _) >>= _) σ) _
    rw [hs, Checked.remove_eq_ok hitem, hkept]
    show Matches Any (.ok () { σ with stack := (s.eraseIdx d).reverse ++ [s[d]] }) _
    rw [← List.reverse_cons]
    refine matches_taken hσ hs (List.cons_subset.mpr ⟨List.getElem_mem hd, ?_⟩) trivial
    exact (List.eraseIdx_sublist s d).subset

end SpendScript.Machine
