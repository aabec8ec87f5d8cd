import Mathlib.Data.List.Dedup
import Mathlib.Data.List.Destutter
import SpendScript.Proofs.Engine.Termination
import SpendScript.Proofs.Machine.Checked

/-!
# Scripts of the machine

The machine splits the bytes of a revealed script where a push ends, and cuts its commands into parts
at positions that it sorts first.

* `Machine.decode`: the commands that a byte string spells.
* `Machine.bounds`, `Machine.windows`: the positions where parts begin and end, in order.
* `Machine.checkSizes`: the check of the lengths of the parts.

Results:
* `Machine.decode_eq`: the machine reads the commands that `Command.decode` reads.
* `Machine.checkSizes_eq`: the parts lie inside the script, and the first one that is too long is
  reported.
-/

namespace SpendScript.Machine

open SpendScript.Attempt (fail check check_ok ofExcept)

/-! ## Bytes -/

/-- A push of the first `length` bytes, and what follows it. -/
def readData (encoding : PushEncoding) (length : ℕ) (tail : Bytes) :
    Attempt ScriptError (Command × Bytes) :=
  if tail.length < length then fail (.malformedPush length tail.length)
  else do
    let (data, rest) ← check (Checked.splitOff tail length)
    let p ← check (Checked.expect (Push.withEncoding data encoding))
    return (.push p, rest)

/-- The command whose first byte is `code`, and what follows it. -/
def read (code : Opcode) (tail : Bytes) : Attempt ScriptError (Command × Bytes) :=
  if 1 ≤ code ∧ code ≤ Opcode.lastDirect then readData .direct code.toNat tail
  else if code = Opcode.pushData1 then
    match tail with
    | length :: tail => readData .pushData1 length.toNat tail
    | [] => fail (.malformedPushSize [code])
  else if code = Opcode.pushData2 then
    match tail with
    | lo :: hi :: tail => readData .pushData2 (lo.toNat + 256 * hi.toNat) tail
    | short => fail (.malformedPushSize (code :: short))
  else .ok (.op code, tail)

/-- The commands that a byte string spells, of which there are fewer than `n`. -/
def decode : (n : ℕ) → Bytes → Attempt ScriptError (List Command)
  | 0, _ => .error (.panic .unfinished)
  | _ + 1, [] => .ok []
  | n + 1, code :: tail => do
    let (c, rest) ← read code tail
    return c :: (← decode n rest)

theorem readData_eq {encoding : PushEncoding} {length : ℕ} (h : length ≤ encoding.maxLength)
    (tail : Bytes) :
    readData encoding length tail = ofExcept (Command.readData encoding length h tail) := by
  unfold readData Command.readData
  by_cases hlen : length ≤ tail.length
  · have hdata : (tail.take length).length ≤ encoding.maxLength :=
      Nat.le_trans (List.length_take_le _ _) h
    have hpush : Push.withEncoding (tail.take length) encoding =
        .ok ⟨tail.take length, encoding, hdata⟩ := dif_pos hdata
    rw [if_neg (Nat.not_lt.mpr hlen), if_pos hlen, Checked.splitOff_eq_ok hlen, check_ok, ok_bind]
    simp only [hpush]
    rfl
  · rw [if_pos (Nat.lt_of_not_le hlen), if_neg hlen]
    rfl

theorem read_eq (code : Opcode) (tail : Bytes) :
    read code tail = ofExcept (Command.read code tail) := by
  unfold read Command.read
  by_cases hdirect : 1 ≤ code ∧ code ≤ Opcode.lastDirect
  · rw [if_pos hdirect, dif_pos hdirect]
    exact readData_eq _ tail
  · rw [if_neg hdirect, dif_neg hdirect]
    by_cases hone : code = Opcode.pushData1
    · rw [if_pos hone, if_pos hone]
      cases tail with
      | nil => rfl
      | cons length tail => exact readData_eq _ tail
    · rw [if_neg hone, if_neg hone]
      by_cases htwo : code = Opcode.pushData2
      · rw [if_pos htwo, if_pos htwo]
        match tail with
        | [] | [_] => rfl
        | lo :: hi :: tail => exact readData_eq _ tail
      · rw [if_neg htwo, if_neg htwo]
        rfl

theorem decode_eq {n : ℕ} {bs : Bytes} (h : bs.length < n) :
    decode n bs = ofExcept (Command.decode bs) := by
  induction n generalizing bs with
  | zero => exact absurd h (Nat.not_lt_zero _)
  | succ n ih =>
    cases bs with
    | nil =>
      unfold Command.decode
      rfl
    | cons code tail =>
      unfold decode
      rw [read_eq]
      unfold Command.decode
      split
      · rename_i e hread
        rw [hread]
        rfl
      · rename_i c rest hread
        have hlen := Command.read_length hread
        rw [List.length_cons] at h
        rw [hread]
        show (decode n rest >>= fun cs => pure (c :: cs)) = _
        rw [ih (by omega)]
        cases Command.decode rest <;> rfl

/-! ## Parts -/

/-- The positions where parts begin or end, each one once, in order. -/
def bounds (starts : List ℕ) (length : ℕ) : List ℕ :=
  ((0 :: starts ++ [length]).mergeSort).destutter (· ≠ ·)

/-- The pairs of neighbours. -/
def windows : List ℕ → List (ℕ × ℕ)
  | i :: j :: rest => (i, j) :: windows (j :: rest)
  | _ => []

/-- Refuses parts with too many bytes. -/
def checkSizes (cs : List Command) : List (ℕ × ℕ) → Attempt ScriptError Unit
  | [] => return
  | (i, j) :: rest => do
    let part ← check (Checked.slice cs i j)
    let size ← check (Checked.sumWords (part.map Command.byteLength))
    if Limits.scriptSize < size then fail (.scriptTooBig size) else checkSizes cs rest

variable {starts : List ℕ} {cs : List Command} {i n : ℕ} {rest : List ℕ}

theorem sorted_mergeSort (ns : List ℕ) : ns.mergeSort.Pairwise (· ≤ ·) := by
  have htrans : ∀ i j k : ℕ, decide (i ≤ j) = true → decide (j ≤ k) = true →
      decide (i ≤ k) = true := by
    simp only [decide_eq_true_iff]
    exact fun i j k => Nat.le_trans
  have htotal : ∀ i j : ℕ, (decide (i ≤ j) || decide (j ≤ i)) = true := by
    simp only [Bool.or_eq_true, decide_eq_true_iff]
    exact Nat.le_total
  simpa using List.pairwise_mergeSort htrans htotal ns

theorem bounds_eq_dedup (starts : List ℕ) (n : ℕ) :
    bounds starts n = ((0 :: starts ++ [n]).mergeSort).dedup :=
  (sorted_mergeSort _).destutter_eq_dedup

theorem mem_bounds : i ∈ bounds starts n ↔ i = 0 ∨ i ∈ starts ∨ i = n := by
  rw [bounds_eq_dedup, List.mem_dedup, List.mem_mergeSort]
  simp

theorem bounds_sorted (starts : List ℕ) (n : ℕ) : (bounds starts n).Pairwise (· < ·) := by
  have hle := (sorted_mergeSort (0 :: starts ++ [n])).sublist (List.dedup_sublist _)
  have hne : ((0 :: starts ++ [n]).mergeSort).dedup.Pairwise (· ≠ ·) := List.nodup_dedup _
  rw [bounds_eq_dedup]
  exact (hle.and hne).imp fun h => Nat.lt_of_le_of_ne h.1 h.2

theorem exists_bounds (starts : List ℕ) (n : ℕ) : ∃ rest, bounds starts n = 0 :: rest := by
  have hzero : 0 ∈ bounds starts n := mem_bounds.mpr (Or.inl rfl)
  have hsorted := bounds_sorted starts n
  cases hbounds : bounds starts n with
  | nil => exact absurd (hbounds ▸ hzero) List.not_mem_nil
  | cons i rest =>
    rw [hbounds] at hzero hsorted
    rcases List.mem_cons.mp hzero with rfl | hmem
    · exact ⟨rest, rfl⟩
    · exact absurd ((List.pairwise_cons.mp hsorted).1 0 hmem) (Nat.not_lt_zero i)

/-- From one position on, the parts lie between neighbours of the positions to come. -/
theorem parts_drop (hsorted : (i :: rest).Pairwise (· < ·)) (hle : ∀ j ∈ i :: rest, j ≤ cs.length)
    (hend : cs.length ∈ i :: rest)
    (hstarts : ∀ k, i < k → k < cs.length → (k ∈ starts ↔ k ∈ rest)) :
    Engine.parts starts i (cs.drop i) =
      (windows (i :: rest)).map fun w => (cs.take w.2).drop w.1 := by
  induction rest generalizing i with
  | nil =>
    rw [List.mem_singleton] at hend
    rw [List.drop_eq_nil_of_le (Nat.le_of_eq hend)]
    rfl
  | cons j rest ih =>
    obtain ⟨hlt, hsorted⟩ := List.pairwise_cons.mp hsorted
    have hij : i < j := hlt j List.mem_cons_self
    have hj : j ≤ cs.length := hle j (List.mem_cons_of_mem i List.mem_cons_self)
    have hend' : cs.length ∈ j :: rest := by
      refine (List.mem_cons.mp hend).resolve_left fun h => ?_
      omega
    have hrest := ih hsorted (fun k hk => hle k (List.mem_cons_of_mem i hk)) hend' fun k hk hlen => by
      rw [hstarts k (by omega) hlen, List.mem_cons, or_iff_right (Nat.ne_of_gt hk)]
    have hlen : ((cs.take j).drop i).length = j - i := by
      rw [List.length_drop, List.length_take, Nat.min_eq_left hj]
    have hfirst : Engine.parts starts i ((cs.take j).drop i) = [(cs.take j).drop i] := by
      have hne : (cs.take j).drop i ≠ [] := List.ne_nil_of_length_pos (by omega)
      refine Engine.parts_eq_singleton hne fun k hpos hk hmem => ?_
      rw [hstarts (i + k) (by omega) (by omega)] at hmem
      rcases List.mem_cons.mp hmem with h | h
      · omega
      · have := (List.pairwise_cons.mp hsorted).1 _ h
        omega
    have hcut : cs.drop i = (cs.take j).drop i ++ cs.drop j := by
      rw [← List.drop_append_of_le_length (by rw [List.length_take]; omega), List.take_append_drop]
    rw [hcut]
    show _ = (cs.take j).drop i :: (windows (j :: rest)).map _
    rw [← hrest]
    cases hys : cs.drop j with
    | nil =>
      rw [List.append_nil, hfirst]
      rfl
    | cons d ds =>
      have hjlen : j < cs.length := by
        have := congrArg List.length hys
        rw [List.length_drop, List.length_cons] at this
        omega
      obtain ⟨p, ps, hps⟩ := Engine.exists_parts_cons starts j d ds
      have hpos : i + ((cs.take j).drop i).length = j := by omega
      rw [Engine.parts_append (show _ = [] ++ [_] from hfirst) (hpos ▸ hps), hpos,
        if_pos ((hstarts j hij hjlen).mpr List.mem_cons_self), hps]
      rfl

/-- Neighbours in a sorted list are in order. -/
theorem le_of_mem_windows {ns : List ℕ} (hsorted : ns.Pairwise (· < ·)) {w : ℕ × ℕ}
    (hw : w ∈ windows ns) : w.1 ≤ w.2 ∧ w.2 ∈ ns := by
  induction ns with
  | nil => cases hw
  | cons i ns ih =>
    cases ns with
    | nil => cases hw
    | cons j ns =>
      obtain ⟨hlt, hsorted⟩ := List.pairwise_cons.mp hsorted
      rcases List.mem_cons.mp hw with rfl | hw
      · exact ⟨Nat.le_of_lt (hlt j List.mem_cons_self), List.mem_cons_of_mem i List.mem_cons_self⟩
      · obtain ⟨hle, hmem⟩ := ih hsorted hw
        exact ⟨hle, List.mem_cons_of_mem i hmem⟩

theorem totalLength_eq_sum (cs : List Command) :
    Command.totalLength cs = (cs.map Command.byteLength).sum := by
  induction cs with
  | nil => rfl
  | cons c cs ih => rw [Command.totalLength, List.map_cons, List.sum_cons, ih]

theorem totalLength_take_le (n : ℕ) (cs : List Command) :
    Command.totalLength (cs.take n) ≤ Command.totalLength cs := by
  have h := Command.totalLength_append (cs.take n) (cs.drop n)
  rw [List.take_append_drop] at h
  omega

/-- Parts that lie inside the commands are measured, and the first one that is too long is
reported. -/
theorem checkSizes_of_windows (hcs : Command.totalLength cs < Number.wordSize)
    {ws : List (ℕ × ℕ)} (hws : ∀ w ∈ ws, w.1 ≤ w.2 ∧ w.2 ≤ cs.length) :
    checkSizes cs ws =
      match ((ws.map fun w => (cs.take w.2).drop w.1).map Command.totalLength).find?
          (Limits.scriptSize < ·) with
      | some size => fail (.scriptTooBig size)
      | none => .ok () := by
  induction ws with
  | nil => rfl
  | cons w ws ih =>
    obtain ⟨hle, hlen⟩ := hws w List.mem_cons_self
    have hsum : Command.totalLength ((cs.take w.2).drop w.1) < Number.wordSize :=
      Nat.lt_of_le_of_lt (Nat.le_trans (Engine.totalLength_drop_le _ _) (totalLength_take_le _ _)) hcs
    rw [checkSizes, Checked.slice_eq_ok hle hlen, check_ok, ok_bind,
      Checked.sumWords_eq_ok (totalLength_eq_sum _ ▸ hsum), check_ok, ok_bind, ← totalLength_eq_sum,
      List.map_cons, List.map_cons, List.find?_cons]
    by_cases hbig : Limits.scriptSize < Command.totalLength ((cs.take w.2).drop w.1)
    · rw [if_pos hbig, decide_eq_true hbig]
    · rw [if_neg hbig, decide_eq_false hbig]
      exact ih fun w hw => hws w (List.mem_cons_of_mem _ hw)

/-- The parts of a script lie inside it, and the first one that is too long is reported. -/
theorem checkSizes_eq {script : Script} (hscript : script.Segmented)
    (hlen : script.byteLength < Number.wordSize) :
    checkSizes script.commands (windows (bounds script.segmentStarts script.commands.length)) =
      match script.oversize? with
      | some size => fail (.scriptTooBig size)
      | none => .ok () := by
  obtain ⟨rest, hrest⟩ := exists_bounds script.segmentStarts script.commands.length
  have hsorted := bounds_sorted script.segmentStarts script.commands.length
  have hle : ∀ j ∈ bounds script.segmentStarts script.commands.length,
      j ≤ script.commands.length := by
    intro j hj
    rcases mem_bounds.mp hj with rfl | hj | rfl
    · exact Nat.zero_le _
    · exact Nat.le_of_lt (hscript j hj)
    · exact Nat.le_refl _
  have hparts : script.parts = (windows (bounds script.segmentStarts script.commands.length)).map
      fun w => (script.commands.take w.2).drop w.1 := by
    have hend : script.commands.length ∈ bounds script.segmentStarts script.commands.length :=
      mem_bounds.mpr (Or.inr (Or.inr rfl))
    rw [hrest] at hsorted hle hend ⊢
    refine parts_drop hsorted hle hend fun k hpos hk => ?_
    have hmem : k ∈ bounds script.segmentStarts script.commands.length ↔
        k = 0 ∨ k ∈ script.segmentStarts ∨ k = script.commands.length := mem_bounds
    rw [hrest, List.mem_cons, or_iff_right (Nat.ne_of_gt hpos), or_iff_right (Nat.ne_of_gt hpos),
      or_iff_left (Nat.ne_of_lt hk)] at hmem
    exact hmem.symm
  rw [checkSizes_of_windows hlen fun w hw => ?_, ← hparts]
  · rfl
  · obtain ⟨hw', hmem⟩ := le_of_mem_windows hsorted hw
    exact ⟨hw', hle _ hmem⟩

end SpendScript.Machine
