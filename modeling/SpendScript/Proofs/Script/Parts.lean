import Mathlib.Data.Nat.Notation
import Mathlib.Logic.Basic
import Mathlib.Tactic.SplitIfs
import SpendScript.Engine.Run

/-!
# Parts of scripts

A script made by concatenation has the parts of what it is made of, and its size limit holds for
each of them.

Results:
* `Engine.parts_append`: the parts of a list of commands, from those of its two halves.
* `Script.Segmented`: parts begin inside the script; every script that is made by concatenation is
  like that.
* `Script.parts_append`: the parts of a concatenation; `Script.oversize?_append`: the first one that
  is too long.
* `Script.SizesAllowed`: no part is too long.
-/

namespace SpendScript

namespace Command

theorem one_le_byteLength (c : Command) : 1 ≤ c.byteLength := by
  cases c with
  | op code => exact Nat.le_refl 1
  | push p =>
    have : 1 ≤ p.encoding.headerLength := by cases p.encoding <;> decide
    show 1 ≤ p.encoding.headerLength + p.data.length
    omega

theorem length_le_totalLength (cs : List Command) : cs.length ≤ totalLength cs := by
  induction cs with
  | nil => exact Nat.le_refl 0
  | cons c cs ih =>
    have := c.one_le_byteLength
    rw [List.length_cons, totalLength]
    omega

theorem totalLength_append (cs ds : List Command) :
    totalLength (cs ++ ds) = totalLength cs + totalLength ds := by
  induction cs with
  | nil => simp [totalLength]
  | cons c cs ih =>
    rw [List.cons_append, totalLength, totalLength, ih]
    omega

end Command

namespace Engine

variable {starts starts' : List ℕ} {i j : ℕ} {c : Command} {cs xs ys part p : List Command}
  {ps init : List (List Command)}

/-! ## Lists of commands -/

theorem parts_cons (hcs : parts starts (i + 1) cs = p :: ps) :
    parts starts i (c :: cs) = if i + 1 ∈ starts then [c] :: p :: ps else (c :: p) :: ps := by
  unfold parts
  rw [hcs]

theorem exists_parts_cons (starts : List ℕ) (i : ℕ) (c : Command) (cs : List Command) :
    ∃ p ps, parts starts i (c :: cs) = p :: ps := by
  cases hcs : parts starts (i + 1) cs with
  | nil =>
    refine ⟨[c], [], ?_⟩
    unfold parts
    rw [hcs]
  | cons p ps =>
    rw [parts_cons hcs]
    split_ifs
    · exact ⟨[c], p :: ps, rfl⟩
    · exact ⟨c :: p, ps, rfl⟩

theorem exists_parts_concat (starts : List ℕ) (i : ℕ) (h : cs ≠ []) :
    ∃ init part, parts starts i cs = init ++ [part] := by
  obtain ⟨c, rest, rfl⟩ := List.exists_cons_of_ne_nil h
  obtain ⟨p, ps, hps⟩ := exists_parts_cons starts i c rest
  rw [hps]
  exact ⟨_, _, (List.dropLast_concat_getLast (List.cons_ne_nil p ps)).symm⟩

theorem parts_cons_of_mem (h : i + 1 ∈ starts) (c d : Command) (cs : List Command) :
    parts starts i (c :: d :: cs) = [c] :: parts starts (i + 1) (d :: cs) := by
  obtain ⟨p, ps, hps⟩ := exists_parts_cons starts (i + 1) d cs
  rw [parts_cons hps, if_pos h, hps]

/-- Only where parts begin after the first command matters. -/
theorem parts_congr (h : ∀ k, 0 < k → k < cs.length → (j + k ∈ starts' ↔ i + k ∈ starts)) :
    parts starts' j cs = parts starts i cs := by
  induction cs generalizing i j with
  | nil => rfl
  | cons c cs ih =>
    have htail : parts starts' (j + 1) cs = parts starts (i + 1) cs := by
      apply ih
      intro k hpos hk
      rw [Nat.add_assoc, Nat.add_assoc]
      exact h (1 + k) (by omega) (by rw [List.length_cons]; omega)
    unfold parts
    rw [htail]
    cases hps : parts starts (i + 1) cs with
    | nil => rfl
    | cons p ps =>
      have hne : cs ≠ [] := by
        rintro rfl
        cases hps
      exact if_congr (h 1 Nat.one_pos (by
        rw [List.length_cons]
        have := List.length_pos_iff.mpr hne
        omega)) rfl rfl

/-- Where no part begins after the first command, there is one part. -/
theorem parts_eq_singleton (hcs : cs ≠ []) (h : ∀ k, 0 < k → k < cs.length → i + k ∉ starts) :
    parts starts i cs = [cs] := by
  induction cs generalizing i with
  | nil => exact absurd rfl hcs
  | cons c cs ih =>
    cases cs with
    | nil => rfl
    | cons d cs =>
      have htail : parts starts (i + 1) (d :: cs) = [d :: cs] := by
        refine ih (List.cons_ne_nil d cs) fun k hpos hk => ?_
        rw [Nat.add_assoc]
        exact h (1 + k) (by omega) (by rw [List.length_cons]; omega)
      rw [parts_cons htail, if_neg (h 1 Nat.one_pos (by simp))]

/-- Two halves keep their parts, but the last part of the first half goes on unless a part begins
between them. -/
theorem parts_append (hxs : parts starts i xs = init ++ [part])
    (hys : parts starts (i + xs.length) ys = p :: ps) :
    parts starts i (xs ++ ys) =
      if i + xs.length ∈ starts then init ++ part :: p :: ps else init ++ (part ++ p) :: ps := by
  induction xs generalizing i init part with
  | nil =>
    have hnil : [] = init ++ [part] := hxs
    cases init <;> cases hnil
  | cons c xs ih =>
    cases xs with
    | nil =>
      obtain ⟨rfl, rfl⟩ : init = [] ∧ part = [c] := by
        have hone : [[c]] = init ++ [part] := hxs
        rw [List.singleton_eq_append_iff] at hone
        simpa using hone
      show parts starts i (c :: ys) = _
      unfold parts
      rw [show parts starts (i + 1) ys = p :: ps from hys]
      rfl
    | cons d xs =>
      obtain ⟨q, qs, htail⟩ := exists_parts_cons starts (i + 1) d xs
      have hpos : i + (c :: d :: xs).length = i + 1 + (d :: xs).length := by
        rw [List.length_cons, Nat.add_assoc, Nat.add_comm 1]
      rw [hpos] at hys ⊢
      rw [parts_cons htail] at hxs
      rw [List.cons_append]
      by_cases hi : i + 1 ∈ starts
      · rw [if_pos hi] at hxs
        cases init with
        | nil => cases hxs
        | cons first init =>
          obtain ⟨rfl, hqs⟩ := List.cons.inj hxs
          rw [List.cons_append, parts_cons_of_mem hi, ← List.cons_append,
            ih (htail.trans hqs) hys]
          split_ifs <;> rfl
      · rw [if_neg hi] at hxs
        cases init with
        | nil =>
          obtain ⟨rfl, rfl⟩ := List.cons.inj hxs
          have hrest := ih (show _ = [] ++ [q] from htail) hys
          split_ifs at hrest ⊢ <;> rw [parts_cons hrest, if_neg hi] <;> rfl
        | cons first init =>
          obtain ⟨rfl, rfl⟩ := List.cons.inj hxs
          have hrest := ih (show _ = q :: init ++ [part] from htail) hys
          split_ifs at hrest ⊢ <;> rw [parts_cons hrest, if_neg hi] <;> rfl

theorem totalLength_le_of_mem_parts (h : part ∈ parts starts i cs) :
    Command.totalLength part ≤ Command.totalLength cs := by
  induction cs generalizing i part with
  | nil => cases h
  | cons c cs ih =>
    unfold parts at h
    rw [Command.totalLength]
    cases hparts : parts starts (i + 1) cs with
    | nil =>
      rw [hparts] at h
      rw [List.mem_singleton.mp h, Command.totalLength, Command.totalLength]
      omega
    | cons p ps =>
      have hmem : ∀ q ∈ p :: ps, Command.totalLength q ≤ Command.totalLength cs := by
        intro q hq
        exact ih (hparts ▸ hq)
      simp only [hparts] at h
      split_ifs at h
      · rcases List.mem_cons.mp h with rfl | h
        · rw [Command.totalLength, Command.totalLength]
          omega
        · have := hmem part h
          omega
      · rcases List.mem_cons.mp h with rfl | h
        · have := hmem p List.mem_cons_self
          rw [Command.totalLength]
          omega
        · have := hmem part (List.mem_cons_of_mem p h)
          omega

/-- Every part of the first half is the beginning of a part of the whole. -/
theorem exists_part_of_append (ys : List Command) (h : part ∈ parts starts i xs) :
    ∃ extra, part ++ extra ∈ parts starts i (xs ++ ys) := by
  cases ys with
  | nil =>
    refine ⟨[], ?_⟩
    rw [List.append_nil, List.append_nil]
    exact h
  | cons c cs =>
    have hne : xs ≠ [] := by
      rintro rfl
      cases h
    obtain ⟨init, last, hinit⟩ := exists_parts_concat starts i hne
    obtain ⟨p, ps, hps⟩ := exists_parts_cons starts (i + xs.length) c cs
    rw [parts_append hinit hps]
    rw [hinit, List.mem_append, List.mem_singleton] at h
    rcases h with h | rfl
    · refine ⟨[], ?_⟩
      rw [List.append_nil]
      split_ifs <;> exact List.mem_append_left _ h
    · split_ifs
      · refine ⟨[], List.mem_append_right _ ?_⟩
        rw [List.append_nil]
        exact List.mem_cons_self
      · exact ⟨p, List.mem_append_right _ List.mem_cons_self⟩

end Engine

namespace Script

variable {s : Script}

/-! ## Scripts -/

/-- Parts begin inside the script. -/
def Segmented (s : Script) : Prop :=
  ∀ i ∈ s.segmentStarts, i < s.commands.length

theorem segmented_ofCommands (cs : List Command) : (ofCommands cs).Segmented := by
  intro i hi
  cases hi

theorem commands_append (s t : Script) : (s ++ t).commands = s.commands ++ t.commands := rfl

theorem segmentStarts_append (s t : Script) : (s ++ t).segmentStarts =
    s.segmentStarts ++ (if s.commands.length = 0 ∨ t.commands = [] then [] else
      [s.commands.length]) ++ t.segmentStarts.map (· + s.commands.length) := rfl

/-- Where the parts of a concatenation begin. -/
theorem mem_segmentStarts_append {t : Script} {i : ℕ} : i ∈ (s ++ t).segmentStarts ↔
    i ∈ s.segmentStarts ∨ (i = s.commands.length ∧ s.commands ≠ [] ∧ t.commands ≠ []) ∨
      ∃ j ∈ t.segmentStarts, j + s.commands.length = i := by
  rw [segmentStarts_append]
  have hempty : (s.commands ≠ [] ∧ t.commands ≠ []) ↔
      ¬(s.commands.length = 0 ∨ t.commands = []) := by
    rw [not_or, List.length_eq_zero_iff]
  rw [List.mem_append, List.mem_append, or_assoc, List.mem_map, hempty]
  refine or_congr_right (or_congr_left ?_)
  split_ifs with h
  · exact iff_of_false List.not_mem_nil fun hmem => hmem.2 h
  · rw [List.mem_singleton, and_iff_left h]

theorem Segmented.append {t : Script} (hs : s.Segmented) (ht : t.Segmented) :
    (s ++ t).Segmented := by
  intro i hi
  rw [commands_append, List.length_append]
  rcases mem_segmentStarts_append.mp hi with hi | ⟨rfl, -, hne⟩ | ⟨j, hj, rfl⟩
  · have := hs i hi
    omega
  · have := List.length_pos_iff.mpr hne
    omega
  · have := ht j hj
    omega

theorem Segmented.take (hs : s.Segmented) (n : ℕ) : (s.take n).Segmented := by
  intro i hi
  show i < (s.commands.take n).length
  obtain ⟨hmem, hlt⟩ := List.mem_filter.mp hi
  rw [List.length_take]
  exact Nat.lt_min.mpr ⟨of_decide_eq_true hlt, hs i hmem⟩

theorem take_append (hs : s.Segmented) (t : Script) : (s ++ t).take s.commands.length = s := by
  have hkept : s.segmentStarts.filter (· < s.commands.length) = s.segmentStarts :=
    List.filter_eq_self.mpr fun i hi => decide_eq_true (hs i hi)
  have hstart : (if s.commands.length = 0 ∨ t.commands = [] then [] else
      [s.commands.length]).filter (· < s.commands.length) = [] := by
    split_ifs <;> simp
  have hlater : (t.segmentStarts.map (· + s.commands.length)).filter
      (· < s.commands.length) = [] := by
    simp [List.filter_eq_nil_iff]
  rw [take, commands_append, segmentStarts_append, List.take_left, List.filter_append,
    List.filter_append, hkept, hstart, hlater, List.append_nil, List.append_nil]

/-- The parts of a script. -/
def parts (s : Script) : List (List Command) :=
  Engine.parts s.segmentStarts 0 s.commands

/-- A concatenation has the parts of both scripts. -/
theorem parts_append (hs : s.Segmented) (t : Script) : (s ++ t).parts = s.parts ++ t.parts := by
  have hleft : Engine.parts (s ++ t).segmentStarts 0 s.commands = s.parts := by
    apply Engine.parts_congr
    intro k hpos hk
    rw [mem_segmentStarts_append]
    constructor
    · rintro (h | ⟨h, -⟩ | ⟨j, -, h⟩)
      · exact h
      · omega
      · omega
    · exact Or.inl
  have hright : Engine.parts (s ++ t).segmentStarts (0 + s.commands.length) t.commands =
      t.parts := by
    apply Engine.parts_congr
    intro k hpos hk
    rw [mem_segmentStarts_append]
    constructor
    · rintro (h | ⟨h, -⟩ | ⟨j, hj, h⟩)
      · have := hs _ h
        omega
      · omega
      · rwa [show 0 + k = j by omega]
    · intro h
      exact Or.inr (Or.inr ⟨_, h, by omega⟩)
  show Engine.parts (s ++ t).segmentStarts 0 (s.commands ++ t.commands) = _
  by_cases hs' : s.commands = []
  · have hnil : s.parts = [] := by rw [parts, hs', Engine.parts]
    rw [hs'] at hright ⊢
    rw [hnil, List.nil_append, List.nil_append, ← hright]
    rfl
  · cases hcs : t.commands with
    | nil =>
      have hnil : t.parts = [] := by rw [parts, hcs, Engine.parts]
      rw [List.append_nil, hnil, List.append_nil, hleft]
    | cons c cs =>
      have hstart : 0 + s.commands.length ∈ (s ++ t).segmentStarts := by
        rw [Nat.zero_add]
        exact mem_segmentStarts_append.mpr
          (Or.inr (Or.inl ⟨rfl, hs', hcs ▸ List.cons_ne_nil c cs⟩))
      rw [hcs] at hright
      obtain ⟨p, ps, hps⟩ :=
        Engine.exists_parts_cons (s ++ t).segmentStarts (0 + s.commands.length) c cs
      obtain ⟨init, part, hinit⟩ := Engine.exists_parts_concat (s ++ t).segmentStarts 0 hs'
      rw [Engine.parts_append hinit hps, if_pos hstart, ← hps, hright, ← hleft, hinit,
        List.append_assoc]
      rfl

/-- No part is longer than a script may be. -/
def SizesAllowed (s : Script) : Prop :=
  ∀ part ∈ s.parts, Command.totalLength part ≤ Limits.scriptSize

theorem sizesAllowed_of_le (h : s.byteLength ≤ Limits.scriptSize) : s.SizesAllowed := by
  intro part hpart
  exact Nat.le_trans (Engine.totalLength_le_of_mem_parts hpart) h

theorem SizesAllowed.take (h : s.SizesAllowed) (n : ℕ) : (s.take n).SizesAllowed := by
  intro part hpart
  have hparts : (s.take n).parts = Engine.parts s.segmentStarts 0 (s.commands.take n) := by
    apply Engine.parts_congr
    intro k _ hk
    rw [Nat.zero_add]
    show k ∈ s.segmentStarts.filter (· < n) ↔ _
    have hlt : k < n := by
      have hle : k < (s.commands.take n).length := hk
      rw [List.length_take] at hle
      omega
    rw [List.mem_filter, decide_eq_true_iff, and_iff_left hlt]
  rw [hparts] at hpart
  obtain ⟨extra, hmem⟩ := Engine.exists_part_of_append (s.commands.drop n) hpart
  rw [List.take_append_drop] at hmem
  have hle := h _ hmem
  rw [Command.totalLength_append] at hle
  omega

/-- The length of the first part that is too long. -/
def oversize? (s : Script) : Option ℕ :=
  (s.parts.map Command.totalLength).find? (Limits.scriptSize < ·)

theorem oversize?_eq_none : s.oversize? = none ↔ s.SizesAllowed := by
  simp only [oversize?, List.find?_eq_none, List.forall_mem_map, decide_eq_true_iff, Nat.not_lt,
    SizesAllowed]

theorem oversize?_append (hs : s.Segmented) {t : Script} (ht : t.SizesAllowed) :
    (s ++ t).oversize? = s.oversize? := by
  rw [oversize?, parts_append hs, List.map_append, List.find?_append]
  rw [show (t.parts.map Command.totalLength).find? _ = none from oversize?_eq_none.mpr ht,
    Option.or_none]
  rfl

end Script

end SpendScript
