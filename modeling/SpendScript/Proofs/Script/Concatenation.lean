import Mathlib.Data.List.Sort
import SpendScript.Proofs.Script.Parts
import SpendScript.Proofs.Script.Wire

/-!
# Concatenation of scripts

A concatenation notes a new beginning only if both sides have commands, and moves those of its right
side. Which places are noted does not depend on how the pieces are nested, and the notes are in
order, so the nesting leaves no trace at all.

* `Script.Made`: the scripts that programs can make.

Results:
* `Script.Ordered`: parts begin in order, each after the first command and before the last one ends.
* `Script.Made.ordered`: the parts of every script that a program can make do.
* `Script.Ordered.eq_of_mem_iff`: such a script is known from its commands and the places where its
  parts begin.
* `Script.append_assoc`, `Script.empty_append`, `Script.append_empty`: scripts are a monoid.
* `Script.concatenated`: all of this, and the bytes of a concatenation, for made scripts.
-/

namespace SpendScript

namespace Script

variable {s t u : Script}

/-- The scripts that programs can make: of any commands, read from bytes or from a stream, or
concatenated. -/
inductive Made : Script → Prop
  | ofCommands (cs : List Command) : Made (ofCommands cs)
  | ofBytes {bs : Bytes} {s : Script} (h : ofBytes bs = .ok s) : Made s
  | read {source rest : Source} {s : Script} (h : read source = .ok (s, rest)) : Made s
  | append {s t : Script} (hs : Made s) (ht : Made t) : Made (s ++ t)

/-! ## The places where parts begin -/

/-- Parts begin in order, and none of them is empty. -/
structure Ordered (s : Script) : Prop where
  increasing : s.segmentStarts.Pairwise (· < ·)
  inside : ∀ i ∈ s.segmentStarts, 0 < i ∧ i < s.commands.length

theorem ordered_ofCommands (cs : List Command) : (ofCommands cs).Ordered :=
  ⟨.nil, fun _ hi => absurd hi List.not_mem_nil⟩

theorem ordered_ofBytes {bs : Bytes} (h : ofBytes bs = .ok s) : s.Ordered := by
  obtain ⟨cs, -, rfl⟩ := ofBytes_eq_ok.mp h
  exact ordered_ofCommands cs

/-- The parts of the left side begin before its end, the next one there and those of the right side
after it. -/
theorem Ordered.append (hs : s.Ordered) (ht : t.Ordered) : (s ++ t).Ordered where
  increasing := by
    have hjoint : ∀ i ∈ (if s.commands.length = 0 ∨ t.commands = [] then [] else
        [s.commands.length]), i = s.commands.length := by
      intro i hi
      split_ifs at hi
      · cases hi
      · exact List.mem_singleton.mp hi
    rw [segmentStarts_append]
    refine List.pairwise_append.mpr ⟨List.pairwise_append.mpr ⟨hs.increasing, ?_, ?_⟩, ?_, ?_⟩
    · split_ifs
      · exact .nil
      · exact List.pairwise_singleton _ _
    · intro i hi j hj
      rw [hjoint j hj]
      exact (hs.inside i hi).2
    · exact ht.increasing.map _ fun i j hij => Nat.add_lt_add_right hij _
    · intro i hi j hj
      obtain ⟨k, hk, rfl⟩ := List.mem_map.mp hj
      have hpos := (ht.inside k hk).1
      rcases List.mem_append.mp hi with hi | hi
      · have := (hs.inside i hi).2
        omega
      · have := hjoint i hi
        omega
  inside := by
    intro i hi
    rw [commands_append, List.length_append]
    rcases mem_segmentStarts_append.mp hi with hi | ⟨rfl, hs', ht'⟩ | ⟨j, hj, rfl⟩
    · have := hs.inside i hi
      omega
    · have := List.length_pos_iff.mpr hs'
      have := List.length_pos_iff.mpr ht'
      omega
    · have := ht.inside j hj
      omega

theorem Ordered.segmented (h : s.Ordered) : s.Segmented :=
  fun i hi => (h.inside i hi).2

theorem Made.ordered (h : s.Made) : s.Ordered := by
  induction h with
  | ofCommands cs => exact ordered_ofCommands cs
  | ofBytes h => exact ordered_ofBytes h
  | read h =>
    obtain ⟨_, _, _, _, _, hbytes⟩ := exists_of_read h
    exact ordered_ofBytes hbytes
  | append _ _ hs ht => exact hs.append ht

theorem Made.segmented (h : s.Made) : s.Segmented :=
  h.ordered.segmented

/-! ## The monoid -/

/-- Beginnings in order are known from which places they are. -/
theorem Ordered.eq_of_mem_iff (hs : s.Ordered) (ht : t.Ordered)
    (hcommands : s.commands = t.commands)
    (hstarts : ∀ i, i ∈ s.segmentStarts ↔ i ∈ t.segmentStarts) : s = t := by
  obtain ⟨cs, starts⟩ := s
  obtain ⟨ds, starts'⟩ := t
  obtain rfl : cs = ds := hcommands
  obtain rfl : starts = starts' := hs.increasing.eq_of_mem_iff ht.increasing hstarts
  rfl

/-- The two joints of three pieces. A joint beside an empty piece is the other one or an end. -/
theorem joint_iff (s t u : Script) (i : ℕ) :
    (i = s.commands.length ∧ s.commands ≠ [] ∧ t.commands ≠ []) ∨
        (i = (s ++ t).commands.length ∧ (s ++ t).commands ≠ [] ∧ u.commands ≠ []) ↔
      (i = s.commands.length ∧ s.commands ≠ [] ∧ (t ++ u).commands ≠ []) ∨
        (i = s.commands.length + t.commands.length ∧ t.commands ≠ [] ∧ u.commands ≠ []) := by
  rw [commands_append, commands_append, List.length_append]
  by_cases hs : s.commands = []
  · simp [hs]
  by_cases ht : t.commands = []
  · simp [ht]
  · simp [hs, ht]

theorem append_assoc (hs : s.Ordered) (ht : t.Ordered) (hu : u.Ordered) :
    (s ++ t) ++ u = s ++ (t ++ u) := by
  refine ((hs.append ht).append hu).eq_of_mem_iff (hs.append (ht.append hu))
    (List.append_assoc _ _ _) fun i => ?_
  have hright : (∃ j ∈ (t ++ u).segmentStarts, j + s.commands.length = i) ↔
      (∃ j ∈ t.segmentStarts, j + s.commands.length = i) ∨
        (i = s.commands.length + t.commands.length ∧ t.commands ≠ [] ∧ u.commands ≠ []) ∨
        ∃ j ∈ u.segmentStarts, j + (s ++ t).commands.length = i := by
    simp only [mem_segmentStarts_append, commands_append, List.length_append]
    constructor
    · rintro ⟨_, hj | ⟨rfl, hne⟩ | ⟨k, hk, rfl⟩, rfl⟩
      · exact .inl ⟨_, hj, rfl⟩
      · exact .inr (.inl ⟨Nat.add_comm _ _, hne⟩)
      · exact .inr (.inr ⟨k, hk, by omega⟩)
    · rintro (⟨j, hj, rfl⟩ | ⟨rfl, hne⟩ | ⟨k, hk, rfl⟩)
      · exact ⟨j, .inl hj, rfl⟩
      · exact ⟨_, .inr (.inl ⟨rfl, hne⟩), Nat.add_comm _ _⟩
      · exact ⟨_, .inr (.inr ⟨k, hk, rfl⟩), by omega⟩
  have hjoint := joint_iff s t u i
  rw [mem_segmentStarts_append, mem_segmentStarts_append, mem_segmentStarts_append, hright]
  -- both sides: the beginnings of the first piece, two joints, the beginnings of the others
  grind

theorem empty_append (hs : s.Ordered) : empty ++ s = s := by
  refine ((ordered_ofCommands []).append hs).eq_of_mem_iff hs rfl fun i => ?_
  rw [mem_segmentStarts_append]
  simp [ofCommands]

theorem append_empty (hs : s.Ordered) : s ++ empty = s := by
  refine (hs.append (ordered_ofCommands [])).eq_of_mem_iff hs (List.append_nil _) fun i => ?_
  rw [mem_segmentStarts_append]
  simp [ofCommands]

theorem toBytes_append (s t : Script) : (s ++ t).toBytes = s.toBytes ++ t.toBytes :=
  List.flatMap_append

/-- Parts begin in order and inside a script, however it was put together. How a concatenation is
nested leaves no trace, pieces without commands leave none either, and its bytes and its parts are
those of its pieces, one after the other. -/
theorem concatenated (hs : s.Made) (ht : t.Made) (hu : u.Made) :
    (s.segmentStarts.Pairwise (· < ·) ∧ ∀ i ∈ s.segmentStarts, 0 < i ∧ i < s.commands.length) ∧
      (s ++ t).Made ∧
      (s ++ t) ++ u = s ++ (t ++ u) ∧
      empty ++ s = s ∧ s ++ empty = s ∧
      (s ++ t).toBytes = s.toBytes ++ t.toBytes ∧
      (s ++ t).parts = s.parts ++ t.parts :=
  ⟨⟨hs.ordered.increasing, hs.ordered.inside⟩, hs.append ht,
    append_assoc hs.ordered ht.ordered hu.ordered, empty_append hs.ordered,
    append_empty hs.ordered, toBytes_append s t, parts_append hs.segmented t⟩

/-- A part of one command and a part of two. -/
def twoParts : Script :=
  ofCommands [.op Opcode.one] ++ ofCommands [.op Opcode.one, .op Opcode.one]

theorem concatenated_twoParts :
    (twoParts.Made ∧ empty.Made) ∧
      (twoParts ++ empty) ++ twoParts = twoParts ++ (empty ++ twoParts) ∧
      ((twoParts ++ empty) ++ twoParts).segmentStarts = [1, 3, 4] := by
  have htwo : twoParts.Made := .append (.ofCommands _) (.ofCommands _)
  have hempty : empty.Made := .ofCommands []
  have hassoc := (concatenated htwo hempty htwo).2.2.1
  exact ⟨⟨htwo, hempty⟩, hassoc, by decide⟩

end Script

end SpendScript
