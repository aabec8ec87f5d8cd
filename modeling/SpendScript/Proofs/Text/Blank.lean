import Mathlib.Data.List.Basic
import Mathlib.Data.List.TakeWhile
import SpendScript.Text.Blank

/-!
# Trimmed texts and their parts

* `Text.Blank`: texts of blanks only. `Text.trimLeft`: a text without the blanks at its start.

Results:
* `Text.trim_append_left`, `Text.trim_append_right`: blanks at the ends of a text do not matter, and
  `Text.exists_trim`: they are all that trimming takes away.
* `Text.trim_append_cons`: around a character that is not blank, each side is trimmed at its own end.
* `Text.length_split`, `Text.split_of_notMem`: separators are counted by the parts.
* `Text.exists_split`: what is put between two texts goes into the part in which they meet.
-/

namespace SpendScript.Text

variable {c sep : Char} {cs l r : List Char}

/-! ## Blanks -/

/-- The text has nothing but blanks. -/
def Blank (cs : List Char) : Prop :=
  ∀ c ∈ cs, isBlank c = true

instance : DecidablePred Blank :=
  fun cs => decidable_of_iff (cs.all isBlank = true) List.all_eq_true

theorem blank_nil : Blank [] :=
  fun _ h => by cases h

theorem Blank.notMem (h : Blank cs) (hc : isBlank c = false) : c ∉ cs := by
  intro hmem
  rw [h c hmem] at hc
  cases hc

theorem blank_append : Blank (l ++ r) ↔ Blank l ∧ Blank r :=
  List.forall_mem_append

/-- A text without the blanks at its start. -/
def trimLeft (cs : List Char) : List Char :=
  cs.dropWhile isBlank

theorem trim_eq (cs : List Char) : trim cs = trimRight (trimLeft cs) :=
  rfl

theorem trimLeft_eq_nil_iff : trimLeft cs = [] ↔ Blank cs :=
  List.dropWhile_eq_nil_iff

theorem trimRight_eq_nil_iff : trimRight cs = [] ↔ Blank cs := by
  rw [trimRight, List.reverse_eq_nil_iff, List.dropWhile_eq_nil_iff]
  exact forall_congr' fun c => by rw [List.mem_reverse]

theorem trimLeft_append_left (h : Blank l) (cs : List Char) :
    trimLeft (l ++ cs) = trimLeft cs :=
  List.dropWhile_append_of_pos h

theorem trimRight_append_right (h : Blank r) (cs : List Char) :
    trimRight (cs ++ r) = trimRight cs := by
  rw [trimRight, List.reverse_append, List.dropWhile_append_of_pos, trimRight]
  exact fun c hc => h c (List.mem_reverse.mp hc)

/-- What follows a text that is not blank stays. -/
theorem trimLeft_append (h : ¬Blank l) (cs : List Char) :
    trimLeft (l ++ cs) = trimLeft l ++ cs := by
  rw [trimLeft, List.dropWhile_append, if_neg]
  · rfl
  · rw [List.isEmpty_iff]
    exact fun hnil => h (trimLeft_eq_nil_iff.mp hnil)

theorem trimLeft_cons (hc : isBlank c = false) (cs : List Char) : trimLeft (c :: cs) = c :: cs :=
  List.dropWhile_cons_of_neg (by rw [hc]; exact Bool.false_ne_true)

theorem trimRight_concat (hc : isBlank c = false) (cs : List Char) :
    trimRight (cs ++ [c]) = cs ++ [c] := by
  rw [trimRight, List.reverse_concat,
    List.dropWhile_cons_of_neg (by rw [hc]; exact Bool.false_ne_true), List.reverse_cons,
    List.reverse_reverse]

theorem trimRight_append (h : ¬Blank r) (cs : List Char) :
    trimRight (cs ++ r) = cs ++ trimRight r := by
  have hreverse : ¬Blank r.reverse := fun hr => h fun c hc => hr c (List.mem_reverse.mpr hc)
  show (trimLeft (cs ++ r).reverse).reverse = cs ++ (trimLeft r.reverse).reverse
  rw [List.reverse_append, trimLeft_append hreverse, List.reverse_append, List.reverse_reverse]

theorem trimRight_append_cons (hc : isBlank c = false) (cs r : List Char) :
    trimRight (cs ++ c :: r) = cs ++ c :: trimRight r := by
  rw [List.append_cons cs c r, List.append_cons cs c (trimRight r)]
  by_cases h : Blank r
  · rw [trimRight_append_right h, trimRight_concat hc, trimRight_eq_nil_iff.mpr h, List.append_nil]
  · exact trimRight_append h _

/-! ## Both ends -/

theorem trim_append_left (h : Blank l) (cs : List Char) : trim (l ++ cs) = trim cs := by
  rw [trim_eq, trimLeft_append_left h, trim_eq]

theorem trim_append_right (h : Blank r) (cs : List Char) : trim (cs ++ r) = trim cs := by
  by_cases hblank : Blank cs
  · rw [trim_append_left hblank, trim_eq, trim_eq, trimLeft_eq_nil_iff.mpr h,
      trimLeft_eq_nil_iff.mpr hblank]
  · rw [trim_eq, trimLeft_append hblank, trimRight_append_right h, trim_eq]

theorem blank_takeWhile (cs : List Char) : Blank (cs.takeWhile isBlank) :=
  fun _ hc => List.mem_takeWhile_imp hc

theorem exists_trimLeft (cs : List Char) : ∃ l, Blank l ∧ cs = l ++ trimLeft cs :=
  ⟨_, blank_takeWhile cs, List.takeWhile_append_dropWhile.symm⟩

theorem exists_trimRight (cs : List Char) : ∃ r, Blank r ∧ cs = trimRight cs ++ r := by
  refine ⟨(cs.reverse.takeWhile isBlank).reverse,
    fun c hc => blank_takeWhile _ c (List.mem_reverse.mp hc), ?_⟩
  rw [trimRight, ← List.reverse_append, List.takeWhile_append_dropWhile, List.reverse_reverse]

/-- Trimming takes away blanks at the ends, and nothing else. -/
theorem exists_trim (cs : List Char) : ∃ l r, Blank l ∧ Blank r ∧ cs = l ++ trim cs ++ r := by
  obtain ⟨l, hl, hleft⟩ := exists_trimLeft cs
  obtain ⟨r, hr, hright⟩ := exists_trimRight (trimLeft cs)
  refine ⟨l, r, hl, hr, ?_⟩
  rw [List.append_assoc, trim_eq, ← hright]
  exact hleft

theorem trim_trimRight (cs : List Char) : trim (trimRight cs) = trim cs := by
  obtain ⟨r, hr, hcs⟩ := exists_trimRight cs
  calc trim (trimRight cs) = trim (trimRight cs ++ r) := (trim_append_right hr _).symm
    _ = trim cs := by rw [← hcs]

/-- Trimming keeps all characters that are not blank. -/
theorem count_trim (hc : isBlank c = false) (cs : List Char) : (trim cs).count c = cs.count c := by
  obtain ⟨l, r, hl, hr, hcs⟩ := exists_trim cs
  calc (trim cs).count c = (l ++ trim cs ++ r).count c := by
        rw [List.count_append, List.count_append, List.count_eq_zero.mpr (hl.notMem hc),
          List.count_eq_zero.mpr (hr.notMem hc), Nat.zero_add, Nat.add_zero]
    _ = cs.count c := by rw [← hcs]

theorem trim_eq_nil_iff : trim cs = [] ↔ Blank cs := by
  constructor
  · intro h
    obtain ⟨l, r, hl, hr, hcs⟩ := exists_trim cs
    rw [hcs, h, List.append_nil]
    exact blank_append.mpr ⟨hl, hr⟩
  · intro h
    rw [trim_eq, trimLeft_eq_nil_iff.mpr h]
    rfl

/-- Around a character that is not blank, each side loses the blanks at its own end. -/
theorem trim_append_cons (hc : isBlank c = false) (l r : List Char) :
    trim (l ++ c :: r) = trimLeft l ++ c :: trimRight r := by
  have hleft : trimLeft (l ++ c :: r) = trimLeft l ++ c :: r := by
    by_cases h : Blank l
    · rw [trimLeft_append_left h, trimLeft_cons hc, trimLeft_eq_nil_iff.mpr h, List.nil_append]
    · exact trimLeft_append h _
  rw [trim_eq, hleft, trimRight_append_cons hc]

/-- A text that has no blanks stays as it is. -/
theorem trim_of_forall (h : ∀ c ∈ cs, isBlank c = false) : trim cs = cs := by
  obtain ⟨l, r, hl, hr, hcs⟩ := exists_trim cs
  have hnil : ∀ {blanks : List Char}, Blank blanks → (∀ c ∈ blanks, c ∈ cs) → blanks = [] := by
    intro blanks hblanks hmem
    rw [List.eq_nil_iff_forall_not_mem]
    intro c hc
    exact hblanks.notMem (h c (hmem c hc)) hc
  have hl' : l = [] := hnil hl fun c hc => by rw [hcs]; simp [hc]
  have hr' : r = [] := hnil hr fun c hc => by rw [hcs]; simp [hc]
  rw [hl', hr', List.nil_append, List.append_nil] at hcs
  exact hcs.symm

/-! ## Parts -/

theorem length_split (sep : Char) (cs : List Char) :
    (split sep cs).length = cs.count sep + 1 := by
  induction cs with
  | nil => rfl
  | cons c cs ih =>
    by_cases hc : c = sep
    · rw [split, if_pos hc, List.length_cons, ih, hc, List.count_cons_self]
    · obtain ⟨part, parts, hparts⟩ := List.exists_cons_of_ne_nil (split_ne_nil sep cs)
      rw [hparts, List.length_cons] at ih
      rw [split, if_neg hc, hparts, List.count_cons_of_ne hc]
      exact ih

theorem split_of_notMem (h : sep ∉ cs) : split sep cs = [cs] := by
  induction cs with
  | nil => rfl
  | cons c cs ih =>
    obtain ⟨hc, hcs⟩ := not_or.mp (mt List.mem_cons.mpr h)
    rw [split, if_neg (Ne.symm hc), ih hcs]

/-- A text without separators goes into the first part of what follows it. -/
theorem split_append (h : sep ∉ l) {part : List Char} {parts : List (List Char)}
    (hcs : split sep cs = part :: parts) : split sep (l ++ cs) = (l ++ part) :: parts := by
  induction l with
  | nil => exact hcs
  | cons c l ih =>
    obtain ⟨hc, hl⟩ := not_or.mp (mt List.mem_cons.mpr h)
    rw [List.cons_append, split, if_neg (Ne.symm hc), ih hl]
    rfl

/-- What is put between two texts, without a separator, is put into the part in which they meet. -/
theorem exists_split (sep : Char) (u v : List Char) : ∃ before x y after,
    split sep u = before ++ [x] ∧ split sep v = y :: after ∧
      ∀ w, sep ∉ w → split sep (u ++ w ++ v) = before ++ (x ++ w ++ y) :: after := by
  obtain ⟨y, after, hv⟩ := List.exists_cons_of_ne_nil (split_ne_nil sep v)
  induction u with
  | nil => exact ⟨[], [], y, after, rfl, hv, fun w hw => split_append hw hv⟩
  | cons c u ih =>
    obtain ⟨before, x, y', after', hu, hv', hparts⟩ := ih
    by_cases hc : c = sep
    · refine ⟨[] :: before, x, y', after', ?_, hv', fun w hw => ?_⟩
      · rw [split, if_pos hc, hu]
        rfl
      · rw [List.cons_append, List.cons_append, split, if_pos hc, hparts w hw]
        rfl
    · cases before with
      | nil =>
        refine ⟨[], c :: x, y', after', ?_, hv', fun w hw => ?_⟩
        · rw [split, if_neg hc, hu]
          rfl
        · rw [List.cons_append, List.cons_append, split, if_neg hc, hparts w hw]
          rfl
      | cons part before =>
        refine ⟨(c :: part) :: before, x, y', after', ?_, hv', fun w hw => ?_⟩
        · rw [split, if_neg hc, hu]
          rfl
        · rw [List.cons_append, List.cons_append, split, if_neg hc, hparts w hw]
          rfl

end SpendScript.Text
