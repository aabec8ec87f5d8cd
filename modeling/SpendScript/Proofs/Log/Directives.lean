import SpendScript.Log.Setup
import SpendScript.Proofs.Text.Blank

/-!
# What logger expressions say

An expression says what its items say, one after the other.

* `Log.Directive.Says`, `Log.Directive.Ignored`: the rules for a single item, as it stands in the
  expression.
* `Log.Directive.ofItem?`, `Log.Directive.said`: what an item and what an expression say.

Results:
* `Log.Directive.ignored_or_says`: the rules leave out no item.
* `Log.Directive.ofItem?_of_says`, `Log.Directive.ofItem?_of_ignored`: items are read by the rules.
* `Log.Directive.said_ofList`: an expression says what its items say.
* `Log.Directive.said_append_comma`: expressions that are joined by a comma say what both say.
-/

namespace SpendScript.Log

open Text (Blank)

variable {item name part : List Char}

/-! ## Items -/

namespace Directive

/-- The item says nothing: it is empty, its level cannot be read, or it has too many equals signs. -/
inductive Ignored (item : List Char) : Prop
  | blank (h : Blank item)
  | level (name part : List Char) (hitem : item = name ++ '=' :: part) (hname : '=' ∉ name)
      (hpart : '=' ∉ part) (hblank : ¬Blank part) (h : Verbosity.ofName? (Text.trim part) = none)
  | equals (h : 2 ≤ item.count '=')

/-- What an item says. Blanks around it and around the level do not count, and a name on its own or
with an empty level lets everything through. -/
inductive Says (item : List Char) : Directive → Prop
  | root (level : Verbosity) (hequals : '=' ∉ item)
      (h : Verbosity.ofName? (Text.trim item) = some level) : Says item (.root level)
  | name (hequals : '=' ∉ item) (hblank : ¬Blank item)
      (h : Verbosity.ofName? (Text.trim item) = none) :
      Says item (.logger (String.ofList (Text.trim item)) .all)
  | all (name part : List Char) (hitem : item = name ++ '=' :: part) (hname : '=' ∉ name)
      (hblank : Blank part) : Says item (.logger (String.ofList (Text.trimLeft name)) .all)
  | level (name part : List Char) (level : Verbosity) (hitem : item = name ++ '=' :: part)
      (hname : '=' ∉ name) (hpart : '=' ∉ part)
      (h : Verbosity.ofName? (Text.trim part) = some level) :
      Says item (.logger (String.ofList (Text.trimLeft name)) level)

theorem isBlank_equals : Text.isBlank '=' = false := by
  decide

theorem notMem_trim (h : '=' ∉ item) : '=' ∉ Text.trim item := by
  rw [← List.count_eq_zero, Text.count_trim isBlank_equals]
  exact List.count_eq_zero.mpr h

/-- Every item either says something or is ignored. -/
theorem ignored_or_says (item : List Char) : Ignored item ∨ ∃ d, Says item d := by
  by_cases hblank : Blank item
  · exact Or.inl (.blank hblank)
  by_cases hequals : '=' ∈ item
  · obtain ⟨name, part, rfl, hname⟩ := List.eq_append_cons_of_mem hequals
    by_cases hpart : '=' ∈ part
    · refine Or.inl (.equals ?_)
      have hpos := List.count_pos_iff.mpr hpart
      rw [List.count_append, List.count_cons_self]
      omega
    by_cases hempty : Blank part
    · exact Or.inr ⟨_, .all name part rfl hname hempty⟩
    · cases hlevel : Verbosity.ofName? (Text.trim part) with
      | none => exact Or.inl (.level name part rfl hname hpart hempty hlevel)
      | some level => exact Or.inr ⟨_, .level name part level rfl hname hpart hlevel⟩
  · cases hlevel : Verbosity.ofName? (Text.trim item) with
    | none => exact Or.inr ⟨_, .name hequals hblank hlevel⟩
    | some level => exact Or.inr ⟨_, .root level hequals hlevel⟩

/-! ### Reading -/

/-- An item with one equals sign is a name and a level. Only the blanks before the name are gone. -/
theorem split_trim_equals (hname : '=' ∉ name) (hpart : '=' ∉ part) :
    Text.split '=' (Text.trim (name ++ '=' :: part)) =
      [Text.trimLeft name, Text.trimRight part] := by
  have hleft : '=' ∉ Text.trimLeft name := by
    obtain ⟨l, -, hl⟩ := Text.exists_trimLeft name
    rw [hl] at hname
    exact fun h => hname (List.mem_append_right _ h)
  have hright : '=' ∉ Text.trimRight part := by
    obtain ⟨r, -, hr⟩ := Text.exists_trimRight part
    rw [hr] at hpart
    exact fun h => hpart (List.mem_append_left _ h)
  rw [Text.trim_append_cons isBlank_equals, Text.split_append_cons, Text.split_of_notMem hleft,
    Text.split_of_notMem hright]
  rfl

/-- What an item says, as it stands in an expression. -/
def ofItem? (item : List Char) : Option Directive :=
  if Blank item then none else (read (Text.trim item)).toOption

theorem ofItem?_congr {item' : List Char} (h : Text.trim item' = Text.trim item) :
    ofItem? item' = ofItem? item := by
  have hblank : Blank item' ↔ Blank item := by
    rw [← Text.trim_eq_nil_iff, h, Text.trim_eq_nil_iff]
  rw [ofItem?, ofItem?, h]
  exact if_congr hblank rfl rfl

theorem not_blank_of_mem (h : '=' ∈ item) : ¬Blank item :=
  fun hblank => hblank.notMem isBlank_equals h

theorem ofItem?_of_notMem (h : '=' ∉ item) (hblank : ¬Blank item) : ofItem? item =
    some (match Verbosity.ofName? (Text.trim item) with
      | some level => .root level
      | none => .logger (String.ofList (Text.trim item)) .all) := by
  rw [ofItem?, if_neg hblank, read, Text.split_of_notMem (notMem_trim h)]
  cases hlevel : Verbosity.ofName? (Text.trim item) with
  | none => simp only [hlevel, Except.toOption]
  | some level => simp only [hlevel, Except.toOption]

/-- The level that is written after an equals sign. -/
def levelOf? (part : List Char) : Option Verbosity :=
  if Blank part then some .all else Verbosity.ofName? (Text.trim part)

theorem ofItem?_of_equals (hname : '=' ∉ name) (hpart : '=' ∉ part) :
    ofItem? (name ++ '=' :: part) =
      (levelOf? part).map (Directive.logger (String.ofList (Text.trimLeft name))) := by
  have hempty : (Text.trim part).isEmpty ↔ Blank part := by
    rw [List.isEmpty_iff, Text.trim_eq_nil_iff]
  rw [ofItem?, if_neg (not_blank_of_mem List.mem_append_cons_self), read,
    split_trim_equals hname hpart]
  simp only [Text.trim_trimRight, hempty, levelOf?]
  split_ifs
  · rfl
  · cases hlevel : Verbosity.ofName? (Text.trim part) with
    | none => rfl
    | some level => rfl

theorem ofItem?_of_two_le (h : 2 ≤ item.count '=') : ofItem? item = none := by
  have hlength := Text.length_split '=' (Text.trim item)
  rw [Text.count_trim isBlank_equals] at hlength
  have hmem : '=' ∈ item := List.count_pos_iff.mp (Nat.lt_of_lt_of_le Nat.zero_lt_two h)
  rw [ofItem?, if_neg (not_blank_of_mem hmem)]
  match hsplit : Text.split '=' (Text.trim item), hlength with
  | [], hlength => cases hlength
  | [_], hlength =>
    rw [List.length_singleton] at hlength
    omega
  | [_, _], hlength =>
    rw [List.length_cons, List.length_singleton] at hlength
    omega
  | _ :: _ :: _ :: _, _ =>
    rw [read, hsplit]
    rfl

/-- An item says what the rules tell. -/
theorem ofItem?_of_says {d : Directive} (h : Says item d) : ofItem? item = some d := by
  cases h with
  | root level hequals h =>
    have hne : ¬Blank item := by
      intro hblank
      rw [Text.trim_eq_nil_iff.mpr hblank] at h
      cases h
    rw [ofItem?_of_notMem hequals hne, h]
  | name hequals hblank h => rw [ofItem?_of_notMem hequals hblank, h]
  | all name part hitem hname hblank =>
    rw [hitem, ofItem?_of_equals hname (hblank.notMem isBlank_equals), levelOf?, if_pos hblank]
    rfl
  | level name part level hitem hname hpart h =>
    have hne : ¬Blank part := by
      intro hblank
      rw [Text.trim_eq_nil_iff.mpr hblank] at h
      cases h
    rw [hitem, ofItem?_of_equals hname hpart, levelOf?, if_neg hne, h]
    rfl

/-- An item that is ignored says nothing. -/
theorem ofItem?_of_ignored (h : Ignored item) : ofItem? item = none := by
  cases h with
  | blank h => exact if_pos h
  | level name part hitem hname hpart hne h =>
    rw [hitem, ofItem?_of_equals hname hpart, levelOf?, if_neg hne, h]
    rfl
  | equals h => exact ofItem?_of_two_le h

/-! ## Expressions -/

/-- What an expression says, in order. -/
def said (expression : String) : List Directive :=
  (readAll expression).filterMap Except.toOption

theorem said_ofList (cs : List Char) :
    said (String.ofList cs) = (Text.split ',' cs).filterMap ofItem? := by
  rw [said, readAll, items, String.toList_ofList, List.filterMap_map, List.filterMap_filter,
    List.filterMap_map]
  refine List.filterMap_congr fun item _ => ?_
  rw [Function.comp_apply, ofItem?]
  by_cases hblank : Blank item
  · rw [if_pos hblank, Text.trim_eq_nil_iff.mpr hblank]
    rfl
  · rw [if_neg hblank, if_pos]
    · rfl
    · rw [Bool.not_eq_true', List.isEmpty_eq_false_iff]
      exact mt Text.trim_eq_nil_iff.mp hblank

theorem said_item (hcomma : ',' ∉ item) : said (String.ofList item) = (ofItem? item).toList := by
  rw [said_ofList, Text.split_of_notMem hcomma]
  cases h : ofItem? item with
  | none => simp [h]
  | some d => simp [h]

/-- Expressions that are joined by a comma say what both say. -/
theorem said_append_comma (e e' : String) : said (e ++ "," ++ e') = said e ++ said e' := by
  have hjoined : e ++ "," ++ e' = String.ofList (e.toList ++ ',' :: e'.toList) := by
    rw [← String.toList_inj, String.toList_ofList, String.toList_append, String.toList_append,
      List.append_assoc]
    rfl
  have hsaid : ∀ e, said e = (Text.split ',' e.toList).filterMap ofItem? := by
    intro e
    rw [← said_ofList, String.ofList_toList]
  rw [hjoined, said_ofList, Text.split_append_cons, List.filterMap_append, ← hsaid, ← hsaid]

end Directive

end SpendScript.Log
