import Mathlib.Logic.Relation
import SpendScript.Proofs.Log.LastWins

/-!
# Blanks in logger expressions

Items and levels are trimmed, names are trimmed with their items only. So blanks next to separators do
not count, except that those between a name and its equals sign become part of the name.

* `Log.Place`: the places next to separators and at the ends of an expression.
* `Log.FollowsName`: the place between a name and its equals sign.
* `Log.Spaced`: an expression with some blanks more.

Results:
* `Log.Directive.ofItem?_insert`, `Log.Directive.exists_ofItem?_pad`: what blanks do to one item.
* `Log.Directive.exists_said_insert`: blanks are put into one item of an expression.
* `Log.Setup.blanksAroundSeparators`: the root never changes, and the loggers change at the
  exceptional places only, by the blanks in a name.
-/

namespace SpendScript.Log

open Text (Blank)

variable {u v w x y name part : List Char} {before after : List (List Char)}

/-! ## Places -/

/-- A place in an expression that is next to a separator, or at one of the ends. -/
inductive Place : List Char → List Char → Prop
  | start (v : List Char) : Place [] v
  | finish (u : List Char) : Place u []
  | after (u v : List Char) {sep : Char} (h : sep = ',' ∨ sep = '=') : Place (u ++ [sep]) v
  | before (u v : List Char) {sep : Char} (h : sep = ',' ∨ sep = '=') : Place u (sep :: v)

/-- The place is between a name, which is not blank, and the equals sign that follows it. -/
def FollowsName (u v : List Char) : Prop :=
  ∃ before name part, Text.split ',' u = before ++ [name] ∧ '=' ∉ name ∧ ¬Blank name ∧
    v = '=' :: part

/-- The same expression with some blanks more, at one of the given places. -/
def Spaced (places : List Char → List Char → Prop) (e e' : String) : Prop :=
  ∃ u w v, places u v ∧ Blank w ∧ e = String.ofList (u ++ v) ∧ e' = String.ofList (u ++ w ++ v)

/-- An equals sign belongs to the first item of what follows it. -/
theorem exists_eq_equals_cons (h : Text.split ',' ('=' :: part) = y :: after) :
    ∃ y', y = '=' :: y' := by
  obtain ⟨y', after', hpart⟩ := List.exists_cons_of_ne_nil (Text.split_ne_nil ',' part)
  have hparts := Text.split_append (show ',' ∉ ['='] by decide) hpart
  rw [List.singleton_append, h] at hparts
  exact ⟨y', (List.cons.inj hparts).1⟩

/-- An equals sign belongs to the last item of what it follows. -/
theorem exists_eq_concat_equals (h : Text.split ',' (u ++ ['=']) = before ++ [x]) :
    ∃ x', x = x' ++ ['='] := by
  obtain ⟨before', x', y', after', -, hy', hsplit⟩ := Text.exists_split ',' u ['=']
  obtain ⟨rfl, rfl⟩ := List.cons.inj (show [['=']] = y' :: after' from hy')
  have hparts := hsplit [] List.not_mem_nil
  rw [List.append_nil, List.append_nil, h] at hparts
  exact ⟨x', (List.append_singleton_inj.mp hparts).2⟩

/-- Where a place is in the item that it belongs to. -/
theorem Place.item (h : Place u v) (hu : Text.split ',' u = before ++ [x])
    (hv : Text.split ',' v = y :: after) :
    x = [] ∨ y = [] ∨ (∃ x', x = x' ++ ['=']) ∨ ∃ y' part, y = '=' :: y' ∧ v = '=' :: part := by
  cases h with
  | start v =>
    have hstart : [] ++ [[]] = before ++ [x] := hu
    exact Or.inl (List.append_singleton_inj.mp hstart).2.symm
  | finish u => exact Or.inr (Or.inl (List.cons.inj hv).1.symm)
  | after u v h =>
    rcases h with rfl | rfl
    · have hcomma : Text.split ',' u ++ [[]] = before ++ [x] := by
        rw [← hu, Text.split_append_cons]
        rfl
      exact Or.inl (List.append_singleton_inj.mp hcomma).2.symm
    · exact Or.inr (Or.inr (Or.inl (exists_eq_concat_equals hu)))
  | before u v h =>
    rcases h with rfl | rfl
    · exact Or.inr (Or.inl (List.cons.inj hv).1.symm)
    · obtain ⟨y', hy⟩ := exists_eq_equals_cons hv
      exact Or.inr (Or.inr (Or.inr ⟨y', v, hy, rfl⟩))

/-! ## Items -/

namespace Directive

/-- An item with a second equals sign says nothing. -/
theorem ofItem?_eq_none (h : '=' ∈ x ∨ '=' ∈ y) : ofItem? (x ++ '=' :: y) = none := by
  refine ofItem?_of_two_le ?_
  rw [List.count_append, List.count_cons_self]
  rcases h with h | h
  · have := List.count_pos_iff.mpr h
    omega
  · have := List.count_pos_iff.mpr h
    omega

/-- Blanks before a level do not count. -/
theorem ofItem?_after_equals (hw : Blank w) (x y : List Char) :
    ofItem? (x ++ '=' :: (w ++ y)) = ofItem? (x ++ '=' :: y) := by
  -- With a second equals sign both items are ignored.
  have hmem : '=' ∈ w ++ y ↔ '=' ∈ y := by
    rw [List.mem_append, or_iff_right (hw.notMem isBlank_equals)]
  by_cases hmany : '=' ∈ x ∨ '=' ∈ y
  · rw [ofItem?_eq_none hmany, ofItem?_eq_none (or_congr_right hmem |>.mpr hmany)]
  · obtain ⟨hx, hy⟩ := not_or.mp hmany
    rw [ofItem?_of_equals hx (mt hmem.mp hy), ofItem?_of_equals hx hy, levelOf?, levelOf?,
      Text.trim_append_left hw]
    exact congrArg _ (if_congr (by rw [Text.blank_append, and_iff_right hw]) rfl rfl)

/-- Blanks after a name that is blank itself do not count. -/
theorem ofItem?_before_equals (hw : Blank w) (hx : '=' ∈ x ∨ Blank x) (y : List Char) :
    ofItem? (x ++ w ++ '=' :: y) = ofItem? (x ++ '=' :: y) := by
  by_cases hmany : '=' ∈ x ∨ '=' ∈ y
  · rw [ofItem?_eq_none hmany, ofItem?_eq_none (hmany.imp_left (List.mem_append_left w))]
  · obtain ⟨hx', hy⟩ := not_or.mp hmany
    have hblank : Blank x := hx.resolve_left hx'
    have hblank' : Blank (x ++ w) := Text.blank_append.mpr ⟨hblank, hw⟩
    rw [ofItem?_of_equals (hblank'.notMem isBlank_equals) hy, ofItem?_of_equals hx' hy,
      Text.trimLeft_eq_nil_iff.mpr hblank, Text.trimLeft_eq_nil_iff.mpr hblank']

/-- Blanks in an item do not count at its ends, next to its equals sign or in a blank name. -/
theorem ofItem?_insert (hw : Blank w)
    (h : x = [] ∨ y = [] ∨ (∃ x', x = x' ++ ['=']) ∨ ∃ y', y = '=' :: y' ∧ ('=' ∈ x ∨ Blank x)) :
    ofItem? (x ++ w ++ y) = ofItem? (x ++ y) := by
  rcases h with rfl | rfl | ⟨x', rfl⟩ | ⟨y', rfl, hx⟩
  · exact ofItem?_congr (Text.trim_append_left hw y)
  · refine ofItem?_congr ?_
    rw [List.append_nil, List.append_nil, Text.trim_append_right hw]
  · simp only [List.append_assoc, List.singleton_append]
    exact ofItem?_after_equals hw x' y
  · exact ofItem?_before_equals hw hx y'

/-- Blanks after another name become part of it. -/
theorem exists_ofItem?_pad (hw : Blank w) (hname : '=' ∉ name) (hblank : ¬Blank name)
    (part : List Char) : ∃ level?,
      ofItem? (name ++ '=' :: part) =
        Option.map (Directive.logger (String.ofList (Text.trimLeft name))) level? ∧
      ofItem? (name ++ w ++ '=' :: part) =
        level?.map (.logger (String.ofList (Text.trimLeft name) ++ String.ofList w)) := by
  by_cases hpart : '=' ∈ part
  · exact ⟨none, ofItem?_eq_none (Or.inr hpart), ofItem?_eq_none (Or.inr hpart)⟩
  · have hname' : '=' ∉ name ++ w := by
      rw [List.mem_append, not_or]
      exact ⟨hname, hw.notMem isBlank_equals⟩
    refine ⟨levelOf? part, ofItem?_of_equals hname hpart, ?_⟩
    rw [ofItem?_of_equals hname' hpart, Text.trimLeft_append hblank, String.ofList_append]

/-! ## Expressions -/

/-- Blanks that are put into an expression are put into one of its items. -/
theorem exists_said_insert (u v : List Char) : ∃ before x y after,
    Text.split ',' u = before ++ [x] ∧ Text.split ',' v = y :: after ∧
      ∀ w, Blank w → said (String.ofList (u ++ w ++ v)) =
        before.filterMap ofItem? ++ (ofItem? (x ++ w ++ y)).toList ++ after.filterMap ofItem? := by
  obtain ⟨before, x, y, after, hu, hv, hparts⟩ := Text.exists_split ',' u v
  refine ⟨before, x, y, after, hu, hv, fun w hw => ?_⟩
  have hitem : ∀ item, (item :: after).filterMap ofItem? =
      (ofItem? item).toList ++ after.filterMap ofItem? := by
    intro item
    cases h : ofItem? item with
    | none => exact List.filterMap_cons_none h
    | some d => exact List.filterMap_cons_some h
  rw [said_ofList, hparts w (hw.notMem (by decide)), List.filterMap_append, hitem]
  exact (List.append_assoc _ _ _).symm

/-- Blanks at any place but after a name do not count. -/
theorem said_insert (hplace : Place u v) (hname : ¬FollowsName u v) (hw : Blank w) :
    said (String.ofList (u ++ w ++ v)) = said (String.ofList (u ++ v)) := by
  obtain ⟨before, x, y, after, hu, hv, hsaid⟩ := exists_said_insert u v
  have hsaid' := hsaid [] Text.blank_nil
  rw [List.append_nil, List.append_nil] at hsaid'
  rw [hsaid w hw, hsaid', ofItem?_insert hw]
  refine (hplace.item hu hv).imp_right (Or.imp_right (Or.imp_right ?_))
  rintro ⟨y', part, hy, hpart⟩
  refine ⟨y', hy, ?_⟩
  by_contra hx
  obtain ⟨hx, hblank⟩ := not_or.mp hx
  exact hname ⟨before, x, part, hu, hx, hblank, hpart⟩

/-- Blanks after a name become part of it. -/
theorem exists_said_pad (h : FollowsName u v) (hw : Blank w) : ∃ before name level? after,
    said (String.ofList (u ++ v)) =
        before ++ (Option.map (Directive.logger name) level?).toList ++ after ∧
      said (String.ofList (u ++ w ++ v)) =
        before ++ (level?.map (.logger (name ++ String.ofList w))).toList ++ after := by
  obtain ⟨before', name, part, hu', hname, hblank, rfl⟩ := h
  obtain ⟨before, x, y, after, hu, hv, hsaid⟩ := exists_said_insert u ('=' :: part)
  obtain ⟨rfl, rfl⟩ := List.append_singleton_inj.mp (hu'.symm.trans hu)
  obtain ⟨y', rfl⟩ := exists_eq_equals_cons hv
  obtain ⟨level?, hitem, hitem'⟩ := exists_ofItem?_pad hw hname hblank y'
  have hsaid' := hsaid [] Text.blank_nil
  rw [List.append_nil, List.append_nil, hitem] at hsaid'
  exact ⟨_, _, level?, _, hsaid', by rw [hsaid w hw, hitem']⟩

end Directive

namespace Setup

open Relation (ReflTransGen)

/-- The root that an expression sets is the last one that it says. -/
theorem root_ofExpression (e : String) : (ofExpression e).root =
    (((Directive.said e).map Change.directive).filterMap Change.root?).getLast? := by
  rw [ofExpression, addExpression_eq]
  exact (tracks_foldl [] _).root_eq

theorem ofExpression_of_said {e e' : String} (h : Directive.said e' = Directive.said e) :
    ofExpression e' = ofExpression e := by
  rw [ofExpression, ofExpression, addExpression_eq, addExpression_eq, h]

theorem root_of_spaced {e e' : String} (h : Spaced Place e e') :
    (ofExpression e').root = (ofExpression e).root := by
  obtain ⟨u, w, v, hplace, hw, rfl, rfl⟩ := h
  by_cases hname : FollowsName u v
  · -- The directive that changes is on a logger, whatever its name.
    obtain ⟨before, name, level?, after, hsaid, hsaid'⟩ := Directive.exists_said_pad hname hw
    have hnone : ∀ name, (((Option.map (Directive.logger name) level?).toList.map
        Change.directive).filterMap Change.root?) = [] := by
      intro name
      cases level? with
      | none => rfl
      | some level => rfl
    rw [root_ofExpression, root_ofExpression, hsaid, hsaid']
    simp only [List.map_append, List.filterMap_append, hnone]
  · rw [ofExpression_of_said (Directive.said_insert hplace hname hw)]

/-- Blanks next to the separators of an expression and at its ends, as many and as often as one likes,
never change the root. They do not change the loggers either, except for those between a name and
its equals sign. These become part of the name if the item sets a logger. -/
theorem blanksAroundSeparators (e e' : String) :
    (ReflTransGen (Spaced Place) e e' →
        (ofExpression e').build.1.root = (ofExpression e).build.1.root) ∧
      (ReflTransGen (Spaced fun u v => Place u v ∧ ¬FollowsName u v) e e' →
        (ofExpression e').build = (ofExpression e).build) ∧
      ∀ u w v, FollowsName u v → Blank w → e = String.ofList (u ++ v) →
        e' = String.ofList (u ++ w ++ v) → ∃ before name level? after,
          Directive.said e =
              before ++ (Option.map (Directive.logger name) level?).toList ++ after ∧
            Directive.said e' =
              before ++ (level?.map (.logger (name ++ String.ofList w))).toList ++ after := by
  refine ⟨fun h => ?_, fun h => ?_, ?_⟩
  · induction h with
    | refl => rfl
    | tail _ hspaced ih =>
      rw [← ih]
      exact congrArg (fun root => root.getD (.upTo .error)) (root_of_spaced hspaced)
  · induction h with
    | refl => rfl
    | tail _ hspaced ih =>
      obtain ⟨u, w, v, ⟨hplace, hname⟩, hw, rfl, rfl⟩ := hspaced
      rw [← ih, ofExpression_of_said (Directive.said_insert hplace hname hw)]
  · rintro u w v hname hw rfl rfl
    exact Directive.exists_said_pad hname hw

/-- A blank before a level, and one between a name and its equals sign. -/
theorem blanksAroundSeparators_info :
    ReflTransGen (Spaced fun u v => Place u v ∧ ¬FollowsName u v) "a=info" "a= info" ∧
      (ofExpression "a= info").build = (ofExpression "a=info").build ∧
      FollowsName ['a'] ['=', 'i', 'n', 'f', 'o'] ∧
      ∃ before name level? after,
        Directive.said "a=info" =
            before ++ (Option.map (Directive.logger name) level?).toList ++ after ∧
          Directive.said "a =info" =
            before ++ (level?.map (.logger (name ++ String.ofList [' ']))).toList ++ after := by
  have hplace : Place ['a', '='] ['i', 'n', 'f', 'o'] := .after ['a'] _ (.inr rfl)
  have hblank : Blank [' '] := by decide
  have hother : ¬FollowsName ['a', '='] ['i', 'n', 'f', 'o'] := by
    rintro ⟨_, _, _, _, _, _, h⟩
    cases h
  have hspaced : ReflTransGen (Spaced fun u v => Place u v ∧ ¬FollowsName u v) "a=info" "a= info" :=
    .single ⟨_, [' '], _, ⟨hplace, hother⟩, hblank, rfl, rfl⟩
  have hname : FollowsName ['a'] ['=', 'i', 'n', 'f', 'o'] :=
    ⟨[], ['a'], ['i', 'n', 'f', 'o'], rfl, by decide, by decide, rfl⟩
  exact ⟨hspaced, (blanksAroundSeparators _ _).2.1 hspaced, hname,
    (blanksAroundSeparators "a=info" "a =info").2.2 _ [' '] _ hname hblank rfl rfl⟩

/-- The level of the root, and the names and levels of the loggers. -/
def levels (e : String) : Verbosity × List (String × Verbosity) :=
  let built := (ofExpression e).build.1
  (built.root, built.named.map fun l => (l.name, l.level))

/-- A blank between a name and its equals sign makes another logger. -/
theorem not_blanksAroundSeparators :
    levels "a=info" = (.upTo .error, [("a", .upTo .info)]) ∧
      levels "a =info" = (.upTo .error, [("a ", .upTo .info)]) ∧
      ¬∀ e e', Spaced Place e e' → levels e' = levels e := by
  have hplain : levels "a=info" = (.upTo .error, [("a", .upTo .info)]) := by decide +kernel
  have hspaced : levels "a =info" = (.upTo .error, [("a ", .upTo .info)]) := by decide +kernel
  refine ⟨hplain, hspaced, fun h => ?_⟩
  have heq := h "a=info" "a =info"
    ⟨['a'], [' '], ['=', 'i', 'n', 'f', 'o'], .before _ _ (.inr rfl), by decide, rfl, rfl⟩
  rw [hplain, hspaced] at heq
  exact absurd heq (by decide)

end Setup

end SpendScript.Log
