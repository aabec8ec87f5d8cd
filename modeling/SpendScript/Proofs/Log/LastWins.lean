import Mathlib.Data.List.Induction
import Mathlib.Data.String.Basic
import SpendScript.Proofs.Log.Directives

/-!
# The last directive on a logger wins

What is set by calls and by expressions is a list of changes. Of the changes of one logger the last
counts, with the sinks that are in force at that point.

* `Log.Setup.Change`, `Log.Setup.Call`: what is changed in a setup, one by one and call by call.
* `Log.Setup.Stands`: a logger is set, and not set again.
* `Log.Setup.Built`: the loggers that result from some changes.

Results:
* `Log.mem_insertLogger`, `Log.insertLogger_ascending`: loggers stay in order.
* `Log.Setup.Tracks.step`, `Log.Setup.tracks_foldl`: a setup after one change, and after all of them.
* `Log.Setup.lastWins`: expressions compose, items at fault change nothing, and the last directive on
  each name wins.
-/

namespace SpendScript.Log

/-! ## Loggers in order -/

/-- The loggers stand by ascending names, so no two of them have the same name. -/
def Ascending (ls : List Logger) : Prop :=
  ls.Pairwise fun l m => l.name < m.name

variable {l x : Logger} {ls : List Logger}

/-- A logger takes the place of the one with its name. -/
theorem mem_insertLogger (h : Ascending ls) :
    x ∈ insertLogger l ls ↔ x = l ∨ x.name ≠ l.name ∧ x ∈ ls := by
  induction ls with
  | nil => simp [insertLogger]
  | cons m ms ih =>
    obtain ⟨hm, hms⟩ := List.pairwise_cons.mp h
    rw [insertLogger]
    split_ifs with hlt heq
    · have hne : ∀ y ∈ m :: ms, y.name ≠ l.name := by
        intro y hy
        rcases List.mem_cons.mp hy with rfl | hy
        · exact hlt.ne'
        · exact (hlt.trans (hm y hy)).ne'
      rw [List.mem_cons]
      exact or_congr_right ⟨fun hx => ⟨hne x hx, hx⟩, And.right⟩
    · have hne : ∀ y ∈ ms, y.name ≠ l.name := fun y hy => heq ▸ (hm y hy).ne'
      rw [List.mem_cons, List.mem_cons]
      refine or_congr_right ⟨fun hx => ⟨hne x hx, Or.inr hx⟩, ?_⟩
      rintro ⟨hname, rfl | hx⟩
      · exact absurd heq.symm hname
      · exact hx
    · rw [List.mem_cons, ih hms, List.mem_cons]
      constructor
      · rintro (rfl | rfl | hx)
        · exact Or.inr ⟨Ne.symm heq, Or.inl rfl⟩
        · exact Or.inl rfl
        · exact Or.inr ⟨hx.1, Or.inr hx.2⟩
      · rintro (rfl | ⟨hname, rfl | hx⟩)
        · exact Or.inr (Or.inl rfl)
        · exact Or.inl rfl
        · exact Or.inr (Or.inr ⟨hname, hx⟩)

theorem insertLogger_ascending (h : Ascending ls) (l : Logger) :
    Ascending (insertLogger l ls) := by
  induction ls with
  | nil => exact List.pairwise_singleton _ l
  | cons m ms ih =>
    obtain ⟨hm, hms⟩ := List.pairwise_cons.mp h
    rw [insertLogger]
    split_ifs with hlt heq
    · refine List.pairwise_cons.mpr ⟨fun y hy => ?_, h⟩
      rcases List.mem_cons.mp hy with rfl | hy
      · exact hlt
      · exact hlt.trans (hm y hy)
    · exact List.pairwise_cons.mpr ⟨fun y hy => heq ▸ hm y hy, hms⟩
    · refine List.pairwise_cons.mpr ⟨fun y hy => ?_, ih hms⟩
      rcases (mem_insertLogger hms).mp hy with rfl | ⟨-, hy⟩
      · exact lt_of_le_of_ne (not_lt.mp hlt) (Ne.symm heq)
      · exact hm y hy

namespace Setup

/-! ## Changes -/

/-- A single change. -/
inductive Change where
  | sinks (given : List String)
  | directive (d : Directive)
deriving DecidableEq

namespace Change

def sinks? : Change → Option (List String)
  | .sinks given => some given
  | .directive _ => none

def root? : Change → Option Verbosity
  | .directive (.root level) => some level
  | _ => none

/-- Makes the change. -/
def run (s : Setup) : Change → Setup
  | .sinks given => s.setSinks given
  | .directive d => s.follow (.ok d)

end Change

/-- What can be asked of a setup. -/
inductive Call where
  | root (level : Verbosity)
  | sinks (given : List String)
  | logger (name : String) (level : Verbosity)
  | expression (text : String)

namespace Call

/-- Answers the call. -/
def run (s : Setup) : Call → Setup
  | .root level => s.setRoot level
  | .sinks given => s.setSinks given
  | .logger name level => s.setLogger name level
  | .expression text => s.addExpression text

/-- What a call changes. -/
def changes : Call → List Change
  | .root level => [.directive (.root level)]
  | .sinks given => [.sinks given]
  | .logger name level => [.directive (.logger name level)]
  | .expression text => (Directive.said text).map .directive

end Call

/-- The sinks that are in force after some changes: the last ones that were set. -/
def sinksAfter (sinks : List String) (changes : List Change) : List String :=
  ((changes.filterMap Change.sinks?).getLast?).getD sinks

/-- The logger is set by one of the changes, with the sinks that are in force there, and no later
change sets it again. -/
def Stands (sinks : List String) (changes : List Change) (l : Logger) : Prop :=
  ∃ before after, changes = before ++ .directive (.logger l.name l.level) :: after ∧
    (∀ level, Change.directive (.logger l.name level) ∉ after) ∧ l.sinks = sinksAfter sinks before

/-- What is built after some changes, and what is left for the next time. -/
structure Built (sinks : List String) (changes : List Change) (built : Loggers × Setup) : Prop where
  /-- Names ascend, so each one occurs once. -/
  ascending : Ascending built.1.named
  mem_iff : ∀ l, l ∈ built.1.named ↔ Stands sinks changes l
  root_eq : built.1.root = ((changes.filterMap Change.root?).getLast?).getD (.upTo .error)
  left_eq : built.2 = ⟨sinksAfter sinks changes, [], none⟩

/-! ## Following changes -/

/-- A setup that has seen some changes since it was left with the given sinks. -/
structure Tracks (sinks : List String) (changes : List Change) (s : Setup) : Prop where
  sinks_eq : s.sinks = sinksAfter sinks changes
  root_eq : s.root = (changes.filterMap Change.root?).getLast?
  ascending : Ascending s.loggers
  mem_iff : ∀ l, l ∈ s.loggers ↔ Stands sinks changes l

variable {sinks : List String} {changes : List Change} {c : Change} {s : Setup}

theorem sinksAfter_concat (sinks : List String) (changes : List Change) (c : Change) :
    sinksAfter sinks (changes ++ [c]) = c.sinks?.getD (sinksAfter sinks changes) := by
  rw [sinksAfter, List.filterMap_append]
  cases c with
  | sinks given => simp [Change.sinks?]
  | directive d => simp [Change.sinks?, sinksAfter]

theorem root_concat (changes : List Change) (c : Change) :
    ((changes ++ [c]).filterMap Change.root?).getLast? =
      c.root?.or (changes.filterMap Change.root?).getLast? := by
  rw [List.filterMap_append]
  cases hc : c.root? with
  | none => simp [hc]
  | some level => simp [hc]

/-- A change of something else leaves the logger as it stands. -/
theorem stands_concat_of_ne (h : ∀ level, c ≠ .directive (.logger l.name level)) :
    Stands sinks (changes ++ [c]) l ↔ Stands sinks changes l := by
  constructor
  · rintro ⟨before, after, hchanges, hlater, hsinks⟩
    -- The change that sets the logger is not the last one.
    obtain rfl | ⟨after, d, rfl⟩ := List.eq_nil_or_concat after
    · exact absurd (List.append_singleton_inj.mp hchanges).2 (h _)
    · rw [List.concat_eq_append, ← List.cons_append, ← List.append_assoc] at hchanges
      obtain ⟨rfl, -⟩ := List.append_singleton_inj.mp hchanges
      refine ⟨before, after, rfl, fun level hmem => hlater level ?_, hsinks⟩
      rw [List.concat_eq_append]
      exact List.mem_append_left _ hmem
  · rintro ⟨before, after, rfl, hlater, hsinks⟩
    refine ⟨before, after ++ [c], by rw [List.append_assoc, List.cons_append], ?_, hsinks⟩
    intro level hmem
    rcases List.mem_append.mp hmem with hmem | hmem
    · exact hlater level hmem
    · exact h level (List.mem_singleton.mp hmem).symm

/-- The last change of a logger decides how it stands. -/
theorem stands_concat_logger {level : Verbosity} :
    Stands sinks (changes ++ [.directive (.logger l.name level)]) l ↔
      l.level = level ∧ l.sinks = sinksAfter sinks changes := by
  constructor
  · rintro ⟨before, after, hchanges, hlater, hsinks⟩
    -- Nothing follows the change that sets the logger, since the last one would set it again.
    obtain rfl | ⟨after, d, rfl⟩ := List.eq_nil_or_concat after
    · obtain ⟨rfl, hc⟩ := List.append_singleton_inj.mp hchanges
      cases hc
      exact ⟨rfl, hsinks⟩
    · rw [List.concat_eq_append, ← List.cons_append, ← List.append_assoc] at hchanges
      refine absurd ?_ (hlater level)
      rw [(List.append_singleton_inj.mp hchanges).2]
      simp
  · rintro ⟨rfl, hsinks⟩
    exact ⟨changes, [], rfl, fun _ => List.not_mem_nil, hsinks⟩

theorem tracks_start (sinks : List String) : Tracks sinks [] ⟨sinks, [], none⟩ where
  sinks_eq := rfl
  root_eq := rfl
  ascending := List.Pairwise.nil
  mem_iff l := by
    refine iff_of_false List.not_mem_nil ?_
    rintro ⟨before, after, h, -⟩
    exact absurd h.symm (List.append_ne_nil_of_right_ne_nil _ (List.cons_ne_nil _ _))

/-- One change more. -/
theorem Tracks.step (h : Tracks sinks changes s) (c : Change) :
    Tracks sinks (changes ++ [c]) (c.run s) := by
  -- Only a directive on a logger touches the loggers.
  have hkept : ∀ {c : Change}, (∀ name level, c ≠ .directive (.logger name level)) →
      ∀ l, l ∈ s.loggers ↔ Stands sinks (changes ++ [c]) l := by
    intro c hc l
    rw [stands_concat_of_ne fun level => hc l.name level]
    exact h.mem_iff l
  cases c with
  | sinks given =>
    refine ⟨?_, ?_, h.ascending, hkept nofun⟩
    · rw [sinksAfter_concat]
      rfl
    · rw [root_concat]
      exact h.root_eq
  | directive d =>
    cases d with
    | root level =>
      refine ⟨?_, ?_, h.ascending, hkept nofun⟩
      · rw [sinksAfter_concat]
        exact h.sinks_eq
      · rw [root_concat]
        rfl
    | logger name level =>
      refine ⟨?_, ?_, insertLogger_ascending h.ascending _, fun l => ?_⟩
      · rw [sinksAfter_concat]
        exact h.sinks_eq
      · rw [root_concat]
        exact h.root_eq
      show l ∈ insertLogger ⟨name, s.sinks, level⟩ s.loggers ↔ _
      rw [mem_insertLogger h.ascending, h.mem_iff, h.sinks_eq]
      by_cases hname : l.name = name
      · subst hname
        rw [stands_concat_logger, or_iff_left fun hother => hother.1 rfl]
        constructor
        · intro hl
          rw [hl]
          exact ⟨rfl, rfl⟩
        · rintro ⟨hlevel, hsinks⟩
          rw [← hlevel, ← hsinks]
      · rw [stands_concat_of_ne fun _ heq => by cases heq; exact hname rfl]
        constructor
        · rintro (rfl | hother)
          · exact absurd rfl hname
          · exact hother.2
        · exact fun hstands => Or.inr ⟨hname, hstands⟩

/-- All changes, one after the other. -/
theorem tracks_foldl (sinks : List String) (changes : List Change) :
    Tracks sinks changes (changes.foldl Change.run ⟨sinks, [], none⟩) := by
  induction changes using List.reverseRecOn with
  | nil => exact tracks_start sinks
  | append_singleton changes c ih =>
    rw [List.foldl_append]
    exact ih.step c

theorem Tracks.built (h : Tracks sinks changes s) : Built sinks changes s.build where
  ascending := h.ascending
  mem_iff := h.mem_iff
  root_eq := congrArg (fun root => root.getD (.upTo .error)) h.root_eq
  left_eq := congrArg (fun sinks => (⟨sinks, [], none⟩ : Setup)) h.sinks_eq

/-! ## Calls -/

/-- An expression makes the changes that it says. -/
theorem addExpression_eq (s : Setup) (e : String) :
    s.addExpression e = ((Directive.said e).map Change.directive).foldl Change.run s := by
  rw [addExpression, Directive.said]
  generalize Directive.readAll e = items
  induction items generalizing s with
  | nil => rfl
  | cons item items ih =>
    cases item with
    | error cause => exact ih s
    | ok d => exact ih (s.follow (.ok d))

theorem Call.run_eq (s : Setup) (call : Call) : call.run s = call.changes.foldl Change.run s := by
  cases call with
  | root level => rfl
  | sinks given => rfl
  | logger name level => rfl
  | expression text => exact addExpression_eq s text

/-- The setup after some calls. -/
def after (s : Setup) (calls : List Call) : Setup :=
  calls.foldl Call.run s

theorem after_eq (s : Setup) (calls : List Call) :
    s.after calls = (calls.flatMap Call.changes).foldl Change.run s := by
  rw [after, List.foldl_flatMap]
  exact congrArg (fun f => calls.foldl f s) (funext fun s => funext fun call => call.run_eq s)

theorem addExpression_append_comma (s : Setup) (e e' : String) :
    s.addExpression (e ++ "," ++ e') = (s.addExpression e).addExpression e' := by
  rw [addExpression_eq, Directive.said_append_comma, List.map_append, List.foldl_append,
    ← addExpression_eq, ← addExpression_eq]

/-- Expressions compose and the last directive wins. An expression of two that are joined by a comma
does what they do one after the other. Items that are empty, have a level that cannot be read or more
than one equals sign change nothing; all others say something. And after any calls, on a new setup or
on one that has been built from, the loggers that are built stand by ascending names, each as its
last directive left it, the root is the last one, and the next time begins with the sinks alone. -/
theorem lastWins :
    (∀ s e e', addExpression s (e ++ "," ++ e') = (s.addExpression e).addExpression e') ∧
      (∀ item, ',' ∉ item → Directive.Ignored item →
        ∀ s, addExpression s (String.ofList item) = s) ∧
      ((∀ e e', Directive.said (e ++ "," ++ e') = Directive.said e ++ Directive.said e') ∧
        ∀ item, ',' ∉ item →
          (Directive.Ignored item → Directive.said (String.ofList item) = []) ∧
          (∀ d, Directive.Says item d → Directive.said (String.ofList item) = [d]) ∧
          (Directive.Ignored item ∨ ∃ d, Directive.Says item d)) ∧
      ∀ sinks calls, Built sinks (calls.flatMap Call.changes)
        (after ⟨sinks, [], none⟩ calls).build := by
  refine ⟨addExpression_append_comma, fun item hcomma hignored s => ?_,
    ⟨Directive.said_append_comma, fun item hcomma => ⟨fun hignored => ?_, fun d hd => ?_,
      Directive.ignored_or_says item⟩⟩, fun sinks calls => ?_⟩
  · rw [addExpression_eq, Directive.said_item hcomma, Directive.ofItem?_of_ignored hignored]
    rfl
  · rw [Directive.said_item hcomma, Directive.ofItem?_of_ignored hignored]
    rfl
  · rw [Directive.said_item hcomma, Directive.ofItem?_of_says hd]
    rfl
  · rw [after_eq]
    exact (tracks_foldl sinks _).built

/-- Two expressions on the same logger. -/
def twice : List Call :=
  [.sinks ["stderr"], .expression "kestrel=info", .expression "error,kestrel=debug"]

theorem lastWins_twice :
    ',' ∉ ['a', '=', 'b', '=', 'c'] ∧ Directive.Ignored ['a', '=', 'b', '=', 'c'] ∧
      addExpression empty (String.ofList ['a', '=', 'b', '=', 'c']) = empty ∧
      Built [] (twice.flatMap Call.changes) (after empty twice).build := by
  have hcomma : ',' ∉ ['a', '=', 'b', '=', 'c'] := by decide
  have hignored : Directive.Ignored ['a', '=', 'b', '=', 'c'] := .equals (by decide)
  obtain ⟨-, hitems, -, hbuilt⟩ := lastWins
  exact ⟨hcomma, hignored, hitems _ hcomma hignored empty, hbuilt [] twice⟩

end Setup

end SpendScript.Log
