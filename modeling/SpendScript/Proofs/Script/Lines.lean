import Mathlib.Data.List.Basic
import Mathlib.Data.Nat.Notation
import Mathlib.Tactic.SplitIfs
import SpendScript.Script.View

/-!
# The lines of a disassembly

A disassembly is written as one text. Here it is a list of lines again: each command has a block of
lines, which begins with its own line and goes on, for a push of a standard script, with the lines
of that script between two markers. No line breaks inside, and none begins with a blank but for its
indentation, so the lines are read back from the text.

* `Line`, `Line.render`, `Line.readAll`: lines, the text that they make, and its reader.
* `Script.block`: the lines of a command; `Script.blocks`: those of a script.

Results:
* `Line.readAll_render`: legible lines are read back.
* `Script.view_eq`: the disassembly is the text of the blocks.
* `Script.readAll_view`: the lines read from it are those of the blocks.
* `Script.getElem?_blocks`: the block of a command, told from the commands before it;
  `Script.lineAt?_eq`: its first line.
-/

namespace SpendScript

/-! ## Lines -/

/-- A line: its indentation, and the text after that. -/
structure Line where
  blanks : ℕ
  text : String
deriving DecidableEq

namespace Line

/-- The characters of a line. -/
def chars (l : Line) : List Char :=
  List.replicate l.blanks ' ' ++ l.text.toList

/-- The text of lines, each with a line break at its end. -/
def render (ls : List Line) : String :=
  String.ofList (ls.flatMap fun l => l.chars ++ ['\n'])

/-- The line that characters spell: the blanks in front are its indentation. -/
def ofChars (cs : List Char) : Line :=
  ⟨(cs.takeWhile (· == ' ')).length, String.ofList (cs.dropWhile (· == ' '))⟩

/-- The lines of a text; nothing comes after the last line break. -/
def readAll (text : String) : List Line :=
  (text.toList.splitOn '\n').dropLast.map ofChars

/-- The text has no line break, and does not begin with a blank. -/
structure Legible (l : Line) : Prop where
  unbroken : '\n' ∉ l.text.toList
  head_ne : l.text.toList.head? ≠ some ' '

@[simp] theorem render_nil : render [] = "" :=
  String.ofList_nil

theorem render_append (ls ks : List Line) : render (ls ++ ks) = render ls ++ render ks := by
  rw [render, List.flatMap_append, String.ofList_append, render, render]

theorem render_cons (l : Line) (ls : List Line) :
    render (l :: ls) =
      String.ofList (List.replicate l.blanks ' ') ++ l.text ++ "\n" ++ render ls := by
  rw [← String.toList_inj]
  simp [render, chars]

variable {l : Line} {ls : List Line}

theorem ofChars_chars (h : l.Legible) : ofChars l.chars = l := by
  have hblanks : ∀ c ∈ List.replicate l.blanks ' ', (c == ' ') = true := by
    intro c hc
    rw [List.eq_of_mem_replicate hc]
    rfl
  have htake : l.text.toList.takeWhile (· == ' ') = [] := by
    cases htext : l.text.toList with
    | nil => rfl
    | cons c cs =>
      refine List.takeWhile_cons_of_neg fun hc => h.head_ne ?_
      rw [htext, eq_of_beq hc, List.head?_cons]
  have hdrop : l.text.toList.dropWhile (· == ' ') = l.text.toList := by
    have hsplit := List.takeWhile_append_dropWhile (p := (· == ' ')) (l := l.text.toList)
    rwa [htake, List.nil_append] at hsplit
  rw [ofChars, chars, List.takeWhile_append_of_pos hblanks, List.dropWhile_append_of_pos hblanks,
    htake, hdrop, List.append_nil, List.length_replicate, String.ofList_toList]

theorem notMem_chars (h : l.Legible) : '\n' ∉ l.chars := by
  rw [chars, List.mem_append, not_or]
  exact ⟨fun hmem => absurd (List.eq_of_mem_replicate hmem) (by decide), h.unbroken⟩

theorem splitOn_render (h : ∀ l ∈ ls, l.Legible) :
    (render ls).toList.splitOn '\n' = ls.map chars ++ [[]] := by
  rw [render, String.toList_ofList]
  induction ls with
  | nil => rfl
  | cons l ls ih =>
    rw [List.flatMap_cons, List.append_assoc, List.singleton_append,
      List.splitOn_append_cons_self_of_not_mem (notMem_chars (h l List.mem_cons_self)),
      ih fun k hk => h k (List.mem_cons_of_mem l hk)]
    rfl

/-- Legible lines are read back from their text. -/
theorem readAll_render (h : ∀ l ∈ ls, l.Legible) : readAll (render ls) = ls := by
  rw [readAll, splitOn_render h, List.dropLast_concat, List.map_map]
  conv_rhs => rw [← List.map_id ls]
  exact List.map_congr_left fun l hl => ofChars_chars (h l hl)

end Line

/-! ## Texts -/

theorem notMem_repr (n : ℕ) : '\n' ∉ n.repr.toList := by
  intro hmem
  rw [Nat.toList_repr] at hmem
  have hdigit := Nat.isDigit_of_mem_toDigits (by decide) (by decide) hmem
  cases hdigit

theorem Text.Hex.notMem_encode (bs : Bytes) : '\n' ∉ (Text.Hex.encode bs).toList := by
  have hdigit : ∀ n < 16, Text.Hex.digit n ≠ '\n' := by decide
  rw [Text.Hex.encode, String.toList_ofList, List.mem_flatMap]
  rintro ⟨b, -, hmem⟩
  have hlt := b.toNat_lt
  simp only [Text.Hex.encodeByte, List.mem_cons, List.not_mem_nil, or_false] at hmem
  rcases hmem with h | h
  · exact hdigit _ (by omega) h.symm
  · exact hdigit _ (by omega) h.symm

/-- A command has a name, or a stand-in that spells its code. -/
theorem Opcode.text_cases (code : Opcode) :
    code.text ∈ "OP_0" :: names ∨ code.text = s!"OP_UNKNOWN{code.toNat}" := by
  unfold text
  cases hname : name? code with
  | none => exact Or.inr rfl
  | some name =>
    refine Or.inl ?_
    unfold name? at hname
    split_ifs at hname
    · cases hname
      exact List.mem_cons_self
    · exact List.mem_cons_of_mem _ (List.mem_of_getElem? hname)

/-- The text of a command begins with a letter and has no line break. -/
structure NamesCommand (text : String) : Prop where
  unbroken : '\n' ∉ text.toList
  head_eq : text.toList.head? = some 'O'

theorem NamesCommand.append {text tail : String} (h : NamesCommand text)
    (htail : '\n' ∉ tail.toList) : NamesCommand (text ++ tail) := by
  refine ⟨?_, ?_⟩
  · rw [String.toList_append, List.mem_append, not_or]
    exact ⟨h.unbroken, htail⟩
  · rw [String.toList_append, List.head?_append, h.head_eq, Option.some_or]

theorem NamesCommand.legible {text : String} (h : NamesCommand text) (blanks : ℕ) :
    Line.Legible ⟨blanks, text⟩ :=
  ⟨h.unbroken, by rw [h.head_eq]; decide⟩

theorem Opcode.namesCommand (code : Opcode) : NamesCommand code.text := by
  have hnames : ∀ name ∈ "OP_0" :: names,
      '\n' ∉ name.toList ∧ name.toList.head? = some 'O' := by decide +kernel
  rcases code.text_cases with hname | hunknown
  · exact ⟨(hnames _ hname).1, (hnames _ hname).2⟩
  · rw [hunknown]
    exact NamesCommand.append ⟨by decide, by decide⟩ (notMem_repr _)

namespace Script

theorem notMem_counts (m n : ℕ) : '\n' ∉ s!" // {m} of {n}".toList := by
  show '\n' ∉ (" // " ++ m.repr ++ " of " ++ n.repr).toList
  simp only [String.toList_append, List.mem_append, notMem_repr, or_false]
  decide

theorem namesCommand_opLine (before : List Command) (code : Opcode) :
    NamesCommand (opLine before code) := by
  unfold opLine
  split_ifs
  · split
    · exact code.namesCommand.append (notMem_counts _ _)
    · exact code.namesCommand
  · exact code.namesCommand

theorem namesCommand_pushText (p : Push) : NamesCommand (pushText p) := by
  have hbody : '\n' ∉ s!"{p.data.length} {Text.Hex.encode p.data}".toList := by
    show '\n' ∉ (p.data.length.repr ++ " " ++ Text.Hex.encode p.data).toList
    simp only [String.toList_append, List.mem_append, notMem_repr, Text.Hex.notMem_encode, or_false,
      false_or]
    decide
  unfold pushText
  split <;> exact NamesCommand.append ⟨by decide, by decide⟩ hbody

/-! ## Blocks -/

/-- The first line of a command, after the commands `before`. -/
def firstText (before : List Command) : Command → String
  | .op code => opLine before code
  | .push p => pushText p

theorem namesCommand_firstText (before : List Command) (c : Command) :
    NamesCommand (firstText before c) := by
  cases c with
  | op code => exact namesCommand_opLine before code
  | push p => exact namesCommand_pushText p

/-- The standard script that a command pushes. -/
def expanded? : Command → Option (List Command)
  | .op _ => none
  | .push p => nested? p.data

def opening : String :=
  "-- Begin Redeem Script --"

def closing : String :=
  "-- End Redeem Script --"

/-- The lines of a command: its own, and those of a script that it pushes, between markers. -/
def block (expand : ℕ → List Command → List Line) (width : ℕ) (before : List Command)
    (c : Command) : List Line :=
  ⟨width, firstText before c⟩ ::
    match expanded? c with
    | none => []
    | some cs => ⟨width + 4, opening⟩ :: expand (width + 4) cs ++ [⟨width + 4, closing⟩]

/-- The blocks of commands that follow `before`, the latest first, at `level`. -/
def blocksFrom (expand : ℕ → List Command → List Line) (margin : ℕ) :
    (before : List Command) → (level : ℕ) → List Command → List (List Line)
  | _, _, [] => []
  | before, level, c :: rest =>
    block expand (margin + 2 * levelOf level c) before c ::
      blocksFrom expand margin (c :: before) (levelAfter (levelOf level c) c) rest

/-- The lines of a script at a margin, with scripts in pushes down to a given depth. -/
def linesWithin : (depth margin : ℕ) → List Command → List Line
  | 0, _, _ => []
  | depth + 1, margin, cs => (blocksFrom (linesWithin depth) margin [] 0 cs).flatten

/-- One block of lines for each command. -/
def blocks (s : Script) : List (List Line) :=
  blocksFrom (linesWithin s.byteLength) 0 [] 0 s.commands

section Render

variable {expand : ℕ → List Command → String} {expandLines : ℕ → List Command → List Line}

theorem blanks_add_four (width : ℕ) : String.ofList (List.replicate (width + 4) ' ') =
    String.ofList (List.replicate width ' ') ++ "    " := by
  rw [List.replicate_add, String.ofList_append]
  rfl

theorem render_block (h : ∀ width cs, expand width cs = Line.render (expandLines width cs))
    (margin level : ℕ) (before : List Command) (c : Command) :
    Line.render (block expandLines (margin + 2 * level) before c) =
      indent margin level ++ (match c with
        | .op code => opLine before code
        | .push p => pushLines expand (margin + 2 * level) p) ++ "\n" := by
  cases c with
  | op code =>
    rw [block, Line.render_cons]
    exact String.append_empty
  | push p =>
    cases hnested : nested? p.data with
    | none =>
      simp only [block, expanded?, pushLines, hnested]
      rw [Line.render_cons]
      exact String.append_empty
    | some cs =>
      simp only [block, expanded?, pushLines, hnested]
      have hopening : "    -- Begin Redeem Script --\n" = "    " ++ opening ++ "\n" := by decide
      have hclosing : "    -- End Redeem Script --" = "    " ++ closing := by decide
      rw [Line.render_cons, List.cons_append, Line.render_cons, Line.render_append,
        Line.render_cons, Line.render_nil, h, hopening, hclosing, blanks_add_four]
      simp only [indent, firstText, Nat.mul_zero, Nat.add_zero, String.append_assoc,
        String.append_empty]

theorem lines_eq_render (h : ∀ width cs, expand width cs = Line.render (expandLines width cs))
    (margin level : ℕ) (before cs : List Command) :
    lines expand margin before level cs =
      Line.render (blocksFrom expandLines margin before level cs).flatten := by
  induction cs generalizing before level with
  | nil => exact Line.render_nil.symm
  | cons c rest ih =>
    rw [blocksFrom, List.flatten_cons, Line.render_append, render_block h, ← ih]
    rfl

end Render

theorem viewWithin_eq_render (depth margin : ℕ) (cs : List Command) :
    viewWithin depth margin cs = Line.render (linesWithin depth margin cs) := by
  induction depth generalizing margin cs with
  | zero => exact Line.render_nil.symm
  | succ depth ih => exact lines_eq_render ih margin 0 [] cs

/-- The disassembly is the text of the blocks. -/
theorem view_eq (s : Script) : s.view = Line.render s.blocks.flatten :=
  viewWithin_eq_render (s.byteLength + 1) 0 s.commands

/-! ## Lines read back -/

theorem legible_opening (blanks : ℕ) : Line.Legible ⟨blanks, opening⟩ :=
  ⟨show '\n' ∉ opening.toList by decide, show opening.toList.head? ≠ some ' ' by decide⟩

theorem legible_closing (blanks : ℕ) : Line.Legible ⟨blanks, closing⟩ :=
  ⟨show '\n' ∉ closing.toList by decide, show closing.toList.head? ≠ some ' ' by decide⟩

section Legible

variable {expand : ℕ → List Command → List Line}

theorem legible_block (h : ∀ width cs, ∀ l ∈ expand width cs, l.Legible) (width : ℕ)
    (before : List Command) (c : Command) : ∀ l ∈ block expand width before c, l.Legible := by
  refine List.forall_mem_cons.mpr ⟨(namesCommand_firstText before c).legible width, ?_⟩
  cases expanded? c with
  | none => exact List.forall_mem_nil _
  | some cs =>
    exact List.forall_mem_append.mpr ⟨List.forall_mem_cons.mpr ⟨legible_opening _, h _ _⟩,
      List.forall_mem_singleton.mpr (legible_closing _)⟩

theorem legible_blocksFrom (h : ∀ width cs, ∀ l ∈ expand width cs, l.Legible)
    (margin level : ℕ) (before cs : List Command) :
    ∀ l ∈ (blocksFrom expand margin before level cs).flatten, l.Legible := by
  induction cs generalizing before level with
  | nil => exact List.forall_mem_nil _
  | cons c rest ih =>
    rw [blocksFrom, List.flatten_cons]
    exact List.forall_mem_append.mpr ⟨legible_block h _ before c, ih _ _⟩

end Legible

theorem legible_linesWithin (depth margin : ℕ) (cs : List Command) :
    ∀ l ∈ linesWithin depth margin cs, l.Legible := by
  induction depth generalizing margin cs with
  | zero => exact List.forall_mem_nil _
  | succ depth ih => exact legible_blocksFrom ih margin 0 [] cs

/-- The lines that are read from the disassembly are those of the blocks. -/
theorem readAll_view (s : Script) : Line.readAll s.view = s.blocks.flatten := by
  rw [view_eq]
  exact Line.readAll_render (legible_linesWithin (s.byteLength + 1) 0 s.commands)

/-! ## The block of a command -/

/-- The level after commands that begin at `level`. -/
def levelFrom (level : ℕ) (cs : List Command) : ℕ :=
  cs.foldl (fun level c => levelAfter (levelOf level c) c) level

section Position

variable {expand : ℕ → List Command → List Line} {margin level : ℕ} {before xs ys : List Command}

theorem length_blocksFrom (expand : ℕ → List Command → List Line) (margin level : ℕ)
    (before cs : List Command) :
    (blocksFrom expand margin before level cs).length = cs.length := by
  induction cs generalizing before level with
  | nil => rfl
  | cons c rest ih => rw [blocksFrom, List.length_cons, ih, List.length_cons]

theorem blocksFrom_append : blocksFrom expand margin before level (xs ++ ys) =
    blocksFrom expand margin before level xs ++
      blocksFrom expand margin (xs.reverse ++ before) (levelFrom level xs) ys := by
  induction xs generalizing before level with
  | nil => rfl
  | cons x xs ih =>
    rw [List.cons_append, blocksFrom, ih, blocksFrom, List.cons_append, List.reverse_cons,
      List.append_assoc, List.singleton_append]
    rfl

end Position

theorem length_blocks (s : Script) : s.blocks.length = s.commands.length :=
  length_blocksFrom _ _ _ _ _

/-- The block of a command: its indentation and its text are told from the commands before it. -/
theorem getElem?_blocks {s : Script} {past rest : List Command} {c : Command}
    (h : s.commands = past ++ c :: rest) :
    s.blocks[past.length]? = some (block (linesWithin s.byteLength)
      (2 * levelOf (levelFrom 0 past) c) past.reverse c) := by
  have hlength := length_blocksFrom (linesWithin s.byteLength) 0 0 [] past
  rw [blocks, h, blocksFrom_append, List.getElem?_append_right (Nat.le_of_eq hlength), hlength,
    Nat.sub_self, blocksFrom, List.getElem?_cons_zero, List.append_nil, Nat.zero_add]

/-- The line of a command itself. -/
def lineAt? (s : Script) (i : ℕ) : Option Line :=
  s.blocks[i]?.bind List.head?

theorem lineAt?_eq {s : Script} {past rest : List Command} {c : Command}
    (h : s.commands = past ++ c :: rest) : s.lineAt? past.length =
      some ⟨2 * levelOf (levelFrom 0 past) c, firstText past.reverse c⟩ := by
  rw [lineAt?, getElem?_blocks h]
  rfl

end Script

end SpendScript
