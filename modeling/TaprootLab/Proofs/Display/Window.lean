import TaprootLab.Proofs.Assembly.Recompilation
import TaprootLab.Proofs.Display.Rows

/-!
# What is seen of a step

The table of a step shows a window of its script, scrolled until the next instruction is in it. The
rows of the window are instructions in a row, and one row is marked, that of the next instruction or
the empty one behind the last (`getD_scriptColumn`). The stacks and the witness are not scrolled.
All this can be read off the text of the table (`render_shows`), which falls apart into its lines
because nothing that is drawn breaks them (`splitOn_render`).
-/

namespace TaprootLab.Table

/-! ## Characters that are not drawn -/

section
variable {c : Char} {labels : Labels} {cells : List (List Char)} {width : Nat}

theorem notMem_of_control {cs : List Char} (control : c.toNat < 32)
    (printed : cs.all (fun d => 32 ≤ d.toNat) = true) : c ∉ cs := by
  intro mem
  have high : 32 ≤ c.toNat := of_decide_eq_true (List.all_eq_true.mp printed c mem)
  omega

theorem notMem_display (control : c.toNat < 32) (item : Bytes) :
    c ∉ (ScriptNumber.display item).toList := by
  unfold ScriptNumber.display
  split
  · exact notMem_of_control control (by decide)
  · rw [Hex.encode, String.toList_ofList]
    intro mem
    have low := (Assembly.mem_toDigits mem).2.1
    omega

theorem notMem_disassemble (control : c.toNat < 32) {script : Bytes} {word : String}
    (h : word ∈ Assembly.disassemble script) : c ∉ word.toList := by
  obtain ⟨i, -, rfl⟩ := List.mem_map.mp h
  intro mem
  have low := (Assembly.toNat_of_mem_wordOf mem).1
  omega

theorem notMem_textOf (clean : ∀ entry ∈ labels.entries, c ∉ entry.2.toList) {value : String}
    (absent : c ∉ value.toList) :
    c ∉ (labels.textOf value).toList := by
  rw [Labels.textOf, Labels.get?]
  cases found : labels.entries.lookup value with
  | none => exact absent
  | some label => exact clean _ (Opcode.mem_of_lookup found)

theorem notMem_cell (control : c.toNat < 32) (clean : ∀ entry ∈ labels.entries, c ∉ entry.2.toList)
    {value : String} (absent : c ∉ value.toList) : c ∉ cell labels width value := by
  refine notMem_cut ?_ (notMem_textOf clean absent)
  rintro rfl
  exact absurd control (by decide)

theorem notMem_row (control : c.toNat < 32) (absent : ∀ cell ∈ cells, c ∉ cell) :
    c ∉ row width cells := by
  intro mem
  rcases mem_fullRow ((Text.trimEnd_prefix _).subset mem) with rfl | rfl | ⟨cell, there, inside⟩
  · exact absurd control (by decide)
  · exact absurd control (by decide)
  · exact absent cell there inside

end

/-! ## The window of a script -/

/-- A cell of the script: its mark, a blank and the label of an instruction; the mark alone behind
the last one. -/
def scriptCell (labels : Labels) (width : Nat) (words : List String) (marked i : Nat) : List Char :=
  match words[i]? with
  | some word => (if i = marked then '>' else ' ') :: ' ' :: cell labels (width - 2) word
  | none => if i = marked then ['>', ' '] else []

section
variable {labels : Labels} {width pc : Nat} {words : List String}

/-- The labels of a script, and an empty one behind them once the script has come to its end. -/
def scriptLabels (labels : Labels) (pc : Nat) (words : List String) : List String :=
  words.map labels.textOf ++ if words.length ≤ pc then [""] else []

theorem length_scriptLabels (labels : Labels) (pc : Nat) (words : List String) :
    (scriptLabels labels pc words).length = max words.length (min pc words.length + 1) := by
  rw [scriptLabels, List.length_append, List.length_map]
  split
  · rw [List.length_singleton]
    omega
  · rw [List.length_nil]
    omega

theorem scriptColumn_eq (labels : Labels) (width maxRows pc : Nat) (words : List String) :
    scriptColumn labels width maxRows pc words
      = ((scriptLabels labels pc words).zipIdx.drop (min pc words.length + 1 - maxRows)).map
        fun (text, i) =>
          (if i = min pc words.length then '>' else ' ') :: ' ' :: cut (width - 2) text.toList := by
  have same : (if words.length ≤ pc then words.map labels.textOf ++ [""]
      else words.map labels.textOf)
      = scriptLabels labels pc words := by
    rw [scriptLabels]
    split
    · rfl
    · rw [List.append_nil]
  have marked : min pc ((scriptLabels labels pc words).length - 1) = min pc words.length := by
    rw [length_scriptLabels]
    omega
  simp only [scriptColumn, List.length_map, same, marked]

theorem length_scriptColumn (labels : Labels) (width maxRows pc : Nat) (words : List String) :
    (scriptColumn labels width maxRows pc words).length
      = max words.length (min pc words.length + 1) - (min pc words.length + 1 - maxRows) := by
  rw [scriptColumn_eq, List.length_map, List.length_drop, List.length_zipIdx, length_scriptLabels]

/-- **The window shows instructions in a row.** -/
theorem getD_scriptColumn (labels : Labels) (width maxRows pc : Nat)
    (words : List String) (r : Nat) :
    (scriptColumn labels width maxRows pc words).getD r []
      = scriptCell labels width words (min pc words.length)
        (min pc words.length + 1 - maxRows + r) := by
  rw [scriptColumn_eq, List.getD_eq_getElem?_getD, List.getElem?_map, List.getElem?_drop,
    List.getElem?_zipIdx, scriptLabels, scriptCell]
  generalize min pc words.length + 1 - maxRows + r = i
  by_cases inside : i < words.length
  · rw [List.getElem?_append_left (by rwa [List.length_map]), List.getElem?_map,
      List.getElem?_eq_getElem inside]
    simp only [Option.map_some, Option.getD_some, Nat.zero_add]
    rfl
  · have outside : words[i]? = none := List.getElem?_eq_none (Nat.le_of_not_lt inside)
    rw [List.getElem?_append_right (by rw [List.length_map]; omega), List.length_map, outside]
    -- behind the script there is nothing but the empty label, and that only once the mark is on it
    by_cases ended : words.length ≤ pc
    · rw [if_pos ended, Nat.min_eq_right ended]
      by_cases last : i = words.length
      · subst last
        simp [cut]
      · rw [List.getElem?_eq_none (by rw [List.length_singleton]; omega)]
        exact (if_neg last).symm
    · rw [if_neg ended]
      have unmarked : i ≠ min pc words.length := by omega
      exact (if_neg unmarked).symm

theorem length_scriptCell_le (wide : 2 ≤ width) (marked i : Nat) :
    (scriptCell labels width words marked i).length ≤ width := by
  unfold scriptCell
  split
  · have fits := length_cut_le (width - 2) (labels.textOf ‹String›).toList
    rw [cell, List.length_cons, List.length_cons]
    omega
  · split
    · exact wide
    · exact Nat.zero_le _

theorem head?_padRight_scriptCell (wide : 0 < width) (marked i : Nat) :
    (Text.padRight width (scriptCell labels width words marked i)).head? = some '>' ↔
      i = marked := by
  unfold scriptCell
  by_cases here : i = marked
  · split <;> simp [Text.padRight, here]
  · split
    · simp [Text.padRight, here]
    · obtain ⟨width, rfl⟩ := Nat.exists_eq_succ_of_ne_zero wide.ne'
      simp [Text.padRight, here, List.replicate_succ]

end

/-! ## Cells of a row -/

def itemCell (labels : Labels) (width : Nat) : Option Bytes → List Char
  | some item => cell labels width (ScriptNumber.display item)
  | none => []

/-- Where the mark is: at the next instruction, or behind the last one. -/
def nextIndex (s : Snapshot) : Nat := min s.pc (Assembly.disassemble s.script).length

def firstShown (maxRows : Nat) (s : Snapshot) : Nat := nextIndex s + 1 - maxRows

/-- The cells of a row of a step's table, the first instruction that is shown being `first`. -/
def cells (style : TableStyle) (s : Snapshot) (width first r : Nat) : List (List Char) :=
  [scriptCell style.labels width (Assembly.disassemble s.script) (nextIndex s) (first + r),
    itemCell style.labels width s.stack[r]?,
    itemCell style.labels width s.altStack[r]?,
    itemCell style.labels width (s.witness.getD []).reverse[r]?]

theorem getD_itemColumn (labels : Labels) (width : Nat) (items : List Bytes) (r : Nat) :
    (itemColumn labels width items).getD r [] = itemCell labels width items[r]? := by
  rw [itemColumn, List.getD_eq_getElem?_getD, List.getElem?_map]
  cases items[r]? <;> rfl

theorem map_getD_columns (style : TableStyle) (s : Snapshot) (width maxRows r : Nat) :
    (columns style width maxRows s).map (·.getD r []) =
      cells style s width (firstShown maxRows s) r := by
  rw [columns, cells, firstShown, nextIndex]
  simp only [List.map_cons, List.map_nil, getD_scriptColumn, getD_itemColumn]

/-- The marked cell is that of the next instruction, if there is one. -/
theorem scriptCell_nextIndex (labels : Labels) (width : Nat) (s : Snapshot) :
    scriptCell labels width (Assembly.disassemble s.script) (nextIndex s) (nextIndex s)
      = '>' :: ' ' :: s.instruction?.elim [] fun i =>
        cell labels (width - 2) (Assembly.instructionWord i) := by
  have next : (Assembly.disassemble s.script)[nextIndex s]? =
      s.instruction?.map Assembly.instructionWord := by
    rw [Snapshot.instruction?, ← List.getElem?_map, ← Assembly.disassemble]
    by_cases inside : s.pc ≤ (Assembly.disassemble s.script).length
    · rw [nextIndex, Nat.min_eq_left inside]
    · have outside : (Assembly.disassemble s.script).length ≤ nextIndex s :=
        Nat.le_min.mpr ⟨by omega, Nat.le_refl _⟩
      rw [List.getElem?_eq_none outside, List.getElem?_eq_none (by omega)]
  rw [scriptCell, next]
  cases s.instruction? with
  | none => exact if_pos rfl
  | some i => exact congrArg (· :: _) (if_pos rfl)

theorem length_itemCell_le (labels : Labels) (width : Nat) (item? : Option Bytes) :
    (itemCell labels width item?).length ≤ width := by
  cases item? with
  | none => exact Nat.zero_le width
  | some item => exact length_cut_le _ _

theorem length_le_of_mem_cells {style : TableStyle} {s : Snapshot} {width first r : Nat}
    (wide : 2 ≤ width) :
    ∀ cell ∈ cells style s width first r, cell.length ≤ width := by
  simp only [cells, List.forall_mem_cons]
  exact ⟨length_scriptCell_le wide _ _, length_itemCell_le _ _ _, length_itemCell_le _ _ _,
    length_itemCell_le _ _ _, nofun⟩

theorem notMem_scriptCell {c : Char} {labels : Labels} {script : Bytes} {width : Nat}
    (control : c.toNat < 32) (clean : ∀ entry ∈ labels.entries, c ∉ entry.2.toList)
    (marked i : Nat) :
    c ∉ scriptCell labels width (Assembly.disassemble script) marked i := by
  have marks : c ∉ ['>', ' '] := notMem_of_control control (by decide)
  unfold scriptCell
  split
  · rename_i word there
    have label : c ∉ cell labels (width - 2) word :=
      notMem_cell control clean (notMem_disassemble control (List.mem_of_getElem? there))
    rw [List.mem_cons, List.mem_cons, not_or, not_or]
    refine ⟨?_, fun same => marks (same ▸ List.mem_cons_of_mem _ List.mem_cons_self), label⟩
    split
    · exact fun same => marks (same ▸ List.mem_cons_self)
    · exact fun same => marks (same ▸ List.mem_cons_of_mem _ List.mem_cons_self)
  · split
    · exact marks
    · exact List.not_mem_nil

theorem notMem_of_mem_cells {c : Char} {style : TableStyle} {s : Snapshot} {width first r : Nat}
    (control : c.toNat < 32) (clean : ∀ entry ∈ style.labels.entries, c ∉ entry.2.toList) :
    ∀ cell ∈ cells style s width first r, c ∉ cell := by
  have item (item? : Option Bytes) : c ∉ itemCell style.labels width item? := by
    cases item? with
    | none => exact List.not_mem_nil
    | some item => exact notMem_cell control clean (notMem_display control item)
  simp only [cells, List.forall_mem_cons]
  exact ⟨notMem_scriptCell control clean _ _, item _, item _, item _, nofun⟩

/-! ## Lines -/

variable {style : TableStyle} {s : Snapshot}

def effectiveWidth (style : TableStyle) : Nat := max style.columnWidth minColumnWidth

def rowLimit (style : TableStyle) : Nat := max style.maxRows 1

def body (style : TableStyle) (s : Snapshot) : List (List Char) :=
  let columns := columns style (effectiveWidth style) (rowLimit style) s
  let rows := min (columns.foldl (fun n column => max n column.length) 0) (rowLimit style)
  (List.range rows).map fun r =>
    row (effectiveWidth style) (columns.map fun column => column.getD r [])

theorem lines_eq (style : TableStyle) (s : Snapshot) :
    lines style s = (if s.verified then [verifiedLine] else [])
      ++ row (effectiveWidth style) headings :: List.replicate (4 * effectiveWidth style + 9) '-' ::
        body style s := rfl

theorem eight_le_effectiveWidth (style : TableStyle) : 8 ≤ effectiveWidth style :=
  Nat.le_max_right _ _

theorem length_body_le (style : TableStyle) (s : Snapshot) :
    (body style s).length ≤ rowLimit style := by
  rw [body, List.length_map, List.length_range]
  exact Nat.min_le_right _ _

theorem getElem?_body {r : Nat} {line : List Char} (there : (body style s)[r]? = some line) :
    line = row (effectiveWidth style)
      (cells style s (effectiveWidth style) (firstShown (rowLimit style) s) r) := by
  rw [body, List.getElem?_map] at there
  obtain ⟨r', inside, rfl⟩ := Option.map_eq_some_iff.mp there
  obtain ⟨-, rfl⟩ := List.getElem?_eq_some_iff.mp inside
  rw [List.getElem_range, map_getD_columns]

/-- **The mark is in the window.** -/
theorem exists_mark (style : TableStyle) (s : Snapshot) :
    ∃ mark, mark < (body style s).length ∧ firstShown (rowLimit style) s + mark = nextIndex s := by
  have someRows : 1 ≤ rowLimit style := Nat.le_max_right _ _
  have scrolled : firstShown (rowLimit style) s = nextIndex s + 1 - rowLimit style := rfl
  refine ⟨nextIndex s - firstShown (rowLimit style) s, ?_, by omega⟩
  -- the script's column reaches from the first row to the marked one
  have reach := length_scriptColumn style.labels (effectiveWidth style) (rowLimit style) s.pc
    (Assembly.disassemble s.script)
  rw [← nextIndex, ← scrolled] at reach
  rw [body, List.length_map, List.length_range]
  refine Nat.lt_min.mpr ⟨?_, by omega⟩
  simp only [columns, List.foldl_cons, List.foldl_nil]
  omega

theorem notMem_of_mem_lines {c : Char} (control : c.toNat < 32)
    (clean : ∀ entry ∈ style.labels.entries, c ∉ entry.2.toList) :
    ∀ line ∈ lines style s, c ∉ line := by
  have titles : ∀ heading ∈ headings, c ∉ heading := by
    have printed : ∀ heading ∈ headings, heading.all (fun d => 32 ≤ d.toNat) = true := by decide
    exact fun heading mem => notMem_of_control control (printed heading mem)
  intro line mem
  rw [lines_eq, List.mem_append, List.mem_cons, List.mem_cons] at mem
  rcases mem with mem | rfl | rfl | mem
  · split at mem
    · rw [List.mem_singleton.mp mem]
      exact notMem_of_control control (by decide)
    · cases mem
  · exact notMem_row control titles
  · intro mem
    rw [List.eq_of_mem_replicate mem] at control
    exact absurd control (by decide)
  · obtain ⟨r, there⟩ := List.mem_iff_getElem?.mp mem
    rw [getElem?_body there]
    exact notMem_row control (notMem_of_mem_cells control clean)

/-- **Tables fall apart into their lines.** -/
theorem splitOn_render (oneLine : ∀ entry ∈ style.labels.entries, '\n' ∉ entry.2.toList) :
    Text.splitOn '\n' (render style s).toList = lines style s := by
  rw [render, String.toList_ofList]
  refine Text.splitOn_eq_iff.mpr ⟨?_, notMem_of_mem_lines (by decide) oneLine, rfl⟩
  rw [lines_eq]
  exact List.append_ne_nil_of_right_ne_nil _ (List.cons_ne_nil _ _)

/-! ## Rows -/

/-- What can be read off a row of a step's table, the first instruction that is shown being `first`.
The cell of the script is there with all of its blanks, those at the end of the others do not
count. -/
structure RowShows (style : TableStyle) (s : Snapshot) (width first r : Nat)
    (line : List Char) : Prop where
  script : field width 0 line = Text.padRight width
    (scriptCell style.labels width (Assembly.disassemble s.script) (nextIndex s) (first + r))
  stack : Text.trimEnd (field width 1 line) = Text.trimEnd (itemCell style.labels width s.stack[r]?)
  altStack : Text.trimEnd (field width 2 line) =
    Text.trimEnd (itemCell style.labels width s.altStack[r]?)
  witness : Text.trimEnd (field width 3 line)
    = Text.trimEnd (itemCell style.labels width (s.witness.getD []).reverse[r]?)

theorem rowShows {width first r : Nat} (wide : 2 ≤ width) :
    RowShows style s width first r (row width (cells style s width first r)) := by
  have fits : ∀ cell ∈ cells style s width first r, cell.length ≤ width :=
    length_le_of_mem_cells wide
  exact ⟨field_row fits rfl (show 0 + 1 < 4 by decide), trimEnd_field_row fits rfl,
    trimEnd_field_row fits rfl, trimEnd_field_row fits rfl⟩

theorem head?_row_cells_iff {width first r : Nat} (wide : 0 < width) :
    (row width (cells style s width first r)).head? = some '>' ↔ first + r = nextIndex s := by
  rw [cells, head?_row_eq_some_iff wide (by decide), head?_padRight_scriptCell wide]

/-- **What a step's table shows.** Below the headings there are as many rows as may be shown at
most, and exactly one of them is marked. The rows show the script from some instruction on, none
left out, and the items of the stacks and of the witness from the top; the marked row shows the next
instruction, or none at the end of the script. -/
theorem render_shows (style : TableStyle) (s : Snapshot)
    (oneLine : ∀ entry ∈ style.labels.entries, '\n' ∉ entry.2.toList) :
    let width := effectiveWidth style
    ∃ first mark body,
      Text.splitOn '\n' (render style s).toList
          = (if s.verified then [verifiedLine] else []) ++ row width headings ::
            List.replicate (4 * width + 9) '-' :: body
        ∧ body.length ≤ max style.maxRows 1
        ∧ mark < body.length ∧ first + mark = nextIndex s
        ∧ (∀ r line, body[r]? = some line →
          (line.head? = some '>' ↔ r = mark) ∧ RowShows style s width first r line)
        ∧ ∀ line, body[mark]? = some line → field width 0 line = Text.padRight width
            ('>' :: ' ' :: s.instruction?.elim [] fun i =>
              cell style.labels (width - 2) (Assembly.instructionWord i)) := by
  have wide := eight_le_effectiveWidth style
  obtain ⟨mark, inside, marked⟩ := exists_mark style s
  have rows (r : Nat) (line : List Char) (there : (body style s)[r]? = some line) :
      (line.head? = some '>' ↔ r = mark)
        ∧ RowShows style s (effectiveWidth style) (firstShown (rowLimit style) s) r line := by
    rw [getElem?_body there]
    refine ⟨?_, rowShows (by omega)⟩
    rw [head?_row_cells_iff (by omega)]
    omega
  refine ⟨firstShown (rowLimit style) s, mark, body style s, ?_, length_body_le style s,
    inside, marked, rows,
    fun line there => ?_⟩
  · rw [splitOn_render oneLine, lines_eq]
  · have shown := (rows mark line there).2.script
    rwa [marked, scriptCell_nextIndex] at shown

/-- The end of a script of three instructions, of which two fit. -/
def scrolledStep : Snapshot :=
  ⟨4, .witnessScript, 7, [0x51, 0x52, 0x53], [[3], [2], [1]], [], none, true⟩

def scrolledStyle : TableStyle := ⟨0, 2, ⟨[("OP_3", "three")]⟩⟩

theorem length_decode_scrolledStep : (Script.decode scrolledStep.script).length = 3 := by
  rw [scrolledStep, Script.decode, Script.decodeFrom_of_absent rfl, Script.decodeFrom_of_absent rfl,
    Script.decodeFrom_of_absent rfl, Script.decodeFrom_nil]
  rfl

/-- The mark is behind the last instruction, and there is room for one of them. -/
theorem render_shows_scrolledStep :
    (∀ entry ∈ scrolledStyle.labels.entries, '\n' ∉ entry.2.toList)
      ∧ ∃ first mark body,
        Text.splitOn '\n' (render scrolledStyle scrolledStep).toList
            = verifiedLine :: row 8 headings :: List.replicate 41 '-' :: body
          ∧ body.length ≤ 2 ∧ mark < body.length ∧ first + mark = 3
          ∧ (∀ r line, body[r]? = some line →
              (line.head? = some '>' ↔ r = mark)
                ∧ RowShows scrolledStyle scrolledStep 8 first r line)
          ∧ ∀ line, body[mark]? = some line →
            field 8 0 line = ['>', ' ', ' ', ' ', ' ', ' ', ' ', ' '] := by
  have oneLine : ∀ entry ∈ scrolledStyle.labels.entries, '\n' ∉ entry.2.toList := by decide
  refine ⟨oneLine, ?_⟩
  obtain ⟨first, mark, body, whole, few, inside, marked, rows, last⟩ :=
    render_shows scrolledStyle scrolledStep oneLine
  have next : nextIndex scrolledStep = 3 := by
    rw [nextIndex, Assembly.disassemble, List.length_map, length_decode_scrolledStep]
    rfl
  have ended : scrolledStep.instruction? = none :=
    List.getElem?_eq_none (length_decode_scrolledStep ▸ (show 3 ≤ 7 by decide))
  rw [next] at marked
  rw [ended] at last
  exact ⟨first, mark, body, whole, few, inside, marked, rows, last⟩

end TaprootLab.Table
