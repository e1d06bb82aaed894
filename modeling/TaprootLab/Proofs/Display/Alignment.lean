import TaprootLab.Proofs.Display.Window

/-!
# Columns of a table

Every row below the headings stands in four columns: its separators are at fixed places, no cell is
wider than a column, and no row is longer than the rule above it (`laysOut_row`). The headings are
filled up to the width of a column like any other cell, but they are not cut to it, and "alt stack"
takes nine characters. So the last separator of the headings is off by one in tables of the least
width, and there only (`aligned_iff_and_rows`).
-/

namespace TaprootLab.Table

/-! ## Lengths -/

section
variable {width : Nat} {cells : List (List Char)}

theorem length_fullRow (fits : ∀ cell ∈ cells, cell.length ≤ width) (some : cells ≠ []) :
    (fullRow width cells).length + 3 = cells.length * (width + 3) := by
  induction cells with
  | nil => contradiction
  | cons first cells ih =>
    obtain ⟨small, others⟩ := List.forall_mem_cons.mp fits
    cases cells with
    | nil =>
      rw [fullRow_singleton, Text.length_padRight_of_le small, List.length_singleton, Nat.one_mul]
    | cons second cells =>
      have rest := ih others (List.cons_ne_nil second cells)
      rw [fullRow_cons_cons, List.length_append, length_padRight_separator small,
        List.length_cons, Nat.succ_mul]
      omega

theorem length_row_le (width : Nat) (cells : List (List Char)) :
    (row width cells).length ≤ (fullRow width cells).length :=
  (Text.trimEnd_prefix _).length_le

end

/-! ## Lines in four columns -/

/-- A line that shows four cells in columns of a width. Blanks at the end of a cell do not count. -/
structure LaysOut (width : Nat) (cells : List (List Char)) (text : List Char) : Prop where
  four : cells.length = 4
  fits : ∀ cell ∈ cells, cell.length ≤ width
  behindFirst : text[width + 1]? = some '|'
  behindSecond : text[2 * width + 4]? = some '|'
  behindThird : text[3 * width + 7]? = some '|'
  shows : ∀ column cell, cells[column]? = some cell →
    Text.trimEnd (field width column text) = Text.trimEnd cell

section
variable {width : Nat} {cells : List (List Char)}

theorem getElem?_separator {column : Nat} (fits : ∀ cell ∈ cells, cell.length ≤ width)
    (more : column + 1 < cells.length) :
    (row width cells)[column * (width + 3) + (width + 1)]? = some '|' := by
  obtain ⟨front, back, -, whole, -, length⟩ := exists_separator fits more
  rw [whole, ← length, List.getElem?_append_right (Nat.le_refl _), Nat.sub_self,
    List.getElem?_cons_zero]

/-- Four cells that fit are shown in their columns. -/
theorem laysOut_row (four : cells.length = 4) (fits : ∀ cell ∈ cells, cell.length ≤ width) :
    LaysOut width cells (row width cells) := by
  have separator (column : Nat)
      (more : column < 3) : (row width cells)[column * (width + 3) + (width + 1)]? = some '|' :=
    getElem?_separator fits (by omega)
  refine ⟨four, fits, ?_, ?_, ?_, fun column cell there => trimEnd_field_row fits there⟩
  · rw [← separator 0 (by decide), Nat.zero_mul, Nat.zero_add]
  · rw [← separator 1 (by decide), Nat.one_mul]
    congr 1
    omega
  · rw [← separator 2 (by decide)]
    congr 1
    omega

theorem length_row_le_of_fits (four : cells.length = 4)
    (fits : ∀ cell ∈ cells, cell.length ≤ width) :
    (row width cells).length ≤ 4 * width + 9 := by
  have whole := length_fullRow fits (List.ne_nil_of_length_pos (by omega))
  have cut := length_row_le width cells
  rw [four] at whole
  omega

end

/-! ## Headings -/

/-- The headings in the narrowest columns. -/
theorem row_headings_narrow :
    row 8 headings = "script   | stack    | alt stack | witness".toList := by decide

theorem length_heading_le_iff {width : Nat} :
    (∀ heading ∈ headings, heading.length ≤ width) ↔ 9 ≤ width := by
  have lengths : headings.map List.length = [6, 5, 9, 7] := by decide
  rw [← List.forall_mem_map (P := (· ≤ width)), lengths]
  simp only [List.forall_mem_cons]
  exact ⟨fun fits => fits.2.2.1, fun nine => ⟨by omega, by omega, nine, by omega, nofun⟩⟩

/-! ## Tables -/

variable {style : TableStyle} {s : Snapshot}

/-- The table of a step stands in four columns: but for the line about a verified program and for
the rule, every line shows four cells, those of the headings or those of a row, and no line is
longer than the rule. -/
def Aligned (style : TableStyle) (s : Snapshot) : Prop :=
  let width := max style.columnWidth 8
  ∃ titles heading body,
    Text.splitOn '\n' (render style s).toList
        = (if s.verified then [verifiedLine] else []) ++ heading ::
          List.replicate (4 * width + 9) '-' :: body
      ∧ LaysOut width titles heading
      ∧ (∀ r line, body[r]? = some line →
        LaysOut width (cells style s width (firstShown (rowLimit style) s) r) line)
      ∧ ∀ line ∈ Text.splitOn '\n' (render style s).toList, line.length ≤ 4 * width + 9

theorem laysOut_body {r : Nat} {line : List Char} (there : (body style s)[r]? = some line) :
    LaysOut (effectiveWidth style)
      (cells style s (effectiveWidth style) (firstShown (rowLimit style) s) r) line := by
  have wide := eight_le_effectiveWidth style
  rw [getElem?_body there]
  exact laysOut_row rfl (length_le_of_mem_cells (by omega))

/-- No line is longer than the rule, not even that of the headings. -/
theorem length_le_of_mem_lines {line : List Char} (mem : line ∈ lines style s) :
    line.length ≤ 4 * effectiveWidth style + 9 := by
  have wide := eight_le_effectiveWidth style
  rw [lines_eq, List.mem_append, List.mem_cons, List.mem_cons] at mem
  rcases mem with mem | rfl | rfl | mem
  · split at mem
    · rw [List.mem_singleton.mp mem, show verifiedLine.length = 27 by decide]
      omega
    · cases mem
  · by_cases narrow : effectiveWidth style = 8
    · rw [narrow]
      decide
    · exact length_row_le_of_fits rfl (length_heading_le_iff.mpr (by omega))
  · rw [List.length_replicate]
  · obtain ⟨r, there⟩ := List.mem_iff_getElem?.mp mem
    rw [getElem?_body there]
    exact length_row_le_of_fits rfl (length_le_of_mem_cells (by omega))

theorem nine_le_effectiveWidth_iff (style : TableStyle) :
    9 ≤ effectiveWidth style ↔ 9 ≤ style.columnWidth := by
  have least : minColumnWidth = 8 := rfl
  rw [effectiveWidth]
  omega

/-- The third heading pushes the separator behind it out of its place. -/
theorem not_aligned_of_narrow (oneLine : ∀ entry ∈ style.labels.entries, '\n' ∉ entry.2.toList)
    (narrow : style.columnWidth ≤ 8) : ¬ Aligned style s := by
  rintro ⟨titles, heading, body', text, shown, -, -⟩
  rw [splitOn_render oneLine, lines_eq] at text
  rw [Nat.max_eq_right narrow] at shown
  have same := List.append_cancel_left text
  have least : effectiveWidth style = 8 := Nat.max_eq_right narrow
  rw [least, row_headings_narrow] at same
  have third := shown.behindThird
  rw [← (List.cons.inj same).1] at third
  exact absurd third (by decide)

/-- The first step of a one-byte script. -/
def firstStep : Snapshot := ⟨1, .witnessScript, 0, [0x51], [], [], none, false⟩

def narrowestStyle : TableStyle := ⟨8, 25, .empty⟩

theorem not_aligned_narrowestStyle :
    (∀ entry ∈ narrowestStyle.labels.entries, '\n' ∉ entry.2.toList)
      ∧ ¬ Aligned narrowestStyle firstStep := by
  have oneLine : ∀ entry ∈ narrowestStyle.labels.entries, '\n' ∉ entry.2.toList := nofun
  exact ⟨oneLine, not_aligned_of_narrow oneLine (Nat.le_refl 8)⟩

/-- **The columns of a table.** The table of a step stands in its columns exactly if these are wider
than the narrowest. In any table the rows below the headings do, and no line is longer than the
rule. The narrowest columns have no room for the third heading, which moves the separator behind it
and the last heading by one place. -/
theorem aligned_iff_and_rows (style : TableStyle) (s : Snapshot)
    (oneLine : ∀ entry ∈ style.labels.entries, '\n' ∉ entry.2.toList) :
    let width := max style.columnWidth 8
    (Aligned style s ↔ 9 ≤ style.columnWidth)
      ∧ ∃ body,
        Text.splitOn '\n' (render style s).toList
            = (if s.verified then [verifiedLine] else [])
              ++ row width headings :: List.replicate (4 * width + 9) '-' :: body
          ∧ (∀ r line, body[r]? = some line →
              LaysOut width (cells style s width (firstShown (rowLimit style) s) r) line)
          ∧ (∀ line ∈ Text.splitOn '\n' (render style s).toList, line.length ≤ 4 * width + 9)
          ∧ (style.columnWidth ≤ 8 →
            row width headings = "script   | stack    | alt stack | witness".toList) := by
  have text := (splitOn_render (s := s) oneLine).trans (lines_eq style s)
  have short : ∀ line ∈ Text.splitOn '\n' (render style s).toList,
      line.length ≤ 4 * effectiveWidth style + 9 := by
    rw [splitOn_render oneLine]
    exact fun line mem => length_le_of_mem_lines mem
  refine ⟨⟨fun aligned => ?_, fun wide => ?_⟩, body style s, text,
    fun r line there => laysOut_body there, short,
    fun narrow => ?_⟩
  · by_contra narrow
    exact not_aligned_of_narrow oneLine (by omega) aligned
  · have fits := length_heading_le_iff.mpr ((nine_le_effectiveWidth_iff style).mpr wide)
    exact ⟨headings, _, body style s, text, laysOut_row rfl fits,
      fun r line there => laysOut_body there, short⟩
  · rw [Nat.max_eq_right narrow, row_headings_narrow]

/-- One place more than in the narrowest columns, with a label that fits. -/
def nineWideStyle : TableStyle := ⟨9, 2, ⟨[("OP_3", "three")]⟩⟩

theorem aligned_nineWideStyle :
    (∀ entry ∈ nineWideStyle.labels.entries, '\n' ∉ entry.2.toList)
      ∧ Aligned nineWideStyle scrolledStep := by
  have oneLine : ∀ entry ∈ nineWideStyle.labels.entries, '\n' ∉ entry.2.toList := by decide
  exact ⟨oneLine, (aligned_iff_and_rows nineWideStyle scrolledStep oneLine).1.mpr (Nat.le_refl 9)⟩

end TaprootLab.Table
