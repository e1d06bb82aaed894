import TaprootLab.Display.Table
import TaprootLab.Proofs.Text

/-!
# Rows of a table

A row is cut at its end, so it is told apart from the same row with all of its blanks (`fullRow`).
There every cell stands at a place of its own (`field_fullRow`). Cutting takes nothing before the
last separator (`exists_separator`), and of the cell behind it blanks at the end at most
(`trimEnd_field_row`).
-/

namespace TaprootLab.Table

/-! ## Cells -/

theorem length_cut_le (width : Nat) (cs : List Char) : (cut width cs).length ≤ width := by
  have kept : ellipsis.length = 3 ∧ keptTail = 4 := ⟨rfl, rfl⟩
  unfold cut
  split
  · assumption
  · split
    · exact List.length_take_le width cs
    · rw [List.length_append, List.length_append, List.length_take, List.length_drop]
      omega

/-- Cutting puts in nothing but dots. -/
theorem notMem_cut {c : Char} {width : Nat} {cs : List Char} (dot : c ≠ '.') (absent : c ∉ cs) :
    c ∉ cut width cs := by
  unfold cut
  split
  · exact absent
  · split
    · exact fun mem => absent (List.mem_of_mem_take mem)
    · rw [List.mem_append, List.mem_append]
      rintro ((mem | mem) | mem)
      · exact absent (List.mem_of_mem_take mem)
      · exact dot (List.eq_of_mem_replicate (n := 3) mem)
      · exact absent (List.mem_of_mem_drop mem)

/-! ## Fields of a line -/

/-- The characters of a line that belong to a column. -/
def field (width column : Nat) (line : List Char) : List Char :=
  (line.drop (column * (width + 3))).take width

/-- A row with all of its blanks. -/
def fullRow (width : Nat) (cells : List (List Char)) : List Char :=
  [' ', '|', ' '].intercalate (cells.map (Text.padRight width))

variable {width column : Nat} {cell other : List Char} {cells : List (List Char)}

theorem row_eq_trimEnd (width : Nat) (cells : List (List Char)) :
    row width cells = Text.trimEnd (fullRow width cells) := rfl

theorem fullRow_singleton (width : Nat) (cell : List Char) :
    fullRow width [cell] = Text.padRight width cell := by
  simp [fullRow]

theorem fullRow_cons_cons (width : Nat) (cell other : List Char) (cells : List (List Char)) :
    fullRow width (cell :: other :: cells)
      = Text.padRight width cell ++ [' ', '|', ' '] ++ fullRow width (other :: cells) := by
  simp [fullRow, List.intercalate_cons_cons]

theorem exists_fullRow_cons (width : Nat) (cell : List Char) (cells : List (List Char)) :
    ∃ rest, fullRow width (cell :: cells) = Text.padRight width cell ++ rest := by
  cases cells with
  | nil => exact ⟨[], by rw [fullRow_singleton, List.append_nil]⟩
  | cons other cells =>
      exact ⟨_, (fullRow_cons_cons width cell other cells).trans (List.append_assoc _ _ _)⟩

/-- A row adds blanks and separators to its cells, and nothing else. -/
theorem mem_fullRow {c : Char} (h : c ∈ fullRow width cells) :
    c = ' ' ∨ c = '|' ∨ ∃ cell ∈ cells, c ∈ cell := by
  have padded {cell : List Char} (h : c ∈ Text.padRight width cell) : c ∈ cell ∨ c = ' ' :=
    (List.mem_append.mp h).imp_right List.eq_of_mem_replicate
  induction cells with
  | nil => cases h
  | cons first cells ih =>
    have here (h : c ∈ Text.padRight width first) : c = ' ' ∨ c = '|'
        ∨ ∃ cell ∈ first :: cells, c ∈ cell := by
      rcases padded h with mem | blank
      · exact .inr (.inr ⟨first, List.mem_cons_self, mem⟩)
      · exact .inl blank
    cases cells with
    | nil => exact here (fullRow_singleton width first ▸ h)
    | cons second cells =>
      rw [fullRow_cons_cons, List.mem_append, List.mem_append] at h
      rcases h with (h | h) | h
      · exact here h
      · rcases List.mem_cons.mp h with blank | h
        · exact .inl blank
        · exact (List.mem_pair.mp h).symm.imp_right .inl
      · exact (ih h).imp_right (Or.imp_right fun ⟨cell, mem, inside⟩ =>
          ⟨cell, List.mem_cons_of_mem _ mem, inside⟩)

theorem field_append_of_le {front : List Char} (long : column * (width + 3) + width ≤ front.length)
    (line : List Char) :
    field width column (front ++ line) = field width column front := by
  rw [field, field, List.drop_append_of_le_length (by omega), List.take_append_of_le_length]
  rw [List.length_drop]
  omega

theorem field_succ_append {front : List Char} (length : front.length = width + 3)
    (line : List Char) :
    field width (column + 1) (front ++ line) = field width column line := by
  rw [field, field, Nat.succ_mul, Nat.add_comm, ← length, ← List.drop_drop, List.drop_left]

theorem field_zero_padRight (fits : cell.length ≤ width) (line : List Char) :
    field width 0 (Text.padRight width cell ++ line) = Text.padRight width cell := by
  have length := Text.length_padRight_of_le fits
  rw [field_append_of_le (by omega), field, Nat.zero_mul, List.drop_zero,
    List.take_of_length_le (Nat.le_of_eq length)]

theorem length_padRight_separator (fits : cell.length ≤ width) :
    (Text.padRight width cell ++ [' ', '|', ' ']).length = width + 3 := by
  rw [List.length_append, Text.length_padRight_of_le fits]
  rfl

/-- Every cell stands at its place. -/
theorem field_fullRow (fits : ∀ cell ∈ cells, cell.length ≤ width)
    (there : cells[column]? = some cell) :
    field width column (fullRow width cells) = Text.padRight width cell := by
  induction cells generalizing column with
  | nil => cases there
  | cons first cells ih =>
    obtain ⟨small, others⟩ := List.forall_mem_cons.mp fits
    cases column with
    | zero =>
      cases there
      cases cells with
      | nil =>
        rw [fullRow_singleton]
        have alone := field_zero_padRight small []
        rwa [List.append_nil] at alone
      | cons second cells => rw [fullRow_cons_cons, List.append_assoc, field_zero_padRight small]
    | succ column =>
      cases cells with
      | nil => cases there
      | cons second cells =>
          rw [fullRow_cons_cons, field_succ_append (length_padRight_separator small),
            ih others there]

/-- Behind every cell but the last there is a separator. -/
theorem exists_separator_fullRow (fits : ∀ cell ∈ cells, cell.length ≤ width)
    (more : column + 1 < cells.length) :
    ∃ front back, fullRow width cells = front ++ '|' :: back
      ∧ front.length = column * (width + 3) + (width + 1) := by
  induction cells generalizing column with
  | nil => cases more
  | cons first cells ih =>
    obtain ⟨small, others⟩ := List.forall_mem_cons.mp fits
    cases cells with
    | nil => simp at more
    | cons second cells =>
      rw [fullRow_cons_cons]
      cases column with
      | zero =>
        refine ⟨Text.padRight width first ++ [' '],
          ' ' :: fullRow width (second :: cells), by simp, ?_⟩
        rw [List.length_append, Text.length_padRight_of_le small]
        simp
      | succ column =>
        obtain ⟨front, back, whole, length⟩ := ih others (Nat.lt_of_succ_lt_succ more)
        refine ⟨Text.padRight width first ++ [' ', '|', ' '] ++ front, back, ?_, ?_⟩
        · rw [whole, List.append_assoc _ front]
        · rw [List.length_append, length_padRight_separator small, length, Nat.succ_mul]
          omega

/-! ## Rows -/

/-- Nothing is cut off before the last separator. -/
theorem exists_separator (fits : ∀ cell ∈ cells, cell.length ≤ width)
    (more : column + 1 < cells.length) :
    ∃ front back back', row width cells = front ++ '|' :: back
      ∧ fullRow width cells = front ++ '|' :: back'
      ∧ front.length = column * (width + 3) + (width + 1) := by
  obtain ⟨front, back, whole, length⟩ := exists_separator_fullRow fits more
  refine ⟨front, Text.trimEnd back, back, ?_, whole, length⟩
  rw [row_eq_trimEnd, whole, Text.trimEnd_append_cons (by decide)]

theorem field_row (fits : ∀ cell ∈ cells, cell.length ≤ width) (there : cells[column]? = some cell)
    (more : column + 1 < cells.length) :
    field width column (row width cells) = Text.padRight width cell := by
  obtain ⟨front, back, back', cut, whole, length⟩ := exists_separator fits more
  rw [← field_fullRow fits there, cut, whole, field_append_of_le (by omega),
    field_append_of_le (by omega)]

theorem trimEnd_field_append_blanks (line : List Char) {blanks : List Char}
    (blank : ∀ c ∈ blanks, Text.isBlank c = true) :
    Text.trimEnd (field width column (line ++ blanks)) =
      Text.trimEnd (field width column line) := by
  rw [field, List.drop_append, List.take_append]
  exact Text.trimEnd_append_blanks _ fun c mem =>
    blank c (List.mem_of_mem_drop (List.mem_of_mem_take mem))

/-- What a cell holds can be read off its row, but for blanks at its end. -/
theorem trimEnd_field_row (fits : ∀ cell ∈ cells, cell.length ≤ width)
    (there : cells[column]? = some cell) :
    Text.trimEnd (field width column (row width cells)) = Text.trimEnd cell := by
  obtain ⟨blanks, blank, whole⟩ := Text.exists_trimEnd_append (fullRow width cells)
  calc Text.trimEnd (field width column (row width cells))
      = Text.trimEnd (field width column (fullRow width cells)) := by
        rw [← trimEnd_field_append_blanks _ blank, row_eq_trimEnd, whole]
    _ = Text.trimEnd cell := by rw [field_fullRow fits there, Text.trimEnd_padRight]

/-- A row begins as its first cell does, but for a blank. -/
theorem head?_row_eq_some_iff {c : Char} (wide : 0 < width) (solid : Text.isBlank c = false) :
    (row width (cell :: cells)).head? = some c ↔ (Text.padRight width cell).head? = some c := by
  obtain ⟨blanks, blank, whole⟩ := Text.exists_trimEnd_append (fullRow width (cell :: cells))
  obtain ⟨rest, begins⟩ := exists_fullRow_cons width cell cells
  obtain ⟨first, padding, padded⟩ := List.exists_cons_of_ne_nil (Text.padRight_ne_nil wide cell)
  rw [begins, padded] at whole
  rw [row_eq_trimEnd, begins, padded]
  rcases kept : Text.trimEnd (first :: padding ++ rest) with _ | ⟨d, kept⟩
  -- nothing is kept of a row that is all blanks
  · rw [kept, List.nil_append] at whole
    have empty : Text.isBlank first = true := blank first (whole ▸ List.mem_cons_self)
    refine ⟨nofun, fun same => ?_⟩
    cases same
    cases empty.symm.trans solid
  · rw [kept] at whole
    rw [(List.cons.inj whole).1]
    rfl

end TaprootLab.Table
