import Mathlib
import TaprootLab.Assembly.Source
import TaprootLab.Proofs.Text

/-!
# Words in a row

Text that was put together from words with a space between each two falls apart into these words
again, each at the column where it was put. An empty word leaves no trace but its space
(`words_row`).
-/

namespace TaprootLab.Assembly

/-- A character that neither separates words nor starts a comment. -/
def Unbroken (c : Char) : Prop := Text.isBlank c = false ∧ c ≠ '#'

theorem unbroken_of_toNat {c : Char} (low : 36 ≤ c.toNat) (high : c.toNat ≤ 122) : Unbroken c := by
  constructor
  · simp only [Text.isBlank, Bool.or_eq_false_iff, Bool.and_eq_false_iff, decide_eq_false_iff_not,
      beq_eq_false_iff_ne]
    omega
  · rintro rfl
    exact absurd low (by decide)

theorem unbroken_of_all {w : List Char}
    (h : w.all (fun c => 36 ≤ c.toNat && c.toNat ≤ 122) = true) :
    ∀ c ∈ w, Unbroken c := by
  intro c mem
  have range := List.all_eq_true.mp h c mem
  rw [Bool.and_eq_true, decide_eq_true_iff, decide_eq_true_iff] at range
  exact unbroken_of_toNat range.1 range.2

/-- Words on one line, a space apart. -/
def row (ws : List (List Char)) : List Char := [' '].intercalate ws

/-- Where the words of a row stand whose first character has the given column. -/
def placed (column : Nat) : List (List Char) → List Word
  | [] => []
  | [] :: ws => placed (column + 1) ws
  | (c :: cs) :: ws => ⟨c :: cs, ⟨1, column⟩⟩ :: placed (column + (c :: cs).length + 1) ws

theorem row_cons_cons (w v : List Char) (ws : List (List Char)) :
    row (w :: v :: ws) = w ++ ' ' :: row (v :: ws) := by
  rw [row, List.intercalate_cons_cons, List.append_assoc]
  rfl

theorem wordsOfLine_nil (line column : Nat) : wordsOfLine line column [] = [] := by
  rw [wordsOfLine.eq_def]

theorem wordsOfLine_cons (line column : Nat) (c : Char) (cs : List Char) :
    wordsOfLine line column (c :: cs) =
      if Text.isBlank c then wordsOfLine line (column + 1) cs
      else ⟨c :: cs.takeWhile (!Text.isBlank ·), ⟨line, column⟩⟩
        :: wordsOfLine line (column + 1 + (cs.takeWhile (!Text.isBlank ·)).length)
          (cs.dropWhile (!Text.isBlank ·)) := by
  rw [wordsOfLine.eq_def]

/-- A word ends where the line does, or before a blank. -/
theorem wordsOfLine_append {line column : Nat} {c : Char} {cs rest : List Char}
    (unbroken : ∀ a ∈ c :: cs, Text.isBlank a = false)
    (ends : ∀ a ∈ rest.head?, Text.isBlank a = true) :
    wordsOfLine line column (c :: cs ++ rest)
      = ⟨c :: cs, ⟨line, column⟩⟩ :: wordsOfLine line (column + (c :: cs).length) rest := by
  obtain ⟨first, others⟩ := List.forall_mem_cons.mp unbroken
  have inside : ∀ a ∈ cs, (!Text.isBlank a) = true := fun a h => by rw [others a h]; rfl
  have front : rest.takeWhile (!Text.isBlank ·) = [] ∧ rest.dropWhile (!Text.isBlank ·) = rest := by
    cases rest with
    | nil => exact ⟨rfl, rfl⟩
    | cons a more =>
      have blank : Text.isBlank a = true := ends a rfl
      constructor
      · rw [List.takeWhile_cons_of_neg (by rw [blank]; decide)]
      · rw [List.dropWhile_cons_of_neg (by rw [blank]; decide)]
  rw [List.cons_append, wordsOfLine_cons, if_neg (by rw [first]; decide)]
  simp only [List.takeWhile_append_of_pos inside, List.dropWhile_append_of_pos inside, front.1,
    front.2, List.append_nil]
  rw [List.length_cons, Nat.add_right_comm, Nat.add_assoc]

theorem wordsOfLine_space (column : Nat) (cs : List Char) :
    wordsOfLine 1 column (' ' :: cs) = wordsOfLine 1 (column + 1) cs := by
  rw [wordsOfLine_cons, if_pos (by decide)]

theorem wordsOfLine_row {ws : List (List Char)}
    (unbroken : ∀ w ∈ ws, ∀ c ∈ w, Text.isBlank c = false) (column : Nat) :
    wordsOfLine 1 column (row ws) = placed column ws := by
  induction ws generalizing column with
  | nil => exact wordsOfLine_nil 1 column
  | cons w ws ih =>
    obtain ⟨first, others⟩ := List.forall_mem_cons.mp unbroken
    cases ws with
    | nil =>
      have alone : row [w] = w ++ [] := by simp [row, List.intercalate, List.intersperse]
      rw [alone]
      cases w with
      | nil => exact wordsOfLine_nil 1 column
      | cons c cs => rw [wordsOfLine_append first (by simp), wordsOfLine_nil, placed, placed]
    | cons v ws =>
      rw [row_cons_cons]
      cases w with
      | nil => rw [List.nil_append, wordsOfLine_space, ih others, placed]
      | cons c cs =>
        have ends : ∀ a ∈ (' ' :: row (v :: ws)).head?, Text.isBlank a = true := by
          intro a h
          obtain rfl := Option.some.inj h
          decide
        rw [wordsOfLine_append first ends, wordsOfLine_space, ih others, placed]

theorem mem_row {ws : List (List Char)} {c : Char} (h : c ∈ row ws) :
    c = ' ' ∨ ∃ w ∈ ws, c ∈ w := by
  induction ws with
  | nil => cases h
  | cons w ws ih =>
    cases ws with
    | nil =>
      right
      exact ⟨w, List.mem_cons_self, by simpa [row, List.intercalate, List.intersperse] using h⟩
    | cons v ws =>
      rw [row_cons_cons, List.mem_append, List.mem_cons] at h
      rcases h with h | rfl | h
      · exact .inr ⟨w, List.mem_cons_self, h⟩
      · exact .inl rfl
      · rcases ih h with rfl | ⟨w', mem, hc⟩
        · exact .inl rfl
        · exact .inr ⟨w', List.mem_cons_of_mem _ mem, hc⟩

/-- **A row falls apart into its words.** -/
theorem words_row {ws : List (List Char)} (unbroken : ∀ w ∈ ws, ∀ c ∈ w, Unbroken c) :
    words (row ws) = placed 1 ws := by
  have newline : '\n' ∉ row ws := by
    intro h
    rcases mem_row h with h | ⟨w, mem, h⟩
    · exact absurd h (by decide)
    · exact absurd (unbroken w mem _ h).1 (by decide)
  have hash : ∀ c ∈ row ws, (c != '#') = true := by
    intro c h
    rw [bne_iff_ne]
    rcases mem_row h with rfl | ⟨w, mem, h⟩
    · decide
    · exact (unbroken w mem c h).2
  have whole : code (row ws) = row ws := List.takeWhile_eq_self_iff.mpr hash
  rw [words, Text.splitOn_of_notMem newline]
  show wordsOfLine 1 1 (code (row ws)) ++ [] = placed 1 ws
  rw [whole, List.append_nil, wordsOfLine_row fun w mem c h => (unbroken w mem c h).1]

/-- The characters in front of the next word of a row. -/
def offset (ws : List (List Char)) : Nat := (ws.map (·.length + 1)).sum

theorem placed_concat (column : Nat) (ws : List (List Char)) (c : Char) (cs : List Char) :
    placed column (ws ++ [c :: cs])
      = placed column ws ++ [⟨c :: cs, ⟨1, column + offset ws⟩⟩] := by
  induction ws generalizing column with
  | nil => rfl
  | cons w ws ih =>
    have later : column + offset (w :: ws) = column + w.length + 1 + offset ws := by
      rw [offset, List.map_cons, List.sum_cons, ← offset]
      omega
    rw [later, List.cons_append]
    cases w with
    | nil => rw [placed, placed, ih]; rfl
    | cons d ds => rw [placed, placed, ih, List.cons_append]

theorem length_row_concat (ws : List (List Char)) (w : List Char) :
    (row (ws ++ [w])).length = offset ws + w.length := by
  induction ws with
  | nil => simp [offset, row, List.intercalate]
  | cons v ws ih =>
    have length : (row (v :: (ws ++ [w]))).length = v.length + 1 + (row (ws ++ [w])).length := by
      cases ws with
      | nil => rw [List.nil_append, row_cons_cons, List.length_append, List.length_cons]; omega
      | cons u ws =>
          rw [List.cons_append, row_cons_cons, List.length_append, List.length_cons]; omega
    rw [List.cons_append, length, ih, offset, offset, List.map_cons, List.sum_cons]
    omega

end TaprootLab.Assembly
