import Mathlib.Data.List.DropRight
import Mathlib.Data.List.TakeWhile
import TaprootLab.Text

/-!
# Text between separators and between blanks

Cutting a text at a separator and joining pieces undo each other, as long as there is a piece and
none of them holds a separator (`splitOn_eq_iff`). Of the blanks at the end of a text none are kept
(`trimEnd_append_blanks`), and nothing before a character that is no blank is lost
(`trimEnd_append_cons`). Taking the blanks from both ends leaves the one text between blanks that
neither starts nor ends with one (`pads_trim`, `Pads.trim_eq`).
-/

namespace TaprootLab.Text

theorem splitOn_eq (sep : Char) (cs : List Char) :
    splitOn sep cs = cs.takeWhile (· != sep) ::
      match cs.dropWhile (· != sep) with
      | [] => []
      | _ :: rest => splitOn sep rest := by
  rw [splitOn]
  split
  · rename_i last
    simp only [last]
  · rename_i more
    simp only [more]

section
variable {sep : Char} {front cs : List Char}

theorem bne_of_notMem (h : sep ∉ cs) : ∀ c ∈ cs, (c != sep) = true :=
  fun _ mem => bne_iff_ne.mpr (ne_of_mem_of_not_mem mem h)

theorem takeWhile_append_cons (h : sep ∉ front) (rest : List Char) :
    (front ++ sep :: rest).takeWhile (· != sep) = front := by
  rw [List.takeWhile_append_of_pos (bne_of_notMem h), List.takeWhile_cons_of_neg (by simp),
    List.append_nil]

theorem dropWhile_append_cons (h : sep ∉ front) (rest : List Char) :
    (front ++ sep :: rest).dropWhile (· != sep) = sep :: rest := by
  rw [List.dropWhile_append_of_pos (bne_of_notMem h), List.dropWhile_cons_of_neg (by simp)]

theorem splitOn_of_notMem (h : sep ∉ cs) : splitOn sep cs = [cs] := by
  rw [splitOn_eq, List.takeWhile_eq_self_iff.mpr (bne_of_notMem h),
    List.dropWhile_eq_nil_iff.mpr (bne_of_notMem h)]

theorem splitOn_append (h : sep ∉ front) (rest : List Char) :
    splitOn sep (front ++ sep :: rest) = front :: splitOn sep rest := by
  rw [splitOn_eq, takeWhile_append_cons h, dropWhile_append_cons h]

theorem splitOnce?_of_notMem (h : sep ∉ cs) : splitOnce? sep cs = none := by
  rw [splitOnce?, List.dropWhile_eq_nil_iff.mpr (bne_of_notMem h)]

theorem splitOnce?_append (h : sep ∉ front) (back : List Char) :
    splitOnce? sep (front ++ sep :: back) = some (front, back) := by
  rw [splitOnce?, takeWhile_append_cons h, dropWhile_append_cons h]

end

/-- A text is one piece, or a piece in front of a separator and a text. -/
theorem splitOn_induction {sep : Char} {P : List Char → Prop}
    (last : ∀ piece, sep ∉ piece → P piece)
    (more : ∀ piece rest, sep ∉ piece → P rest → P (piece ++ sep :: rest))
    (cs : List Char) : P cs := by
  by_cases here : sep ∈ cs
  · obtain ⟨piece, rest, whole, first⟩ := List.eq_append_cons_of_mem here
    rw [whole]
    exact more piece rest first (splitOn_induction last more rest)
  · exact last cs here
termination_by cs.length
decreasing_by
  rw [whole, List.length_append, List.length_cons]
  omega

/-- The pieces are those that the standard library finds. -/
theorem splitOn_eq_splitOn (sep : Char) (cs : List Char) : splitOn sep cs = cs.splitOn sep := by
  induction cs using splitOn_induction  with
  | last piece h => rw [splitOn_of_notMem h, List.splitOn_eq_singleton h]
  | more piece rest h ih => rw [splitOn_append h, List.splitOn_append_cons_self_of_not_mem h, ih]

theorem notMem_of_mem_splitOn {sep : Char} {cs piece : List Char} (h : piece ∈ splitOn sep cs) :
    sep ∉ piece := by
  induction cs using splitOn_induction  with
  | last whole absent =>
    rw [splitOn_of_notMem absent, List.mem_singleton] at h
    rwa [h]
  | more first rest absent ih =>
    rw [splitOn_append absent, List.mem_cons] at h
    rcases h with rfl | h
    · exact absent
    · exact ih h

theorem intercalate_splitOn (sep : Char) (cs : List Char) :
    [sep].intercalate (splitOn sep cs) = cs := by
  rw [splitOn_eq_splitOn, List.intercalate_splitOn]

theorem splitOn_eq_iff {sep : Char} {cs : List Char} {pieces : List (List Char)} :
    splitOn sep cs = pieces ↔
      pieces ≠ [] ∧ (∀ p ∈ pieces, sep ∉ p) ∧ [sep].intercalate pieces = cs := by
  constructor
  · rintro rfl
    exact ⟨splitOn_ne_nil sep cs, fun _ => notMem_of_mem_splitOn, intercalate_splitOn sep cs⟩
  · rintro ⟨nonempty, free, rfl⟩
    rw [splitOn_eq_splitOn, List.splitOn_intercalate sep free nonempty]

/-! ## Blanks at the end -/

theorem trimEnd_prefix (cs : List Char) : trimEnd cs <+: cs := List.rdropWhile_prefix isBlank cs

theorem exists_trimEnd_append (cs : List Char) :
    ∃ blanks, (∀ c ∈ blanks, isBlank c = true) ∧ trimEnd cs ++ blanks = cs :=
  ⟨cs.rtakeWhile isBlank, fun _ => List.mem_rtakeWhile_imp, List.rdropWhile_append_rtakeWhile⟩

theorem trimEnd_append_blanks (cs : List Char) {blanks : List Char}
    (h : ∀ c ∈ blanks, isBlank c = true) :
    trimEnd (cs ++ blanks) = trimEnd cs := by
  rw [trimEnd, List.reverse_append, List.dropWhile_append_of_pos fun c mem =>
    h c (List.mem_reverse.mp mem)]
  rfl

theorem trimEnd_append_cons {c : Char} (solid : isBlank c = false) (cs rest : List Char) :
    trimEnd (cs ++ c :: rest) = cs ++ c :: trimEnd rest := by
  have stops : ([c] ++ cs.reverse).dropWhile isBlank = [c] ++ cs.reverse :=
    List.dropWhile_cons_of_neg (by simp [solid])
  rw [trimEnd, trimEnd, List.reverse_append, List.reverse_cons, List.append_assoc,
    List.dropWhile_append, stops]
  split
  · rename_i nothing
    rw [List.isEmpty_iff.mp nothing]
    simp
  · simp

theorem padRight_eq_append (width : Nat) (cs : List Char) :
    ∃ blanks, (∀ c ∈ blanks, isBlank c = true) ∧ padRight width cs = cs ++ blanks := by
  refine ⟨List.replicate (width - cs.length) ' ', fun c mem => ?_, rfl⟩
  rw [List.eq_of_mem_replicate mem]
  decide

theorem trimEnd_padRight (width : Nat) (cs : List Char) :
    trimEnd (padRight width cs) = trimEnd cs := by
  obtain ⟨blanks, blank, padded⟩ := padRight_eq_append width cs
  rw [padded, trimEnd_append_blanks cs blank]

theorem length_padRight (width : Nat) (cs : List Char) :
    (padRight width cs).length = max width cs.length := by
  rw [padRight, List.length_append, List.length_replicate]
  omega

theorem length_padRight_of_le {width : Nat} {cs : List Char} (fits : cs.length ≤ width) :
    (padRight width cs).length = width := by
  rw [length_padRight, Nat.max_eq_left fits]

theorem padRight_ne_nil {width : Nat} (wide : 0 < width) (cs : List Char) :
    padRight width cs ≠ [] := by
  rw [← List.length_pos_iff, length_padRight]
  exact Nat.lt_of_lt_of_le wide (Nat.le_max_left width cs.length)

/-! ## Blanks at either end -/

/-- Text `cs` is `word` with blanks around it, and `word` has no blank at either end. -/
structure Pads (word cs : List Char) : Prop where
  padded : ∃ front back, (∀ c ∈ front, isBlank c = true) ∧ (∀ c ∈ back, isBlank c = true)
    ∧ front ++ word ++ back = cs
  start : ∀ c ∈ word.head?, isBlank c = false
  stop : ∀ c ∈ word.getLast?, isBlank c = false

theorem trimEnd_of_getLast? {cs : List Char} (stop : ∀ c ∈ cs.getLast?, isBlank c = false) :
    trimEnd cs = cs := by
  rcases cs.eq_nil_or_concat' with rfl | ⟨front, last, rfl⟩
  · rfl
  · exact trimEnd_append_cons (stop last List.getLast?_concat) front []

theorem getLast?_trimEnd (cs : List Char) : ∀ c ∈ (trimEnd cs).getLast?, isBlank c = false := by
  intro c last
  obtain ⟨nonempty, rfl⟩ := List.mem_getLast?_eq_getLast last
  exact Bool.eq_false_iff.mpr (List.rdropWhile_last_not isBlank cs nonempty)

theorem head?_trim (cs : List Char) : ∀ c ∈ (trim cs).head?, isBlank c = false := by
  have start := List.head?_dropWhile_not isBlank cs
  rw [trim]
  cases kept : cs.dropWhile isBlank with
  | nil => nofun
  | cons d rest =>
    rw [kept] at start
    rw [← List.nil_append (d :: rest), trimEnd_append_cons start]
    rintro _ ⟨⟩
    exact start

theorem trim_of_blanks {cs : List Char} (blank : ∀ c ∈ cs, isBlank c = true) : trim cs = [] := by
  rw [trim, List.dropWhile_eq_nil_iff.mpr blank]
  rfl

theorem Pads.blank {cs : List Char} (pads : Pads [] cs) : ∀ c ∈ cs, isBlank c = true := by
  obtain ⟨front, back, leading, trailing, rfl⟩ := pads.padded
  rw [List.append_nil, List.forall_mem_append]
  exact ⟨leading, trailing⟩

theorem Pads.trim_eq {word cs : List Char} (pads : Pads word cs) : trim cs = word := by
  cases word with
  | nil => exact trim_of_blanks pads.blank
  | cons c rest =>
    obtain ⟨⟨front, back, leading, trailing, rfl⟩, start, stop⟩ := pads
    have first : ¬ isBlank c = true := Bool.eq_false_iff.mp (start c rfl)
    rw [trim, List.append_assoc, List.dropWhile_append_of_pos leading, List.cons_append,
      List.dropWhile_cons_of_neg first, ← List.cons_append, trimEnd_append_blanks _ trailing,
      trimEnd_of_getLast? stop]

theorem pads_trim (cs : List Char) : Pads (trim cs) cs := by
  obtain ⟨back, trailing, whole⟩ := exists_trimEnd_append (cs.dropWhile isBlank)
  refine ⟨⟨cs.takeWhile isBlank, back, fun _ => List.mem_takeWhile_imp, trailing, ?_⟩,
    head?_trim cs, getLast?_trimEnd _⟩
  rw [List.append_assoc, trim, whole, List.takeWhile_append_dropWhile]

end TaprootLab.Text
