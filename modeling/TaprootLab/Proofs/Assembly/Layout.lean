import TaprootLab.Proofs.Assembly.Words

/-!
# Words between blanks and comments

How the words of a text are set is up to its author: blanks may stand in front of a word, behind it
and on lines of their own, and a comment takes up the rest of its line (`Layout`). None of it
matters to what the words are (`Layout.map_text_words`), and every text is laid out in this way
(`layout_words`).
-/

namespace TaprootLab.Assembly

/-- A text is made up of words, blanks and comments. A word goes on up to a blank, a comment or the
end of the text, a comment up to the end of its line. -/
inductive Layout : (text : List Char) → (ws : List (List Char)) → Prop
  | nothing : Layout [] []
  | blank {c : Char} {text : List Char} {ws : List (List Char)} (h : Text.isBlank c = true)
      (rest : Layout text ws) : Layout (c :: text) ws
  | comment {body text : List Char} {ws : List (List Char)} (oneLine : '\n' ∉ body)
      (ends : ∀ c ∈ text.head?, c = '\n') (rest : Layout text ws) : Layout ('#' :: body ++ text) ws
  | word {w text : List Char} {ws : List (List Char)} (nonempty : w ≠ [])
      (unbroken : ∀ c ∈ w, Unbroken c) (ends : ∀ c ∈ text.head?, ¬ Unbroken c)
      (rest : Layout text ws) : Layout (w ++ text) (w :: ws)

/-- A word stands by itself. -/
theorem layout_singleton {w : List Char} (nonempty : w ≠ []) (unbroken : ∀ c ∈ w, Unbroken c) :
    Layout w [w] := by
  have alone : Layout (w ++ []) [w] := .word nonempty unbroken (by simp) .nothing
  rwa [List.append_nil] at alone

/-- A word may be set off by a space. -/
theorem Layout.spaced {w text : List Char} {ws : List (List Char)} (nonempty : w ≠ [])
    (unbroken : ∀ c ∈ w, Unbroken c) (rest : Layout text ws) :
    Layout (w ++ ' ' :: text) (w :: ws) := by
  refine .word nonempty unbroken ?_ (.blank (by decide) rest)
  rintro c ⟨⟩ broken
  exact absurd broken.1 (by decide)

theorem Layout.of_mem {text : List Char} {ws : List (List Char)} (h : Layout text ws) :
    ∀ w ∈ ws, w ≠ [] ∧ ∀ c ∈ w, Unbroken c := by
  induction h with
  | nothing => simp
  | blank _ _ ih => exact ih
  | comment _ _ _ ih => exact ih
  | word nonempty unbroken _ _ ih => exact List.forall_mem_cons.mpr ⟨⟨nonempty, unbroken⟩, ih⟩

/-! ## The words of a line -/

/-- The words of a line, wherever they stand. -/
def textsOfLine (line : List Char) : List (List Char) :=
  (wordsOfLine 1 1 (code line)).map Word.text

/-- Where a line stands matters to nothing but the places of its words. -/
theorem map_text_wordsOfLine (line column line' column' : Nat) (cs : List Char) :
    (wordsOfLine line column cs).map Word.text = (wordsOfLine line' column' cs).map Word.text := by
  induction column, cs using wordsOfLine.induct generalizing column' with
  | case1 column => rw [wordsOfLine_nil, wordsOfLine_nil]
  | case2 column c cs blank ih =>
    rw [wordsOfLine_cons, wordsOfLine_cons, if_pos blank, if_pos blank]
    exact ih (column' + 1)
  | case3 column c cs solid more ih =>
    rw [wordsOfLine_cons, wordsOfLine_cons, if_neg solid, if_neg solid, List.map_cons,
      List.map_cons]
    exact congrArg _ (ih _)

theorem textsOfLine_nil : textsOfLine [] = [] := by
  rw [textsOfLine, code, List.takeWhile_nil, wordsOfLine_nil, List.map_nil]

theorem textsOfLine_blank {c : Char} (h : Text.isBlank c = true) (line : List Char) :
    textsOfLine (c :: line) = textsOfLine line := by
  have other : c ≠ '#' := by
    rintro rfl
    cases h
  rw [textsOfLine, code, List.takeWhile_cons, if_pos (bne_iff_ne.mpr other),
    wordsOfLine_cons, if_pos h]
  exact map_text_wordsOfLine _ _ _ _ _

theorem textsOfLine_comment (line : List Char) : textsOfLine ('#' :: line) = [] := by
  rw [textsOfLine, code, List.takeWhile_cons_of_neg (by simp), wordsOfLine_nil, List.map_nil]

/-- A word of a line goes on up to a blank or a comment. -/
theorem wordsOfLine_code_append {w line : List Char} (nonempty : w ≠ [])
    (unbroken : ∀ c ∈ w, Unbroken c) (ends : ∀ c ∈ line.head?, ¬ Unbroken c) (i column : Nat) :
    wordsOfLine i column (code (w ++ line))
      = ⟨w, ⟨i, column⟩⟩ :: wordsOfLine i (column + w.length) (code line) := by
  have solid : ∀ c ∈ w, Text.isBlank c = false := fun c hc => (unbroken c hc).1
  have kept : ∀ c ∈ w, (c != '#') = true := fun c hc => bne_iff_ne.mpr (unbroken c hc).2
  have stops : ∀ c ∈ (code line).head?, Text.isBlank c = true := by
    intro c hc
    rcases line with _ | ⟨d, line⟩
    · cases hc
    · have broken := ends d rfl
      by_cases hash : d = '#'
      · rw [code, List.takeWhile_cons_of_neg (by simp [hash])] at hc
        cases hc
      · rw [code, List.takeWhile_cons, if_pos (bne_iff_ne.mpr hash)] at hc
        obtain rfl := Option.some.inj hc
        simpa [Unbroken, hash] using broken
  rcases w with _ | ⟨c, cs⟩
  · exact absurd rfl nonempty
  · rw [code, List.takeWhile_append_of_pos kept]
    exact wordsOfLine_append solid stops

theorem textsOfLine_append {w line : List Char} (nonempty : w ≠ []) (unbroken : ∀ c ∈ w, Unbroken c)
    (ends : ∀ c ∈ line.head?, ¬ Unbroken c) :
    textsOfLine (w ++ line) = w :: textsOfLine line := by
  rw [textsOfLine, wordsOfLine_code_append nonempty unbroken ends, List.map_cons]
  exact congrArg _ (map_text_wordsOfLine _ _ _ _ _)

/-! ## The words of a text -/

def texts (text : List Char) : List (List Char) := (Text.splitOn '\n' text).flatMap textsOfLine

theorem map_text_words (text : List Char) : (words text).map Word.text = texts text := by
  have place : ∀ x : List Char × Nat,
      (wordsOfLine (x.2 + 1) 1 (code x.1)).map Word.text = textsOfLine x.1 := by
    intro x
    exact map_text_wordsOfLine _ _ _ _ _
  rw [words, List.map_flatMap]
  simp only [place]
  rw [← List.flatMap_map, List.zipIdx_map_fst, texts]

/-- The words that stand below the first line. -/
def laterTexts (text : List Char) : List (List Char) :=
  match text.dropWhile (· != '\n') with
  | [] => []
  | _ :: rest => texts rest

/-- What stands in front of a text, up to its first line break, becomes part of its first line. -/
theorem texts_append {front : List Char} (h : '\n' ∉ front) (text : List Char) :
    texts (front ++ text) = textsOfLine (front ++ text.takeWhile (· != '\n')) ++
      laterTexts text := by
  have keep : ∀ c ∈ front, (c != '\n') = true := by
    intro c hc
    exact bne_iff_ne.mpr (ne_of_mem_of_not_mem hc h)
  rw [texts, Text.splitOn_eq, List.takeWhile_append_of_pos keep, List.dropWhile_append_of_pos keep,
    List.flatMap_cons, laterTexts]
  congr 1
  cases text.dropWhile (· != '\n') <;> rfl

theorem texts_eq (text : List Char) :
    texts text = textsOfLine (text.takeWhile (· != '\n')) ++ laterTexts text :=
  texts_append (List.not_mem_nil (a := '\n')) text

theorem texts_lineBreak (text : List Char) : texts ('\n' :: text) = texts text := by
  rw [texts_eq, List.takeWhile_cons_of_neg (by simp), textsOfLine_nil, laterTexts,
    List.dropWhile_cons_of_neg (by simp)]
  rfl

theorem texts_blank {c : Char} (h : Text.isBlank c = true) (text : List Char) :
    texts (c :: text) = texts text := by
  by_cases lineBreak : c = '\n'
  · rw [lineBreak, texts_lineBreak]
  · have other : '\n' ∉ [c] := by simpa [eq_comm] using lineBreak
    show texts ([c] ++ text) = _
    rw [texts_append other, List.singleton_append, textsOfLine_blank h, ← texts_eq]

theorem takeWhile_lineBreak {text : List Char} (ends : ∀ c ∈ text.head?, c = '\n') :
    text.takeWhile (· != '\n') = [] := by
  rcases text with _ | ⟨c, text⟩
  · rfl
  · exact List.takeWhile_cons_of_neg (by simp [ends c rfl])

/-- **Layout is all there is to words.** -/
theorem Layout.map_text_words {text : List Char} {ws : List (List Char)} (h : Layout text ws) :
    (words text).map Word.text = ws := by
  rw [Assembly.map_text_words]
  induction h with
  | nothing => rw [texts_eq, List.takeWhile_nil, textsOfLine_nil]; rfl
  | blank h _ ih => rw [texts_blank h, ih]
  | @comment body text ws oneLine ends _ ih =>
    have whole : '\n' ∉ '#' :: body := by simpa using oneLine
    rw [← ih, texts_append whole, texts_eq text, takeWhile_lineBreak ends, List.cons_append,
      textsOfLine_comment, textsOfLine_nil]
  | @word w text ws nonempty unbroken ends _ ih =>
    have inside : '\n' ∉ w := by
      intro h
      exact absurd (unbroken '\n' h).1 (by decide)
    have stops : ∀ c ∈ (text.takeWhile (· != '\n')).head?, ¬ Unbroken c := by
      intro c hc
      rw [List.head?_takeWhile, Option.mem_filter_iff] at hc
      exact ends c hc.1
    rw [texts_append inside, textsOfLine_append nonempty unbroken stops, ← ih, texts_eq text]
    rfl

theorem eq_false_of_head?_dropWhile {p : Char → Bool} {text : List Char} {c : Char}
    (h : c ∈ (text.dropWhile p).head?) : p c = false := by
  have stops := List.head?_dropWhile_not p text
  rw [Option.mem_def.mp h] at stops
  exact stops

instance : DecidablePred Unbroken := fun _ => inferInstanceAs (Decidable (_ ∧ _))

/-- Every text can be laid out. -/
theorem exists_layout : ∀ text : List Char, ∃ ws, Layout text ws
  | [] => ⟨[], .nothing⟩
  | c :: text => by
    by_cases blank : Text.isBlank c = true
    · obtain ⟨ws, rest⟩ := exists_layout text
      exact ⟨ws, .blank blank rest⟩
    by_cases hash : c = '#'
    · have shorter := (List.dropWhile_suffix (fun c => c != '\n') (l := text)).length_le
      obtain ⟨ws, rest⟩ := exists_layout (text.dropWhile (· != '\n'))
      have oneLine : '\n' ∉ text.takeWhile (· != '\n') := by
        intro mem
        simpa using List.mem_takeWhile_imp mem
      have ends : ∀ d ∈ (text.dropWhile (· != '\n')).head?, d = '\n' := by
        intro d hd
        simpa using eq_false_of_head?_dropWhile hd
      have whole := Layout.comment oneLine ends rest
      rw [List.cons_append, List.takeWhile_append_dropWhile, ← hash] at whole
      exact ⟨ws, whole⟩
    · have shorter := (List.dropWhile_suffix (fun c => decide (Unbroken c)) (l := text)).length_le
      obtain ⟨ws, rest⟩ := exists_layout (text.dropWhile fun c => decide (Unbroken c))
      have first : Unbroken c := ⟨by simpa using blank, hash⟩
      have unbroken : ∀ d ∈ c :: text.takeWhile (fun c => decide (Unbroken c)), Unbroken d := by
        intro d mem
        rcases List.mem_cons.mp mem with rfl | mem
        · exact first
        · simpa using List.mem_takeWhile_imp (p := fun c => decide (Unbroken c)) mem
      have ends : ∀ d ∈ (text.dropWhile fun c => decide (Unbroken c)).head?, ¬ Unbroken d := by
        intro d hd
        simpa using eq_false_of_head?_dropWhile hd
      have whole := Layout.word (List.cons_ne_nil _ _) unbroken ends rest
      rw [List.cons_append, List.takeWhile_append_dropWhile] at whole
      exact ⟨_, whole⟩
termination_by text => text.length

/-- The words that are read off a text are those that it is made up of. -/
theorem layout_words (text : List Char) : Layout text ((words text).map Word.text) := by
  obtain ⟨ws, laid⟩ := exists_layout text
  rwa [laid.map_text_words]

end TaprootLab.Assembly
