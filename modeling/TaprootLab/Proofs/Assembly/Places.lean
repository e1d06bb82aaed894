import TaprootLab.Assembly.Token
import TaprootLab.Proofs.Assembly.Layout
import TaprootLab.Proofs.Except

/-!
# Where words stand

Cutting a text into lines, lines at comments and what is left at blanks finds the words that stand
in the text (`Word.StandsIn`), and finds them where they stand: a line is counted by the line breaks
up to it, a column by the characters since the last one. Everything is read off one fact, that a
text may be cut wherever neither a word nor a comment goes across (`Apart.wordsFrom`): what is
behind the cut is found as it is alone, from the place on where the cut is. A word is such a place,
and so is a line break.

So texts that stand one below the other are read one by one, and only the numbers of the lines
change (`tokenize_reads`).
-/

namespace TaprootLab.Assembly

/-! ## Places -/

namespace Position

def start : Position := ⟨1, 1⟩

def next (p : Position) (c : Char) : Position :=
  if c = '\n' then ⟨p.line + 1, 1⟩ else ⟨p.line, p.column + 1⟩

def after (p : Position) (cs : List Char) : Position := cs.foldl next p

/-- Reading order. -/
def Before (p q : Position) : Prop := p.line < q.line ∨ p.line = q.line ∧ p.column < q.column

theorem after_append (p : Position) (cs ds : List Char) :
    p.after (cs ++ ds) = (p.after cs).after ds :=
  List.foldl_append

theorem after_of_notMem {cs : List Char} (oneLine : '\n' ∉ cs) (p : Position) :
    p.after cs = ⟨p.line, p.column + cs.length⟩ := by
  induction cs generalizing p with
  | nil => rfl
  | cons c cs ih =>
    obtain ⟨other, rest⟩ : '\n' ≠ c ∧ '\n' ∉ cs := by simpa using oneLine
    show (p.next c).after cs = _
    rw [ih rest, next, if_neg (Ne.symm other), List.length_cons]
    exact congrArg _ (by dsimp only; omega)

/-- Lines are counted by line breaks, columns by the characters since the last one. -/
theorem after_start (front : List Char) :
    start.after front =
      ⟨front.count '\n' + 1, (front.reverse.takeWhile (· != '\n')).length + 1⟩ := by
  induction front using List.reverseRecOn with
  | nil => rfl
  | append_singleton front c ih =>
    rw [after_append, ih, List.count_append, List.reverse_append]
    show next _ c = _
    by_cases lineBreak : c = '\n'
    · simp [next, lineBreak]
    · have other : (c == '\n') = false := by simpa using lineBreak
      simp [next, lineBreak]

end Position

/-! ## Words from a place on -/

/-- The words of some lines, of which the first is behind `n` others. -/
def wordsBelow (n : Nat) (lines : List (List Char)) : List Word :=
  (lines.zipIdx n).flatMap fun (line, i) => wordsOfLine (i + 1) 1 (code line)

/-- The words of a text that starts at a place. -/
def wordsFrom (p : Position) (text : List Char) : List Word :=
  wordsOfLine p.line p.column (code (text.takeWhile (· != '\n'))) ++
    match text.dropWhile (· != '\n') with
    | [] => []
    | _ :: rest => wordsBelow p.line (Text.splitOn '\n' rest)

theorem wordsBelow_splitOn (n : Nat) (text : List Char) :
    wordsBelow n (Text.splitOn '\n' text) = wordsFrom ⟨n + 1, 1⟩ text := by
  rw [Text.splitOn_eq, wordsBelow, List.zipIdx_cons, List.flatMap_cons, wordsFrom]
  congr 1
  cases text.dropWhile (· != '\n') <;> rfl

theorem words_eq (text : List Char) : words text = wordsFrom .start text :=
  wordsBelow_splitOn 0 text

theorem wordsFrom_nil (p : Position) : wordsFrom p [] = [] := by
  rw [wordsFrom, List.takeWhile_nil, code, List.takeWhile_nil, wordsOfLine_nil]
  rfl

theorem wordsFrom_lineBreak (p : Position) (text : List Char) :
    wordsFrom p ('\n' :: text) = wordsFrom ⟨p.line + 1, 1⟩ text := by
  rw [wordsFrom, List.takeWhile_cons_of_neg (by simp), List.dropWhile_cons_of_neg (by simp), code,
    List.takeWhile_nil, wordsOfLine_nil, List.nil_append]
  exact wordsBelow_splitOn p.line text

/-- What stands in front of a text becomes part of its first line. -/
theorem wordsFrom_append {front text : List Char} (oneLine : '\n' ∉ front) {p : Position}
    {found : List Word}
    (first : wordsOfLine p.line p.column (code (front ++ text.takeWhile (· != '\n')))
      = found ++ wordsOfLine p.line (p.column + front.length) (code (text.takeWhile (· != '\n')))) :
    wordsFrom p (front ++ text) = found ++ wordsFrom (p.after front) text := by
  have keep : ∀ c ∈ front, (c != '\n') = true :=
    fun c hc => bne_iff_ne.mpr (ne_of_mem_of_not_mem hc oneLine)
  rw [wordsFrom, List.takeWhile_append_of_pos keep, List.dropWhile_append_of_pos keep, first,
    wordsFrom, List.append_assoc, Position.after_of_notMem oneLine]

/-- A blank only moves the words behind it. -/
theorem wordsFrom_blank {c : Char} (blank : Text.isBlank c = true) (p : Position)
    (text : List Char) :
    wordsFrom p (c :: text) = wordsFrom (p.next c) text := by
  by_cases lineBreak : c = '\n'
  · rw [lineBreak, wordsFrom_lineBreak, Position.next, if_pos rfl]
  · have other : c ≠ '#' := by
      rintro rfl
      cases blank
    have oneLine : '\n' ∉ [c] := by simpa [eq_comm] using lineBreak
    show wordsFrom p ([c] ++ text) = [] ++ wordsFrom (p.after [c]) text
    refine wordsFrom_append oneLine ?_
    rw [List.singleton_append, code, List.takeWhile_cons, if_pos (bne_iff_ne.mpr other),
      wordsOfLine_cons, if_pos blank]
    rfl

/-- A comment only moves the words behind it, which are on other lines. -/
theorem wordsFrom_comment {body text : List Char} (oneLine : '\n' ∉ body)
    (ends : ∀ c ∈ text.head?, c = '\n') (p : Position) :
    wordsFrom p ('#' :: body ++ text) = wordsFrom (p.after ('#' :: body)) text := by
  have whole : '\n' ∉ '#' :: body := by simpa using oneLine
  have nothing : code ('#' :: body ++ []) = [] := List.takeWhile_cons_of_neg (by simp)
  show wordsFrom p ('#' :: body ++ text) = [] ++ wordsFrom (p.after ('#' :: body)) text
  refine wordsFrom_append whole ?_
  rw [takeWhile_lineBreak ends, nothing, code, List.takeWhile_nil, wordsOfLine_nil, wordsOfLine_nil]
  rfl

/-- A word goes on up to a blank, a comment or the end of the text. -/
theorem wordsFrom_word {w text : List Char} (nonempty : w ≠ []) (unbroken : ∀ c ∈ w, Unbroken c)
    (ends : ∀ c ∈ text.head?, ¬ Unbroken c) (p : Position) :
    wordsFrom p (w ++ text) = ⟨w, p⟩ :: wordsFrom (p.after w) text := by
  have inside : '\n' ∉ w := fun h => absurd (unbroken '\n' h).1 (by decide)
  have stops : ∀ c ∈ (text.takeWhile (· != '\n')).head?, ¬ Unbroken c := by
    intro c hc
    rw [List.head?_takeWhile, Option.mem_filter_iff] at hc
    exact ends c hc.1
  have first := wordsOfLine_code_append nonempty unbroken stops p.line p.column
  exact @wordsFrom_append w text inside p [⟨w, p⟩] first

theorem mem_getLast?_append {front : List Char} {c : Char} (h : c ∈ front.getLast?)
    (x : List Char) :
    c ∈ (x ++ front).getLast? := by
  rw [List.getLast?_append, Option.mem_def.mp h]
  rfl

/-- Neither a word nor a comment goes across from one text into another. -/
structure Apart (front back : List Char) : Prop where
  word : ∀ c ∈ front.getLast?, Unbroken c → ∀ d ∈ back.head?, ¬ Unbroken d
  comment : ∀ u v, front = u ++ '#' :: v → '\n' ∈ v ∨ ∀ d ∈ back.head?, d = '\n'

theorem Apart.of_append {x front back : List Char} (h : Apart (x ++ front) back) :
    Apart front back := by
  constructor
  · intro c last
    exact h.word c (mem_getLast?_append last x)
  · intro u v same
    exact h.comment (x ++ u) v (by rw [same, List.append_assoc])

/-- A text may be cut there. -/
theorem Apart.wordsFrom {front back : List Char} (apart : Apart front back) (p : Position) :
    wordsFrom p (front ++ back) = wordsFrom p front ++ wordsFrom (p.after front) back := by
  -- The front is gone through as it is laid out. Only its last word or comment may touch the text
  -- behind it.
  obtain ⟨ws, laid⟩ := exists_layout front
  induction laid generalizing p with
  | nothing =>
    rw [wordsFrom_nil]
    rfl
  | @blank c text ws blank _ ih =>
    rw [List.cons_append, wordsFrom_blank blank, wordsFrom_blank blank]
    exact ih (Apart.of_append (x := [c]) apart) (p.next c)
  | @comment body text ws oneLine ends _ ih =>
    have onward : ∀ c ∈ (text ++ back).head?, c = '\n' := by
      rcases text with _ | ⟨d, text⟩
      · rcases apart.comment [] body (List.append_nil _) with inside | outside
        · exact absurd inside oneLine
        · exact outside
      · exact ends
    rw [List.append_assoc, wordsFrom_comment oneLine onward, wordsFrom_comment oneLine ends,
      Position.after_append]
    exact ih apart.of_append _
  | @word w text ws nonempty unbroken ends _ ih =>
    have onward : ∀ c ∈ (text ++ back).head?, ¬ Unbroken c := by
      rcases text with _ | ⟨d, text⟩
      · have last := List.getLast?_eq_some_getLast nonempty
        rw [List.append_nil] at apart
        exact apart.word _ last (unbroken _ (List.getLast_mem nonempty))
      · exact ends
    rw [List.append_assoc, wordsFrom_word nonempty unbroken onward,
      wordsFrom_word nonempty unbroken ends, Position.after_append, List.cons_append]
    exact congrArg _ (ih apart.of_append _)

/-! ## The words of a text -/

/-- A word is a whole one between a front and a back: blanks, a comment behind it or nothing at all
bound it, and no comment has started on its line. -/
structure IsWhole (front w back : List Char) : Prop where
  nonempty : w ≠ []
  unbroken : ∀ c ∈ w, Unbroken c
  starts : ∀ c ∈ front.getLast?, Text.isBlank c = true
  ends : ∀ c ∈ back.head?, ¬ Unbroken c
  uncommented : ∀ u v, front = u ++ '#' :: v → '\n' ∈ v

/-- A word stands in a text. Its line is the number of lines up to it, its column that of the
characters of its line up to it. -/
def Word.StandsIn (w : Word) (text : List Char) : Prop :=
  ∃ front back, text = front ++ w.text ++ back ∧ IsWhole front w.text back
    ∧ w.position.line = front.count '\n' + 1
    ∧ w.position.column = (front.reverse.takeWhile (· != '\n')).length + 1

namespace IsWhole

variable {front w back : List Char}

/-- A text that does not start with a word has something in front of its words. -/
theorem exists_front (h : IsWhole front w back)
    (ends : ∀ c ∈ (front ++ w ++ back).head?, ¬ Unbroken c) :
    ∃ c rest, front = c :: rest ∧ c ∈ (front ++ w ++ back).head? := by
  rcases front with _ | ⟨c, rest⟩
  · rcases w with _ | ⟨c, cs⟩
    · exact absurd rfl h.nonempty
    · exact absurd (h.unbroken c List.mem_cons_self) (ends c rfl)
  · exact ⟨c, rest, rfl, rfl⟩

/-- The text in front of a word and the text from it on are apart. -/
theorem apart (h : IsWhole front w back) : Apart front (w ++ back) := by
  constructor
  · intro c last unbroken
    have blank := h.starts c last
    rw [unbroken.1] at blank
    cases blank
  · intro u v same
    exact .inl (h.uncommented u v same)

/-- More in front of a word changes nothing, if it ends in a blank or further text, and a comment in
it ends. -/
theorem append {x : List Char} (h : IsWhole front w back)
    (starts : front = [] → ∀ c ∈ x.getLast?, Text.isBlank c = true)
    (uncommented : ∀ u v, x = u ++ '#' :: v → '\n' ∈ v ++ front) : IsWhole (x ++ front) w back := by
  refine ⟨h.nonempty, h.unbroken, ?_, h.ends, ?_⟩
  · intro c last
    rcases front with _ | ⟨d, front⟩
    · rw [List.append_nil] at last
      exact starts rfl c last
    · rw [List.getLast?_append_of_ne_nil _ (List.cons_ne_nil d front)] at last
      exact h.starts c last
  · intro u v same
    rcases List.append_eq_append_iff.mp same with ⟨u', -, within⟩ | ⟨v', within, across⟩
    · exact h.uncommented u' v within
    · rcases v' with _ | ⟨c, v'⟩
      · exact h.uncommented [] v across.symm
      · obtain ⟨rfl, rfl⟩ := List.cons.inj across
        exact uncommented u v' within

end IsWhole

/-- Every word that is found stands where it is found. -/
theorem exists_isWhole_of_mem {w : Word} {text : List Char} {p : Position}
    (found : w ∈ wordsFrom p text) :
    ∃ front back, text = front ++ w.text ++ back ∧ IsWhole front w.text back
      ∧ w.position = p.after front := by
  obtain ⟨ws, laid⟩ := exists_layout text
  induction laid generalizing p with
  | nothing =>
    rw [wordsFrom_nil] at found
    cases found
  | @blank c text ws blank _ ih =>
    rw [wordsFrom_blank blank] at found
    obtain ⟨front, back, rfl, whole, place⟩ := ih found
    have alone : ∀ d ∈ [c].getLast?, Text.isBlank d = true := by
      rintro d ⟨⟩
      exact blank
    have quiet : ∀ u v, [c] = u ++ '#' :: v → '\n' ∈ v ++ front := by
      intro u v same
      have hash : '#' ∈ [c] := by rw [same]; simp
      obtain rfl := List.mem_singleton.mp hash
      cases blank
    exact ⟨c :: front, back, rfl, whole.append (fun _ => alone) quiet, place⟩
  | @comment body text ws oneLine ends _ ih =>
    rw [wordsFrom_comment oneLine ends] at found
    obtain ⟨front, back, rfl, whole, place⟩ := ih found
    have broken : ∀ c ∈ (front ++ w.text ++ back).head?, ¬ Unbroken c := by
      intro c first unbroken
      rw [ends c first] at unbroken
      exact absurd unbroken.1 (by decide)
    -- a word behind a comment is on a later line, so there is a line break in front of it
    obtain ⟨c, rest, rfl, first⟩ := whole.exists_front broken
    obtain rfl := ends c first
    refine ⟨'#' :: body ++ '\n' :: rest, back, by simp, whole.append nofun fun u v _ => by simp, ?_⟩
    rw [Position.after_append]
    exact place
  | @word x text ws nonempty unbroken ends _ ih =>
    rw [wordsFrom_word nonempty unbroken ends] at found
    rcases List.mem_cons.mp found with rfl | found
    · exact ⟨[], text, rfl, ⟨nonempty, unbroken, nofun, ends, by simp⟩, rfl⟩
    · obtain ⟨front, back, rfl, whole, place⟩ := ih found
      obtain ⟨c, rest, rfl, -⟩ := whole.exists_front ends
      have quiet : ∀ u v, x = u ++ '#' :: v → '\n' ∈ v ++ c :: rest := by
        intro u v same
        have hash : '#' ∈ x := by rw [same]; simp
        exact absurd rfl (unbroken '#' hash).2
      refine ⟨x ++ c :: rest, back, by simp, whole.append nofun quiet, ?_⟩
      rw [Position.after_append]
      exact place

/-- The words of a text are those that stand in it. -/
theorem mem_words_iff {w : Word} {text : List Char} : w ∈ words text ↔ w.StandsIn text := by
  rw [words_eq]
  constructor
  · intro found
    obtain ⟨front, back, split, whole, place⟩ := exists_isWhole_of_mem found
    rw [Position.after_start] at place
    exact ⟨front, back, split, whole, congrArg Position.line place, congrArg Position.column place⟩
  · rintro ⟨front, back, rfl, whole, line, column⟩
    have place : w.position = Position.start.after front := by
      rw [Position.after_start, ← line, ← column]
    rw [List.append_assoc, whole.apart.wordsFrom,
      wordsFrom_word whole.nonempty whole.unbroken whole.ends,
      ← place]
    exact List.mem_append_right _ List.mem_cons_self

/-! ### Reading order -/

theorem Position.before_next (p : Position) (c : Char) : p.Before (p.next c) := by
  unfold next
  split
  · exact .inl (Nat.lt_succ_self _)
  · exact .inr ⟨rfl, Nat.lt_succ_self _⟩

theorem Position.Before.trans {p q r : Position} (h : p.Before q) (h' : q.Before r) :
    p.Before r := by
  unfold Before at *
  omega

theorem Position.before_after (p : Position) {cs : List Char} (some : cs ≠ []) :
    p.Before (p.after cs) := by
  induction cs generalizing p with
  | nil => exact absurd rfl some
  | cons c cs ih =>
    rcases cs with _ | ⟨d, cs⟩
    · exact p.before_next c
    · exact (p.before_next c).trans (ih (p.next c) (List.cons_ne_nil d cs))

/-- Words are found in reading order, no two at one place. -/
theorem pairwise_wordsFrom (p : Position) (text : List Char) :
    (wordsFrom p text).Pairwise fun v w => v.position.Before w.position := by
  obtain ⟨ws, laid⟩ := exists_layout text
  induction laid generalizing p with
  | nothing =>
    rw [wordsFrom_nil]
    exact .nil
  | blank blank _ ih =>
    rw [wordsFrom_blank blank]
    exact ih _
  | comment oneLine ends _ ih =>
    rw [wordsFrom_comment oneLine ends]
    exact ih _
  | @word x text ws nonempty unbroken ends _ ih =>
    rw [wordsFrom_word nonempty unbroken ends]
    refine .cons ?_ (ih _)
    intro w found
    obtain ⟨front, back, -, -, place⟩ := exists_isWhole_of_mem found
    rw [place, ← Position.after_append]
    exact p.before_after (List.append_ne_nil_of_left_ne_nil nonempty front)

/-! ## Texts one below the other -/

/-- The same place with `n` more lines above it. -/
def Position.below (n : Nat) (p : Position) : Position := ⟨p.line + n, p.column⟩

def Word.below (n : Nat) (w : Word) : Word := ⟨w.text, w.position.below n⟩

def Token.below (n : Nat) (t : Token) : Token := ⟨t.text, t.position.below n, t.meaning⟩

def SourceError.below (n : Nat) (e : SourceError) : SourceError :=
  ⟨e.word, e.position.below n, e.fault⟩

theorem Position.after_below (n : Nat) (p : Position) (cs : List Char) :
    (p.below n).after cs = (p.after cs).below n := by
  induction cs generalizing p with
  | nil => rfl
  | cons c cs ih =>
    have step : (p.below n).next c = (p.next c).below n := by
      by_cases lineBreak : c = '\n'
      · rw [next, next, if_pos lineBreak, if_pos lineBreak, below, below, Nat.add_right_comm]
      · rw [next, next, if_neg lineBreak, if_neg lineBreak]
        rfl
    show ((p.below n).next c).after cs = _
    rw [step, ih]
    rfl

theorem wordsFrom_below (n : Nat) (p : Position) (text : List Char) :
    wordsFrom (p.below n) text = (wordsFrom p text).map (Word.below n) := by
  obtain ⟨ws, laid⟩ := exists_layout text
  induction laid generalizing p with
  | nothing => rw [wordsFrom_nil, wordsFrom_nil, List.map_nil]
  | @blank c text ws blank _ ih =>
    rw [wordsFrom_blank blank, wordsFrom_blank blank, ← ih]
    exact congrArg (wordsFrom · text) (p.after_below n [c])
  | comment oneLine ends _ ih =>
    rw [wordsFrom_comment oneLine ends, wordsFrom_comment oneLine ends, Position.after_below, ih]
  | word nonempty unbroken ends _ ih =>
    rw [wordsFrom_word nonempty unbroken ends, wordsFrom_word nonempty unbroken ends,
      Position.after_below, ih, List.map_cons]
    rfl

/-- A line break always cuts a text. -/
theorem apart_lineBreak (front back : List Char) : Apart front ('\n' :: back) := by
  constructor
  · rintro c - - d ⟨⟩ unbroken
    exact absurd unbroken.1 (by decide)
  · rintro u v -
    right
    rintro d ⟨⟩
    rfl

/-- The words of a text stand where they would stand alone, below the lines above. -/
theorem words_lineBreak (front back : List Char) :
    words (front ++ '\n' :: back) =
      words front ++ (words back).map (Word.below (front.count '\n' + 1)) := by
  have place : (⟨front.count '\n' + 1 + 1, 1⟩ : Position) =
      Position.start.below (front.count '\n' + 1) := by
    rw [Position.below, Position.start, Nat.add_comm 1]
  rw [words_eq, words_eq, words_eq, (apart_lineBreak front back).wordsFrom, wordsFrom_lineBreak,
    Position.after_start, place, wordsFrom_below]

/-! ## Tokens -/

/-- A token is what a word was found to be. -/
structure Token.Reads (t : Token) (w : Word) : Prop where
  text : t.text = String.ofList w.text
  position : t.position = w.position
  meaning : classify w.text = .ok t.meaning

/-- An error is what was found to be wrong with a word. -/
structure SourceError.Blames (e : SourceError) (w : Word) : Prop where
  word : e.word = String.ofList w.text
  position : e.position = w.position
  fault : classify w.text = .error e.fault

theorem ofWord_eq_ok_iff {w : Word} {t : Token} : Token.ofWord w = .ok t ↔ t.Reads w := by
  rw [Token.ofWord]
  constructor
  · intro read
    split at read
    · rename_i meaning classified
      obtain rfl := Except.ok.inj read
      exact ⟨rfl, rfl, classified⟩
    · cases read
  · intro ⟨text, position, meaning⟩
    rw [meaning]
    obtain ⟨_, _, _⟩ := t
    cases text
    cases position
    rfl

theorem ofWord_eq_error_iff {w : Word} {e : SourceError} :
    Token.ofWord w = .error e ↔ e.Blames w := by
  rw [Token.ofWord]
  constructor
  · intro refused
    split at refused
    · cases refused
    · rename_i fault classified
      obtain rfl := Except.error.inj refused
      exact ⟨rfl, rfl, classified⟩
  · intro ⟨word, position, fault⟩
    rw [fault]
    obtain ⟨_, _, _⟩ := e
    cases word
    cases position
    rfl

theorem tokenize_eq_ok_iff {text : String} {tokens : List Token} :
    tokenize text = .ok tokens ↔
      List.Forall₂ (fun w t => t.Reads w) (words text.toList) tokens := by
  rw [tokenize, Except.mapM_eq_ok_iff]
  simp only [ofWord_eq_ok_iff]

theorem tokenize_eq_error_iff {text : String} {e : SourceError} :
    tokenize text = .error e ↔
      ∃ before w after, words text.toList = before ++ w :: after
        ∧ (∀ v ∈ before, ∃ meaning, classify v.text = .ok meaning) ∧ e.Blames w := by
  have passes (v : Word) : (∃ t, Token.ofWord v = .ok t) ↔
      ∃ meaning, classify v.text = .ok meaning := by
    constructor
    · rintro ⟨t, read⟩
      exact ⟨t.meaning, (ofWord_eq_ok_iff.mp read).meaning⟩
    · rintro ⟨meaning, classified⟩
      exact ⟨⟨String.ofList v.text, v.position, meaning⟩,
        ofWord_eq_ok_iff.mpr ⟨rfl, rfl, classified⟩⟩
  rw [tokenize, Except.mapM_eq_error_iff]
  simp only [ofWord_eq_error_iff, passes]

theorem ofWord_below (n : Nat) (w : Word) :
    Token.ofWord (w.below n) =
      ((Token.ofWord w).map (Token.below n)).mapError (SourceError.below n) := by
  rw [Token.ofWord, Token.ofWord, Word.below]
  cases classify w.text <;> rfl

/-- A text below another is read as it is alone, but for the lines above. -/
theorem tokenize_lineBreak (front back : String) :
    tokenize (front ++ "\n" ++ back) =
      match tokenize front with
      | .error e => .error e
      | .ok tokens =>
        match tokenize back with
        | .error e => .error (e.below (front.toList.count '\n' + 1))
        | .ok more => .ok (tokens ++ more.map (Token.below (front.toList.count '\n' + 1))) := by
  have text : (front ++ "\n" ++ back).toList = front.toList ++ '\n' :: back.toList := by
    rw [String.toList_append, String.toList_append, List.append_assoc]
    rfl
  rw [tokenize, text, words_lineBreak, List.mapM_append, Except.mapM_map_eq (ofWord_below _)]
  show (tokenize front >>= fun tokens =>
    ((tokenize back).map (List.map (Token.below _))).mapError (SourceError.below _) >>=
      fun more => _) = _
  cases tokenize front with
  | error e => rfl
  | ok tokens => cases tokenize back <;> rfl

/-- **A text is read word by word.** Its words are the runs of unbroken characters that stand in it,
in reading order and none twice. Reading gives one token for each, with its text and its place, or
blames the first word that stands for nothing. So what stands below a text is read for itself: only
the numbers of its lines change, and an error further up comes first. -/
theorem tokenize_reads (text : String) :
    (∃ ws : List Word, (∀ w, w ∈ ws ↔ w.StandsIn text.toList)
        ∧ ws.Pairwise (fun v w => v.position.Before w.position)
        ∧ (∀ tokens, tokenize text = .ok tokens ↔ List.Forall₂ (fun w t => t.Reads w) ws tokens)
        ∧ ∀ e, tokenize text = .error e ↔
            ∃ before w after, ws = before ++ w :: after
              ∧ (∀ v ∈ before, ∃ meaning, classify v.text = .ok meaning) ∧ e.Blames w)
      ∧ ∀ below : String, tokenize (text ++ "\n" ++ below) =
          match tokenize text with
          | .error e => .error e
          | .ok tokens =>
            match tokenize below with
            | .error e => .error (e.below (text.toList.count '\n' + 1))
            | .ok more => .ok (tokens ++ more.map (Token.below (text.toList.count '\n' + 1))) := by
  have ordered : (words text.toList).Pairwise fun v w => v.position.Before w.position := by
    rw [words_eq]
    exact pairwise_wordsFrom .start text.toList
  refine ⟨⟨words text.toList, fun _ => mem_words_iff, ordered, fun _ => tokenize_eq_ok_iff,
    fun _ => tokenize_eq_error_iff⟩, tokenize_lineBreak text⟩

end TaprootLab.Assembly
