import Mathlib.Logic.Function.Basic
import TaprootLab.Proofs.Display.Window
import TaprootLab.Proofs.Session.Verdict

/-!
# What a terminal makes of a text

A terminal obeys one command after another, and prints the characters that are none. On a screen
without bounds the text of a session comes down to a few moves between pictures of one kind
(`Screen.showing`): some lines from the top, an unfinished line below them with the cursor at its
end, and nothing else. A line grows, is broken off, is cleared, or is cleared together with the one
above (`turns_line`, `turns_break`, `turns_clearPrompt`, `turns_clearLineUp`).

Texts are put together with `Turns`, and not with what the screen is after each: an escape at the
end of one text would be the start of a command with the next.
-/

namespace TaprootLab

/-- A screen without bounds. Rows are filled from the left, and are empty where nothing was
written. -/
structure Screen where
  rows : Int → List Char
  row : Int
  column : Nat

namespace Screen

inductive Command where
  | print (c : Char)
  | toStart
  | down
  | up
  | eraseLine
  deriving DecidableEq, Repr

def commands : List Char → List Command
  | '\x1b' :: '[' :: '0' :: 'G' :: rest => .toStart :: commands rest
  | '\x1b' :: '[' :: '2' :: 'K' :: rest => .eraseLine :: commands rest
  | '\x1b' :: '[' :: '1' :: 'A' :: rest => .up :: commands rest
  | '\r' :: rest => .toStart :: commands rest
  | '\n' :: rest => .down :: commands rest
  | c :: rest => .print c :: commands rest
  | [] => []

/-- A row with a character printed into it. -/
def overwrite (column : Nat) (c : Char) (text : List Char) : List Char :=
  Text.padRight column (text.take column) ++ c :: text.drop (column + 1)

def obey (s : Screen) : Command → Screen
  | .print c =>
    { s with
      rows := Function.update s.rows s.row (overwrite s.column c (s.rows s.row))
      column := s.column + 1 }
  | .toStart => { s with column := 0 }
  | .down => { s with row := s.row + 1 }
  | .up => { s with row := s.row - 1 }
  | .eraseLine => { s with rows := Function.update s.rows s.row [] }

def write (s : Screen) (text : List Char) : Screen := (commands text).foldl obey s

def blank : Screen := ⟨fun _ => [], 0, 0⟩

/-- Rows with the given lines from the top, and nothing else. -/
def picture (lines : List (List Char)) (row : Int) : List Char :=
  if 0 ≤ row then lines.getD row.toNat [] else []

/-- Lines with an unfinished one below them, which the cursor is at the end of. -/
def showing (lines : List (List Char)) (last : List Char) : Screen :=
  ⟨picture (lines ++ [last]), lines.length, last.length⟩

/-! ## Pictures -/

section
variable (lines : List (List Char)) (text last : List Char)

theorem picture_length_append : picture (lines ++ [last]) lines.length = last := by
  simp [picture]

theorem update_picture :
    Function.update (picture (lines ++ [last])) lines.length text = picture (lines ++ [text]) := by
  funext row
  rw [Function.update_apply]
  split
  · rename_i here
    rw [here, picture_length_append]
  · rename_i elsewhere
    unfold picture
    split
    · obtain ⟨n, rfl⟩ := Int.eq_ofNat_of_zero_le ‹0 ≤ row›
      have other : n ≠ lines.length := fun same => elsewhere (by rw [same])
      simp only [Int.toNat_natCast, List.getD_eq_getElem?_getD]
      rcases Nat.lt_or_gt_of_ne other with above | below
      · rw [List.getElem?_append_left above, List.getElem?_append_left above]
      · rw [List.getElem?_eq_none (by simpa using below),
          List.getElem?_eq_none (by simpa using below)]
    · rfl

theorem picture_append_nil : picture (lines ++ [[]]) = picture lines := by
  funext row
  simp only [picture, List.getD_eq_getElem?_getD, List.getElem?_append]
  split
  · split
    · rfl
    · rename_i beyond
      rw [List.getElem?_eq_none (Nat.not_lt.mp beyond)]
      cases row.toNat - lines.length <;> rfl
  · rfl

theorem showing_nil : showing [] [] = blank := by
  rw [showing, picture_append_nil, blank]
  congr
  funext row
  simp [picture]

theorem overwrite_length (c : Char) : overwrite text.length c text = text ++ [c] := by
  simp [overwrite, Text.padRight]

end

/-! ## Texts one after another -/

/-- The text turns the screen into another one, whatever comes after it. -/
def Turns (text : List Char) (s t : Screen) : Prop := ∀ rest, s.write (text ++ rest) = t.write rest

section
variable {s t u : Screen} {text other : List Char}

theorem Turns.write (h : Turns text s t) : s.write text = t := by
  have alone := h []
  rwa [List.append_nil] at alone

theorem Turns.refl (s : Screen) : Turns [] s s := fun _ => rfl

theorem Turns.append (h : Turns text s t) (h' : Turns other t u) : Turns (text ++ other) s u := by
  intro rest
  rw [List.append_assoc, h, h']

end

/-- What a text does that falls apart into commands by itself. -/
theorem turns_of_commands {text : List Char} (cs : List Command)
    (whole : ∀ rest, commands (text ++ rest) = cs ++ commands rest) (s : Screen) :
    Turns text s (cs.foldl obey s) := by
  intro rest
  rw [Screen.write, whole, List.foldl_append, Screen.write]

/-- A text without the characters that steer the terminal. -/
def Plain (text : List Char) : Prop := '\x1b' ∉ text ∧ '\r' ∉ text ∧ '\n' ∉ text

theorem plain_cons_iff {c : Char} {text : List Char} :
    Plain (c :: text) ↔ Plain [c] ∧ Plain text := by
  simp only [Plain, List.mem_cons, List.not_mem_nil, or_false, not_or]
  tauto

theorem commands_cons_of_plain {c : Char} (plain : Plain [c]) (rest : List Char) :
    commands (c :: rest) = .print c :: commands rest := by
  obtain ⟨escape, back, feed⟩ := plain
  rw [List.mem_singleton] at escape back feed
  rw [commands]
  · exact fun _ same _ => escape same.symm
  · exact fun _ same _ => escape same.symm
  · exact fun _ same _ => escape same.symm
  · exact fun same => back same.symm
  · exact fun same => feed same.symm

section
variable (lines : List (List Char)) (text last : List Char)

theorem turns_char {c : Char} (plain : Plain [c]) :
    Turns [c] (showing lines last) (showing lines (last ++ [c])) := by
  have printed : [Command.print c].foldl obey (showing lines last) =
      showing lines (last ++ [c]) := by
    simp only [List.foldl_cons, List.foldl_nil, obey, showing, picture_length_append,
      overwrite_length, update_picture, List.length_append, List.length_singleton]
  rw [← printed]
  exact turns_of_commands [.print c] (commands_cons_of_plain plain) _

theorem turns_line (plain : Plain text) :
    Turns text (showing lines last) (showing lines (last ++ text)) := by
  induction text generalizing last with
  | nil =>
    rw [List.append_nil]
    exact .refl _
  | cons c text ih =>
    obtain ⟨first, others⟩ := plain_cons_iff.mp plain
    have whole := (turns_char lines last first).append (ih (last ++ [c]) others)
    rwa [List.append_assoc] at whole

theorem turns_break : Turns "\r\n".toList (showing lines last) (showing (lines ++ [last]) []) := by
  have broken : [Command.toStart, .down].foldl obey (showing lines last) =
      showing (lines ++ [last]) [] := by
    rw [showing, showing, picture_append_nil]
    simp [obey]
  rw [← broken]
  exact turns_of_commands _ (fun _ => rfl) _

theorem turns_clearPrompt :
    Turns Session.clearPrompt.toList (showing lines last) (showing lines []) := by
  have cleared : [Command.toStart, .eraseLine].foldl obey (showing lines last) =
      showing lines [] := by
    simp [obey, showing, update_picture]
  rw [← cleared]
  exact turns_of_commands _ (fun _ => rfl) _

theorem turns_clearLineUp :
    Turns Session.clearLineUp.toList (showing (lines ++ [text]) last) (showing lines []) := by
  have up : [Command.up, .eraseLine].foldl obey (showing (lines ++ [text]) []) =
      showing lines [] := by
    rw [showing, picture_append_nil]
    simp [obey, showing, update_picture]
  rw [← up]
  exact (turns_clearPrompt (lines ++ [text]) last).append (turns_of_commands _ (fun _ => rfl) _)

end

/-- As many lines are cleared as there are. Without lines nothing is, not even an unfinished one. -/
theorem turns_repeated {lines : List (List Char)} {last : List Char}
    (some : lines = [] → last = []) :
    Turns (Session.repeated lines.length Session.clearLineUp).toList
      (showing lines last) blank := by
  -- the lowest line goes first
  induction lines using List.reverseRecOn generalizing last with
  | nil =>
    rw [some rfl, showing_nil]
    exact .refl blank
  | append_singleton lines text ih =>
    have next : Session.repeated (lines ++ [text]).length Session.clearLineUp
        = Session.clearLineUp ++ Session.repeated lines.length Session.clearLineUp := by
      rw [List.length_append, List.length_singleton, Session.repeated, List.replicate_succ]
      exact String.join_cons
    rw [next, String.toList_append]
    exact (turns_clearLineUp lines text last).append (ih fun _ => rfl)

theorem turns_withBreaks (above : List (List Char)) {lines : List (List Char)}
    (plain : ∀ text ∈ lines, Plain text) :
    Turns (Session.withBreaks "\r\n" (lines.map String.ofList)).toList (showing above [])
      (showing (above ++ lines) []) := by
  rw [Session.withBreaks_eq]
  induction lines generalizing above with
  | nil =>
    rw [List.append_nil]
    exact .refl _
  | cons text lines ih =>
    rw [List.map_cons, List.map_cons, String.join_cons, String.toList_append, String.toList_append,
      String.toList_ofList, ← List.singleton_append (x := text), ← List.append_assoc above]
    have first := turns_line above text [] (plain text List.mem_cons_self)
    exact (first.append (turns_break above _)).append
      (ih _ fun other mem => plain other (List.mem_cons_of_mem _ mem))

end Screen

end TaprootLab
