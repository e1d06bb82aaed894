import TaprootLab.Proofs.Session.Screen
import TaprootLab.Proofs.Stepper.FailedCompletion

/-!
# Redrawing in place

An interactive session has one table on the screen at a time. Whenever it waits for a key, the
screen holds the lines of the table drawn last with the question below them, and nothing else,
however many lines the tables before it had. The invariant is that of a single move (`tidy_draw`):
`drawn` is the number of lines above the question, so clearing that many lines leaves the screen as
it was before the first table.

A session that comes to an ending takes the question away. One that breaks off with an error does
not (`run_redraws`).
-/

namespace TaprootLab.Session

variable {σ κ : Type}

/-! ## The moments of a session -/

/-- A session that waits for a key, with what it has written and what it has not read until then. -/
structure Moment (σ κ : Type) where
  unread : Bytes
  written : String
  waiting : Waiting σ κ

/-- The moments at which a key is waited for. -/
def momentsFrom (style : TableStyle) (input : Bytes) (written : String) :
    Progress σ κ → List (Moment σ κ)
  | .over _ _ => []
  | .waiting w =>
    match h : readKey input with
    | none => [⟨input, written, w⟩]
    | some (key, rest) =>
      have := length_of_readKey h
      ⟨input, written, w⟩ :: momentsFrom style rest (written ++ (w.press style key).1)
        (w.press style key).2
termination_by input.length

def moments (style : TableStyle) (options : SessionOptions) (input : Bytes) (s : Stepper σ κ) :
    List (Moment σ κ) :=
  momentsFrom style input (begin style options s).1 (begin style options s).2

/-- No label steers the terminal. -/
def PlainLabels (style : TableStyle) : Prop :=
  ∀ entry ∈ style.labels.entries, Screen.Plain entry.2.toList

/-- A step's table with the question below it, or an empty screen before the first step. -/
def asking (style : TableStyle) : Option Snapshot → Screen
  | some v => .showing (Table.lines style v) (prompt v).toList
  | none => .blank

/-- A step's table and nothing below it. -/
def answered (style : TableStyle) : Option Snapshot → Screen
  | some v => .showing (Table.lines style v) []
  | none => .blank

/-- The step that is shown last. -/
def lastDrawn (waits : List (Moment σ κ)) : Option Snapshot :=
  waits.getLast?.map (·.waiting.snapshot)

theorem lastDrawn_cons (m : Moment σ κ) (waits : List (Moment σ κ)) :
    lastDrawn (m :: waits) = (lastDrawn waits).or (some m.waiting.snapshot) := by
  rw [lastDrawn, lastDrawn, List.getLast?_cons]
  cases waits.getLast? <;> rfl

/-- A session that waits has drawn a table. -/
theorem exists_lastDrawn (style : TableStyle) (input : Bytes) (written : String) (w : Waiting σ κ) :
    ∃ v, lastDrawn (momentsFrom style input written (.waiting w)) = some v := by
  rw [momentsFrom]
  split
  · exact ⟨w.snapshot, rfl⟩
  · rw [lastDrawn_cons]
    cases lastDrawn (momentsFrom style _ _ _) <;> exact ⟨_, rfl⟩

/-- The screen of a session from its first draw to its end. -/
structure RedrawsInPlace (style : TableStyle) (failure : Option String) (waits : List (Moment σ κ))
    (report : SessionReport σ κ) : Prop where
  /-- What is waited for decides how the session goes on. -/
  onward : ∀ m ∈ waits, report = follow style failure m.unread m.written (.waiting m.waiting)
  /-- While a key is waited for, the table drawn last and its question are shown. -/
  asked : ∀ m ∈ waits, Screen.blank.write m.written.toList = asking style (some m.waiting.snapshot)
  /-- At an ending the question is gone, and the table drawn last is not. -/
  cleared : Screen.blank.write report.written.toList = answered style (lastDrawn waits)
    ↔ lastDrawn waits = none ∨ ∃ ending, report.result = .ok ending
  /-- At an error both are there. -/
  left : ∀ e, report.result = .error e →
    Screen.blank.write report.written.toList = asking style (lastDrawn waits)

/-! ## One move -/

variable {style : TableStyle} {last : Option Snapshot} {written : String} {input : Bytes}

theorem tableLines_eq (clean : PlainLabels style) (v : Snapshot) :
    tableLines style v = (Table.lines style v).map String.ofList := by
  rw [tableLines, Table.splitOn_render fun entry mem => (clean entry mem).2.2]

theorem plain_of_mem_lines (clean : PlainLabels style) {v : Snapshot} {text : List Char}
    (mem : text ∈ Table.lines style v) : Screen.Plain text :=
  ⟨Table.notMem_of_mem_lines (by decide) (fun entry here => (clean entry here).1) text mem,
    Table.notMem_of_mem_lines (by decide) (fun entry here => (clean entry here).2.1) text mem,
    Table.notMem_of_mem_lines (by decide) (fun entry here => (clean entry here).2.2) text mem⟩

theorem plain_prompt (v : Snapshot) : Screen.Plain (prompt v).toList := by
  unfold prompt Screen.Plain
  split <;> decide

theorem prompt_ne_nil (v : Snapshot) : (prompt v).toList ≠ [] := by
  unfold prompt
  split <;> decide

theorem lines_ne_nil (style : TableStyle) (v : Snapshot) : Table.lines style v ≠ [] := by
  rw [Table.lines_eq]
  exact List.append_ne_nil_of_right_ne_nil _ (List.cons_ne_nil _ _)

theorem asking_ne_answered (style : TableStyle) (v : Snapshot) :
    asking style (some v) ≠ answered style (some v) := by
  intro same
  have columns : (prompt v).toList.length = 0 := congrArg Screen.column same
  exact prompt_ne_nil v (List.length_eq_zero_iff.mp columns)

/-- The number of lines above the question. -/
def linesOn (style : TableStyle) (last : Option Snapshot) : Nat :=
  (last.elim [] (Table.lines style)).length

/-- What has been written shows the table drawn last as it should be, that of `last` if none was
drawn since. -/
inductive Tidy (style : TableStyle) (written : String) (last : Option Snapshot) :
    Progress σ κ → Prop
  | waiting {w : Waiting σ κ} (lines : w.drawn = linesOn style (some w.snapshot))
      (screen : Screen.Turns written.toList .blank (asking style (some w.snapshot))) :
      Tidy style written last (.waiting w)
  | ended {ending : Ending} {s : Stepper σ κ}
      (screen : Screen.Turns written.toList .blank (answered style last)) :
      Tidy style written last (.over (.ok ending) s)
  | broken {e : SessionError} {s : Stepper σ κ}
      (screen : Screen.Turns written.toList .blank (asking style last)) :
      Tidy style written last (.over (.error e) s)

theorem Tidy.asked {w : Waiting σ κ} (tidy : Tidy style written last (.waiting w)) :
    Screen.blank.write written.toList = asking style (some w.snapshot) := by
  cases tidy with
  | waiting lines screen => exact screen.write

/-- The question is taken away. -/
theorem turns_answered (style : TableStyle) (last : Option Snapshot) :
    Screen.Turns clearPrompt.toList (asking style last) (answered style last) := by
  cases last with
  | none =>
    rw [asking, answered, ← Screen.showing_nil]
    exact Screen.turns_clearPrompt [] []
  | some v => exact Screen.turns_clearPrompt _ _

/-- The table is taken away with the question. -/
theorem turns_blank (style : TableStyle) (last : Option Snapshot) :
    Screen.Turns (repeated (linesOn style last) clearLineUp).toList (asking style last) .blank := by
  cases last with
  | none => exact .refl .blank
  | some v => exact Screen.turns_repeated fun nothing => absurd nothing (lines_ne_nil style v)

/-- A table is drawn on an empty screen, and its question below it. -/
theorem turns_asking (clean : PlainLabels style) (v : Snapshot) :
    Screen.Turns ((withBreaks "\r\n" (tableLines style v)).toList ++ (prompt v).toList) .blank
      (asking style (some v)) := by
  rw [tableLines_eq clean, ← Screen.showing_nil]
  have table := Screen.turns_withBreaks [] fun _ => plain_of_mem_lines (v := v) clean
  exact table.append (Screen.turns_line _ _ [] (plain_prompt v))

/-- **A move keeps the screen tidy.** -/
theorem tidy_draw (clean : PlainLabels style)
    (screen : Screen.Turns written.toList .blank (asking style last))
    (x : Except SigningError Outcome × Stepper σ κ) :
    Tidy style (written ++ (draw style (linesOn style last) x).1) last
      (draw style (linesOn style last) x).2 := by
  obtain ⟨outcome, s⟩ := x
  cases outcome with
  | error e =>
    refine .broken ?_
    rwa [draw, String.append_empty]
  | ok outcome =>
    rw [draw]
    cases endingOf outcome with
    | inl ending =>
      refine .ended ?_
      rw [String.toList_append]
      exact screen.append (turns_answered style last)
    | inr v =>
      refine .waiting ?_ ?_
      · rw [tableLines_eq clean, List.length_map]
        rfl
      · rw [String.toList_append, String.toList_append, String.toList_append, List.append_assoc]
        exact screen.append ((turns_blank style last).append (turns_asking clean v))

theorem tidy_giveUp {w : Waiting σ κ}
    (screen : Screen.Turns written.toList .blank (asking style (some w.snapshot))) :
    Tidy style (written ++ w.giveUp.1) (some w.snapshot) w.giveUp.2 := by
  refine .ended ?_
  rw [String.toList_append]
  exact screen.append (turns_answered style _)

theorem tidy_press (clean : PlainLabels style) {w : Waiting σ κ}
    (tidy : Tidy style written last (.waiting w)) (key : Key) :
    Tidy style (written ++ (w.press style key).1) (some w.snapshot) (w.press style key).2 := by
  cases tidy with
  | waiting lines screen =>
    cases key with
    | up | down =>
      rw [Waiting.press, String.append_empty]
      exact .waiting lines screen
    | right =>
      rw [Waiting.press, lines]
      exact tidy_draw clean screen _
    | left =>
      rw [Waiting.press, lines]
      exact tidy_draw clean screen _
    | interrupt => exact tidy_giveUp screen

theorem tidy_begin (clean : PlainLabels style) (options : SessionOptions) (s : Stepper σ κ) :
    Tidy style (begin style options s).1 none (begin style options s).2 := by
  have empty : Screen.Turns "".toList .blank (asking style none) := .refl .blank
  have first := tidy_draw clean empty (firstMove options s)
  rwa [String.empty_append] at first

/-! ## From the first move to the report -/

section
variable {progress : Progress σ κ}

/-- What is waited for decides how the session goes on. -/
theorem follow_of_mem_momentsFrom (failure : Option String) {m : Moment σ κ}
    (mem : m ∈ momentsFrom style input written progress) :
    follow style failure m.unread m.written (.waiting m.waiting) =
      follow style failure input written progress := by
  fun_induction momentsFrom style input written progress with
  | case1 => cases mem
  | case2 input written w read => rw [List.mem_singleton.mp mem]
  | case3 input written w key rest read shorter ih =>
    rcases List.mem_cons.mp mem with rfl | later
    · rfl
    · rw [ih later, follow_of_some style failure written read]

theorem write_of_mem_momentsFrom (clean : PlainLabels style)
    (tidy : Tidy style written last progress) {m : Moment σ κ}
    (mem : m ∈ momentsFrom style input written progress) :
    Screen.blank.write m.written.toList = asking style (some m.waiting.snapshot) := by
  fun_induction momentsFrom style input written progress generalizing last with
  | case1 => cases mem
  | case2 input written w read =>
    rw [List.mem_singleton.mp mem]
    exact tidy.asked
  | case3 input written w key rest read shorter ih =>
    rcases List.mem_cons.mp mem with rfl | later
    · exact tidy.asked
    · exact ih (tidy_press clean tidy key) later

theorem tidy_settle (failure : Option String) {w : Waiting σ κ}
    (tidy : Tidy style written last (.waiting w)) :
    Tidy style (settle failure written w).written (some w.snapshot)
      (.over (settle failure written w).result (settle failure written w).stepper) := by
  cases tidy with
  | waiting lines screen =>
    cases failure with
    | none => exact tidy_giveUp screen
    | some reason => exact .broken screen

/-- The last table and its question are where they should be at the end. -/
theorem tidy_follow (clean : PlainLabels style) (failure : Option String) (input : Bytes)
    (tidy : Tidy style written last progress) :
    Tidy style (follow style failure input written progress).written
      ((lastDrawn (momentsFrom style input written progress)).or last)
      (.over (follow style failure input written progress).result
        (follow style failure input written progress).stepper) := by
  fun_induction momentsFrom style input written progress generalizing last with
  | case1 =>
    rw [follow_over]
    exact tidy
  | case2 input written w read =>
    rw [follow_of_none style failure written read]
    exact tidy_settle failure tidy
  | case3 input written w key rest read shorter ih =>
    rw [follow_of_some style failure written read, lastDrawn_cons, Option.or_assoc]
    exact ih (tidy_press clean tidy key)

end

theorem tidy_run (clean : PlainLabels style) (skip : Nat) (failure : Option String) (input : Bytes)
    (s : Stepper σ κ) :
    Tidy style (run style ⟨true, false, skip⟩ failure input s).written
      (lastDrawn (moments style ⟨true, false, skip⟩ input s))
      (.over (run style ⟨true, false, skip⟩ failure input s).result
        (run style ⟨true, false, skip⟩ failure input s).stepper) := by
  have finished := tidy_follow clean failure input (tidy_begin clean ⟨true, false, skip⟩ s)
  rwa [Option.or_none] at finished

/-- A session leaves its question exactly if it breaks off below a table. -/
theorem Tidy.cleared_iff {result : Except SessionError Ending} {s : Stepper σ κ}
    (tidy : Tidy style written last (.over result s)) :
    Screen.blank.write written.toList = answered style last ↔
      last = none ∨ ∃ ending, result = .ok ending := by
  cases tidy with
  | ended screen => exact iff_of_true screen.write (.inr ⟨_, rfl⟩)
  | broken screen =>
    rw [screen.write]
    cases last with
    | none => exact iff_of_true rfl (.inl rfl)
    | some v => exact iff_of_false (asking_ne_answered style v) (by simp)

theorem Tidy.left {e : SessionError} {s : Stepper σ κ}
    (tidy : Tidy style written last (.over (.error e) s)) :
    Screen.blank.write written.toList = asking style last := by
  cases tidy with
  | broken screen => exact screen.write

/-! ### A signature that is refused on the way back -/

def refusedStepper : Stepper Nat UInt8 :=
  .of ⟨fun _ _ => .ok (Run.reel shortBoundaries (some (.ok ())))⟩ (moodyRing 0) signedPlan

/-- Right, then left. -/
def thereAndBack : Bytes := [0x1b, 0x5b, 0x43, 0x1b, 0x5b, 0x44]

def labelledStyle : TableStyle := ⟨12, 6, ⟨[("OP_1", "one")]⟩⟩

theorem plain_labelledStyle : PlainLabels labelledStyle := by
  unfold PlainLabels Screen.Plain
  decide

theorem result_thereAndBack :
    (run labelledStyle ⟨true, false, 0⟩ none thereAndBack refusedStepper).result
      = .error (.signing (.sign "alice" "signer exhausted")) := by
  have there : readKey thereAndBack = some (.right, [0x1b, 0x5b, 0x44]) := rfl
  have back : readKey [0x1b, 0x5b, 0x44] = some (.left, []) := rfl
  rw [run_interactive]
  -- the first key shows the second step, and on the way back there is no witness
  calc
    _ = _ := congrArg SessionReport.result (follow_of_some labelledStyle none _ there _)
    _ = _ := congrArg SessionReport.result (follow_of_some labelledStyle none _ back _)
    _ = _ := congrArg SessionReport.result (follow_over labelledStyle none _ _ _ _)

/-- The question is still there at the end. -/
theorem not_cleared_refusedStepper :
    let waits := moments labelledStyle ⟨true, false, 0⟩ thereAndBack refusedStepper
    let report := run labelledStyle ⟨true, false, 0⟩ none thereAndBack refusedStepper
    PlainLabels labelledStyle
      ∧ ∃ v, lastDrawn waits = some v
        ∧ Screen.blank.write report.written.toList =
          .showing (Table.lines labelledStyle v) (prompt v).toList
        ∧ Screen.blank.write report.written.toList ≠ .showing (Table.lines labelledStyle v) [] := by
  have tidy := tidy_run plain_labelledStyle 0 none thereAndBack refusedStepper
  obtain ⟨v, shown⟩ : ∃ v,
      lastDrawn (moments labelledStyle ⟨true, false, 0⟩ thereAndBack refusedStepper) = some v :=
    exists_lastDrawn labelledStyle thereAndBack _ ⟨_, _, _⟩
  rw [shown, result_thereAndBack] at tidy
  exact ⟨plain_labelledStyle, v, shown, tidy.left,
    fun same => asking_ne_answered labelledStyle v (tidy.left.symm.trans same)⟩

/-- **Redrawing in place.** An interactive session on any stepper, with labels that do not steer the
terminal, has one table on the screen. Whenever it waits for a key, the screen holds the lines of
the table drawn last and its question, and nothing else. At the end the question is gone and the
table is as it was, exactly if the session comes to an ending or has drawn nothing. If it breaks off
with an error, the question stays. -/
theorem run_redraws (style : TableStyle) (clean : PlainLabels style) (skip : Nat)
    (failure : Option String) (input : Bytes) (s : Stepper σ κ) :
    RedrawsInPlace style failure (moments style ⟨true, false, skip⟩ input s)
      (run style ⟨true, false, skip⟩ failure input s) := by
  have finished := tidy_run clean skip failure input s
  refine ⟨fun m mem => (follow_of_mem_momentsFrom failure mem).symm,
    fun m mem => write_of_mem_momentsFrom clean (tidy_begin clean _ s) mem, finished.cleared_iff,
    fun e broken => ?_⟩
  rw [broken] at finished
  exact finished.left

/-- Redrawing with a label, until the keyboard is lost. -/
theorem run_redraws_labelledStyle :
    PlainLabels labelledStyle
      ∧ RedrawsInPlace labelledStyle (some "hung up")
        (moments labelledStyle ⟨true, false, 2⟩ thereAndBack refusedStepper)
          (run labelledStyle ⟨true, false, 2⟩ (some "hung up") thereAndBack refusedStepper) :=
  ⟨plain_labelledStyle, run_redraws labelledStyle plain_labelledStyle 2
    (some "hung up") thereAndBack refusedStepper⟩

end TaprootLab.Session
