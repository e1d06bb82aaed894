import TaprootLab.Display.Table
import TaprootLab.Session.Keys
import TaprootLab.Stepper

/-!
# Sessions

A session shows the steps of a run. Without interaction every step from the first one wanted is
drawn below the last. With interaction one table is redrawn in place: right moves on, left moves
back, up and down do nothing, and control-C or the end of the input gives up.
-/

namespace TaprootLab

structure SessionOptions where
  interactive : Bool
  /-- Run to the end and draw nothing. -/
  noStep : Bool
  /-- Where to start drawing. -/
  skipAhead : Nat
  deriving DecidableEq, Repr

inductive Ending where
  | verified
  | failed (e : RunError)
  | cancelled
  deriving DecidableEq, Repr

inductive SessionError where
  | signing (e : SigningError)
  /-- No key could be read. -/
  | input (reason : String)
  deriving DecidableEq, Repr

def SessionError.message : SessionError → String
  | .signing e => e.message
  | .input reason => "terminal i/o: " ++ reason

/-- What a session leaves behind. -/
structure SessionReport (σ κ : Type) where
  written : String
  result : Except SessionError Ending
  stepper : Stepper σ κ
  /-- The part of the input that was not read. -/
  unread : Bytes

namespace Session

variable {σ κ : Type}

/-! ## What is written -/

/-- Clears the line of the cursor and the one above it, and goes there. -/
def clearLineUp : String := "\x1b[0G\x1b[2K\x1b[1A\x1b[2K"

/-- Clears the line of the cursor. -/
def clearPrompt : String := "\x1b[0G\x1b[2K"

/-- The lines of a step's table. A label may break lines of its own. -/
def tableLines (style : TableStyle) (s : Snapshot) : List String :=
  (Text.splitOn '\n' (Table.render style s).toList).map String.ofList

/-- Lines, each with a line break after it. -/
def withBreaks (lineBreak : String) (lines : List String) : String :=
  lines.foldl (fun text line => text ++ line ++ lineBreak) ""

def repeated (n : Nat) (text : String) : String := (List.replicate n text).foldl (· ++ ·) ""

/-- The question below a table. There is no way back from the first step. -/
def prompt (s : Snapshot) : String :=
  if 1 < s.step then "Script execution: ← back | next → " else "Script execution: next → "

def firstMove (options : SessionOptions) (s : Stepper σ κ) :
    Except SigningError Outcome × Stepper σ κ :=
  if 1 < options.skipAhead then s.seek options.skipAhead else s.advance

/-! ## Without interaction -/

/-- What is written for a step. -/
def plainText (style : TableStyle) (options : SessionOptions) (s : Snapshot) : String :=
  if options.noStep then "" else withBreaks "\n" (tableLines style s)

/-- The ending of a move that shows no step, or the step. -/
def endingOf : Outcome → Ending ⊕ Snapshot
  | .step s => .inr s
  | .done => .inl .verified
  | .failed e => .inl (.failed e)
  | .cancelled => .inl .cancelled

/-- Draws a step and all that follow it. -/
def playOut (style : TableStyle) (options : SessionOptions) (input : Bytes) (written : String)
    (snapshot : Snapshot) (s : Stepper σ κ) : SessionReport σ κ :=
  let written := written ++ plainText style options snapshot
  match h : s.advance with
  | (.error e, t) => ⟨written, .error (.signing e), t, input⟩
  | (.ok (.step next), t) =>
    have := Stepper.remaining_lt_of_advance h
    playOut style options input written next t
  | (.ok .done, t) => ⟨written, .ok .verified, t, input⟩
  | (.ok (.failed e), t) => ⟨written, .ok (.failed e), t, input⟩
  | (.ok .cancelled, t) => ⟨written, .ok .cancelled, t, input⟩
termination_by s.remaining
decreasing_by assumption

/-- A session that reads no key. -/
def runPlain (style : TableStyle) (options : SessionOptions) (input : Bytes) (s : Stepper σ κ) :
    SessionReport σ κ :=
  match firstMove options s with
  | (.error e, t) => ⟨"", .error (.signing e), t, input⟩
  | (.ok outcome, t) =>
    match endingOf outcome with
    | .inl ending => ⟨"", .ok ending, t, input⟩
    | .inr snapshot => playOut style options input "" snapshot t

/-! ## With interaction -/

/-- A session that waits for a key below a table. -/
structure Waiting (σ κ : Type) where
  stepper : Stepper σ κ
  snapshot : Snapshot
  /-- The number of lines of the table. -/
  drawn : Nat

/-- A session between two keys, or at its end. -/
inductive Progress (σ κ : Type) where
  | waiting (w : Waiting σ κ)
  | over (result : Except SessionError Ending) (stepper : Stepper σ κ)

/-- Draws the outcome of a move over a table of `drawn` lines. -/
def draw (style : TableStyle) (drawn : Nat) :
    Except SigningError Outcome × Stepper σ κ → String × Progress σ κ
  | (.error e, s) => ("", .over (.error (.signing e)) s)
  | (.ok outcome, s) =>
    match endingOf outcome with
    | .inl ending => (clearPrompt, .over (.ok ending) s)
    | .inr snapshot =>
      let lines := tableLines style snapshot
      (repeated drawn clearLineUp ++ withBreaks "\r\n" lines ++ prompt snapshot,
        .waiting ⟨s, snapshot, lines.length⟩)

def begin (style : TableStyle) (options : SessionOptions) (s : Stepper σ κ) :
    String × Progress σ κ :=
  draw style 0 (firstMove options s)

def Waiting.giveUp (w : Waiting σ κ) : String × Progress σ κ :=
  (clearPrompt, .over (.ok .cancelled) w.stepper.cancel.2)

def Waiting.press (style : TableStyle) (w : Waiting σ κ) : Key → String × Progress σ κ
  | .up | .down => ("", .waiting w)
  | .right => draw style w.drawn w.stepper.advance
  | .left => draw style w.drawn (w.stepper.seek (w.snapshot.step - 1))
  | .interrupt => w.giveUp

/-- The report of a session that waits when its input has run out: the run is given up, or it is an
error if `failure` says why no more can be read. -/
def settle (failure : Option String) (written : String) (w : Waiting σ κ) : SessionReport σ κ :=
  match failure with
  | some reason => ⟨written, .error (.input reason), w.stepper, []⟩
  | none => ⟨written ++ clearPrompt, .ok .cancelled, w.stepper.cancel.2, []⟩

/-- Follows the keys in the input until the session is over. -/
def follow (style : TableStyle) (failure : Option String) (input : Bytes) (written : String) :
    Progress σ κ → SessionReport σ κ
  | .over result s => ⟨written, result, s, input⟩
  | .waiting w =>
    match h : readKey input with
    | none => settle failure written w
    | some (key, rest) =>
      have := length_of_readKey h
      let (text, progress) := w.press style key
      follow style failure rest (written ++ text) progress
termination_by input.length

/-- A session that redraws one table in place. -/
def runInteractive (style : TableStyle) (options : SessionOptions) (failure : Option String)
    (input : Bytes) (s : Stepper σ κ) : SessionReport σ κ :=
  let (text, progress) := begin style options s
  follow style failure input text progress

/-- A session on the bytes that a terminal sends. -/
def run (style : TableStyle) (options : SessionOptions) (failure : Option String) (input : Bytes)
    (s : Stepper σ κ) : SessionReport σ κ :=
  if options.interactive && !options.noStep then runInteractive style options failure input s
  else runPlain style options input s

end Session

end TaprootLab
