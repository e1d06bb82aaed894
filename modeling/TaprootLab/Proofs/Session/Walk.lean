import TaprootLab.Proofs.Stepper.Imported
import TaprootLab.Session

/-!
# Interactive sessions are walks

A session with interaction draws one table, waits for a key, and draws the next table over it. Which
tables it draws depends on the keys and on the number of visible steps only: it walks over the steps
of the film (`Tour`), draws those that the walk comes by, and ends as the walk does
(`run_retraces`). The stepper below it, which drops runs and starts them again, cannot be told from
the film.
-/

namespace TaprootLab

open Run

/-! ## Walks -/

/-- A walk over numbered steps: those that it comes by, whether it ends behind the last step and not
by being given up, and the keys that it does not take. -/
structure Tour where
  drawn : List Nat
  finished : Bool
  unread : List Key
  deriving DecidableEq, Repr

namespace Tour

/-- The walk with a step before it. -/
def drawing (step : Nat) (tour : Tour) : Tour := { tour with drawn := step :: tour.drawn }

/-- The walk over `n` steps that goes on from a step with the given keys, the step itself aside. -/
def onward (n step : Nat) : List Key → Tour
  | [] => ⟨[], false, []⟩
  | .up :: keys => onward n step keys
  | .down :: keys => onward n step keys
  | .right :: keys =>
      if step + 1 ≤ n then (onward n (step + 1) keys).drawing (step + 1) else ⟨[], true, keys⟩
  | .left :: keys => (onward n (max 1 (step - 1)) keys).drawing (max 1 (step - 1))
  | .interrupt :: keys => ⟨[], false, keys⟩

/-- The walk over `n` steps that starts at a step, or behind the last one if there is no such
step. -/
def startingAt (n step : Nat) (keys : List Key) : Tour :=
  if step ≤ n then (onward n step keys).drawing step else ⟨[], true, keys⟩

end Tour

/-- The keys in what a terminal sends. -/
def keysIn (input : Bytes) : List Key :=
  match h : readKey input with
  | none => []
  | some (key, rest) =>
    have := length_of_readKey h
    key :: keysIn rest
termination_by input.length

theorem keysIn_of_none {input : Bytes} (h : readKey input = none) : keysIn input = [] := by
  rw [keysIn]
  split
  · rfl
  · rename_i found
    rw [h] at found
    cases found

theorem keysIn_of_some {input rest : Bytes} {key : Key} (h : readKey input = some (key, rest)) :
    keysIn input = key :: keysIn rest := by
  rw [keysIn]
  split
  · rename_i missing
    rw [h] at missing
    cases missing
  · rename_i found
    rw [h] at found
    cases found
    rfl

/-- Every row of keys can be typed. -/
theorem exists_keysIn (keys : List Key) : ∃ input, keysIn input = keys := by
  induction keys with
  | nil => exact ⟨[], keysIn_of_none rfl⟩
  | cons key keys ih =>
    obtain ⟨input, typed⟩ := ih
    have front : ∃ bytes : Bytes, readKey (bytes ++ input) = some (key, input) := by
      cases key with
      | up => exact ⟨[0x1b, 0x5b, 0x41], rfl⟩
      | down => exact ⟨[0x1b, 0x5b, 0x42], rfl⟩
      | right => exact ⟨[0x1b, 0x5b, 0x43], rfl⟩
      | left => exact ⟨[0x1b, 0x5b, 0x44], rfl⟩
      | interrupt => exact ⟨[0x03], by rw [readKey.eq_def]; rfl⟩
    obtain ⟨bytes, read⟩ := front
    exact ⟨bytes ++ input, by rw [keysIn_of_some read, typed]⟩

theorem readKey_of_keysIn_nil {input : Bytes} (h : keysIn input = []) : readKey input = none := by
  cases read : readKey input with
  | none => rfl
  | some found =>
    rw [keysIn_of_some read] at h
    cases h

theorem readKey_of_keysIn_cons {input : Bytes} {key : Key} {keys : List Key}
    (h : keysIn input = key :: keys) :
    ∃ rest, readKey input = some (key, rest) ∧ keysIn rest = keys := by
  cases read : readKey input with
  | none =>
    rw [keysIn_of_none read] at h
    cases h
  | some found =>
    rw [keysIn_of_some read, List.cons.injEq] at h
    exact ⟨found.2, by rw [← h.1], h.2⟩

namespace Session

variable {σ κ : Type}

/-- The tables of some steps, each drawn over the one before it, with the question below each. The
first one is drawn over `above` lines. -/
def frames (style : TableStyle) (above : Nat) : List Snapshot → String
  | [] => ""
  | v :: vs =>
    repeated above clearLineUp ++ withBreaks "\r\n" (tableLines style v) ++ prompt v
      ++ frames style (tableLines style v).length vs

/-- The report of a session that has written `before`, with a table of `above` lines for `step` at
last, and then goes over the steps of a film as a tour does. -/
structure Retraces (style : TableStyle) (film : Film) (before : String) (above step : Nat)
    (tour : Tour) (report : SessionReport σ κ) : Prop where
  /-- The tables of the tour are drawn, and nothing else. -/
  written : ∃ vs, tour.drawn.map (fun i => film.steps[i - 1]?) = vs.map some
    ∧ report.written = before ++ frames style above vs ++ clearPrompt
  verified : report.result = .ok .verified ↔ tour.finished = true ∧ film.ending = .done
  failed : ∀ e, report.result = .ok (.failed e) ↔ tour.finished = true ∧ film.ending = .failed e
  cancelled : report.result = .ok .cancelled ↔ tour.finished = false
  /-- A run that is given up is left at the step drawn last. -/
  left : tour.finished = false → report.stepper.status = .cancelled
    ∧ report.stepper.currentStep = tour.drawn.getLastD step
  unread : keysIn report.unread = tour.unread

/-! ## The loop over the keys -/

section
variable (style : TableStyle) (failure : Option String) (written : String)

theorem follow_over (input : Bytes) (result : Except SessionError Ending) (s : Stepper σ κ) :
    follow style failure input written (.over result s) = ⟨written, result, s, input⟩ := by
  rw [follow]

theorem follow_of_none {input : Bytes} (h : readKey input = none) (w : Waiting σ κ) :
    follow style failure input written (.waiting w) = settle failure written w := by
  rw [follow]
  split
  · rfl
  · rename_i found
    rw [h] at found
    cases found

theorem follow_of_some {input rest : Bytes} {key : Key} (h : readKey input = some (key, rest))
    (w : Waiting σ κ) :
    follow style failure input written (.waiting w) =
      follow style failure rest (written ++ (w.press style key).1) (w.press style key).2 := by
  rw [follow]
  split
  · rename_i missing
    rw [h] at missing
    cases missing
  · rename_i found
    rw [h] at found
    cases found
    rfl

end

/-! ## From key to key -/

variable {style : TableStyle} {film : Film} {before : String} {above step : Nat} {tour : Tour}
  {report : SessionReport σ κ}

/-- A table more, drawn before all others. -/
theorem Retraces.drawing {v : Snapshot} {k : Nat} (shown : film.steps[k - 1]? = some v)
    (h : Retraces style film
      (before ++ (repeated above clearLineUp ++ withBreaks "\r\n" (tableLines style v) ++ prompt v))
      (tableLines style v).length k tour report) :
    Retraces style film before above step (tour.drawing k) report := by
  obtain ⟨vs, drawn, written⟩ := h.written
  refine ⟨⟨v :: vs, ?_, ?_⟩, h.verified, h.failed, h.cancelled, ?_, h.unread⟩
  · rw [Tour.drawing, List.map_cons, List.map_cons, shown, drawn]
  · rw [written, frames]
    simp only [String.append_assoc]
  · intro given
    obtain ⟨status, last⟩ := h.left given
    refine ⟨status, ?_⟩
    rw [last, Tour.drawing]
    cases tour.drawn <;> rfl

/-- A move behind the last step ends the session as the run ends. -/
theorem retraces_end {s : Stepper σ κ} {input : Bytes} {failure : Option String}
    (ends : film.ending = .done ∨ ∃ e, film.ending = .failed e) :
    Retraces style film before above step ⟨[], true, keysIn input⟩
      (follow style failure input (before ++ (draw style above (.ok film.ending, s)).1)
        (draw style above (.ok film.ending, s)).2) := by
  rcases ends with done | ⟨e, failed⟩
  · rw [done, draw, endingOf, follow_over]
    exact ⟨⟨[], rfl, by simp [frames]⟩, by simp [done], by simp [done], by simp, nofun, rfl⟩
  · rw [failed, draw, endingOf, follow_over]
    refine ⟨⟨[], rfl, by simp [frames]⟩, by simp [failed], fun e' => ?_, by simp, nofun, rfl⟩
    simp [failed]

/-- A session that is given up. -/
theorem retraces_giveUp {s : Stepper σ κ} {input : Bytes} (last : s.currentStep = step) :
    Retraces style film before above step ⟨[], false, keysIn input⟩
      ⟨before ++ clearPrompt, .ok .cancelled, s.cancel.2, input⟩ := by
  refine ⟨⟨[], rfl, ?_⟩, ?_, ?_, ?_, fun _ => ⟨rfl, last⟩, rfl⟩
  · simp [frames]
  all_goals simp

section
variable {witness : List Bytes} {bs : List Boundary} {r : Option (Except RunError Unit)}

/-- The steps of a film are numbered from one. -/
theorem step_of_getElem?_ofReel {i : Nat} {v : Snapshot}
    (shown : (Film.ofReel witness bs r).steps[i]? = some v) : v.step = i + 1 := by
  have number := Viewer.step_of_getElem?_steps shown
  simp only [Viewer.start] at number
  omega

/-- The session waits below the table of a step. -/
structure WaitsAt (style : TableStyle) (witness : List Bytes) (bs : List Boundary)
    (r : Option (Except RunError Unit)) (step : Nat) (w : Waiting σ κ) : Prop where
  tracks : Stepper.Tracks witness bs r w.stepper (.paused step)
  positive : 1 ≤ step
  shown : (Film.ofReel witness bs r).steps[step - 1]? = some w.snapshot
  lines : w.drawn = (tableLines style w.snapshot).length

theorem WaitsAt.number {w : Waiting σ κ} (h : WaitsAt style witness bs r step w) :
    w.snapshot.step = step := by
  have positive := h.positive
  rw [step_of_getElem?_ofReel h.shown]
  omega

/-- Sessions that take some keys retrace the walk with these keys, wherever they wait. -/
def TakesAlong (style : TableStyle) (witness : List Bytes) (bs : List Boundary)
    (r : Option (Except RunError Unit)) (keys : List Key) : Prop :=
  ∀ (input : Bytes) (w : Waiting σ κ) (step : Nat) (before : String), keysIn input = keys →
    WaitsAt style witness bs r step w →
      Retraces style (Film.ofReel witness bs r) before w.drawn step
        (Tour.onward (Film.ofReel witness bs r).steps.length step keys)
        (follow style none input before (.waiting w))

theorem ofResult_cases (r : Option (Except RunError Unit)) :
    Outcome.ofResult r = .done ∨ ∃ e, Outcome.ofResult r = .failed e := by
  rcases r with _ | (e | ⟨⟩)
  · exact .inr ⟨_, rfl⟩
  · exact .inr ⟨e, rfl⟩
  · exact .inl rfl

/-- A move to a step draws it and waits below it, or ends the session. -/
theorem retraces_draw {x : Except SigningError Outcome × Stepper σ κ} {k : Nat} {input : Bytes}
    (onward : TakesAlong (σ := σ) (κ := κ) style witness bs r (keysIn input)) (positive : 1 ≤ k)
    (agrees : Stepper.Agrees witness bs r x ((Film.ofReel witness bs r).goTo k)) :
    Retraces style (Film.ofReel witness bs r) before above step
      (Tour.startingAt (Film.ofReel witness bs r).steps.length k (keysIn input))
      (follow style none input (before ++ (draw style above x).1) (draw style above x).2) := by
  obtain ⟨answer, tracks⟩ := agrees
  obtain ⟨outcome, s⟩ := x
  simp only [Film.goTo] at answer tracks
  cases shown : (Film.ofReel witness bs r).steps[k - 1]? with
  | none =>
    have beyond := List.getElem?_eq_none_iff.mp shown
    rw [shown] at answer
    obtain rfl : outcome = .ok (.ofResult r) := answer
    rw [Tour.startingAt, if_neg (by omega)]
    exact retraces_end (ofResult_cases r)
  | some v =>
    have inside := (List.getElem?_eq_some_iff.mp shown).1
    rw [shown] at answer tracks
    obtain rfl : outcome = .ok (.step v) := answer
    have waits : WaitsAt style witness bs r k ⟨s, v, (tableLines style v).length⟩ :=
      ⟨tracks, positive, shown, rfl⟩
    rw [Tour.startingAt, if_pos (by omega)]
    exact (onward input _ k _ rfl waits).drawing shown

/-- Whatever keys come, the session goes where the walk goes. -/
theorem takesAlong (keys : List Key) : TakesAlong (σ := σ) (κ := κ) style witness bs r keys := by
  induction keys with
  | nil =>
    intro input w step before empty waits
    rw [follow_of_none style _ before (readKey_of_keysIn_nil empty)]
    have given :=
      @retraces_giveUp _ _ style (Film.ofReel witness bs r) before w.drawn step w.stepper []
      waits.tracks.currentStep
    rwa [keysIn_of_none rfl] at given
  | cons key keys ih =>
    intro input w step before typed waits
    obtain ⟨rest, read, rfl⟩ := readKey_of_keysIn_cons typed
    rw [follow_of_some style _ before read]
    cases key with
    | up | down =>
      have same : before ++ "" = before := String.append_empty
      show Retraces style _ before w.drawn step _
          (follow style none rest (before ++ "") (.waiting w))
      rw [same]
      exact ih rest w step before rfl waits
    | right =>
      exact retraces_draw ih (Nat.le_add_left 1 step) (Stepper.agrees_advance waits.tracks)
    | left =>
      have inside := (List.getElem?_eq_some_iff.mp waits.shown).1
      have positive := waits.positive
      have moved := Stepper.agrees_seek waits.tracks (step - 1)
      rw [Film.move, Nat.max_comm] at moved
      -- there is a step to go back to, since the session waits below one
      have tour : Tour.onward (Film.ofReel witness bs r).steps.length step (.left :: keysIn rest)
          = Tour.startingAt (Film.ofReel witness bs r).steps.length (max 1 (step - 1))
            (keysIn rest) := by
        rw [Tour.startingAt, if_pos (by omega)]
        rfl
      rw [tour, Waiting.press, waits.number]
      exact retraces_draw ih (Nat.le_max_left 1 (step - 1)) moved
    | interrupt =>
      show Retraces style _ before w.drawn step _
        (follow style none rest (before ++ clearPrompt) (.over (.ok .cancelled) w.stepper.cancel.2))
      rw [follow_over]
      exact retraces_giveUp waits.tracks.currentStep

end

/-! ## From the first move to the report -/

section
variable {interpreter : Interpreter} {ring : KeyRing σ κ} {plan : Plan}

theorem run_interactive (style : TableStyle) (skip : Nat) (input : Bytes) (s : Stepper σ κ) :
    run style ⟨true, false, skip⟩ none input s =
      follow style none input (draw style 0 (firstMove ⟨true, false, skip⟩ s)).1
        (draw style 0 (firstMove ⟨true, false, skip⟩ s)).2 := rfl

theorem agrees_firstMove {witness : List Bytes} {bs : List Boundary}
    {r : Option (Except RunError Unit)} {s : Stepper σ κ}
    (fresh : Stepper.Tracks witness bs r s (.paused 0)) (skip : Nat) :
    Stepper.Agrees witness bs r (firstMove ⟨true, false, skip⟩ s)
      ((Film.ofReel witness bs r).goTo (max 1 skip)) := by
  unfold firstMove
  by_cases far : 1 < skip
  · rw [if_pos far, Nat.max_comm]
    exact Stepper.agrees_seek fresh skip
  · rw [if_neg far, Nat.max_eq_left (Nat.not_lt.mp far)]
    exact Stepper.agrees_advance fresh

theorem firstMove_of_stalls {e : RunError} {s : Stepper σ κ}
    (fresh : Stepper.Stalls e s (.paused 0)) (skip : Nat) :
    (firstMove ⟨true, false, skip⟩ s).1 = .ok (.failed e) := by
  unfold firstMove
  split
  · rw [(Stepper.stalls_seek fresh skip).1]
    simp only [Film.move, Film.goTo, Film.refusal, List.getElem?_nil]
  · exact (Stepper.stalls_advance fresh).1

theorem retraces_of_tracks {witness : List Bytes} {bs : List Boundary}
    {r : Option (Except RunError Unit)} {s : Stepper σ κ}
    (fresh : Stepper.Tracks witness bs r s (.paused 0)) (skip : Nat) (input : Bytes) :
    Retraces style (Film.ofReel witness bs r) "" 0 0
      (Tour.startingAt (Film.ofReel witness bs r).steps.length (max 1 skip) (keysIn input))
      (run style ⟨true, false, skip⟩ none input s) := by
  have started := @retraces_draw _ _ style "" 0 0 witness bs r _ _ input (takesAlong _)
    (Nat.le_max_left 1 skip) (agrees_firstMove fresh skip)
  rwa [String.empty_append] at started

theorem retraces_of_stalls {e : RunError} {s : Stepper σ κ} (fresh : Stepper.Stalls e s (.paused 0))
    (skip : Nat) (input : Bytes) :
    Retraces style (Film.refusal e) "" 0 0 (Tour.startingAt 0 (max 1 skip) (keysIn input))
      (run style ⟨true, false, skip⟩ none input s) := by
  have refused : firstMove ⟨true, false, skip⟩ s
      = (.ok (.failed e), (firstMove ⟨true, false, skip⟩ s).2) :=
    Prod.ext (firstMove_of_stalls fresh skip) rfl
  rw [run_interactive, refused, Tour.startingAt, if_neg (by omega)]
  have ended := @retraces_end _ _ style (Film.refusal e) "" 0 0
    (firstMove ⟨true, false, skip⟩ s).2 input none (.inr ⟨e, rfl⟩)
  rwa [String.empty_append] at ended

/-- The question offers a way back below every step but the first. -/
theorem mem_prompt_iff (v : Snapshot) : '←' ∈ (prompt v).toList ↔ 1 < v.step := by
  unfold prompt
  split
  · rename_i later
    exact ⟨fun _ => later, fun _ => by decide⟩
  · rename_i first
    exact ⟨fun offered => absurd offered (by decide), fun later => absurd later first⟩

/-- **An interactive session is a walk.** Over an interpreter that stops when told to, with a
witness that is completed the same every time, a new session draws the tables of the walk that its
keys make over the visible steps, and nothing else. It ends as the run does if the walk ends behind
the last step. Otherwise it is cancelled, with the stepper at the step drawn last. The keys behind
the one that ended it are not read. -/
theorem run_retraces {elements : List Bytes}
    (completes : ring.Completes plan.spend plan.parts elements)
    (stops : ∀ run, interpreter.start plan.spend (elements ++ plan.trailer) = .ok run →
      run.StopsOnAbort) :
    ∃ film, (Stepper.of interpreter ring plan).film = .ok film
      ∧ (film.ending = .done ∨ ∃ e, film.ending = .failed e)
      ∧ (∀ i v, film.steps[i]? = some v → v.step = i + 1)
      ∧ (∀ v ∈ film.steps, '←' ∈ (prompt v).toList ↔ 1 < v.step)
      ∧ ∀ (style : TableStyle) (skip : Nat) (input : Bytes),
        Retraces style film "" 0 0 (Tour.startingAt film.steps.length (max 1 skip) (keysIn input))
          (run style ⟨true, false, skip⟩ none input (.of interpreter ring plan)) := by
  cases started : interpreter.start plan.spend (elements ++ plan.trailer) with
  | ok found =>
    have fresh := Stepper.tracks_of_start completes started (stops found started)
    exact ⟨.ofReel _ found.boundaries found.result, Stepper.film_of_tracks fresh, ofResult_cases _,
      fun _ _ shown => step_of_getElem?_ofReel shown, fun v _ => mem_prompt_iff v,
      fun style skip input => retraces_of_tracks fresh skip input⟩
  | error e =>
    have fresh := Stepper.stalls_of_start completes started
    have refused := (Stepper.stalls_advance fresh).1
    refine ⟨.refusal e, Stepper.film_of_end (Prod.ext refused rfl) fresh.ne_step, .inr ⟨e, rfl⟩, ?_,
      fun v _ => mem_prompt_iff v, fun style skip input => retraces_of_stalls fresh skip input⟩
    intro i v shown
    cases shown

end

/-- A session on the signed plan, with the interpreter of taproot spends. -/
theorem run_retraces_signedPlan :
    countingRing.Completes signedPlan.spend signedPlan.parts [[], [5]]
      ∧ (∀ run, (taprootInterpreter Secp256k1.curve).start signedPlan.spend
          ([[], [5]] ++ signedPlan.trailer) = .ok run → run.StopsOnAbort)
      ∧ ∃ film,
        (Stepper.of (taprootInterpreter Secp256k1.curve) countingRing signedPlan).film = .ok film
        ∧ ∀ (style : TableStyle) (input : Bytes),
          Retraces style film "" 0 0 (Tour.startingAt film.steps.length 2 (keysIn input))
            (run style ⟨true, false, 2⟩ none input
              (.of (taprootInterpreter Secp256k1.curve) countingRing signedPlan)) := by
  have stops : ∀ run, (taprootInterpreter Secp256k1.curve).start signedPlan.spend
      ([[], [5]] ++ signedPlan.trailer) = .ok run → run.StopsOnAbort :=
        fun _ => stopsOnAbort_of_start
  obtain ⟨film, shown, -, -, -, retraces⟩ := run_retraces completes_signedPlan stops
  exact ⟨completes_signedPlan, stops, film, shown, fun style input => retraces style 2 input⟩

end Session

end TaprootLab
