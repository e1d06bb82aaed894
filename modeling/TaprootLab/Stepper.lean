import TaprootLab.Engine.Taproot
import TaprootLab.Signing.KeyRing
import TaprootLab.Spend.Generated
import TaprootLab.Stepper.Playback

/-!
# The stepper

A cursor over the visible steps of a spend. Moving forward lets the paused run go on; moving back
drops it, completes the witness again with the same key ring, and plays a fresh run up to the wanted
step.

* `remaining_lt_of_advance`: a step forward leaves less of the run, so seeking comes to an end.
-/

namespace TaprootLab

/-- What is to be run: the spend, the parts of its witness, and elements that follow them as they
are. -/
structure Plan where
  spend : Spend
  parts : List WitnessPart
  trailer : List Bytes

/-- A made-up spend with a witness of its own before the revealed script. -/
def Plan.ofGenerated (g : GeneratedSpend) (parts : List WitnessPart) : Plan :=
  ⟨g.spend, parts, g.trailer⟩

/-- An input with the witness that it carries. -/
def Plan.ofSpend (spend : Spend) : Plan := ⟨spend, spend.input.witness.map .literal, []⟩

/-- Where a move ends. -/
inductive Outcome where
  | step (snapshot : Snapshot)
  | done
  | failed (e : RunError)
  | cancelled
  deriving DecidableEq, Repr

inductive Status where
  | notStarted
  | paused (step : Nat)
  | done
  | failed (e : RunError)
  | cancelled
  deriving DecidableEq, Repr

structure Stepper (σ κ : Type) where
  interpreter : Interpreter
  ring : KeyRing σ κ
  plan : Plan
  paused : Option Paused
  status : Status
  /-- The last step shown since the run was started. -/
  current : Option Snapshot

namespace Stepper

variable {σ κ : Type}

def of (interpreter : Interpreter) (ring : KeyRing σ κ) (plan : Plan) : Stepper σ κ :=
  ⟨interpreter, ring, plan, none, .notStarted, none⟩

/-- The number of the last step shown, zero before the first. -/
def currentStep (s : Stepper σ κ) : Nat :=
  match s.current with
  | some snapshot => snapshot.step
  | none => 0

/-- Completes the witness. -/
def witness (s : Stepper σ κ) : Except SigningError (List Bytes) × Stepper σ κ :=
  match s.ring.resolve (some s.plan.spend) s.plan.parts with
  | (.ok elements, ring) => (.ok (elements ++ s.plan.trailer), { s with ring })
  | (.error e, ring) => (.error e, { s with ring })

/-- The error of a run of which nothing was heard again. -/
def vanishedError : RunError := .setup "worker exited without a result"

/-- The stepper after a run has ended. -/
def stop (s : Stepper σ κ) (status : Status) : Stepper σ κ := { s with paused := none, status }

/-- Takes in what is heard of the run. -/
def record (s : Stepper σ κ) : Event → Outcome × Stepper σ κ
  | .step snapshot paused =>
    (.step snapshot,
      { s with paused := some paused, status := .paused snapshot.step, current := some snapshot })
  | .finished (.ok ()) => (.done, s.stop .done)
  | .finished (.error e) => (.failed e, s.stop (.failed e))
  | .vanished => (.failed vanishedError, s.stop (.failed vanishedError))

/-- Starts a run that pauses at `target`. -/
def begin (s : Stepper σ κ) (target : Nat) (witness : List Bytes) : Outcome × Stepper σ κ :=
  match s.interpreter.start s.plan.spend witness with
  | .error e => (.failed e, { s with status := .failed e })
  | .ok run => s.record (play target (.start witness) run)

/-- The outcome of every further move after the run has ended. -/
def finalOutcome? : Status → Option Outcome
  | .notStarted | .paused _ => none
  | .done => some .done
  | .failed e => some (.failed e)
  | .cancelled => some .cancelled

def advance (s : Stepper σ κ) : Except SigningError Outcome × Stepper σ κ :=
  match finalOutcome? s.status with
  | some outcome => (.ok outcome, s)
  | none =>
    match s.paused with
    | some paused =>
      let (outcome, s) := s.record paused.proceed
      (.ok outcome, s)
    | none =>
      match s.witness with
      | (.error e, s) => (.error e, s)
      | (.ok witness, s) =>
        let (outcome, s) := s.begin 1 witness
        (.ok outcome, s)

/-- What is left of the run: first that it has to be started, then the boundaries ahead. -/
def remaining (s : Stepper σ κ) : Nat × Nat :=
  match s.paused with
  | none => (1, 0)
  | some p => (0, p.height)

theorem paused_of_record {s t : Stepper σ κ} {e : Event} {snapshot : Snapshot}
    (h : s.record e = (.step snapshot, t)) :
    ∃ p, e = .step snapshot p ∧ t.paused = some p := by
  match e with
  | .step snapshot' p =>
    simp only [record, Prod.mk.injEq, Outcome.step.injEq] at h
    obtain ⟨rfl, rfl⟩ := h
    exact ⟨p, rfl, rfl⟩
  | .finished (.ok ()) => simp [record] at h
  | .finished (.error e) => simp [record] at h
  | .vanished => simp [record] at h

theorem paused_of_begin {s t : Stepper σ κ} {target : Nat} {witness : List Bytes}
    {snapshot : Snapshot} (h : s.begin target witness = (.step snapshot, t)) :
    ∃ p, t.paused = some p := by
  unfold begin at h
  split at h
  · simp at h
  · obtain ⟨p, -, hp⟩ := paused_of_record h
    exact ⟨p, hp⟩

theorem remaining_lt_of_advance {s t : Stepper σ κ} {snapshot : Snapshot}
    (h : s.advance = (.ok (.step snapshot), t)) :
    Prod.Lex (· < ·) (· < ·) t.remaining s.remaining := by
  unfold advance at h
  split at h
  · next outcome final =>
    simp only [Prod.mk.injEq, Except.ok.injEq] at h
    obtain ⟨rfl, rfl⟩ := h
    cases hs : s.status <;> simp [hs, finalOutcome?] at final
  · split at h
    · next p hp =>
      simp only [Prod.mk.injEq, Except.ok.injEq] at h
      obtain ⟨q, hq, ht⟩ := paused_of_record (Prod.ext h.1 h.2)
      simp only [remaining, hp, ht]
      exact .right _ (height_lt_of_play hq)
    · next hp =>
      split at h
      · simp at h
      · simp only [Prod.mk.injEq, Except.ok.injEq] at h
        obtain ⟨q, hq⟩ := paused_of_begin (Prod.ext h.1 h.2)
        simp only [remaining, hp, hq]
        exact .left _ _ Nat.zero_lt_one

/-- Moves forward until a step from `target` on is shown or the run has ended. -/
def seekForward (target : Nat) (s : Stepper σ κ) : Except SigningError Outcome × Stepper σ κ :=
  match h : s.advance with
  | (.ok (.step snapshot), t) =>
    have := remaining_lt_of_advance h
    if snapshot.step < target then seekForward target t else (.ok (.step snapshot), t)
  | result => result
termination_by s.remaining
decreasing_by assumption

def reset (s : Stepper σ κ) : Stepper σ κ :=
  { s with paused := none, status := .notStarted, current := none }

/-- Starts again and stops at `target`. If the witness cannot be completed, the run stays where it
is. -/
def restart (s : Stepper σ κ) (target : Nat) : Except SigningError Outcome × Stepper σ κ :=
  match s.witness with
  | (.error e, s) => (.error e, s)
  | (.ok witness, s) =>
    let (outcome, s) := s.reset.begin target witness
    (.ok outcome, s)

/-- The snapshot at which the stepper is paused, if that is at `target`. -/
def pausedAt? (s : Stepper σ κ) (target : Nat) : Option Snapshot :=
  match s.status, s.current with
  | .paused step, some snapshot => if step = target then some snapshot else none
  | _, _ => none

/-- Moves to a step by its number, the first one being number one. Past the last step the move ends
where the run ends. -/
def seek (s : Stepper σ κ) (step : Nat) : Except SigningError Outcome × Stepper σ κ :=
  let target := max step 1
  if s.status = .cancelled then (.ok .cancelled, s)
  else
    match s.pausedAt? target with
    | some snapshot => (.ok (.step snapshot), s)
    | none => if target ≤ s.currentStep then s.restart target else s.seekForward target

def cancel (s : Stepper σ κ) : Outcome × Stepper σ κ := (.cancelled, s.stop .cancelled)

end Stepper

end TaprootLab
