import TaprootLab.Proofs.Stepper.Cursor

/-!
# The moves of a stepper, case by case

A step forward answers from the status of a run that has ended, lets a paused run go on, or starts a
run. Seeking forward is such steps one after the other, so what holds of a stepper if it holds one
step further on holds of every stepper (`induction_on_advance`): there is no endless run.
-/

namespace TaprootLab.Stepper

variable {σ κ : Type} {s t : Stepper σ κ}

/-! ## A step forward -/

/-- There is no run to go on with, and none has ended: the next step forward starts one. -/
def unstarted (s : Stepper σ κ) : Bool := s.paused.isNone && (finalOutcome? s.status).isNone

theorem finalOutcome?_ne_step (status : Status) (v : Snapshot) :
    finalOutcome? status ≠ some (.step v) := by
  cases status <;> simp [finalOutcome?]

theorem advance_of_final {o : Outcome} (h : finalOutcome? s.status = some o) :
    s.advance = (.ok o, s) := by
  simp only [advance, h]

theorem advance_of_paused {p : Paused} (live : finalOutcome? s.status = none)
    (h : s.paused = some p) :
    s.advance = (.ok (s.record p.proceed).1, (s.record p.proceed).2) := by
  simp only [advance, live, h]

theorem advance_of_unstarted (h : s.unstarted = true) :
    s.advance = match s.witness with
      | (.error e, t) => (.error e, t)
      | (.ok witness, t) => (.ok (t.begin 1 witness).1, (t.begin 1 witness).2) := by
  rw [unstarted, Bool.and_eq_true, Option.isNone_iff_eq_none, Option.isNone_iff_eq_none] at h
  rcases made : s.witness with ⟨e | witness, t⟩
  · simp only [advance, h.1, h.2, made]
  · simp only [advance, h.1, h.2, made]

theorem unstarted_of_record {e : Event} {v : Snapshot} (h : s.record e = (.step v, t)) :
    t.unstarted = false := by
  obtain ⟨p, -, paused⟩ := paused_of_record h
  rw [unstarted, paused]
  rfl

theorem unstarted_of_begin {target : Nat} {witness : List Bytes} {v : Snapshot}
    (h : s.begin target witness = (.step v, t)) : t.unstarted = false := by
  obtain ⟨p, paused⟩ := paused_of_begin h
  rw [unstarted, paused]
  rfl

theorem advance_ne_error (started : s.unstarted = false) (e : SigningError) :
    s.advance.1 ≠ .error e := by
  cases final : finalOutcome? s.status with
  | some o =>
    rw [advance_of_final final]
    nofun
  | none =>
    cases hp : s.paused with
    | none => simp [unstarted, final, hp] at started
    | some p =>
      rw [advance_of_paused final hp]
      nofun

/-- A step forward that shows a step leaves a run to go on with. -/
theorem unstarted_of_advance {v : Snapshot} (h : s.advance = (.ok (.step v), t)) :
    t.unstarted = false := by
  cases new : s.unstarted with
  | true =>
    rw [advance_of_unstarted new] at h
    split at h
    · cases h
    · simp only [Prod.mk.injEq, Except.ok.injEq] at h
      exact unstarted_of_begin (Prod.ext h.1 h.2)
  | false =>
    cases final : finalOutcome? s.status with
    | some o =>
      rw [advance_of_final final] at h
      simp only [Prod.mk.injEq, Except.ok.injEq] at h
      exact absurd (final.trans (congrArg some h.1)) (finalOutcome?_ne_step _ _)
    | none =>
      cases hp : s.paused with
      | none => simp [unstarted, final, hp] at new
      | some p =>
        rw [advance_of_paused final hp] at h
        simp only [Prod.mk.injEq, Except.ok.injEq] at h
        exact unstarted_of_record (Prod.ext h.1 h.2)

/-! ## Seeking forward -/

/-- What holds of every stepper that is one step short of steppers of which it holds, holds of
all. -/
theorem induction_on_advance {motive : Stepper σ κ → Prop}
    (step : ∀ s, (∀ v t, s.advance = (.ok (.step v), t) → motive t) → motive s)
    (s : Stepper σ κ) : motive s :=
  step s fun _ t h =>
    have := remaining_lt_of_advance h
    induction_on_advance step t
termination_by s.remaining
decreasing_by assumption

theorem seekForward_of_error {target : Nat} {e : SigningError} (h : s.advance = (.error e, t)) :
    s.seekForward target = (.error e, t) := by
  rw [seekForward]
  split
  · rename_i h'
    rw [h] at h'
    cases h'
  · exact h

/-- What seeking forward makes of the first step. -/
def seekOn (target : Nat) : Outcome × Stepper σ κ → Except SigningError Outcome × Stepper σ κ
  | (.step v, t) => if v.step < target then t.seekForward target else (.ok (.step v), t)
  | (o, t) => (.ok o, t)

theorem seekForward_of_ok {target : Nat} {o : Outcome} (h : s.advance = (.ok o, t)) :
    s.seekForward target = seekOn target (o, t) := by
  cases o with
  | step v => exact seekForward_of_step h
  | done => exact seekForward_of_end h nofun
  | failed e => exact seekForward_of_end h nofun
  | cancelled => exact seekForward_of_end h nofun

theorem seekForward_ne_error (target : Nat) (e : SigningError) (started : s.unstarted = false) :
    (s.seekForward target).1 ≠ .error e := by
  induction s using induction_on_advance with
  | step s ih =>
    rcases hx : s.advance with ⟨e' | o, t⟩
    · exact absurd (congrArg Prod.fst hx) (advance_ne_error started e')
    · rw [seekForward_of_ok hx]
      cases o with
      | step v =>
        simp only [seekOn]
        split
        · exact ih v t hx (unstarted_of_advance hx)
        · nofun
      | done => nofun
      | failed e => nofun
      | cancelled => nofun

/-! ## Seeking -/

theorem seek_of_cancelled (h : s.status = .cancelled) (k : Nat) :
    s.seek k = (.ok .cancelled, s) := by
  rw [seek, if_pos h]

theorem seek_of_pausedAt {k : Nat} {v : Snapshot} (live : s.status ≠ .cancelled)
    (h : s.pausedAt? (max k 1) = some v) : s.seek k = (.ok (.step v), s) := by
  rw [seek, if_neg live, h]

theorem seek_of_moving {k : Nat} (live : s.status ≠ .cancelled)
    (h : s.pausedAt? (max k 1) = none) :
    s.seek k = if max k 1 ≤ s.currentStep then s.restart (max k 1)
      else s.seekForward (max k 1) := by
  rw [seek, if_neg live, h]

theorem restart_eq (target : Nat) :
    s.restart target = match s.witness with
      | (.error e, t) => (.error e, t)
      | (.ok witness, t) =>
        (.ok (t.reset.begin target witness).1, (t.reset.begin target witness).2) := rfl

end TaprootLab.Stepper
