import TaprootLab.Stepper.Snapshot

/-!
# Playing a run back

A run is played up to a step: boundaries before it are passed silently, and there the run pauses
until it is allowed to go on.

* `height_lt_of_play`: a run that has paused has fewer boundaries ahead of it than before.
-/

namespace TaprootLab

/-- A run that waits at a visible step. -/
structure Paused where
  viewer : Viewer
  /-- Steps before this one are not stopped at. -/
  target : Nat
  resume : Control → Run Unit

/-- What is next heard of a run. -/
inductive Event where
  | step (snapshot : Snapshot) (paused : Paused)
  | finished (result : Except RunError Unit)
  | vanished

/-- Lets a run go on up to the next visible step from `target` on. -/
def play (target : Nat) : Viewer → Run Unit → Event
  | _, .done result => .finished result
  | _, .lost => .vanished
  | v, .report b resume =>
    match v.observe b with
    | (none, v) => play target v (resume .proceed)
    | (some s, v) =>
      if s.step < target then play target v (resume .proceed) else .step s ⟨v, target, resume⟩

namespace Paused

def proceed (p : Paused) : Event := play p.target p.viewer (p.resume .proceed)

/-- The number of boundaries that may be ahead. -/
def height (p : Paused) : Nat := (p.resume .proceed).height

end Paused

theorem height_lt_of_play {target : Nat} {v : Viewer} {run : Run Unit} {s : Snapshot} {p : Paused}
    (h : play target v run = .step s p) : p.height < run.height := by
  induction run generalizing v with
  | done result => simp [play] at h
  | lost => simp [play] at h
  | report b resume ih =>
    have lower := Run.height_resume_lt b resume .proceed
    unfold play at h
    split at h
    · exact Nat.lt_trans (ih .proceed h) lower
    · split at h
      · exact Nat.lt_trans (ih .proceed h) lower
      · obtain ⟨-, rfl⟩ := Event.step.inj h
        exact lower

end TaprootLab
