import TaprootLab.Proofs.Engine.Reel
import TaprootLab.Stepper

/-!
# The film of a run

What a reel shows through a viewer: its visible steps, numbered one by one, and how it ends. Playing
up to a step is dropping the steps before it (`play_reel`), and what is left of a paused run is
again a stretch of the same film (`Paused.Continues`).
-/

namespace TaprootLab

open Run

/-! ## Visible steps -/

namespace Viewer

/-- The visible steps among the boundaries that follow. -/
def steps : Viewer → List Boundary → List Snapshot
  | _, [] => []
  | v, b :: bs =>
    match v.observe b with
    | (some s, v) => s :: v.steps bs
    | (none, v) => v.steps bs

theorem count_of_observe_some {v w : Viewer} {b : Boundary} {s : Snapshot}
    (h : v.observe b = (some s, w)) : s.step = v.count + 1 ∧ w.count = v.count + 1 := by
  unfold observe at h
  dsimp only at h
  split at h
  · obtain ⟨rfl, rfl⟩ := Prod.mk.injEq .. |>.mp h |>.imp_left Option.some.inj
    exact ⟨rfl, rfl⟩
  · cases h

theorem count_of_observe_none {v w : Viewer} {b : Boundary} (h : v.observe b = (none, w)) :
    w.count = v.count := by
  unfold observe at h
  dsimp only at h
  split at h
  · cases h
  · obtain ⟨-, rfl⟩ := Prod.mk.injEq .. |>.mp h
    rfl

/-- Steps are numbered in order, from the number already shown. -/
theorem step_of_getElem?_steps {v : Viewer} {bs : List Boundary} {i : Nat} {s : Snapshot}
    (h : (v.steps bs)[i]? = some s) : s.step = v.count + 1 + i := by
  induction bs generalizing v i with
  | nil => cases h
  | cons b bs ih =>
    unfold steps at h
    split at h
    · rename_i shown w hobs
      obtain ⟨hstep, hcount⟩ := count_of_observe_some hobs
      cases i with
      | zero =>
        obtain rfl := Option.some.inj h
        exact hstep
      | succ i =>
        rw [List.getElem?_cons_succ] at h
        have := ih h
        omega
    · rename_i w hobs
      rw [ih h, count_of_observe_none hobs]

end Viewer

/-! ## Playing a reel -/

/-- What is heard at the end of a reel. -/
def Event.ofResult : Option (Except RunError Unit) → Event
  | some r => .finished r
  | none => .vanished

/-- A paused run that will show the given steps, stopping at each, and then end as stated. -/
def Paused.Continues (p : Paused) (steps : List Snapshot)
    (r : Option (Except RunError Unit)) : Prop :=
  p.target ≤ p.viewer.count + 1 ∧ ∃ bs, p.resume .proceed = reel bs r ∧ p.viewer.steps bs = steps

/-- An event that shows the first of the given steps, if there is any, with the others still
ahead. -/
def Event.Opens : List Snapshot → Option (Except RunError Unit) → Event → Prop
  | [], r, e => e = .ofResult r
  | s :: steps, r, e => ∃ p, e = .step s p ∧ p.Continues steps r

/-- A viewer that has shown `v.count` steps passes those below the target, which are the first
`target - 1 - v.count` of its film. -/
theorem play_reel (target : Nat) (v : Viewer) (bs : List Boundary)
    (r : Option (Except RunError Unit)) :
    ((play target v (reel bs r)).Opens ((v.steps bs).drop (target - 1 - v.count)) r) := by
  induction bs generalizing v with
  | nil =>
    rw [Viewer.steps, List.drop_nil]
    cases r <;> rfl
  | cons b bs ih =>
    rw [reel, atBoundary, play, Viewer.steps]
    split
    · rename_i s w hobs
      obtain ⟨hstep, hcount⟩ := Viewer.count_of_observe_some hobs
      simp only [hobs]
      by_cases below : s.step < target
      · rw [if_pos below, show target - 1 - v.count = (target - 1 - w.count) + 1 by omega,
          List.drop_succ_cons]
        exact ih w
      · rw [if_neg below, show target - 1 - v.count = 0 by omega, List.drop_zero]
        exact ⟨_, rfl, by dsimp only; omega, bs, rfl, rfl⟩
    · rename_i w hobs
      simp only [hobs]
      rw [← Viewer.count_of_observe_none hobs]
      exact ih w

theorem Paused.Continues.proceed {p : Paused} {steps : List Snapshot}
    {r : Option (Except RunError Unit)} (h : p.Continues steps r) : p.proceed.Opens steps r := by
  obtain ⟨htarget, bs, hresume, rfl⟩ := h
  have := play_reel p.target p.viewer bs r
  rwa [show p.target - 1 - p.viewer.count = 0 by omega, List.drop_zero, ← hresume] at this

end TaprootLab
