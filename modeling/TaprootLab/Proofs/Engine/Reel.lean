import TaprootLab.Engine.Run

/-!
# Runs that stop when told to

A run that ends at once when it is told to abort has a single way to go on at each boundary. It is a
reel: a list of boundaries and what stands at their end.

* `StopsOnAbort.eq_reel`: such a run is the reel of its boundaries and its result.
* `StopsOnAbort.bind`: two such runs one after the other make up such a run.
* `boundaries_bind`, `result_bind`: what the two show and how they end.
-/

namespace TaprootLab.Run

variable {α β : Type}

/-! ## Letting a run go on -/

/-- The boundaries shown to someone who always proceeds. -/
def boundaries : Run α → List Boundary
  | .done _ => []
  | .lost => []
  | .report b resume => b :: (resume .proceed).boundaries

/-- How the run ends for someone who always proceeds. Nothing stands for a run that died. -/
def result : Run α → Option (Except RunError α)
  | .done r => some r
  | .lost => none
  | .report _ resume => (resume .proceed).result

/-- A boundary may be shown, under some answers to those before it. -/
inductive Reports : Run α → Boundary → Prop
  | here (b : Boundary) (resume : Control → Run α) : Reports (.report b resume) b
  | later {b b' : Boundary} {resume : Control → Run α} (c : Control)
      (h : Reports (resume c) b') : Reports (.report b resume) b'

/-- The run that shows the given boundaries, stops at any of them when told to, and otherwise ends
as stated. -/
def reel : List Boundary → Option (Except RunError α) → Run α
  | [], some r => .done r
  | [], none => .lost
  | b :: bs, r => .atBoundary b fun _ => reel bs r

/-- Being told to abort ends the run, at every boundary. -/
def StopsOnAbort : Run α → Prop
  | .done _ => True
  | .lost => True
  | .report _ resume => resume .abort = fail .aborted ∧ (resume .proceed).StopsOnAbort

@[simp] theorem boundaries_done (r : Except RunError α) : (done r).boundaries = [] := rfl

@[simp] theorem result_done (r : Except RunError α) : (done r).result = some r := rfl

@[simp] theorem boundaries_fail (e : RunError) : (fail e : Run α).boundaries = [] := rfl

@[simp] theorem result_fail (e : RunError) : (fail e : Run α).result = some (.error e) := rfl

@[simp] theorem boundaries_atBoundary (b : Boundary) (next : Unit → Run α) :
    (atBoundary b next).boundaries = b :: (next ()).boundaries := rfl

@[simp] theorem result_atBoundary (b : Boundary) (next : Unit → Run α) :
    (atBoundary b next).result = (next ()).result := rfl

/-- An observer that always proceeds sees the boundaries and gets the result. -/
theorem drive_proceed {σ : Type} (note : σ → Boundary → σ) (run : Run α) (s : σ) :
    run.drive (fun s b => (.proceed, note s b)) s = (run.result, run.boundaries.foldl note s) := by
  induction run generalizing s with
  | done r => rfl
  | lost => rfl
  | report b resume ih => exact ih .proceed (note s b)

theorem stopsOnAbort_atBoundary {b : Boundary} {next : Unit → Run α} :
    (atBoundary b next).StopsOnAbort ↔ (next ()).StopsOnAbort := by
  simp [atBoundary, StopsOnAbort]

/-! ## Reels -/

/-- The only answer that leads anywhere is to proceed, so the tree has no other branches. -/
theorem StopsOnAbort.eq_reel {run : Run α} (h : run.StopsOnAbort) :
    run = reel run.boundaries run.result := by
  induction run with
  | done r => rfl
  | lost => rfl
  | report b resume ih =>
    obtain ⟨aborted, rest⟩ := h
    show report b resume = report b _
    congr 1
    funext c
    cases c with
    | proceed => exact ih .proceed rest
    | abort => exact aborted

theorem StopsOnAbort.mem_boundaries {run : Run α} (h : run.StopsOnAbort) {b : Boundary}
    (shown : run.Reports b) : b ∈ run.boundaries := by
  induction shown with
  | here b resume => exact List.mem_cons_self
  | later c shown ih =>
    cases c with
    | proceed => exact List.mem_cons_of_mem _ (ih h.2)
    | abort => rw [h.1] at shown; cases shown

theorem reports_of_mem_boundaries {run : Run α} {b : Boundary} (h : b ∈ run.boundaries) :
    run.Reports b := by
  induction run with
  | done r => cases h
  | lost => cases h
  | report b' resume ih =>
    rcases List.mem_cons.mp h with rfl | h
    · exact .here _ _
    · exact .later .proceed (ih .proceed h)

/-! ## One run after the other -/

theorem StopsOnAbort.bind {run : Run α} {next : α → Run β} (h : run.StopsOnAbort)
    (hnext : ∀ a, run.result = some (.ok a) → (next a).StopsOnAbort) :
    (run.bind next).StopsOnAbort := by
  induction run with
  | done r =>
    cases r with
    | ok a => exact hnext a rfl
    | error e => trivial
  | lost => trivial
  | report b resume ih =>
    refine ⟨?_, ih .proceed h.2 hnext⟩
    show (resume .abort).bind next = fail .aborted
    rw [h.1]
    rfl

theorem boundaries_bind (next : α → Run β) (run : Run α) :
    (run.bind next).boundaries =
      run.boundaries ++ match run.result with
        | some (.ok a) => (next a).boundaries
        | _ => [] := by
  induction run with
  | done r => cases r <;> rfl
  | lost => rfl
  | report b resume ih => exact congrArg (b :: ·) (ih .proceed)

theorem result_bind (next : α → Run β) (run : Run α) :
    (run.bind next).result =
      match run.result with
      | some (.ok a) => (next a).result
      | some (.error e) => some (.error e)
      | none => none := by
  induction run with
  | done r => cases r <;> rfl
  | lost => rfl
  | report b resume ih => exact ih .proceed

theorem result_bind_of_ok {run : Run α} (next : α → Run β) {a : α} (h : run.result = some (.ok a)) :
    (run.bind next).result = (next a).result := by
  rw [result_bind, h]

theorem result_bind_of_error {run : Run α} (next : α → Run β) {e : RunError}
    (h : run.result = some (.error e)) : (run.bind next).result = some (.error e) := by
  rw [result_bind, h]

theorem boundaries_bind_of_ok {run : Run α} (next : α → Run β) {a : α}
    (h : run.result = some (.ok a)) :
    (run.bind next).boundaries = run.boundaries ++ (next a).boundaries := by
  rw [boundaries_bind, h]

theorem boundaries_bind_of_error {run : Run α} (next : α → Run β) {e : RunError}
    (h : run.result = some (.error e)) : (run.bind next).boundaries = run.boundaries := by
  rw [boundaries_bind, h, List.append_nil]

end TaprootLab.Run
