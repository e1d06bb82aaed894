import TaprootLab.Bytes
import TaprootLab.Engine.Error

/-!
# Runs

A run stops at every boundary between two instructions, shows the state there and asks whether to go
on. It is kept as the tree of its possible continuations: a boundary with what follows each answer,
or an end. A paused run is then simply a value, which can be kept, dropped or answered twice.

* `bind_report`: a boundary of the first part of a run is a boundary of the whole.
-/

namespace TaprootLab

/-- The state at one boundary. Both stacks are listed from the top. -/
structure Boundary where
  scriptIndex : Nat
  /-- The index of the next instruction. -/
  pc : Nat
  script : Bytes
  stack : List Bytes
  altStack : List Bytes
  deriving DecidableEq, Repr

def Boundary.phase (b : Boundary) : Phase := .ofIndex b.scriptIndex

/-- The answer to a boundary. -/
inductive Control where
  | proceed
  | abort
  deriving DecidableEq, Repr

/-- A run that ends with a value, with an error, or without any result. -/
inductive Run (α : Type) where
  | done (result : Except RunError α)
  /-- The run dies and nothing is heard of it again. -/
  | lost
  | report (boundary : Boundary) (resume : Control → Run α)

namespace Run

variable {α β σ : Type}

def fail (e : RunError) : Run α := .done (.error e)

/-- Shows a boundary and stops there unless told to proceed. -/
def atBoundary (b : Boundary) (next : Unit → Run α) : Run α :=
  .report b fun
    | .proceed => next ()
    | .abort => fail .aborted

/-- Runs `next` on the value of the first run. -/
def bind (next : α → Run β) : Run α → Run β
  | .done (.ok a) => next a
  | .done (.error e) => .done (.error e)
  | .lost => .lost
  | .report b resume => .report b fun c => (resume c).bind next

theorem bind_report (next : α → Run β) (b : Boundary) (resume : Control → Run α) :
    (report b resume).bind next = report b fun c => (resume c).bind next := rfl

/-- Answers every boundary with `observe` and carries a value along. Nothing stands for a run that
died. -/
def drive (observe : σ → Boundary → Control × σ) : σ → Run α → Option (Except RunError α) × σ
  | s, .done result => (some result, s)
  | s, .lost => (none, s)
  | s, .report b resume =>
    let (answer, s) := observe s b
    drive observe s (resume answer)

def height : Run α → Nat
  | .done _ => 0
  | .lost => 0
  | .report _ resume => max (resume .proceed).height (resume .abort).height + 1

theorem height_resume_lt (b : Boundary) (resume : Control → Run α) (c : Control) :
    (resume c).height < (report b resume).height := by
  cases c <;> simp only [height] <;> omega

end Run

end TaprootLab
