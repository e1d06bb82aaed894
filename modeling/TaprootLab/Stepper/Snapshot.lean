import TaprootLab.Engine.Run
import TaprootLab.Script.Instruction

/-!
# Visible steps

Not every boundary of a run is shown. The script of the input never is; the script of the output is
shown once, on entry, together with the whole witness; every boundary of a later script is shown,
and the first one in the revealed script says that the output commits to it. Steps are numbered from
one.
-/

namespace TaprootLab

/-- The state at one visible step. Both stacks are listed from the top. -/
structure Snapshot where
  step : Nat
  phase : Phase
  /-- The index of the next instruction; at the end of the script, the number of instructions. -/
  pc : Nat
  script : Bytes
  stack : List Bytes
  altStack : List Bytes
  /-- The whole witness, at the step of the output's script. -/
  witness : Option (List Bytes)
  /-- Whether this is the first step of the revealed script. -/
  verified : Bool
  deriving DecidableEq, Repr

def Snapshot.instruction? (s : Snapshot) : Option Instruction := (Script.decode s.script)[s.pc]?

/-- What has been seen of a run so far. -/
structure Viewer where
  /-- The script of the last boundary. -/
  current : Option Nat
  /-- The number of steps shown. -/
  count : Nat
  witness : List Bytes
  deriving DecidableEq, Repr

namespace Viewer

/-- Before the first boundary. -/
def start (witness : List Bytes) : Viewer := ⟨none, 0, witness⟩

/-- Whether a boundary is shown, given whether it is the first in a row of its script. -/
def shows (entering : Bool) : Phase → Bool
  | .scriptSig => false
  | .scriptPubKey => entering
  | .witnessScript | .other _ => true

/-- Takes in a boundary and shows it if it is a visible step. -/
def observe (v : Viewer) (b : Boundary) : Option Snapshot × Viewer :=
  let entering := v.current != some b.scriptIndex
  if shows entering b.phase then
    (some {
      step := v.count + 1
      phase := b.phase
      pc := b.pc
      script := b.script
      stack := b.stack
      altStack := b.altStack
      witness := if b.phase = .scriptPubKey then some v.witness else none
      verified := entering && b.phase = .witnessScript },
     { v with current := some b.scriptIndex, count := v.count + 1 })
  else (none, { v with current := some b.scriptIndex })

end Viewer

end TaprootLab
