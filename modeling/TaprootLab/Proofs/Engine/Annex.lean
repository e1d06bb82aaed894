import TaprootLab.Proofs.Engine.Budget
import TaprootLab.Proofs.Engine.StackLimit

/-!
# Annexes of leaves that check no signature

A leaf notices an annex in two places only: signatures commit to it, and it adds to the witness that
pays for their checks. Without a check neither is looked at, so runs from machines that agree up to
their budgets are the same whoever checks the signatures (`runFrom_bind_bare`), and putting an annex
behind the witness of such a leaf changes nothing of the run (`start_annex`).
-/

namespace TaprootLab

open Taproot Run

/-- No instruction of the script checks a signature. -/
def Script.Unsigned (script : Bytes) : Prop :=
  ∀ i ∈ decode script, i.opcode.byte ∉ [0xac, 0xad, 0xba]

theorem Run.bind_atBoundary {α β : Type} (b : Boundary) (first : Unit → Run α) (next : α → Run β) :
    (atBoundary b first).bind next = atBoundary b fun u => (first u).bind next := by
  unfold atBoundary
  rw [bind_report]
  congr 1
  funext c
  cases c <;> rfl

/-! ## Machines -/

namespace Machine

variable {α : Type} {env : Env} {check : SignatureCheck} {m m' : Machine}

theorem asks?_eq_none {i : Instruction} (unsigned : i.opcode.byte ∉ [0xac, 0xad, 0xba]) :
    m.asks? i = none := by
  unfold asks?
  split
  · rename_i use _ checks
    exact absurd (Opcode.byte_of_checkSig checks) unsigned
  · rfl

theorem boundary_bare (same : m.bare = m'.bare) (scriptIndex : Nat) (script : Bytes) (pc : Nat) :
    m'.boundary scriptIndex script pc = m.boundary scriptIndex script pc := by
  rw [eq_of_bare_eq same]
  rfl

/-- Without a signature check, machines that differ in their budgets only show the same and end the
same, if what comes after them does not look at the budget either. -/
theorem runFrom_bind_bare {next : Machine → Run α}
    (blind : ∀ a b : Machine, a.bare = b.bare → next a = next b) {scriptIndex : Nat}
    {script : Bytes} {is : List Instruction}
    (unsigned : ∀ i ∈ is, i.opcode.byte ∉ [0xac, 0xad, 0xba]) (same : m.bare = m'.bare) (pc : Nat) :
    (m.runFrom env scriptIndex script pc is).bind next =
      (m'.runFrom { env with checkSignature := check } scriptIndex script pc is).bind next := by
  induction is generalizing m m' pc with
  | nil =>
    have conditions : m'.conditions = m.conditions := by
      rw [eq_of_bare_eq same]
    rw [runFrom, runFrom, bind_atBoundary, bind_atBoundary, boundary_bare same, conditions]
    congr 1
    funext _
    split
    · exact blind m m' same
    · rfl
  | cons i rest ih =>
    obtain ⟨first, others⟩ := List.forall_mem_cons.mp unsigned
    have step : (m.step env pc i).map bare =
        (m'.step { env with checkSignature := check } pc i).map bare := by
      refine step_bare same fun signature key asked => ?_
      rw [asks?_eq_none first] at asked
      cases asked
    rw [runFrom, runFrom, bind_atBoundary, bind_atBoundary, boundary_bare same]
    congr 1
    funext _
    rcases left : m.step env pc i with e | a <;>
      rcases right : m'.step { env with checkSignature := check } pc i with e' | b <;>
      rw [left, right] at step
    · cases step
      rfl
    · cases step
    · cases step
    · exact ih others (Except.ok.inj step) (pc + 1)

end Machine

theorem verdict_bare (script : Bytes) {m m' : Machine} (same : m.bare = m'.bare) :
    verdict script m = verdict script m' := by
  rw [Machine.eq_of_bare_eq same]
  rfl

/-! ## Leaves and witnesses -/

/-- A leaf that checks no signature runs the same with any annex and any budget. -/
theorem LeafRun.run_of_unsigned {leaf : LeafRun} (unsigned : Script.Unsigned leaf.script)
    (curve : Curve) (spend : Spend) (annex : Option Bytes) (budget : Int) :
    LeafRun.run { leaf with annex, budget } curve spend = leaf.run curve spend := by
  have env : LeafRun.env { leaf with annex, budget } curve spend
      = { leaf.env curve spend with
          checkSignature := (LeafRun.scope { leaf with annex, budget } curve spend).check } := rfl
  have same : (Machine.start leaf.stack leaf.budget).bare =
      (Machine.start leaf.stack budget).bare := rfl
  rw [LeafRun.run_eq, LeafRun.run_eq, env]
  exact (Machine.runFrom_bind_bare (fun _ _ => verdict_bare leaf.script) unsigned same 0).symm

variable {curve : Curve} {spend : Spend} {items : List Bytes} {script control : Bytes}

/-- What is made of a witness with a script. -/
theorem authorize_of_splits {witness : List Bytes} {annex : Option Bytes}
    (splits : Splits witness (items ++ [script, control]) annex) :
    authorize curve spend witness =
      match curve.key? (spend.prevout.scriptPubKey.drop 2) with
      | none => .error (programError .witnessProgramMismatch)
      | some output =>
        (authorizeScript curve output control script items.reverse).map fun _ =>
          some ⟨script, items.reverse, annex, signatureBudget witness⟩ := by
  have elements : (items ++ [script, control]).reverse =
      control :: script :: items.reverse := by simp
  unfold authorize
  cases curve.key? (spend.prevout.scriptPubKey.drop 2) with
  | none => rfl
  | some output =>
    simp only [splitAnnex_eq_iff.mpr splits, elements]
    cases authorizeScript curve output control script items.reverse <;> rfl

theorem runWitness_annex (untagged : control.head? ≠ some annexTag)
    (unsigned : Script.Unsigned script) {annex : Bytes} (tagged : annex.head? = some annexTag) :
    runWitness curve spend (items ++ [script, control] ++ [annex])
      = runWitness curve spend (items ++ [script, control]) := by
  have plain : Splits (items ++ [script, control]) (items ++ [script, control]) none := by
    refine .plain fun elements last same _ => ?_
    have ends : items ++ [script] ++ [control] = elements ++ [last] := by simpa using same
    obtain ⟨-, same⟩ := List.append_inj' ends rfl
    rwa [← (List.cons.inj same).1]
  have longer : Splits (items ++ [script, control] ++ [annex]) (items ++ [script, control])
      (some annex) :=
    .annex (by simp) tagged
  unfold runWitness
  rw [authorize_of_splits plain, authorize_of_splits longer]
  cases curve.key? (spend.prevout.scriptPubKey.drop 2) with
  | none => rfl
  | some output =>
    cases authorized : authorizeScript curve output control script items.reverse with
    | error e => simp only [authorized]; rfl
    | ok _ =>
      simp only [authorized]
      exact @LeafRun.run_of_unsigned ⟨script, items.reverse, none, _⟩ unsigned curve spend
        (some annex) _

/-- **An annex makes no difference to a leaf that checks no signature.** Putting one behind a
witness that has none leaves the run as it was, with all that it shows and however it ends. -/
theorem start_annex (taproot : isOutputScript spend.prevout.scriptPubKey = true)
    (untagged : control.head? ≠ some annexTag) (unsigned : Script.Unsigned script) {annex : Bytes}
    (tagged : annex.head? = some annexTag) :
    ∃ run, (taprootInterpreter curve).start spend (items ++ [script, control]) = .ok run
      ∧ (taprootInterpreter curve).start spend
        (items ++ [script, control] ++ [annex]) = .ok run := by
  refine ⟨runTaproot curve spend (items ++ [script, control]), if_pos taproot, ?_⟩
  have same : runTaproot curve spend (items ++ [script, control] ++ [annex])
      = runTaproot curve spend (items ++ [script, control]) := by
    rw [runTaproot_eq, runTaproot_eq, runWitness_annex untagged unsigned tagged]
  rw [← same]
  exact if_pos taproot

theorem unsigned_number : Script.Unsigned [0x51] := by
  unfold Script.Unsigned
  rw [decode_number]
  decide

/-- A leaf that pushes a number runs the same with an annex behind it. -/
theorem start_annex_crowded :
    isOutputScript onesSpend.prevout.scriptPubKey = true
      ∧ (0xc0 :: List.replicate 32 1 : Bytes).head? ≠ some annexTag ∧ Script.Unsigned [0x51]
      ∧ ([0x50, 7] : Bytes).head? = some annexTag
      ∧ ∃ run, (taprootInterpreter inertCurve).start onesSpend (crowdedWitness 3) = .ok run
        ∧ (taprootInterpreter inertCurve).start onesSpend
          (crowdedWitness 3 ++ [[0x50, 7]]) = .ok run := by
  have untagged : (0xc0 :: List.replicate 32 1 : Bytes).head? ≠ some annexTag := by decide
  exact ⟨rfl, untagged, unsigned_number, rfl, start_annex rfl untagged unsigned_number rfl⟩

end TaprootLab
