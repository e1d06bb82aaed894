import TaprootLab.Proofs.Engine.Acceptance

/-!
# How many items a leaf holds

The items on both stacks are counted behind every instruction that takes effect. A leaf starts
outside of all conditionals, so its first instruction takes effect and every later boundary is
within the limit (`size_le_of_mem_tail_visits`). Nothing counts the items that the witness hands
over: before the first instruction there may be more (`size_le_iff_of_reports`).
-/

namespace TaprootLab

open Taproot Run

namespace Machine

variable {env : Env} {m m' : Machine} {pc : Nat}

/-- Behind an instruction the limit holds, unless it was skipped. -/
theorem size_le_of_step {i : Instruction} (h : m.step env pc i = .ok m')
    (within : m.executing = true ∨ m.size ≤ maxStackSize) : m'.size ≤ maxStackSize := by
  obtain ⟨-, ⟨skipped, rfl⟩ | ⟨-, -, small⟩⟩ := step_eq_ok.mp h
  · rcases within with executing | small
    · rw [obeys, executing] at skipped
      cases skipped
    · exact small
  · exact small

theorem size_le_of_mem_visits {is : List Instruction} (first : m.size ≤ maxStackSize) :
    ∀ m' ∈ m.visits env pc is, m'.size ≤ maxStackSize :=
  visits_induction first fun _ _ _ _ _ small h => size_le_of_step h (.inr small)

/-- A script that starts by executing is within the limit from the second boundary on. -/
theorem size_le_of_mem_tail_visits {is : List Instruction} (executing : m.executing = true) :
    ∀ m' ∈ (m.visits env pc is).tail, m'.size ≤ maxStackSize := by
  intro m' h
  cases is with
  | nil => cases h
  | cons i rest =>
    rw [visits, List.tail_cons] at h
    cases hstep : m.step env pc i with
    | error e =>
      rw [hstep] at h
      cases h
    | ok m₁ =>
      rw [hstep] at h
      exact size_le_of_mem_visits (size_le_of_step hstep (.inl executing)) m' h

end Machine

/-- A boundary of a leaf is the first one, which shows the items that the witness hands over, or is
within the limit. -/
theorem LeafRun.boundary_cases {leaf : LeafRun} {curve : Curve} {spend : Spend} {b : Boundary}
    (h : b ∈ (leaf.run curve spend).boundaries) :
    b.pc = 0 ∧ b.stack = leaf.stack ∧ b.altStack = [] ∨
      b.pc ≠ 0 ∧ b.stack.length + b.altStack.length ≤ maxStackSize := by
  rw [boundaries_run, Machine.boundaries_run, List.mem_mapIdx] at h
  obtain ⟨k, hk, rfl⟩ := h
  have visited := List.getElem?_eq_getElem hk
  cases k with
  | zero =>
    rw [Machine.getElem?_visits_zero] at visited
    rw [← Option.some.inj visited]
    exact .inl ⟨rfl, rfl, rfl⟩
  | succ k =>
    rw [← List.getElem?_tail] at visited
    -- nothing is open before the first instruction, so it is not skipped
    have executing : (Machine.start leaf.stack leaf.budget).executing = true := rfl
    exact .inr ⟨Nat.succ_ne_zero k,
      Machine.size_le_of_mem_tail_visits executing _ (List.mem_of_getElem? visited)⟩

theorem LeafRun.first_mem_boundaries (leaf : LeafRun) (curve : Curve) (spend : Spend) :
    ⟨2, 0, leaf.script, leaf.stack, []⟩ ∈ (leaf.run curve spend).boundaries := by
  rw [boundaries_run, Machine.boundaries_run]
  cases Script.decode leaf.script with
  | nil => exact List.mem_cons_self
  | cons i rest =>
    rw [Machine.visits, List.mapIdx_cons]
    exact List.mem_cons_self

/-- The limit holds at every boundary of a leaf but the first one. There it holds if the witness
without its annex has no more than 1000 items beside the script and the control block. -/
theorem size_le_iff_of_reports {curve : Curve} {spend : Spend} {witness : List Bytes} {b : Boundary}
    (shown : (runTaproot curve spend witness).Reports b) (third : b.scriptIndex = 2) :
    b.stack.length + b.altStack.length ≤ 1000 ↔
      (b.pc = 0 → (splitAnnex witness).1.length ≤ 1000 + 2) := by
  obtain ⟨leaf, authorized, h⟩ := mem_boundaries_runTaproot third
    ((stopsOnAbort_runTaproot curve spend witness).mem_boundaries shown)
  rcases LeafRun.boundary_cases h with ⟨first, stack, altStack⟩ | ⟨later, small⟩
  · obtain ⟨output, control, -, split, -, -⟩ := authorize_eq_some_iff.mp authorized
    rw [splitAnnex_eq_iff.mpr split, stack, altStack]
    simp [first]
  · exact ⟨fun _ first => (later first).elim, fun _ => small⟩

/-! ## A leaf with too many items -/

theorem reports_handed {items : List Bytes} (short : ∀ item ∈ items, item.length ≤ 520) :
    (runTaproot inertCurve onesSpend (items ++ crowdedWitness 0)).Reports
      ⟨2, 0, [0x51], items.reverse, []⟩ := by
  refine reports_of_mem_boundaries (boundaries_runWitness_subset rfl rfl ?_)
  rw [runWitness, authorize_handed short]
  exact LeafRun.first_mem_boundaries _ inertCurve onesSpend

theorem reports_crowdedWitness (n : Nat) :
    (runTaproot inertCurve onesSpend (crowdedWitness n)).Reports
      ⟨2, 0, [0x51], List.replicate n [], []⟩ := by
  rw [← List.reverse_replicate]
  exact reports_handed (length_le_of_mem_replicate n)

/-- A leaf that is handed 1001 items shows them all. -/
theorem exists_reports_size_gt :
    ∃ (curve : Curve) (spend : Spend) (witness : List Bytes) (b : Boundary),
      isOutputScript spend.prevout.scriptPubKey = true ∧
        (runTaproot curve spend witness).Reports b ∧ b.scriptIndex = 2 ∧
        1000 < b.stack.length + b.altStack.length := by
  refine ⟨inertCurve, onesSpend, crowdedWitness 1001, _, rfl, reports_crowdedWitness 1001, rfl, ?_⟩
  rw [List.length_replicate]
  decide

theorem size_le_iff_of_reports_crowded :
    (runTaproot inertCurve onesSpend (crowdedWitness 3)).Reports
        ⟨2, 0, [0x51], List.replicate 3 [], []⟩ ∧
      ((List.replicate 3 ([] : Bytes)).length + 0 ≤ 1000 ↔
        (0 = 0 → (splitAnnex (crowdedWitness 3)).1.length ≤ 1000 + 2)) :=
  ⟨reports_crowdedWitness 3, size_le_iff_of_reports (reports_crowdedWitness 3) rfl⟩

end TaprootLab
