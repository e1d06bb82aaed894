import TaprootLab.Engine.Machine
import TaprootLab.Proofs.Engine.Reel

/-!
# Executing a script without stopping

The run of a script, taken apart: `execute` is the effect of its instructions and `visits` the
machines at the boundaries on the way. A run shows the latter and ends with the former
(`boundaries_runFrom`, `result_runFrom`), so what is to be said about a run is said about these two.

`step_eq_ok` says all that an instruction can do to a machine. Invariants of a script follow from it
by `visits_induction`.
-/

namespace TaprootLab.Machine

open Run

/-! ## Instructions one after the other -/

/-- The machine behind instructions that start at position `pc`, or the first error with its
position. -/
def execute (env : Env) : Machine → Nat → List Instruction → Except (ScriptError × Nat) Machine
  | m, _, [] => .ok m
  | m, pc, i :: rest =>
    match m.step env pc i with
    | .ok m => m.execute env (pc + 1) rest
    | .error e => .error (e, pc)

/-- The machines at the boundaries that are reached, up to the end or the first error. -/
def visits (env : Env) : Machine → Nat → List Instruction → List Machine
  | m, _, [] => [m]
  | m, pc, i :: rest =>
    m :: match m.step env pc i with
      | .ok m => m.visits env (pc + 1) rest
      | .error _ => []

/-- The end of a script: no branch may be open. -/
def conclude (scriptIndex stop : Nat) :
    Except (ScriptError × Nat) Machine → Except RunError Machine
  | .ok m =>
    if m.conditions.isEmpty then .ok m
    else .error (.script .unbalancedConditional (.ofIndex scriptIndex) stop)
  | .error (e, pc) => .error (.script e (.ofIndex scriptIndex) pc)

theorem conclude_eq_ok_iff {scriptIndex stop : Nat} {r : Except (ScriptError × Nat) Machine}
    {m : Machine} : conclude scriptIndex stop r = .ok m ↔ r = .ok m ∧ m.conditions = [] := by
  cases r with
  | error e => simp [conclude]
  | ok m' =>
    simp only [conclude, List.isEmpty_iff, Except.ok.injEq]
    split
    · rename_i closed
      rw [Except.ok.injEq]
      exact ⟨fun h => ⟨h, h ▸ closed⟩, fun h => h.1⟩
    · rename_i opened
      constructor
      · rintro ⟨⟩
      · rintro ⟨rfl, closed⟩
        exact (opened closed).elim

variable {env : Env} {scriptIndex : Nat} {script : Bytes}

theorem stopsOnAbort_runFrom (m : Machine) (pc : Nat) (is : List Instruction) :
    (m.runFrom env scriptIndex script pc is).StopsOnAbort := by
  induction is generalizing m pc with
  | nil =>
    rw [runFrom, stopsOnAbort_atBoundary]
    split <;> trivial
  | cons i rest ih =>
    rw [runFrom, stopsOnAbort_atBoundary]
    split
    · exact ih _ _
    · trivial

theorem result_runFrom (m : Machine) (pc : Nat) (is : List Instruction) :
    (m.runFrom env scriptIndex script pc is).result =
      some (conclude scriptIndex (pc + is.length) (m.execute env pc is)) := by
  induction is generalizing m pc with
  | nil =>
    rw [runFrom, result_atBoundary, execute, conclude]
    split <;> rfl
  | cons i rest ih =>
    rw [runFrom, result_atBoundary, execute]
    cases m.step env pc i with
    | ok m' => rw [ih, List.length_cons, Nat.add_assoc, Nat.add_comm 1]
    | error e => rfl

theorem boundaries_runFrom (m : Machine) (pc : Nat) (is : List Instruction) :
    (m.runFrom env scriptIndex script pc is).boundaries =
      (m.visits env pc is).mapIdx fun k m => m.boundary scriptIndex script (pc + k) := by
  induction is generalizing m pc with
  | nil =>
    rw [runFrom, boundaries_atBoundary, visits]
    split <;> rfl
  | cons i rest ih =>
    rw [runFrom, boundaries_atBoundary, visits, List.mapIdx_cons]
    cases m.step env pc i with
    | ok m' =>
      simp only [ih]
      congr 1
      exact List.mapIdx_eq_mapIdx_iff.mpr fun k _ => by rw [Nat.add_assoc, Nat.add_comm 1]
    | error e => rfl

theorem length_visits_le (m : Machine) (pc : Nat) (is : List Instruction) :
    (m.visits env pc is).length ≤ is.length + 1 := by
  induction is generalizing m pc with
  | nil => exact Nat.le_refl 1
  | cons i rest ih =>
    rw [visits, List.length_cons, List.length_cons]
    cases m.step env pc i with
    | ok m₁ => exact Nat.succ_le_succ (ih m₁ (pc + 1))
    | error e => exact Nat.succ_le_succ (Nat.zero_le _)

/-! ## Whole scripts -/

theorem result_run (env : Env) (scriptIndex : Nat) (script : Bytes) (m : Machine) :
    (m.run env scriptIndex script).result = some (conclude scriptIndex (Script.decode script).length
      (m.execute env 0 (Script.decode script))) := by
  rw [run, result_runFrom, Nat.zero_add]

theorem boundaries_run (env : Env) (scriptIndex : Nat) (script : Bytes) (m : Machine) :
    (m.run env scriptIndex script).boundaries =
      (m.visits env 0 (Script.decode script)).mapIdx fun k m =>
        m.boundary scriptIndex script k := by
  simp only [run, boundaries_runFrom, Nat.zero_add]

theorem scriptIndex_of_mem_boundaries {env : Env} {scriptIndex : Nat} {script : Bytes} {m : Machine}
    {b : Boundary} (h : b ∈ (m.run env scriptIndex script).boundaries) :
    b.scriptIndex = scriptIndex := by
  rw [boundaries_run, List.mem_mapIdx] at h
  obtain ⟨k, hk, rfl⟩ := h
  rfl

/-! ## One instruction -/

def size (m : Machine) : Nat := m.stack.length + m.altStack.length

theorem checkSize_eq_ok {m m' : Machine} :
    m.checkSize = .ok m' ↔ m' = m ∧ m.size ≤ maxStackSize := by
  unfold checkSize size
  split
  · simp; omega
  · simp [eq_comm]; omega

/-- An instruction that takes effect on a machine, before the items are counted. -/
def effect (env : Env) (m : Machine) (pc : Nat) (i : Instruction) : Except ScriptError Machine :=
  match i.data with
  | some data => m.pushData i data
  | none => m.perform env pc i.opcode.operation

/-- Whether an instruction takes effect on the machine. -/
def obeys (m : Machine) (i : Instruction) : Bool := m.executing || i.opcode.operation.isConditional

theorem step_of_refused {m : Machine} {pc : Nat} {i : Instruction} {e : ScriptError}
    (h : i.refused? = some e) : m.step env pc i = .error e := by
  rw [step, h]

theorem step_of_skipped {m : Machine} {pc : Nat} {i : Instruction} (h : i.refused? = none)
    (skipped : m.obeys i = false) : m.step env pc i = .ok m := by
  rw [obeys, Bool.or_eq_false_iff] at skipped
  rw [step, h]
  simp [skipped.1, skipped.2]

theorem step_of_obeys {m : Machine} {pc : Nat} {i : Instruction} (h : i.refused? = none)
    (obeyed : m.obeys i = true) : m.step env pc i = m.effect env pc i >>= checkSize := by
  rw [obeys, Bool.or_eq_true] at obeyed
  rw [step, h, effect]
  have : (!m.executing && !i.opcode.operation.isConditional) = false := by
    rcases obeyed with h | h <;> simp [h]
  simp only [this, Bool.false_eq_true, if_false]
  cases i.data <;> rfl

/-- All that a successful instruction can do: nothing where it is skipped, else its effect, which
leaves no more items than there may be. -/
theorem step_eq_ok {m m' : Machine} {pc : Nat} {i : Instruction} :
    m.step env pc i = .ok m' ↔ i.refused? = none ∧
      (m.obeys i = false ∧ m' = m ∨
        m.obeys i = true ∧ m.effect env pc i = .ok m' ∧ m'.size ≤ maxStackSize) := by
  cases h : i.refused? with
  | some e => simp [step_of_refused h]
  | none =>
    cases obeyed : m.obeys i with
    | false => simp [step_of_skipped h obeyed, eq_comm]
    | true =>
      rw [step_of_obeys h obeyed]
      cases effect env m pc i with
      | error e =>
        show Except.error e = .ok m' ↔ _
        simp
      | ok m₁ =>
        show m₁.checkSize = .ok m' ↔ _
        rw [checkSize_eq_ok]
        simp only [Except.ok.injEq, true_and, reduceCtorEq, false_and, false_or]
        constructor
        · rintro ⟨rfl, small⟩
          exact ⟨rfl, small⟩
        · rintro ⟨rfl, small⟩
          exact ⟨rfl, small⟩

/-- What holds at the first boundary and is kept by every instruction holds at all boundaries. -/
theorem visits_induction {P : Machine → Prop} {m : Machine} {pc : Nat} {is : List Instruction}
    (first : P m)
    (next : ∀ m pc i m', i ∈ is → P m → m.step env pc i = .ok m' → P m') :
    ∀ m' ∈ m.visits env pc is, P m' := by
  induction is generalizing m pc with
  | nil =>
    intro m' h
    rw [visits, List.mem_singleton] at h
    exact h ▸ first
  | cons i rest ih =>
    intro m' h
    rw [visits, List.mem_cons] at h
    rcases h with rfl | h
    · exact first
    · cases hstep : m.step env pc i with
      | error e => rw [hstep] at h; cases h
      | ok m₁ =>
        rw [hstep] at h
        exact ih (next m pc i m₁ List.mem_cons_self first hstep)
          (fun m pc j m' hj => next m pc j m' (List.mem_cons_of_mem _ hj)) m' h

/-! ## Positions of a run -/

theorem getElem?_visits_zero (m : Machine) (pc : Nat) (is : List Instruction) :
    (m.visits env pc is)[0]? = some m := by
  cases is <;> rfl

/-- The machine at a boundary comes out of the one before it. -/
theorem getElem?_visits_succ (m : Machine) (pc : Nat) (is : List Instruction) (k : Nat) :
    (m.visits env pc is)[k + 1]? =
      (m.visits env pc is)[k]?.bind fun a => is[k]?.bind fun i =>
        (a.step env (pc + k) i).toOption := by
  induction is generalizing m pc k with
  | nil => cases k <;> rfl
  | cons i rest ih =>
    rw [visits, List.getElem?_cons_succ]
    cases k with
    | zero =>
      rw [List.getElem?_cons_zero, List.getElem?_cons_zero, Option.bind_some, Option.bind_some]
      cases m.step env pc i with
      | error e => rfl
      | ok m₁ => exact getElem?_visits_zero m₁ (pc + 1) rest
    | succ k =>
      rw [List.getElem?_cons_succ, List.getElem?_cons_succ]
      cases m.step env pc i with
      | error e => rfl
      | ok m₁ => simp only [ih, Nat.add_assoc, Nat.add_comm 1]

/-- What holds at the first boundary and is carried over every instruction holds at each boundary,
also where it depends on how far the boundary is. -/
theorem getElem?_visits_induction {P : Nat → Machine → Prop} {m : Machine} {pc : Nat}
    {is : List Instruction} (first : P 0 m)
    (next : ∀ (k : Nat) (a : Machine) (i : Instruction) (b : Machine),
      (m.visits env pc is)[k]? = some a →
      is[k]? = some i → P k a → a.step env (pc + k) i = .ok b → P (k + 1) b)
    {k : Nat} {a : Machine} (visited : (m.visits env pc is)[k]? = some a) : P k a := by
  induction k generalizing a with
  | zero =>
    rw [getElem?_visits_zero] at visited
    exact Option.some.inj visited ▸ first
  | succ k ih =>
    rw [getElem?_visits_succ, Option.bind_eq_some_iff] at visited
    obtain ⟨b, before, visited⟩ := visited
    obtain ⟨i, here, stepped⟩ := Option.bind_eq_some_iff.mp visited
    cases step : b.step env (pc + k) i with
    | error e =>
      rw [step] at stepped
      cases stepped
    | ok c =>
      rw [step] at stepped
      obtain rfl : c = a := Option.some.inj stepped
      exact next k b i c before here (ih before) step

/-- A script that reaches its end leaves the machine that it shows there. -/
theorem execute_of_visits_end {m a : Machine} {pc : Nat} {is : List Instruction}
    (h : (m.visits env pc is)[is.length]? = some a) : m.execute env pc is = .ok a := by
  induction is generalizing m pc with
  | nil =>
    rw [Option.some.inj h.symm]
    rfl
  | cons i rest ih =>
    rw [visits, List.length_cons, List.getElem?_cons_succ] at h
    rw [execute]
    cases hstep : m.step env pc i with
    | error e => rw [hstep] at h; cases h
    | ok m₁ => rw [hstep] at h; exact ih h

/-- A script that reaches an instruction which fails ends there. -/
theorem execute_of_step_error {m a : Machine} {pc k : Nat} {is : List Instruction} {i : Instruction}
    {e : ScriptError} (ha : (m.visits env pc is)[k]? = some a) (hi : is[k]? = some i)
    (h : a.step env (pc + k) i = .error e) : m.execute env pc is = .error (e, pc + k) := by
  induction is generalizing m pc k with
  | nil => cases hi
  | cons j rest ih =>
    cases k with
    | zero =>
      obtain rfl : j = i := Option.some.inj hi
      obtain rfl : m = a := Option.some.inj ha
      rw [Nat.add_zero] at h
      rw [execute, h]
      rfl
    | succ k =>
      rw [visits, List.getElem?_cons_succ] at ha
      rw [execute]
      cases hstep : m.step env pc j with
      | error e => rw [hstep] at ha; cases ha
      | ok m₁ =>
        rw [hstep] at ha
        have next : pc + (k + 1) = pc + 1 + k := by omega
        rw [next] at h ⊢
        exact ih ha hi h

/-- A script reaches its end or an instruction that fails. -/
theorem end_or_step_error (env : Env) (m : Machine) (pc : Nat) (is : List Instruction) :
    (∃ a, (m.visits env pc is)[is.length]? = some a) ∨
      ∃ (k : Nat) (a : Machine) (i : Instruction) (e : ScriptError),
        (m.visits env pc is)[k]? = some a ∧ is[k]? = some i
          ∧ a.step env (pc + k) i = .error e := by
  induction is generalizing m pc with
  | nil => exact .inl ⟨m, rfl⟩
  | cons i rest ih =>
    cases hstep : m.step env pc i with
    | error e => exact .inr ⟨0, m, i, e, rfl, rfl, hstep⟩
    | ok m₁ =>
      rw [visits, hstep]
      rcases ih m₁ (pc + 1) with ⟨a, ha⟩ | ⟨k, a, j, e, ha, hj, he⟩
      · exact .inl ⟨a, ha⟩
      · refine .inr ⟨k + 1, a, j, e, ha, hj, ?_⟩
        rw [← he]
        congr 1
        omega

end TaprootLab.Machine
