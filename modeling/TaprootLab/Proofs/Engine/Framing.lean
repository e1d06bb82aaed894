import TaprootLab.Proofs.Engine.Execution
import TaprootLab.Proofs.Engine.Operations
import TaprootLab.Proofs.Script.Decoding

/-!
# Items below those a script needs

Operations take their operands from the top of the stack and count places from there, so a script
that succeeds on some items does the same if more items lie below them (`run_above`). Two things
look further: the opcode that pushes the depth of the stack, which a script must not contain, and
the limit on the number of items, which has to leave room.

Each operation is framed by itself; instructions and scripts follow from the operations.
-/

namespace TaprootLab

variable {base stack rest : List Bytes}

/-! ## Operands -/

theorem pop_append {item : Bytes} (h : pop stack = .ok (item, rest)) :
    pop (stack ++ base) = .ok (item, rest ++ base) := by
  cases stack with
  | nil => cases h
  | cons x s =>
    cases h
    rfl

theorem popNumber_append {n : Int} (h : popNumber stack = .ok (n, rest)) :
    popNumber (stack ++ base) = .ok (n, rest ++ base) := by
  obtain ⟨⟨item, _⟩, popped, h⟩ := Except.bind_eq_ok_iff.mp h
  obtain ⟨_, read, h⟩ := Except.bind_eq_ok_iff.mp h
  cases h
  simp only [popNumber, pop_append popped, Except.ok_bind, read]
  rfl

theorem popTwo_append {a b : Bytes} (h : popTwo stack = .ok (a, b, rest)) :
    popTwo (stack ++ base) = .ok (a, b, rest ++ base) := by
  obtain ⟨_, upper, h⟩ := Except.bind_eq_ok_iff.mp h
  obtain ⟨_, lower, h⟩ := Except.bind_eq_ok_iff.mp h
  cases h
  simp only [popTwo, pop_append upper, Except.ok_bind, pop_append lower]
  rfl

theorem popTwoNumbers_append {a b : Int} (h : popTwoNumbers stack = .ok (a, b, rest)) :
    popTwoNumbers (stack ++ base) = .ok (a, b, rest ++ base) := by
  obtain ⟨_, upper, h⟩ := Except.bind_eq_ok_iff.mp h
  obtain ⟨_, lower, h⟩ := Except.bind_eq_ok_iff.mp h
  cases h
  simp only [popTwoNumbers, popNumber_append upper, Except.ok_bind, popNumber_append lower]
  rfl

/-- Places are counted from the top, and a place that is there does not move. -/
theorem depthOf_append {n : Int} {item : Bytes} {i : Nat} (base : List Bytes)
    (h : depthOf n stack = .ok (item, i)) :
    i < stack.length ∧ depthOf n (stack ++ base) = .ok (item, i) := by
  rw [depthOf] at h ⊢
  split at h
  · cases h
  · rename_i nonneg
    rw [if_neg nonneg]
    split at h
    · rename_i found
      cases h
      obtain ⟨inside, -⟩ := List.getElem?_eq_some_iff.mp found
      rw [List.getElem?_append_left inside, found]
      exact ⟨inside, rfl⟩
    · cases h

theorem StackOp.apply_append {op : StackOp} {alt stack' alt' : List Bytes} (depthless : op ≠ .depth)
    (h : op.apply stack alt = .ok (stack', alt')) :
    op.apply (stack ++ base) alt = .ok (stack' ++ base, alt') := by
  cases op with
  | depth => exact (depthless rfl).elim
  | pick =>
    obtain ⟨⟨n, s⟩, popped, h⟩ := Except.bind_eq_ok_iff.mp h
    obtain ⟨⟨item, i⟩, found, h⟩ := Except.bind_eq_ok_iff.mp h
    cases h
    simp only [apply, popNumber_append popped, Except.ok_bind, (depthOf_append base found).2]
    rfl
  | roll =>
    obtain ⟨⟨n, s⟩, popped, h⟩ := Except.bind_eq_ok_iff.mp h
    obtain ⟨⟨item, i⟩, found, h⟩ := Except.bind_eq_ok_iff.mp h
    cases h
    obtain ⟨inside, found⟩ := depthOf_append base found
    rw [List.cons_append, ← List.eraseIdx_append_of_lt_length inside]
    simp only [apply, popNumber_append popped, Except.ok_bind, found]
    rfl
  | ifDup =>
    simp only [apply] at h
    split at h <;> cases h
    rw [List.cons_append, apply]
    split <;> rfl
  | _ =>
    simp only [apply] at h
    split at h <;> cases h
    rfl

theorem checkLockTime_append {env : Env} (h : checkLockTime env stack = .ok ()) :
    checkLockTime env (stack ++ base) = .ok () := by
  obtain ⟨_, popped, h⟩ := Except.bind_eq_ok_iff.mp h
  rw [checkLockTime, pop_append popped]
  exact h

theorem checkSequence_append {env : Env} (h : checkSequence env stack = .ok ()) :
    checkSequence env (stack ++ base) = .ok () := by
  obtain ⟨_, popped, h⟩ := Except.bind_eq_ok_iff.mp h
  rw [checkSequence, pop_append popped]
  exact h

/-! ## Operations -/

namespace Machine

/-- The machine with its stack on top of other items. -/
def above (m : Machine) (base : List Bytes) : Machine := m.withStack (m.stack ++ base)

variable {env : Env} {m m' : Machine} {pc : Nat}

@[simp] theorem stack_above : (m.above base).stack = m.stack ++ base := rfl

@[simp] theorem altStack_above : (m.above base).altStack = m.altStack := rfl

theorem size_above : (m.above base).size = m.stack.length + base.length + m.altStack.length := by
  rw [size, stack_above, altStack_above, List.length_append]

theorem checkSignature_above {signature key : Bytes} {valid : Bool}
    (h : m.checkSignature env signature key = .ok (valid, m')) :
    (m.above base).checkSignature env signature key = .ok (valid, m'.above base) := by
  rw [checkSignature] at h ⊢
  split at h
  · cases h
  · rename_i nonempty
    obtain ⟨_, checked, h⟩ := Except.bind_eq_ok_iff.mp h
    cases h
    rw [if_neg nonempty]
    show env.checkSignature m.budget m.separator signature key >>= _ = _
    rw [checked]
    rfl

theorem useSignature_above {use : SignatureUse} (h : m.useSignature env use = .ok m') :
    (m.above base).useSignature env use = .ok (m'.above base) := by
  cases use with
  | push =>
    obtain ⟨_, first, h⟩ := Except.bind_eq_ok_iff.mp h
    obtain ⟨_, second, h⟩ := Except.bind_eq_ok_iff.mp h
    obtain ⟨_, checked, h⟩ := Except.bind_eq_ok_iff.mp h
    cases h
    simp only [useSignature, stack_above, pop_append first, pop_append second,
      checkSignature_above checked, Except.ok_bind]
    rfl
  | verify =>
    obtain ⟨_, first, h⟩ := Except.bind_eq_ok_iff.mp h
    obtain ⟨_, second, h⟩ := Except.bind_eq_ok_iff.mp h
    obtain ⟨⟨valid, _⟩, checked, h⟩ := Except.bind_eq_ok_iff.mp h
    cases valid <;> cases h
    simp only [useSignature, stack_above, pop_append first, pop_append second,
      checkSignature_above checked, Except.ok_bind]
    rfl
  | add =>
    obtain ⟨_, first, h⟩ := Except.bind_eq_ok_iff.mp h
    obtain ⟨_, second, h⟩ := Except.bind_eq_ok_iff.mp h
    obtain ⟨_, third, h⟩ := Except.bind_eq_ok_iff.mp h
    obtain ⟨_, checked, h⟩ := Except.bind_eq_ok_iff.mp h
    cases h
    simp only [useSignature, stack_above, pop_append first, popNumber_append second,
      pop_append third, checkSignature_above checked, Except.ok_bind]
    rfl

theorem openBranch_above {negated : Bool} (h : m.openBranch negated = .ok m') :
    (m.above base).openBranch negated = .ok (m'.above base) := by
  rw [openBranch] at h ⊢
  show (if m.executing then _ else _) = _
  split at h
  · rename_i executing
    obtain ⟨_, popped, h⟩ := Except.bind_eq_ok_iff.mp h
    obtain ⟨_, read, h⟩ := Except.bind_eq_ok_iff.mp h
    cases h
    simp only [if_pos executing, stack_above, pop_append popped, Except.ok_bind, read]
    rfl
  · rename_i skipped
    cases h
    rw [if_neg skipped]
    rfl

theorem elseBranch_above (h : m.elseBranch = .ok m') :
    (m.above base).elseBranch = .ok (m'.above base) := by
  obtain ⟨_, _, conditions, _, _⟩ := m
  cases conditions <;> cases h
  rfl

theorem closeBranch_above (h : m.closeBranch = .ok m') :
    (m.above base).closeBranch = .ok (m'.above base) := by
  obtain ⟨_, _, conditions, _, _⟩ := m
  cases conditions <;> cases h
  rfl

/-- An operation that succeeds does the same above other items. -/
theorem perform_above {op : Operation} (depthless : op ≠ .stack .depth)
    (h : m.perform env pc op = .ok m') :
    (m.above base).perform env pc op = .ok (m'.above base) := by
  cases op with
  | upgradableNop | giveUp | checkMultiSig | versionBranch | invalid => cases h
  | number n | nop | codeSeparator =>
    cases h
    rfl
  | openBranch negated => exact openBranch_above h
  | elseBranch => exact elseBranch_above h
  | closeBranch => exact closeBranch_above h
  | checkSig use => exact useSignature_above h
  | lockTimeVerify =>
    obtain ⟨_, passed, h⟩ := Except.bind_eq_ok_iff.mp h
    cases h
    rw [perform, stack_above, checkLockTime_append passed]
    rfl
  | sequenceVerify =>
    obtain ⟨_, passed, h⟩ := Except.bind_eq_ok_iff.mp h
    cases h
    rw [perform, stack_above, checkSequence_append passed]
    rfl
  | stack op =>
    obtain ⟨_, applied, h⟩ := Except.bind_eq_ok_iff.mp h
    cases h
    have other : op ≠ .depth := fun h => depthless (congrArg Operation.stack h)
    rw [perform, stack_above, altStack_above, StackOp.apply_append other applied]
    rfl
  | verify =>
    obtain ⟨⟨_, _⟩, popped, h⟩ := Except.bind_eq_ok_iff.mp h
    dsimp only at h
    split at h <;> cases h
    rename_i truthy
    simp only [perform, stack_above, pop_append popped, Except.ok_bind, if_pos truthy]
    rfl
  | equal =>
    obtain ⟨_, popped, h⟩ := Except.bind_eq_ok_iff.mp h
    cases h
    rw [perform, stack_above, popTwo_append popped]
    rfl
  | equalVerify =>
    obtain ⟨⟨_, _⟩, popped, h⟩ := Except.bind_eq_ok_iff.mp h
    dsimp only at h
    split at h <;> cases h
    rename_i same
    simp only [perform, stack_above, popTwo_append popped, Except.ok_bind, if_pos same]
    rfl
  | unary op | digest op =>
    obtain ⟨_, popped, h⟩ := Except.bind_eq_ok_iff.mp h
    cases h
    first
      | rw [perform, stack_above, popNumber_append popped]
      | rw [perform, stack_above, pop_append popped]
    rfl
  | binary op =>
    obtain ⟨_, popped, h⟩ := Except.bind_eq_ok_iff.mp h
    cases h
    rw [perform, stack_above, popTwoNumbers_append popped]
    rfl
  | numEqualVerify =>
    obtain ⟨⟨_, _⟩, popped, h⟩ := Except.bind_eq_ok_iff.mp h
    dsimp only at h
    split at h <;> cases h
    rename_i same
    simp only [perform, stack_above, popTwoNumbers_append popped, Except.ok_bind, if_pos same]
    rfl
  | within =>
    obtain ⟨_, bounds, h⟩ := Except.bind_eq_ok_iff.mp h
    obtain ⟨_, popped, h⟩ := Except.bind_eq_ok_iff.mp h
    cases h
    simp only [perform, stack_above, popTwoNumbers_append bounds, popNumber_append popped,
      Except.ok_bind]
    rfl

/-! ## Instructions and scripts -/

theorem pushData_above {i : Instruction} {data : Bytes} (h : m.pushData i data = .ok m') :
    (m.above base).pushData i data = .ok (m'.above base) := by
  simp only [pushData] at h ⊢
  split at h
  · cases h
  · rename_i whole
    split at h
    · cases h
    · rename_i minimal
      cases h
      rw [if_neg whole, if_neg minimal]
      rfl

theorem effect_above {i : Instruction} (depthless : i.opcode.operation ≠ .stack .depth)
    (h : m.effect env pc i = .ok m') : (m.above base).effect env pc i = .ok (m'.above base) := by
  rw [effect] at h ⊢
  cases data : i.data with
  | none =>
    rw [data] at h
    exact perform_above depthless h
  | some data =>
    rw [data] at h
    exact pushData_above h

/-- An instruction that succeeds does the same above other items, if the machine has room for
them. -/
theorem step_above {i : Instruction} (depthless : i.opcode.operation ≠ .stack .depth)
    (room : (m'.above base).size ≤ maxStackSize) (h : m.step env pc i = .ok m') :
    (m.above base).step env pc i = .ok (m'.above base) := by
  obtain ⟨allowed, ⟨skipped, rfl⟩ | ⟨obeyed, effective, -⟩⟩ := step_eq_ok.mp h
  · exact step_eq_ok.mpr ⟨allowed, .inl ⟨skipped, rfl⟩⟩
  · exact step_eq_ok.mpr ⟨allowed, .inr ⟨obeyed, effect_above depthless effective, room⟩⟩

theorem execute_above {is : List Instruction}
    (depthless : ∀ i ∈ is, i.opcode.operation ≠ .stack .depth)
    (room : ∀ a ∈ m.visits env pc is, (a.above base).size ≤ maxStackSize)
    (h : m.execute env pc is = .ok m') :
    (m.above base).execute env pc is = .ok (m'.above base) ∧
      (m.above base).visits env pc is = (m.visits env pc is).map (above · base) := by
  induction is generalizing m pc with
  | nil =>
    cases h
    exact ⟨rfl, rfl⟩
  | cons i rest ih =>
    rw [List.forall_mem_cons] at depthless
    rw [execute] at h
    cases hstep : m.step env pc i with
    | error e =>
      rw [hstep] at h
      cases h
    | ok m₁ =>
      simp only [visits, hstep, List.forall_mem_cons] at h room
      -- the machine behind the instruction is shown at the next boundary
      have shown : m₁ ∈ m₁.visits env (pc + 1) rest :=
        List.mem_of_getElem? (getElem?_visits_zero m₁ (pc + 1) rest)
      obtain ⟨result, shows⟩ := ih depthless.2 room.2 h
      simp only [execute, visits, step_above depthless.1 (room.2 m₁ shown) hstep, hstep,
        List.map_cons, shows]
      exact ⟨result, trivial⟩

end Machine

theorem Opcode.byte_of_depth {op : Opcode} (h : op.operation = .stack .depth) : op.byte = 0x74 := by
  rw [operation] at h
  split at h
  · cases h
  · split at h
    all_goals first
      | assumption
      | cases h

open Machine

/-- **Frame rule.** A script that does not ask for the depth of the stack and that succeeds on some
items succeeds on the same items above others, as long as both together are within the limit at
every boundary. It ends with what it left on top of the others, and it shows the same at every
boundary but for them. -/
theorem run_above {env : Env} {scriptIndex : Nat} {script : Bytes} {m m' : Machine}
    {base : List Bytes} (depthless : ∀ i ∈ Script.decode script, i.opcode.byte ≠ 0x74)
    (succeeds : (m.run env scriptIndex script).result = some (.ok m'))
    (room : ∀ b ∈ (m.run env scriptIndex script).boundaries,
      b.stack.length + base.length + b.altStack.length ≤ 1000) :
    ((m.above base).run env scriptIndex script).result = some (.ok (m'.above base)) ∧
      ((m.above base).run env scriptIndex script).boundaries =
        (m.run env scriptIndex script).boundaries.map fun b =>
          { b with stack := b.stack ++ base } := by
  rw [result_run, Option.some_inj, conclude_eq_ok_iff] at succeeds
  obtain ⟨executes, closed⟩ := succeeds
  have within : ∀ a ∈ m.visits env 0 (Script.decode script),
      (a.above base).size ≤ maxStackSize := by
    intro a visited
    obtain ⟨k, hk, rfl⟩ := List.getElem_of_mem visited
    rw [size_above]
    refine room (Machine.boundary _ scriptIndex script k) ?_
    rw [boundaries_run]
    exact List.mem_mapIdx.mpr ⟨k, hk, rfl⟩
  obtain ⟨result, shows⟩ :=
    execute_above (fun i hi h => depthless i hi (Opcode.byte_of_depth h)) within executes
  constructor
  · rw [result_run, result]
    exact congrArg some (conclude_eq_ok_iff.mpr ⟨rfl, closed⟩)
  · rw [boundaries_run, boundaries_run, shows]
    refine List.ext_getElem? fun k => ?_
    simp only [List.getElem?_mapIdx, List.getElem?_map, Option.map_map]
    rfl

/-- A script that fetches the third item below the top and puts it away. -/
def fetchScript : Bytes := [0x7a, 0x6b]

theorem decode_fetchScript :
    Script.decode fetchScript = [⟨⟨0x7a⟩, none, 0, 1, false⟩, ⟨⟨0x6b⟩, none, 1, 1, false⟩] := by
  rw [Script.decode, fetchScript, Script.decodeFrom_of_absent rfl, Script.decodeFrom_of_absent rfl,
    Script.decodeFrom_nil]

def trustingEnv : Env := ⟨2, 0, 0, fun budget _ _ _ => .ok (true, budget)⟩

/-- The place is counted from the top, whatever lies below. -/
theorem run_above_fetchScript :
    ((start ([[2], [1], [], [3]] ++ [[9], [8]]) 50).run trustingEnv 2 fetchScript).result =
      some (.ok ⟨[[1], [], [9], [8]], [[3]], [], none, 50⟩) := by
  have succeeds : ((start [[2], [1], [], [3]] 50).run trustingEnv 2 fetchScript).result =
      some (.ok ⟨[[1], []], [[3]], [], none, 50⟩) := by
    rw [result_run, decode_fetchScript]
    rfl
  have shown : ((start [[2], [1], [], [3]] 50).run trustingEnv 2 fetchScript).boundaries =
      [⟨2, 0, fetchScript, [[2], [1], [], [3]], []⟩, ⟨2, 1, fetchScript, [[3], [1], []], []⟩,
        ⟨2, 2, fetchScript, [[1], []], [[3]]⟩] := by
    rw [boundaries_run, decode_fetchScript]
    rfl
  exact (@run_above _ _ _ _ _ [[9], [8]] (by rw [decode_fetchScript]; decide) succeeds
    (by rw [shown]; decide)).1

end TaprootLab
