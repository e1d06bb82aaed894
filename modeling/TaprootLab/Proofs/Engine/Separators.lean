import TaprootLab.Proofs.Engine.Execution
import TaprootLab.Proofs.Engine.Operations

/-!
# The code separator executed last

A signature in a leaf commits to the position of the code separator that was executed last. The
machine carries that position along. Here it is read off the course of the script: `lastSeparator?`
looks at the instructions behind which a boundary stands, and the machine at the boundary agrees
with it (`separator_of_visits`).
-/

namespace TaprootLab

theorem Opcode.byte_of_codeSeparator {op : Opcode} (h : op.operation = .codeSeparator) :
    op.byte = 0xab := by
  rw [operation] at h
  split at h
  · cases h
  · split at h
    all_goals first
      | assumption
      | cases h

theorem Opcode.operation_of_codeSeparator {op : Opcode} (h : op.byte = 0xab) :
    op.operation = .codeSeparator := by
  obtain ⟨b⟩ := op
  cases h
  rfl

namespace Machine

/-- Whether an instruction is a code separator that takes effect. -/
def separates (m : Machine) (i : Instruction) : Bool :=
  m.executing && i.data.isNone && i.opcode.byte == 0xab

/-- The position of the last code separator that is executed before boundary `k` of a script. -/
def lastSeparator? (env : Env) (m : Machine) (is : List Instruction) : (k : Nat) → Option Nat
  | 0 => none
  | k + 1 =>
    match (m.visits env 0 is)[k]?, is[k]? with
    | some a, some i => if a.separates i then some k else m.lastSeparator? env is k
    | _, _ => m.lastSeparator? env is k

variable {env : Env} {m m' : Machine} {pc : Nat}

theorem separator_of_perform {op : Operation} (other : op ≠ .codeSeparator)
    (h : m.perform env pc op = .ok m') : m'.separator = m.separator := by
  cases onStacks : op.onStacks with
  | true =>
    obtain ⟨f, hf⟩ := @exists_perform_eq env pc op onStacks
    have performed : m.perform env pc op = _ := hf env.checkSignature m
    rw [h] at performed
    cases applied : f m.stack m.altStack with
    | error e =>
      rw [applied] at performed
      cases performed
    | ok r =>
      rw [applied] at performed
      cases performed
      rfl
  | false =>
    cases op with
    | codeSeparator => exact (other rfl).elim
    | checkSig use =>
      obtain ⟨stack, left, rfl⟩ := exists_of_useSignature h
      rfl
    | openBranch negated =>
      rw [perform, openBranch] at h
      split at h
      · obtain ⟨_, -, h⟩ := Except.bind_eq_ok_iff.mp h
        obtain ⟨_, -, h⟩ := Except.bind_eq_ok_iff.mp h
        cases h
        rfl
      · cases h
        rfl
    | elseBranch | closeBranch =>
      obtain ⟨stack, altStack, conditions, separator, _⟩ := m
      cases conditions <;> cases h
      rfl
    | _ => cases onStacks

/-- An instruction sets the position if it is a code separator that takes effect, and else keeps
it. -/
theorem separator_of_step {i : Instruction} (h : m.step env pc i = .ok m') :
    m'.separator = if m.separates i then some pc else m.separator := by
  obtain ⟨-, ⟨skipped, rfl⟩ | ⟨obeyed, h, -⟩⟩ := step_eq_ok.mp h
  · rw [obeys, Bool.or_eq_false_iff] at skipped
    simp [separates, skipped.1]
  · rw [effect] at h
    cases hdata : i.data with
    | some data =>
      rw [hdata] at h
      simp only [pushData] at h
      split at h
      · cases h
      · split at h
        · cases h
        · cases h
          simp [separates, hdata, withStack]
    | none =>
      rw [hdata] at h
      by_cases separator : i.opcode.byte = 0xab
      · have operation := Opcode.operation_of_codeSeparator separator
        rw [obeys, operation, show Operation.codeSeparator.isConditional = false from rfl,
          Bool.or_false] at obeyed
        rw [operation] at h
        cases h
        simp [separates, obeyed, hdata, separator]
      · have kept := separator_of_perform (fun h => separator (Opcode.byte_of_codeSeparator h)) h
        simp [separates, separator, kept]

/-- What a machine carries as the last position is the last position. -/
theorem separator_of_visits {is : List Instruction} {k : Nat} (fresh : m.separator = none)
    (visited : (m.visits env 0 is)[k]? = some m') : m'.separator = m.lastSeparator? env is k := by
  refine getElem?_visits_induction
    (P := fun k a => a.separator = m.lastSeparator? env is k) fresh ?_ visited
  intro k a i b before here last step
  simp only [lastSeparator?, before, here]
  rw [separator_of_step step, last, Nat.zero_add]

end Machine

end TaprootLab
