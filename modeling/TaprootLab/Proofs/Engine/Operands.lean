import TaprootLab.Proofs.Engine.Execution
import TaprootLab.Proofs.Except
import TaprootLab.Proofs.Script.Number

/-!
# Operands

An item is taken for a number if no shorter item has the same value and if it is not too long. Of an
item that is neither, the length is not even looked at (`operand_eq_ok_iff`,
`operand_eq_error_iff`).

Behind an operation the items on both stacks are counted (`Machine.Counted`). An operation of which
it is known when it has an effect, and when something is at fault, is then known as an instruction
(`Machine.counted_checkSize`).
-/

namespace TaprootLab

/-- The shortest item of a number. -/
structure Encodes (item : Bytes) (n : Int) : Prop where
  value : ScriptNumber.value item = n
  shortest : ∀ other, ScriptNumber.value other = n → item.length ≤ other.length

/-- An item that stands for a number in arithmetic. -/
structure Operand (item : Bytes) (n : Int) : Prop extends Encodes item n where
  short : item.length ≤ 4

/-- Why an item is no operand. -/
inductive OperandFault (item : Bytes) : ScriptError → Prop
  | padded {other : Bytes} (same : ScriptNumber.value other = ScriptNumber.value item)
      (shorter : other.length < item.length) : OperandFault item .minimalData
  | long {n : Int} (encodes : Encodes item n) (long : 4 < item.length) :
      OperandFault item .numOverflow

section
variable {item : Bytes} {n : Int}

theorem encodes_iff : Encodes item n ↔ item = ScriptNumber.encode n := by
  constructor
  · rintro ⟨rfl, shortest⟩
    exact (ScriptNumber.encode_value (ScriptNumber.isMinimal_iff.mpr shortest)).symm
  · rintro rfl
    have least := ScriptNumber.isMinimal_iff.mp (ScriptNumber.isMinimal_encode n)
    rw [ScriptNumber.value_encode] at least
    exact ⟨ScriptNumber.value_encode n, least⟩

theorem encodes_encode (n : Int) : Encodes (ScriptNumber.encode n) n := encodes_iff.mpr rfl

theorem encodes_value_iff : Encodes item (ScriptNumber.value item) ↔
    ScriptNumber.isMinimal item = true := by
  rw [ScriptNumber.isMinimal_iff]
  exact ⟨Encodes.shortest, fun shortest => ⟨rfl, shortest⟩⟩

theorem Encodes.isMinimal (encodes : Encodes item n) : ScriptNumber.isMinimal item = true := by
  rw [← encodes_value_iff, encodes.value]
  exact encodes

theorem encode_truthNumber (b : Bool) :
    ScriptNumber.encode (truthNumber b) = ScriptNumber.ofBool b := by
  have encodes : Encodes (ScriptNumber.ofBool b) (truthNumber b) := by
    cases b <;> exact encodes_value_iff.mpr rfl
  exact (encodes_iff.mp encodes).symm

/-- Reading an item, in terms of what it encodes. -/
theorem numberOfSize_cases (size : Nat) (item : Bytes) :
    (∃ n, Encodes item n ∧ item.length ≤ size ∧ numberOfSize size item = .ok n)
      ∨ (∃ n, Encodes item n ∧ size < item.length ∧ numberOfSize size item = .error .numOverflow)
      ∨ ScriptNumber.isMinimal item = false ∧ numberOfSize size item = .error .minimalData := by
  rw [numberOfSize]
  cases minimal : ScriptNumber.isMinimal item with
  | false => exact .inr (.inr ⟨rfl, rfl⟩)
  | true =>
    have encodes := encodes_value_iff.mpr minimal
    rw [Bool.not_true, if_neg Bool.false_ne_true, ScriptNumber.decode?]
    by_cases long : size < item.length
    · rw [if_pos long]
      exact .inr (.inl ⟨_, encodes, long, rfl⟩)
    · rw [if_neg long]
      exact .inl ⟨_, encodes, Nat.not_lt.mp long, rfl⟩

theorem numberOfSize_eq_ok {size : Nat} :
    numberOfSize size item = .ok n ↔ Encodes item n ∧ item.length ≤ size := by
  rcases numberOfSize_cases size item with
    ⟨k, encodes, short, read⟩ | ⟨k, encodes, long, read⟩ | ⟨other, read⟩
  · rw [read, Except.ok.injEq]
    constructor
    · rintro rfl
      exact ⟨encodes, short⟩
    · rintro ⟨same, -⟩
      exact encodes.value.symm.trans same.value
  · rw [read]
    exact ⟨nofun, fun ⟨_, short⟩ => absurd short (Nat.not_le.mpr long)⟩
  · rw [read]
    refine ⟨nofun, fun ⟨encodes, _⟩ => ?_⟩
    cases other.symm.trans encodes.isMinimal

theorem operand_eq_ok_iff : operand item = .ok n ↔ Operand item n :=
  numberOfSize_eq_ok.trans ⟨fun ⟨encodes, short⟩ => ⟨encodes, short⟩,
    fun h => ⟨h.toEncodes, h.short⟩⟩

theorem operand_eq_error_iff {e : ScriptError} : operand item = .error e ↔ OperandFault item e := by
  rw [operand]
  constructor
  · intro refused
    rcases numberOfSize_cases ScriptNumber.operandSize item with
      ⟨k, -, -, read⟩ | ⟨k, encodes, long, read⟩ | ⟨other, read⟩
    · cases read.symm.trans refused
    · cases read.symm.trans refused
      exact .long encodes long
    · cases read.symm.trans refused
      exact .padded (ScriptNumber.value_encode _) (ScriptNumber.length_encode_value_lt other)
  · rintro (⟨same, shorter⟩ | ⟨encodes, long⟩)
    · have other : ScriptNumber.isMinimal item = false := by
        rw [← Bool.not_eq_true, ScriptNumber.isMinimal_iff]
        exact fun least => Nat.not_le.mpr shorter (least _ same)
      rw [numberOfSize, other]
      rfl
    · have cut : ScriptNumber.decode? ScriptNumber.operandSize item = none := if_pos long
      rw [numberOfSize, encodes.isMinimal, Bool.not_true, if_neg Bool.false_ne_true, cut]

/-- An item is an operand or there is one reason why it is not. -/
theorem operand_or_fault (item : Bytes) : (∃ n, Operand item n) ∨ ∃ e, OperandFault item e := by
  cases read : operand item with
  | ok n => exact .inl ⟨n, operand_eq_ok_iff.mp read⟩
  | error e => exact .inr ⟨e, operand_eq_error_iff.mp read⟩

theorem popNumber_cons (item : Bytes) (rest : List Bytes) :
    popNumber (item :: rest) = (operand item).map fun n => (n, rest) := by
  rw [popNumber, pop, Except.ok_bind]
  show (operand item >>= fun n => pure (n, rest)) = _
  cases operand item <;> rfl

/-- What an encoded number may be used for depends on its size only. -/
theorem operand_encode_iff : Operand (ScriptNumber.encode n) n ↔ n.natAbs < 2 ^ 31 := by
  rw [← ScriptNumber.length_encode_le_iff n 4]
  exact ⟨Operand.short, fun short => ⟨encodes_encode n, short⟩⟩

theorem Operand.natAbs_lt (number : Operand item n) : n.natAbs < 2 ^ 31 := by
  rw [← operand_encode_iff, ← encodes_iff.mp number.toEncodes]
  exact number

end

/-- An input under which no signature is valid. -/
def Env.unsigned : Env := ⟨2, 0, 0, fun budget _ _ _ => .ok (false, budget)⟩

namespace Machine

variable {env : Env} {m : Machine} {pc : Nat} {i : Instruction}

theorem checkSize_eq_error {e : ScriptError} :
    m.checkSize = .error e ↔ maxStackSize < m.size ∧ e = .stackSize := by
  unfold checkSize size
  split <;> simp [*, eq_comm]

/-- An operation has its effect if nothing is at fault, and fails behind it if there are too many
items then. -/
structure Counted (effect : Machine → Prop) (fault : ScriptError → Prop)
    (outcome : Except ScriptError Machine) :
    Prop where
  passes : ∀ m', outcome = .ok m' ↔ effect m' ∧ m'.stack.length + m'.altStack.length ≤ 1000
  fails : ∀ e, outcome = .error e ↔
    fault e ∨ e = .stackSize ∧ ∃ m', effect m' ∧ 1000 < m'.stack.length + m'.altStack.length

theorem counted_checkSize {effect : Machine → Prop} {fault : ScriptError → Prop}
    {done : Except ScriptError Machine} (passes : ∀ m', done = .ok m' ↔ effect m')
    (fails : ∀ e, done = .error e ↔ fault e) :
    Counted effect fault (done >>= checkSize) where
  passes m' := by
    rw [Except.bind_eq_ok_iff, ← passes]
    simp only [checkSize_eq_ok]
    constructor
    · rintro ⟨m₁, result, rfl, small⟩
      exact ⟨result, small⟩
    · rintro ⟨result, small⟩
      exact ⟨m', result, rfl, small⟩
  fails e := by
    simp only [← passes, ← fails]
    cases done with
    | error e' => simp
    | ok m₁ =>
      rw [Except.ok_bind, checkSize_eq_error]
      constructor
      · rintro ⟨large, rfl⟩
        exact .inr ⟨rfl, m₁, rfl, large⟩
      · rintro (refused | ⟨rfl, _, result, large⟩)
        · cases refused
        · cases result
          exact ⟨large, rfl⟩

/-- An executed opcode performs its operation, and then the items are counted. -/
theorem step_of_operation {op : Operation} (bare : i.data = none)
    (operation : i.opcode.operation = op) (executed : m.executing = true)
    (allowed : op ≠ .versionBranch) (allowed' : op ≠ .checkMultiSig) :
    m.step env pc i = m.perform env pc op >>= checkSize := by
  have unrefused : i.refused? = none := by
    rw [Instruction.refused?, bare, operation]
    cases op with
    | versionBranch => exact (allowed rfl).elim
    | checkMultiSig => exact (allowed' rfl).elim
    | _ => rfl
  rw [step_of_obeys unrefused (by rw [obeys, executed, Bool.true_or]), effect, bare, ← operation]

end Machine

end TaprootLab
