import TaprootLab.Engine.Machine
import TaprootLab.Proofs.Except

/-!
# What operations read and change

Most operations look at the two stacks and change nothing else (`exists_perform_eq`). What is to be
said of the other fields of a machine is therefore said of conditionals, code separators and
signature checks; of the last, that they change the stack and the budget (`exists_of_useSignature`).
-/

namespace TaprootLab

/-- Whether an operation reads and changes nothing of a machine but its stacks. -/
def Operation.onStacks : Operation → Bool
  | .openBranch _ | .elseBranch | .closeBranch | .codeSeparator | .checkSig _ => false
  | _ => true

namespace Machine

variable {env : Env} {m m' : Machine} {pc : Nat}

/-- An operation on the stacks is a function of the stacks, whoever checks the signatures. -/
theorem exists_perform_eq {op : Operation} (h : op.onStacks = true) :
    ∃ f : List Bytes → List Bytes → Except ScriptError (List Bytes × List Bytes),
      ∀ (check : SignatureCheck) (m : Machine),
        m.perform { env with checkSignature := check } pc op =
          (f m.stack m.altStack).map fun r => { m with stack := r.1, altStack := r.2 } := by
  refine ⟨fun stack altStack =>
    (perform env { start stack 0 with altStack := altStack } pc op).map
      fun m : Machine => (m.stack, m.altStack), fun check m => ?_⟩
  cases op with
  | openBranch negated | elseBranch | closeBranch | codeSeparator | checkSig use => cases h
  | verify | equalVerify | numEqualVerify =>
    simp only [perform, Except.map_bind, Except.map_ite]
    rfl
  | lockTimeVerify | sequenceVerify | stack op | equal | unary op | binary op | within
  | digest op =>
    simp only [perform, Except.map_bind]
    rfl
  | _ => rfl

theorem exists_of_checkSignature {signature key : Bytes} {valid : Bool}
    (h : m.checkSignature env signature key = .ok (valid, m')) :
    ∃ left, m' = { m with budget := left } := by
  rw [checkSignature] at h
  split at h
  · cases h
  · obtain ⟨⟨valid', left⟩, -, h⟩ := Except.bind_eq_ok_iff.mp h
    cases h
    exact ⟨left, rfl⟩

/-- A signature check changes the stack and the budget, and nothing else. -/
theorem exists_of_useSignature {use : SignatureUse} (h : m.useSignature env use = .ok m') :
    ∃ stack left, m' = { m with stack := stack, budget := left } := by
  cases use with
  | push =>
    obtain ⟨_, -, h⟩ := Except.bind_eq_ok_iff.mp h
    obtain ⟨_, -, h⟩ := Except.bind_eq_ok_iff.mp h
    obtain ⟨⟨valid, m₁⟩, checked, h⟩ := Except.bind_eq_ok_iff.mp h
    obtain ⟨left, rfl⟩ := exists_of_checkSignature checked
    cases h
    exact ⟨_, left, rfl⟩
  | verify =>
    obtain ⟨_, -, h⟩ := Except.bind_eq_ok_iff.mp h
    obtain ⟨_, -, h⟩ := Except.bind_eq_ok_iff.mp h
    obtain ⟨⟨valid, m₁⟩, checked, h⟩ := Except.bind_eq_ok_iff.mp h
    obtain ⟨left, rfl⟩ := exists_of_checkSignature checked
    cases valid <;> cases h
    exact ⟨_, left, rfl⟩
  | add =>
    obtain ⟨_, -, h⟩ := Except.bind_eq_ok_iff.mp h
    obtain ⟨_, -, h⟩ := Except.bind_eq_ok_iff.mp h
    obtain ⟨_, -, h⟩ := Except.bind_eq_ok_iff.mp h
    obtain ⟨⟨valid, m₁⟩, checked, h⟩ := Except.bind_eq_ok_iff.mp h
    obtain ⟨left, rfl⟩ := exists_of_checkSignature checked
    cases h
    exact ⟨_, left, rfl⟩

end Machine

end TaprootLab
