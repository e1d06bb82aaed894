import TaprootLab.Proofs.Engine.Execution
import TaprootLab.Proofs.Engine.Operations

/-!
# Machines with different budgets

The budget pays for signature checks and nothing else. Machines that agree up to their budgets
(`bare`) are changed in the same way by every instruction, whatever the budgets and whoever checks
the signatures, as long as the checks that are made are answered the same (`step_bare`).
-/

namespace TaprootLab

/-- What a signature check takes off the stack, if there is enough: the signature and the key. -/
def SignatureUse.operands? : SignatureUse → (stack : List Bytes) → Option (Bytes × Bytes)
  | .push, key :: signature :: _ => some (signature, key)
  | .verify, key :: signature :: _ => some (signature, key)
  | .add, key :: n :: signature :: _ =>
    match operand n with
    | .ok _ => some (signature, key)
    | .error _ => none
  | _, _ => none

theorem Opcode.byte_of_checkSig {op : Opcode} {use : SignatureUse}
    (h : op.operation = .checkSig use) :
    op.byte ∈ [0xac, 0xad, 0xba] := by
  unfold operation at h
  split at h
  · cases h
  · split at h
    all_goals first
      | (rename_i byte; rw [byte]; decide)
      | cases h

namespace Machine

/-- The machine with nothing left to pay for signature checks. -/
def bare (m : Machine) : Machine := { m with budget := 0 }

/-- The signature and the key that an instruction has checked, if it comes to that. -/
def asks? (m : Machine) (i : Instruction) : Option (Bytes × Bytes) :=
  match i.data, i.opcode.operation with
  | none, .checkSig use =>
    if m.executing then (use.operands? m.stack).filter fun (_, key) => !key.isEmpty else none
  | _, _ => none

/-- Whether a check says yes, says no or fails, and with what error; what is left of the budget
aside. -/
def answer (env : Env) (m : Machine) (signature key : Bytes) : Except ScriptError Bool :=
  (env.checkSignature m.budget m.separator signature key).map Prod.fst

variable {env : Env} {check : SignatureCheck} {m m' : Machine} {pc : Nat}

theorem eq_of_bare_eq (h : m.bare = m'.bare) : m' = { m with budget := m'.budget } := by
  obtain ⟨stack, altStack, conditions, separator, budget⟩ := m
  obtain ⟨stack', altStack', conditions', separator', budget'⟩ := m'
  obtain ⟨rfl, rfl, rfl, rfl, -⟩ := Machine.mk.inj h
  rfl

theorem perform_budget (budget : Int) {op : Operation} (h : ∀ use, op ≠ .checkSig use) :
    { m with budget := budget }.perform { env with checkSignature := check } pc op =
      (m.perform env pc op).map fun m => { m with budget := budget } := by
  cases onStacks : op.onStacks with
  | true =>
    obtain ⟨f, hf⟩ := @exists_perform_eq env pc op onStacks
    have performed : m.perform env pc op = _ := hf env.checkSignature m
    rw [hf check, performed]
    cases f m.stack m.altStack <;> rfl
  | false =>
    cases op with
    | checkSig use => exact (h use rfl).elim
    | openBranch negated =>
      simp only [perform, openBranch, Except.map_ite, Except.map_bind]
      rfl
    | elseBranch | closeBranch =>
      obtain ⟨stack, altStack, conditions, separator, _⟩ := m
      cases conditions <;> rfl
    | codeSeparator => rfl
    | _ => cases onStacks

theorem checkSignature_bare (same : m.bare = m'.bare) {signature key : Bytes}
    (answers : key ≠ [] →
      m.answer env signature key = m'.answer { env with checkSignature := check } signature key) :
    (m.checkSignature env signature key).map (Prod.map id bare) =
      (m'.checkSignature { env with checkSignature := check } signature key).map
        (Prod.map id bare) := by
  rw [checkSignature, checkSignature]
  cases key with
  | nil => rfl
  | cons b key =>
    have answers : (env.checkSignature m.budget m.separator signature (b :: key)).map Prod.fst =
        (check m'.budget m'.separator signature (b :: key)).map Prod.fst :=
      answers (List.cons_ne_nil b key)
    show ((env.checkSignature _ _ _ _) >>= _).map _ = ((check _ _ _ _) >>= _).map _
    revert answers
    rcases env.checkSignature m.budget m.separator signature (b :: key) with e | ⟨valid, left⟩ <;>
      rcases check m'.budget m'.separator signature (b :: key) with e' | ⟨valid', left'⟩
    · rintro ⟨⟩
      rfl
    · rintro ⟨⟩
    · rintro ⟨⟩
    · intro answers
      obtain rfl : valid = valid' := Except.ok.inj answers
      have rest : bare { m with budget := left } = bare { m' with budget := left' } := same
      show Except.ok (valid, bare { m with budget := left }) =
          Except.ok (valid, bare { m' with budget := left' })
      rw [rest]

/-- What follows a check may depend on its outcome, but not on the budget. -/
theorem checkSignature_bind_bare (same : m.bare = m'.bare) {signature key : Bytes}
    (answers : key ≠ [] →
      m.answer env signature key = m'.answer { env with checkSignature := check } signature key)
    {f : Bool × Machine → Except ScriptError Machine}
    (hf : ∀ valid a b, bare a = bare b → (f (valid, a)).map bare = (f (valid, b)).map bare) :
    (m.checkSignature env signature key >>= f).map bare =
      (m'.checkSignature { env with checkSignature := check } signature key >>= f).map bare := by
  refine Except.map_bind_congr (checkSignature_bare same answers) ?_
  rintro ⟨valid, a⟩ ⟨valid', b⟩ h
  obtain ⟨rfl, same⟩ := Prod.mk.inj h
  exact hf valid a b same

theorem useSignature_bare (same : m.bare = m'.bare) {use : SignatureUse}
    (answers : ∀ signature key, use.operands? m.stack = some (signature, key) → key ≠ [] →
      m.answer env signature key = m'.answer { env with checkSignature := check } signature key) :
    (m.useSignature env use).map bare =
      (m'.useSignature { env with checkSignature := check } use).map bare := by
  have stack : m'.stack = m.stack := by rw [eq_of_bare_eq same]
  revert answers
  -- too few items fail before anything is checked, so the cases follow the stack
  cases use with
  | push =>
    simp only [useSignature, stack]
    rcases m.stack with _ | ⟨key, _ | ⟨signature, rest⟩⟩ <;> intro answers
    · rfl
    · rfl
    · refine checkSignature_bind_bare same (answers signature key rfl) fun valid a b h => ?_
      rw [eq_of_bare_eq h]
      rfl
  | verify =>
    simp only [useSignature, stack]
    rcases m.stack with _ | ⟨key, _ | ⟨signature, rest⟩⟩ <;> intro answers
    · rfl
    · rfl
    · refine checkSignature_bind_bare same (answers signature key rfl) fun valid a b h => ?_
      rw [eq_of_bare_eq h]
      cases valid <;> rfl
  | add =>
    simp only [useSignature, stack]
    rcases m.stack with _ | ⟨key, _ | ⟨n, rest⟩⟩ <;> intro answers
    · rfl
    · rfl
    · show ((operand n >>= _) >>= _).map _ = ((operand n >>= _) >>= _).map _
      cases number : operand n with
      | error e => rfl
      | ok k =>
        cases rest with
        | nil => rfl
        | cons signature rest =>
          have taken : SignatureUse.add.operands? (key :: n :: signature :: rest) =
              some (signature, key) := by
            simp only [SignatureUse.operands?, number]
          refine checkSignature_bind_bare same (answers signature key taken) fun valid a b h => ?_
          rw [eq_of_bare_eq h]
          rfl

theorem effect_bare {i : Instruction} (same : m.bare = m'.bare) (obeyed : m.obeys i = true)
    (answers : ∀ signature key, m.asks? i = some (signature, key) →
      m.answer env signature key = m'.answer { env with checkSignature := check } signature key) :
    (m.effect env pc i).map bare =
      (m'.effect { env with checkSignature := check } pc i).map bare := by
  rw [effect, effect]
  cases hdata : i.data with
  | some data =>
    rw [eq_of_bare_eq same]
    simp only [pushData, Except.map_ite]
    rfl
  | none =>
    by_cases checks : ∃ use, i.opcode.operation = .checkSig use
    · obtain ⟨use, operation⟩ := checks
      have running : m.executing = true := by
        rw [obeys, operation, Bool.or_eq_true] at obeyed
        exact obeyed.resolve_right (by simp [Operation.isConditional])
      simp only [operation]
      refine useSignature_bare same fun signature key taken nonempty => answers signature key ?_
      simp only [asks?, hdata, operation, running, if_true, taken]
      simp [Option.filter, nonempty]
    · have moved : { m with budget := m'.budget }.perform { env with checkSignature := check } pc
          i.opcode.operation = (m.perform env pc i.opcode.operation).map _ :=
        perform_budget m'.budget fun use h => checks ⟨use, h⟩
      rw [eq_of_bare_eq same]
      simp only [moved]
      cases m.perform env pc i.opcode.operation <;> rfl

theorem checkSize_bare (same : m.bare = m'.bare) :
    m.checkSize.map bare = m'.checkSize.map bare := by
  rw [eq_of_bare_eq same]
  simp only [checkSize, Except.map_ite]
  rfl

/-- One instruction does the same to two machines that differ in their budgets, if what it asks is
answered the same. -/
theorem step_bare {i : Instruction} (same : m.bare = m'.bare)
    (answers : ∀ signature key, m.asks? i = some (signature, key) →
      m.answer env signature key = m'.answer { env with checkSignature := check } signature key) :
    (m.step env pc i).map bare =
      (m'.step { env with checkSignature := check } pc i).map bare := by
  have obeys_eq : m'.obeys i = m.obeys i := by
    rw [eq_of_bare_eq same]
    rfl
  cases refused : i.refused? with
  | some e => rw [step_of_refused refused, step_of_refused refused]
  | none =>
    cases obeyed : m.obeys i with
    | false =>
      rw [step_of_skipped refused obeyed, step_of_skipped refused (obeys_eq.trans obeyed)]
      exact congrArg Except.ok same
    | true =>
      rw [step_of_obeys refused obeyed, step_of_obeys refused (obeys_eq.trans obeyed)]
      exact Except.map_bind_congr (effect_bare same obeyed answers) fun _ _ h => checkSize_bare h

end Machine

end TaprootLab
