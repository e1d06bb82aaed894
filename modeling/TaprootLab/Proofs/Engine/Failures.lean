import TaprootLab.Proofs.Engine.Phases

/-!
# Which errors a script ends with

Some errors are about the witness: that it does not fit the output, or what it reveals cannot be
run. They are found before a leaf is run. No script ends with one of them (`Machine.plain_execute`),
and neither does the verdict on a leaf (`ofWitness_of_result_leaf`), so a spend that ends with such
an error does so because its witness was refused (`authorize_eq_error_of_drive`).
-/

namespace TaprootLab

open Taproot Run

/-- The errors of a witness that does not fit its output. -/
def ScriptError.ofWitness : ScriptError → Bool
  | .witnessProgramWitnessEmpty | .witnessProgramMismatch | .taprootWrongControlSize
  | .discourageUpgradableTaprootVersion => true
  | _ => false

/-- Steps that do not end with an error of the witness. -/
def Plain {α : Type} (x : Except ScriptError α) : Prop := ∀ e, x = .error e → e.ofWitness = false

variable {α β : Type}

@[simp] theorem plain_ok (a : α) : Plain (.ok a) := nofun

@[simp] theorem plain_error {e : ScriptError} :
    Plain (.error e : Except ScriptError α) ↔ e.ofWitness = false :=
  ⟨fun h => h e rfl, fun h _ same => Except.error.inj same ▸ h⟩

theorem Plain.bind {x : Except ScriptError α} {f : α → Except ScriptError β} (hx : Plain x)
    (hf : ∀ a, Plain (f a)) : Plain (x >>= f) := by
  cases x with
  | error e => exact plain_error.mpr (plain_error.mp hx)
  | ok a => exact hf a

/-! ## Operands -/

theorem plain_pop (stack : List Bytes) : Plain (pop stack) := by
  cases stack with
  | nil => exact plain_error.mpr rfl
  | cons x s => exact plain_ok _

theorem plain_numberOfSize (size : Nat) (item : Bytes) : Plain (numberOfSize size item) := by
  rw [numberOfSize]
  split
  · exact plain_error.mpr rfl
  · split
    · exact plain_ok _
    · exact plain_error.mpr rfl

theorem plain_popNumber (stack : List Bytes) : Plain (popNumber stack) :=
  (plain_pop stack).bind fun _ => (plain_numberOfSize _ _).bind fun _ => plain_ok _

theorem plain_popTwo (stack : List Bytes) : Plain (popTwo stack) :=
  (plain_pop stack).bind fun _ => (plain_pop _).bind fun _ => plain_ok _

theorem plain_popTwoNumbers (stack : List Bytes) : Plain (popTwoNumbers stack) :=
  (plain_popNumber stack).bind fun _ => (plain_popNumber _).bind fun _ => plain_ok _

theorem plain_depthOf (n : Int) (stack : List Bytes) : Plain (depthOf n stack) := by
  rw [depthOf]
  split
  · exact plain_error.mpr rfl
  · split
    · exact plain_ok _
    · exact plain_error.mpr rfl

theorem plain_branchArgument (item : Bytes) : Plain (branchArgument item) := by
  unfold branchArgument
  split
  · exact plain_ok _
  · exact plain_ok _
  · exact plain_error.mpr rfl

/-! ## Operations -/

theorem StackOp.plain_apply (op : StackOp) (stack alt : List Bytes) :
    Plain (op.apply stack alt) := by
  cases op with
  | depth => exact plain_ok _
  | pick | roll =>
    exact (plain_popNumber stack).bind fun _ => (plain_depthOf _ _).bind fun _ => plain_ok _
  | _ =>
    simp only [apply]
    split
    · exact plain_ok _
    · exact plain_error.mpr rfl

theorem plain_checkLockTime (env : Env) (stack : List Bytes) : Plain (checkLockTime env stack) := by
  refine (plain_pop stack).bind fun _ => (plain_numberOfSize _ _).bind fun _ => ?_
  dsimp only
  split
  · exact plain_error.mpr rfl
  · split
    · exact plain_error.mpr rfl
    · exact plain_ok _

theorem plain_checkSequence (env : Env) (stack : List Bytes) : Plain (checkSequence env stack) := by
  refine (plain_pop stack).bind fun _ => (plain_numberOfSize _ _).bind fun _ => ?_
  dsimp only
  split
  · exact plain_error.mpr rfl
  · split
    · exact plain_ok _
    · split
      · exact plain_error.mpr rfl
      · split
        · exact plain_error.mpr rfl
        · exact plain_ok _

namespace Machine

variable {env : Env}

/-- The signature checks of an environment end with no error of the witness. -/
def PlainChecks (env : Env) : Prop :=
  ∀ budget separator signature key, Plain (env.checkSignature budget separator signature key)

theorem plain_checkSignature (checks : PlainChecks env) (m : Machine) (signature key : Bytes) :
    Plain (m.checkSignature env signature key) := by
  rw [checkSignature]
  split
  · exact plain_error.mpr rfl
  · exact (checks _ _ _ _).bind fun _ => plain_ok _

theorem plain_useSignature (checks : PlainChecks env) (m : Machine) (use : SignatureUse) :
    Plain (m.useSignature env use) := by
  cases use with
  | push =>
    exact (plain_pop _).bind fun _ => (plain_pop _).bind fun _ =>
      (plain_checkSignature checks _ _ _).bind fun _ => plain_ok _
  | verify =>
    refine (plain_pop _).bind fun _ => (plain_pop _).bind fun _ =>
      (plain_checkSignature checks _ _ _).bind fun checked => ?_
    obtain ⟨valid, after⟩ := checked
    cases valid
    · exact plain_error.mpr rfl
    · exact plain_ok _
  | add =>
    exact (plain_pop _).bind fun _ => (plain_popNumber _).bind fun _ => (plain_pop _).bind fun _ =>
      (plain_checkSignature checks _ _ _).bind fun _ => plain_ok _

theorem plain_openBranch (m : Machine) (negated : Bool) : Plain (m.openBranch negated) := by
  rw [openBranch]
  split
  · exact (plain_pop _).bind fun _ => (plain_branchArgument _).bind fun _ => plain_ok _
  · exact plain_ok _

theorem plain_perform (checks : PlainChecks env) (m : Machine) (pc : Nat) (op : Operation) :
    Plain (m.perform env pc op) := by
  cases op with
  | number n | nop | codeSeparator => exact plain_ok _
  | upgradableNop | giveUp | checkMultiSig | versionBranch | invalid => exact plain_error.mpr rfl
  | lockTimeVerify => exact (plain_checkLockTime env _).bind fun _ => plain_ok _
  | sequenceVerify => exact (plain_checkSequence env _).bind fun _ => plain_ok _
  | openBranch negated => exact plain_openBranch m negated
  | elseBranch | closeBranch =>
    obtain ⟨_, _, conditions, _, _⟩ := m
    cases conditions
    · exact plain_error.mpr rfl
    · exact plain_ok _
  | verify =>
    refine (plain_pop _).bind fun _ => ?_
    dsimp only
    split
    · exact plain_ok _
    · exact plain_error.mpr rfl
  | stack op => exact (op.plain_apply _ _).bind fun _ => plain_ok _
  | equal => exact (plain_popTwo _).bind fun _ => plain_ok _
  | equalVerify =>
    refine (plain_popTwo _).bind fun _ => ?_
    dsimp only
    split
    · exact plain_ok _
    · exact plain_error.mpr rfl
  | unary op => exact (plain_popNumber _).bind fun _ => plain_ok _
  | binary op => exact (plain_popTwoNumbers _).bind fun _ => plain_ok _
  | numEqualVerify =>
    refine (plain_popTwoNumbers _).bind fun _ => ?_
    dsimp only
    split
    · exact plain_ok _
    · exact plain_error.mpr rfl
  | within =>
      exact (plain_popTwoNumbers _).bind fun _ => (plain_popNumber _).bind fun _ => plain_ok _
  | digest op => exact (plain_pop _).bind fun _ => plain_ok _
  | checkSig use => exact plain_useSignature checks m use

/-! ## Scripts -/

theorem plain_step (checks : PlainChecks env) (m : Machine) (pc : Nat) (i : Instruction) :
    Plain (m.step env pc i) := by
  have counted (m : Machine) : Plain m.checkSize := by
    rw [checkSize]
    split
    · exact plain_error.mpr rfl
    · exact plain_ok _
  have pushed (data : Bytes) : Plain (m.pushData i data) := by
    rw [pushData]
    split
    · exact plain_error.mpr rfl
    · split
      · exact plain_error.mpr rfl
      · exact plain_ok _
  cases refused : i.refused? with
  | some e =>
    rw [step_of_refused refused, plain_error]
    rw [Instruction.refused?] at refused
    split at refused
    · cases refused
      rfl
    · split at refused <;> cases refused <;> rfl
  | none =>
    cases obeyed : m.obeys i with
    | false =>
      rw [step_of_skipped refused obeyed]
      exact plain_ok _
    | true =>
      rw [step_of_obeys refused obeyed, effect]
      cases i.data with
      | some data => exact (pushed data).bind counted
      | none => exact (plain_perform checks m pc _).bind counted

theorem plain_execute (checks : PlainChecks env) {m : Machine} {pc : Nat} {is : List Instruction}
    {e : ScriptError} {k : Nat} (h : m.execute env pc is = .error (e, k)) :
    e.ofWitness = false := by
  induction is generalizing m pc with
  | nil => cases h
  | cons i rest ih =>
    rw [execute] at h
    cases stepped : m.step env pc i with
    | ok m₁ =>
      rw [stepped] at h
      exact ih h
    | error e' =>
      rw [stepped] at h
      cases h
      exact plain_step checks m _ i _ stepped

end Machine

theorem SignatureScope.plain_check (scope : SignatureScope) (budget : Int) (separator : Option Nat)
    (signature key : Bytes) : Plain (scope.check budget separator signature key) := by
  have charged : Plain (scope.charge budget) := by
    rw [charge]
    split
    · exact plain_ok _
    · split
      · exact plain_error.mpr rfl
      · exact plain_ok _
  have typed : Plain (signatureType signature) := by
    rw [signatureType]
    split
    · split
      · exact plain_ok _
      · exact plain_error.mpr rfl
    · exact plain_error.mpr rfl
    · split
      · exact plain_ok _
      · exact plain_error.mpr rfl
    · exact plain_error.mpr rfl
  rw [check]
  split
  · exact plain_ok _
  · refine charged.bind fun _ => ?_
    dsimp only
    split
    · exact plain_error.mpr rfl
    · refine typed.bind fun _ => ?_
      split
      · exact plain_error.mpr rfl
      · split
        · exact plain_error.mpr rfl
        · split
          · exact plain_ok _
          · exact plain_error.mpr rfl

theorem SignatureScope.plainChecks_env (scope : SignatureScope) : Machine.PlainChecks scope.env :=
  scope.plain_check

/-! ## Spends -/

/-- A run that ends with an error of the witness. -/
def RunError.ofWitness : RunError → Bool
  | .script e _ _ => e.ofWitness
  | _ => false

theorem Machine.ofWitness_of_result_run {env : Env} (checks : PlainChecks env) {m : Machine}
    {scriptIndex : Nat} {script : Bytes} {e : RunError}
    (h : (m.run env scriptIndex script).result = some (.error e)) : e.ofWitness = false := by
  rw [result_run, Option.some_inj] at h
  cases executed : m.execute env 0 (Script.decode script) with
  | ok m' =>
    rw [executed, conclude] at h
    split at h <;> cases h
    rfl
  | error x =>
    rw [executed, conclude] at h
    cases h
    exact plain_execute checks executed

theorem ofWitness_of_result_leaf {leaf : LeafRun} {curve : Curve} {spend : Spend} {e : RunError}
    (h : (leaf.run curve spend).result = some (.error e)) : e.ofWitness = false := by
  rw [LeafRun.run_eq, result_bind] at h
  split at h
  · rename_i m _
    rw [verdict] at h
    split at h
    · cases h
      rfl
    · split at h <;> cases h
      rfl
    · cases h
      rfl
  · rename_i failed
    cases h
    exact Machine.ofWitness_of_result_run (SignatureScope.plainChecks_env _) failed
  · cases h

theorem ofWitness_of_unrunnable {pc k : Nat} {is : List Instruction} {e : ScriptError}
    (h : unrunnable? pc is = some (e, k)) : e.ofWitness = false := by
  induction is generalizing pc with
  | nil => cases h
  | cons i rest ih =>
    rw [unrunnable?] at h
    split at h
    · cases h
      rfl
    · split at h
      · cases h
        rfl
      · exact ih h

/-- A spend that ends with an error of the witness had its witness refused. -/
theorem authorize_eq_error_of_result {curve : Curve} {spend : Spend} {witness : List Bytes}
    {e : RunError} (h : (runTaproot curve spend witness).result = some (.error e))
    (ofWitness : e.ofWitness = true) :
    authorize curve spend witness = .error e := by
  have notScript {k : Nat} {script : Bytes} (h : ((Machine.start [] 0).run
      (SignatureScope.env ⟨curve, spend, none, none⟩) k script).result =
        some (.error e)) : False := by
    have := Machine.ofWitness_of_result_run (SignatureScope.plainChecks_env _) h
    rw [ofWitness] at this
    cases this
  rw [runTaproot_eq, result_bind] at h
  split at h
  · split at h
    · cases h
      cases ofWitness
    · rw [result_bind] at h
      split at h
      · rw [runWitness] at h
        split at h
        · rename_i refused
          cases h
          exact refused
        · cases h
        · have := ofWitness_of_result_leaf h
          rw [ofWitness] at this
          cases this
      · rename_i failed
        cases h
        exact (notScript failed).elim
      · cases h
  · rename_i failed
    cases h
    exact (notScript failed).elim
  · cases h

/-- Whoever watches a run that stops when told to gets its result, or has stopped it. -/
theorem Run.StopsOnAbort.drive_cases {σ : Type} {run : Run α} (h : run.StopsOnAbort)
    (observe : σ → Boundary → Control × σ) (s : σ) :
    (run.drive observe s).1 = run.result ∨ (run.drive observe s).1 = some (.error .aborted) := by
  induction run generalizing s with
  | done r => exact .inl rfl
  | lost => exact .inl rfl
  | report b resume ih =>
    rw [drive]
    rcases observe s b with ⟨answer, s'⟩
    cases answer with
    | proceed => exact ih .proceed h.2 s'
    | abort =>
      right
      show (drive observe s' (resume .abort)).1 = _
      rw [h.1]
      rfl

theorem authorize_eq_error_of_drive {σ : Type} {curve : Curve} {spend : Spend}
    {witness : List Bytes} {observe : σ → Boundary → Control × σ} {s : σ} {e : RunError}
    (h : ((runTaproot curve spend witness).drive observe s).1 = some (.error e))
    (ofWitness : e.ofWitness = true) : authorize curve spend witness = .error e := by
  rcases (stopsOnAbort_runTaproot curve spend witness).drive_cases observe s with result | aborted
  · exact authorize_eq_error_of_result (result ▸ h) ofWitness
  · rw [aborted] at h
    cases h
    cases ofWitness

end TaprootLab
