import TaprootLab.Proofs.Engine.Budget
import TaprootLab.Proofs.Engine.SignaturePolicy

/-!
# What the witness of a leaf pays for

The size of a witness pays for the signatures that its leaf checks: fifty for each that is not
empty, with fifty to start with. One instruction takes fifty or nothing (`budget_of_step`), so at
every boundary the budget is what the signatures before it have left (`budget_of_visits`). Hence a
leaf takes no more of them than its witness pays for, and fails at the first one beyond
(`keepsToWeight`).
-/

namespace TaprootLab

open Taproot Run

/-! ## The size of a witness -/

def compactSizeLength (n : Nat) : Nat :=
  if n < 253 then 1 else if n < 0x10000 then 3 else if n < 0x100000000 then 5 else 9

/-- How many bytes elements take up, each with its length before it. -/
def elementsSize : List Bytes → Nat
  | [] => 0
  | item :: rest => compactSizeLength item.length + item.length + elementsSize rest

/-- The size of a witness: the count of its elements, then the elements. -/
def witnessSize (witness : List Bytes) : Nat :=
  compactSizeLength witness.length + elementsSize witness

theorem length_compactSize (n : Nat) : (compactSize n).length = compactSizeLength n := by
  rw [compactSize, compactSizeLength, apply_ite List.length, apply_ite List.length,
    apply_ite List.length]
  simp only [List.length_cons, List.length_nil, Bytes.length_ofNatLE]

theorem length_flatMap_sized (items : List Bytes) :
    (items.flatMap sized).length = elementsSize items := by
  induction items with
  | nil => rfl
  | cons item rest ih =>
    rw [List.flatMap_cons, List.length_append, ih, sized, List.length_append,
      length_compactSize, elementsSize]

theorem length_serializeWitness (witness : List Bytes) :
    (serializeWitness witness).length = witnessSize witness := by
  rw [serializeWitness, List.length_append, length_compactSize, length_flatMap_sized, witnessSize]

theorem signatureBudget_eq (witness : List Bytes) :
    signatureBudget witness = witnessSize witness + 50 := by
  rw [signatureBudget, length_serializeWitness]

/-! ## Signatures that are paid for -/

namespace Machine

/-- An executed opcode takes a signature that is not empty. -/
structure Signs (m : Machine) (i : Instruction) : Prop where
  bare : i.data = none
  executed : m.executing = true
  takes : ∃ signature key leaves, TakesSignature i.opcode.byte m.stack signature key leaves
    ∧ signature ≠ []

def signs (m : Machine) (i : Instruction) : Bool :=
  match i.data, i.opcode.operation with
  | none, .checkSig use =>
    m.executing && (use.operands? m.stack).any fun (signature, _) => !signature.isEmpty
  | _, _ => false

end Machine

/-- The operands of a signature check are those that its opcode takes. -/
theorem operands?_eq_some_iff {op : Opcode} {use : SignatureUse}
    (checks : op.operation = .checkSig use) {stack : List Bytes} {signature key : Bytes} :
    use.operands? stack = some (signature, key) ↔
      ∃ leaves, TakesSignature op.byte stack signature key leaves := by
  obtain ⟨b⟩ := op
  have byte := Opcode.byte_of_checkSig checks
  simp only [List.mem_cons, List.not_mem_nil, or_false] at byte
  rcases byte with rfl | rfl | rfl
  · obtain rfl : SignatureUse.push = use := Operation.checkSig.inj checks
    constructor
    · intro taken
      rcases stack with _ | ⟨key', _ | ⟨signature', rest⟩⟩ <;> cases taken
      exact ⟨_, .checkSig⟩
    · rintro ⟨leaves, ⟨⟩⟩
      rfl
  · obtain rfl : SignatureUse.verify = use := Operation.checkSig.inj checks
    constructor
    · intro taken
      rcases stack with _ | ⟨key', _ | ⟨signature', rest⟩⟩ <;> cases taken
      exact ⟨_, .checkSigVerify⟩
    · rintro ⟨leaves, ⟨⟩⟩
      rfl
  · obtain rfl : SignatureUse.add = use := Operation.checkSig.inj checks
    constructor
    · intro taken
      rcases stack with _ | ⟨key', _ | ⟨n, _ | ⟨signature', rest⟩⟩⟩
      · cases taken
      · cases taken
      · cases taken
      · rw [SignatureUse.operands?] at taken
        split at taken <;> cases taken
        exact ⟨_, .checkSigAdd ‹_›⟩
    · rintro ⟨leaves, takes⟩
      cases takes with
      | checkSigAdd number => rw [SignatureUse.operands?, number]

namespace Machine

variable {env : Env} {m m' : Machine} {pc : Nat} {i : Instruction}

theorem signs_iff : m.signs i = true ↔ m.Signs i := by
  constructor
  · intro h
    unfold signs at h
    split at h
    · rename_i use bare checks
      rw [Bool.and_eq_true, Option.any_eq_true] at h
      obtain ⟨executed, ⟨signature, key⟩, taken, nonempty⟩ := h
      obtain ⟨leaves, takes⟩ := (operands?_eq_some_iff checks).mp taken
      exact ⟨bare, executed, signature, key, leaves, takes, by simpa using nonempty⟩
    · cases h
  · rintro ⟨bare, executed, signature, key, leaves, takes, nonempty⟩
    obtain ⟨use, checks, -⟩ := takes.exists_use
    have checks : i.opcode.operation = .checkSig use := checks
    have taken := (operands?_eq_some_iff checks).mpr ⟨leaves, takes⟩
    simp only [signs, bare, checks, executed, taken, Option.any_some, Bool.true_and]
    simpa using nonempty

instance (m : Machine) (i : Instruction) : Decidable (m.Signs i) := decidable_of_iff _ signs_iff

/-- How many of the instructions before boundary `k` of a script take a signature that is not
empty. -/
def signatureCount (env : Env) (m : Machine) (is : List Instruction) (k : Nat) : Nat :=
  (((m.visits env 0 is).zip is).take k).countP fun (a, i) => a.Signs i

/-! ## What an instruction takes from the budget -/

/-- A signature check that succeeds has found its operands. -/
theorem exists_operands?_of_useSignature {use : SignatureUse}
    (h : m.useSignature env use = .ok m') :
    ∃ signature key, use.operands? m.stack = some (signature, key) := by
  obtain ⟨stack, altStack, conditions, separator, budget⟩ := m
  cases use with
  | push | verify =>
    rcases stack with _ | ⟨key, _ | ⟨signature, rest⟩⟩
    · cases h
    · cases h
    · exact ⟨signature, key, rfl⟩
  | add =>
    rcases stack with _ | ⟨key, _ | ⟨item, rest⟩⟩
    · cases h
    · cases h
    · obtain ⟨_, popped, h⟩ := Except.bind_eq_ok_iff.mp h
      cases popped
      obtain ⟨⟨n, below⟩, read, h⟩ := Except.bind_eq_ok_iff.mp h
      rw [popNumber, pop, Except.ok_bind] at read
      obtain ⟨n', number, read⟩ := Except.bind_eq_ok_iff.mp read
      cases read
      rcases rest with _ | ⟨signature, rest⟩
      · cases h
      · refine ⟨signature, key, ?_⟩
        rw [SignatureUse.operands?, number]

theorem budget_of_perform {op : Operation} (other : ∀ use, op ≠ .checkSig use)
    (h : m.perform env pc op = .ok m') : m'.budget = m.budget := by
  have kept : m.perform env pc op = (m.perform env pc op).map fun m' =>
      { m' with budget := m.budget } :=
    perform_budget m.budget other
  rw [h] at kept
  have same := congrArg budget (Except.ok.inj kept)
  exact same

/-- What an opcode leaves of the budget is what its signature check leaves. -/
theorem exists_of_step {signature key : Bytes} {leaves : Bool → Except ScriptError (List Bytes)}
    (takes : TakesSignature i.opcode.byte m.stack signature key leaves) (bare : i.data = none)
    (executed : m.executing = true) (h : m.step env pc i = .ok m') :
    ∃ valid left, m.checkSignature env signature key = .ok (valid, left)
      ∧ m'.budget = left.budget := by
  rw [takes.step bare executed] at h
  obtain ⟨⟨valid, left⟩, checked, h⟩ := Except.bind_eq_ok_iff.mp h
  obtain ⟨stack, -, h⟩ := Except.bind_eq_ok_iff.mp h
  rw [(checkSize_eq_ok.mp h).1]
  exact ⟨valid, left, checked, rfl⟩

/-- An instruction that succeeds takes a signature or leaves the budget as it is. -/
theorem takes_or_budget_of_step (h : m.step env pc i = .ok m') :
    (i.data = none ∧ m.executing = true
        ∧ ∃ signature key leaves, TakesSignature i.opcode.byte m.stack signature key leaves)
      ∨ m'.budget = m.budget := by
  obtain ⟨-, ⟨-, rfl⟩ | ⟨obeyed, h, -⟩⟩ := step_eq_ok.mp h
  · exact .inr rfl
  rw [effect] at h
  cases bare : i.data with
  | some data =>
    rw [bare] at h
    simp only [pushData] at h
    split at h
    · cases h
    · split at h <;> cases h
      exact .inr rfl
  | none =>
    rw [bare] at h
    by_cases checks : ∃ use, i.opcode.operation = .checkSig use
    · obtain ⟨use, checks⟩ := checks
      rw [obeys, checks, show (Operation.checkSig use).isConditional = false from rfl,
        Bool.or_false] at obeyed
      rw [checks] at h
      obtain ⟨signature, key, taken⟩ := exists_operands?_of_useSignature h
      exact .inl ⟨rfl, obeyed, signature, key, (operands?_eq_some_iff checks).mp taken⟩
    · exact .inr (budget_of_perform (fun use h => checks ⟨use, h⟩) h)

end Machine

namespace LeafRun

open Machine

variable {leaf : LeafRun} {curve : Curve} {spend : Spend} {m m' : Machine} {pc : Nat}
    {i : Instruction}

/-- An instruction of a leaf takes fifty from the budget, which has to have as much, if it takes a
signature that is not empty, and nothing else. -/
theorem budget_of_step (h : m.step (leaf.env curve spend) pc i = .ok m') :
    if m.Signs i then 50 ≤ m.budget ∧ m'.budget = m.budget - 50 else m'.budget = m.budget := by
  by_cases signs : m.Signs i
  · rw [if_pos signs]
    obtain ⟨bare, executed, signature, key, leaves, takes, signed⟩ := signs
    obtain ⟨valid, left, checked, rest⟩ := exists_of_step takes bare executed h
    have nonempty : key ≠ [] := by
      rintro rfl
      cases checked
    rw [checkSignature_eq nonempty] at checked
    obtain ⟨⟨valid', budget⟩, answered, same⟩ := Except.bind_eq_ok_iff.mp checked
    obtain ⟨-, charged, -⟩ := (SignatureScope.check_eq_ok_iff signed).mp answered
    obtain ⟨paid, rfl⟩ := (SignatureScope.charge_eq_ok_iff rfl).mp charged
    cases same
    exact ⟨paid, rest⟩
  · rw [if_neg signs]
    rcases takes_or_budget_of_step h with ⟨bare, executed, signature, key, leaves, takes⟩ | kept
    · obtain rfl : signature = [] := by
        by_contra signed
        exact signs ⟨bare, executed, signature, key, leaves, takes, signed⟩
      obtain ⟨valid, left, checked, rest⟩ := exists_of_step takes bare executed h
      have nonempty : key ≠ [] := by
        rintro rfl
        cases checked
      rw [checkSignature_noSignature nonempty] at checked
      cases checked
      exact rest
    · exact kept

/-- A signature that cannot be paid for is not looked at, and neither is the key. -/
theorem step_unpaid {signature key : Bytes} {leaves : Bool → Except ScriptError (List Bytes)}
    (takes : TakesSignature i.opcode.byte m.stack signature key leaves) (bare : i.data = none)
    (executed : m.executing = true) (signed : signature ≠ []) (nonempty : key ≠ [])
    (poor : m.budget < 50) :
    m.step (leaf.env curve spend) pc i = .error .tapscriptValidationWeight := by
  have refused : (leaf.scope curve spend).charge m.budget = .error .tapscriptValidationWeight :=
    if_pos poor
  rw [takes.step bare executed, checkSignature_eq nonempty, SignatureScope.check,
    if_neg (by simpa using signed), refused]
  rfl

/-! ## What a leaf takes from the budget -/

/-- At a boundary the budget is what the signatures before it have left. -/
theorem budget_of_visits {is : List Instruction} {k : Nat} {a : Machine} (afloat : 0 ≤ m.budget)
    (visited : (m.visits (leaf.env curve spend) 0 is)[k]? = some a) :
    0 ≤ a.budget ∧ a.budget = m.budget - 50 * m.signatureCount (leaf.env curve spend) is k := by
  refine getElem?_visits_induction
    (P := fun k a => 0 ≤ a.budget
      ∧ a.budget = m.budget - 50 * m.signatureCount (leaf.env curve spend) is k)
    ⟨afloat, by simp [Machine.signatureCount]⟩ ?_ visited
  intro k a i b before here rest step
  have paired : ((m.visits (leaf.env curve spend) 0 is).zip is)[k]? = some (a, i) :=
    List.getElem?_zip_eq_some.mpr ⟨before, here⟩
  have counted : m.signatureCount (leaf.env curve spend) is (k + 1) =
      m.signatureCount (leaf.env curve spend) is k + if a.Signs i then 1 else 0 := by
    rw [Machine.signatureCount, List.take_add_one, paired, List.countP_append]
    simp [Machine.signatureCount]
  obtain ⟨positive, budget⟩ := rest
  have taken := budget_of_step step
  by_cases signs : a.Signs i
  · rw [if_pos signs] at taken counted
    omega
  · rw [if_neg signs] at taken counted
    omega

def visits (leaf : LeafRun) (curve : Curve) (spend : Spend) : List Machine :=
  (Machine.start leaf.stack leaf.budget).visits (leaf.env curve spend) 0 (Script.decode leaf.script)

/-- How many signatures that are not empty the leaf takes before boundary `k`. -/
def signatureCount (leaf : LeafRun) (curve : Curve) (spend : Spend) (k : Nat) : Nat :=
  (Machine.start leaf.stack leaf.budget).signatureCount (leaf.env curve spend)
    (Script.decode leaf.script) k

/-- A leaf ends where an instruction fails, and with its error. -/
theorem result_of_step_error {k : Nat} {e : ScriptError}
    (visited : (leaf.visits curve spend)[k]? = some m)
    (here : (Script.decode leaf.script)[k]? = some i)
    (failed : m.step (leaf.env curve spend) k i = .error e) :
    (leaf.run curve spend).result = some (.error (.script e .witnessScript k)) := by
  rw [run_eq]
  refine result_bind_of_error _ ?_
  rw [result_run, execute_of_step_error visited here (e := e) (by rwa [Nat.zero_add]), Nat.zero_add]
  rfl

end LeafRun

/-- A leaf takes no more signatures than are allowed, and fails at the first one beyond. Whatever
takes no signature, or an empty one, costs nothing. -/
structure KeepsToWeight (curve : Curve) (spend : Spend) (leaf : LeafRun)
    (allowed : Nat) : Prop where
  within {k : Nat} {m : Machine} (visited : (leaf.visits curve spend)[k]? = some m) :
    leaf.signatureCount curve spend k ≤ allowed
  whole (ends : (leaf.run curve spend).result = some (.ok ())) :
    leaf.signatureCount curve spend (Script.decode leaf.script).length ≤ allowed
  exceeding {k : Nat} {m : Machine} {i : Instruction} {signature key : Bytes}
    {leaves : Bool → Except ScriptError (List Bytes)}
    (visited : (leaf.visits curve spend)[k]? = some m)
    (here : (Script.decode leaf.script)[k]? = some i) (executed : m.executing = true)
    (takes : TakesSignature i.opcode.byte m.stack signature key leaves) (signed : signature ≠ [])
    (nonempty : key ≠ []) (beyond : allowed < leaf.signatureCount curve spend k + 1) :
    m.step (leaf.env curve spend) k i = .error .tapscriptValidationWeight
      ∧ (leaf.run curve spend).result =
        some (.error (.script .tapscriptValidationWeight .witnessScript k))
  free {k : Nat} {m m' : Machine} {i : Instruction}
    (visited : (leaf.visits curve spend)[k]? = some m)
    (here : (Script.decode leaf.script)[k]? = some i)
    (stepped : m.step (leaf.env curve spend) k i = .ok m')
    (unsigned : ¬ m.Signs i) : m'.budget = m.budget

/-- **A leaf takes one signature for every fifty bytes of its witness**, and one more. -/
theorem keepsToWeight {curve : Curve} {spend : Spend} {witness : List Bytes} {leaf : LeafRun}
    (authorized : authorize curve spend witness = .ok (some leaf)) :
    KeepsToWeight curve spend leaf ((witnessSize witness + 50) / 50) := by
  obtain ⟨output, control, -, -, -, paid⟩ := authorize_eq_some_iff.mp authorized
  have budget : leaf.budget = witnessSize witness + 50 := paid.trans (signatureBudget_eq witness)
  have left {k : Nat} {m : Machine} (visited : (leaf.visits curve spend)[k]? = some m) :
      0 ≤ m.budget ∧ m.budget =
        witnessSize witness + 50 - 50 * leaf.signatureCount curve spend k := by
    have afloat : 0 ≤ (Machine.start leaf.stack leaf.budget).budget := by
      show 0 ≤ leaf.budget
      omega
    obtain ⟨positive, rest⟩ := LeafRun.budget_of_visits afloat visited
    exact ⟨positive, rest.trans (congrArg (· - _) budget)⟩
  have within {k : Nat} {m : Machine} (visited : (leaf.visits curve spend)[k]? = some m) :
      leaf.signatureCount curve spend k ≤ (witnessSize witness + 50) / 50 := by
    have := left visited
    omega
  refine ⟨within, fun ends => ?_,
    fun {k m i} _ _ _ visited here executed takes signed nonempty beyond => ?_,
    fun _ _ stepped unsigned => ?_⟩
  · rcases Machine.end_or_step_error (leaf.env curve spend) (Machine.start leaf.stack leaf.budget) 0
      (Script.decode leaf.script) with ⟨m, visited⟩ | ⟨k, m, i, e, visited, here, failed⟩
    · exact within visited
    · rw [Nat.zero_add] at failed
      cases ends.symm.trans (LeafRun.result_of_step_error visited here failed)
  · have bare : i.data = none := by
      rw [Script.eq_of_mem_decodeFrom_of_absent (List.mem_of_getElem? here) takes.absent]
    have poor : m.budget < 50 := by
      have := left visited
      omega
    have refused : m.step (leaf.env curve spend) k i = .error .tapscriptValidationWeight :=
      LeafRun.step_unpaid takes bare executed signed nonempty poor
    exact ⟨refused, LeafRun.result_of_step_error visited here refused⟩
  · have taken := LeafRun.budget_of_step stepped
    rwa [if_neg unsigned] at taken

/-! ## A fourth check in a witness that pays for three -/

def acceptingCurve : Curve := { inertCurve with verify := fun _ _ _ => true }

/-- A leaf that checks one signature by one key four times. -/
def overspentLeaf : LeafRun :=
  ⟨[0x6e, 0xad, 0x6e, 0xad, 0x6e, 0xad, 0xac],
    [List.replicate 32 1, List.replicate 64 2], none, 191⟩

def overspentWitness : List Bytes :=
  [List.replicate 64 2, List.replicate 32 1, overspentLeaf.script, 0xc0 :: List.replicate 32 1]

/-- The machine of the leaf behind `n` checks. -/
def overspentMachine (n : Nat) : Machine := ⟨overspentLeaf.stack, [], [], none, 191 - 50 * n⟩

theorem decode_overspentLeaf : Script.decode overspentLeaf.script =
    [⟨⟨0x6e⟩, none, 0, 1, false⟩, ⟨⟨0xad⟩, none, 1, 1, false⟩, ⟨⟨0x6e⟩, none, 2, 1, false⟩,
      ⟨⟨0xad⟩, none, 3, 1, false⟩, ⟨⟨0x6e⟩, none, 4, 1, false⟩, ⟨⟨0xad⟩, none, 5, 1, false⟩,
      ⟨⟨0xac⟩, none, 6, 1, false⟩] := by
  cbv

theorem witnessSize_overspentWitness : witnessSize overspentWitness = 141 := by
  simp [witnessSize, elementsSize, compactSizeLength, overspentWitness, overspentLeaf]

theorem authorize_overspentWitness :
    authorize acceptingCurve onesSpend overspentWitness = .ok (some overspentLeaf) := by
  refine authorize_eq_some_iff.mpr
    ⟨⟨List.replicate 32 1⟩, 0xc0 :: List.replicate 32 1, rfl, ?_, ?_, ?_⟩
  · refine .plain fun elements last h _ => ?_
    have same := congrArg List.getLast? h
    rw [List.getLast?_concat] at same
    obtain rfl := Option.some.inj same
    decide
  · refine authorizeScript_eq_ok_iff.mpr ⟨?_, ?_, by decide⟩
    · refine ⟨⟨0xc0, false, ⟨List.replicate 32 1⟩, []⟩, ?_, rfl, rfl⟩
      have path : Bytes.chunks 32 ([] : Bytes) = [] := by
        rw [Bytes.chunks]
        rfl
      rw [← path]
      rfl
    · rw [decode_overspentLeaf]
      decide
  · rw [signatureBudget_eq, witnessSize_overspentWitness]
    rfl

/-- The machine of the leaf with its operands copied. -/
def overspentCopy (n : Nat) : Machine :=
  { overspentMachine n with stack := overspentLeaf.stack ++ overspentLeaf.stack }

/-- A check of the leaf that can be paid for succeeds. -/
theorem step_overspentCopy {n : Nat} (few : n < 3) (pc offset : Nat) :
    (overspentCopy n).step (overspentLeaf.env acceptingCurve onesSpend) pc
      ⟨⟨0xad⟩, none, offset, 1, false⟩ =
      .ok (overspentMachine (n + 1)) := by
  have paid : (50 : Int) ≤ 191 - 50 * n := by omega
  have left : (191 : Int) - 50 * n - 50 = 191 - 50 * (n + 1 : Nat) := by omega
  have accepted : overspentLeaf.Accepts acceptingCurve onesSpend none (List.replicate 64 2)
      (List.replicate 32 1) :=
    ⟨⟨List.replicate 32 1⟩, rfl, .default, _, .default rfl, rfl, rfl⟩
  have takes :=
    @TakesSignature.checkSigVerify (List.replicate 64 2) (List.replicate 32 1) overspentLeaf.stack
  rcases @LeafRun.checkSignature_cases overspentLeaf acceptingCurve onesSpend (overspentCopy n)
    (List.replicate 64 2) (List.replicate 32 1) rfl
      (List.cons_ne_nil _ _) with ⟨-, -, checked⟩ | ⟨bad, -⟩
  · rw [TakesSignature.step (i := ⟨⟨0xad⟩, none, offset, 1, false⟩)
      (m := overspentCopy n) takes rfl rfl, checked]
    exact congrArg (fun budget => Except.ok { overspentMachine n with budget }) left
  · exact (bad ⟨accepted, paid⟩).elim

/-- Two instructions of the leaf copy the operands and check the signature. -/
theorem visits_overspentLeaf {n : Nat} (few : n ≤ 3) :
    (overspentLeaf.visits acceptingCurve onesSpend)[2 * n]? = some (overspentMachine n) := by
  induction n with
  | zero => exact Machine.getElem?_visits_zero _ _ _
  | succ n ih =>
    have here : ∀ n < 3,
        (Script.decode overspentLeaf.script)[2 * n]? = some ⟨⟨0x6e⟩, none, 2 * n, 1, false⟩
        ∧ (Script.decode overspentLeaf.script)[2 * n + 1]? =
          some ⟨⟨0xad⟩, none, 2 * n + 1, 1, false⟩ := by
      rw [decode_overspentLeaf]
      decide
    obtain ⟨copies, checks⟩ := here n few
    have copied : (overspentLeaf.visits acceptingCurve onesSpend)[2 * n + 1]? =
        some (overspentCopy n) := by
      rw [LeafRun.visits, Machine.getElem?_visits_succ, ← LeafRun.visits, ih (by omega), copies]
      rfl
    show (overspentLeaf.visits acceptingCurve onesSpend)[2 * n + 1 + 1]? = _
    rw [LeafRun.visits, Machine.getElem?_visits_succ, ← LeafRun.visits, copied, checks,
      Option.bind_some, Option.bind_some, step_overspentCopy few]
    rfl

theorem keepsToWeight_overspentLeaf :
    authorize acceptingCurve onesSpend overspentWitness = .ok (some overspentLeaf)
      ∧ (witnessSize overspentWitness + 50) / 50 = 3
      ∧ overspentLeaf.signatureCount acceptingCurve onesSpend 6 = 3
      ∧ (overspentLeaf.run acceptingCurve onesSpend).result =
        some (.error (.script .tapscriptValidationWeight .witnessScript 6)) := by
  have visited : (overspentLeaf.visits acceptingCurve onesSpend)[6]? = some (overspentMachine 3) :=
    visits_overspentLeaf (Nat.le_refl 3)
  have here : (Script.decode overspentLeaf.script)[6]? = some ⟨⟨0xac⟩, none, 6, 1, false⟩ := by
    rw [decode_overspentLeaf]
    rfl
  have size : (witnessSize overspentWitness + 50) / 50 = 3 := by rw [witnessSize_overspentWitness]
  have counted : overspentLeaf.signatureCount acceptingCurve onesSpend 6 = 3 := by
    obtain ⟨-, budget⟩ := LeafRun.budget_of_visits (by decide) visited
    have spent : (191 : Int) - 50 * 3 =
      191 - 50 * overspentLeaf.signatureCount acceptingCurve onesSpend 6 := budget
    omega
  refine ⟨authorize_overspentWitness, size, counted, ?_⟩
  exact ((keepsToWeight authorize_overspentWitness).exceeding visited here rfl .checkSig
    (List.cons_ne_nil _ _) (List.cons_ne_nil _ _) (by rw [size, counted]; decide)).2

end TaprootLab
