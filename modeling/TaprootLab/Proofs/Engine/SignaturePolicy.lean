import TaprootLab.Proofs.Engine.Separators
import TaprootLab.Proofs.Engine.StackLimit

/-!
# What signature opcodes let pass

Three opcodes take a signature and a key. `FollowsPolicy` says what a node that relays nothing with
undefined meaning lets each of them do, whatever the order in which it looks at the two. The machine
does the same, except that it answers for an empty signature before it looks at the key: with a key
of unknown type that counts as false where it should fail (`followsPolicy_step_iff`).
-/

namespace TaprootLab

open Taproot

/-! ## The rule -/

/-- An opcode that takes a signature and a key off a stack, and the stack that it leaves if the
signature counts as true or as false. -/
inductive TakesSignature : (opcode : UInt8) → (stack : List Bytes) → (signature key : Bytes) →
    (leaves : Bool → Except ScriptError (List Bytes)) → Prop
  | checkSig {signature key : Bytes} {rest : List Bytes} :
      TakesSignature 0xac (key :: signature :: rest) signature key
        fun valid => .ok ((if valid then [1] else []) :: rest)
  | checkSigVerify {signature key : Bytes} {rest : List Bytes} :
      TakesSignature 0xad (key :: signature :: rest) signature key
        fun valid => if valid then .ok rest else .error .checkSigVerify
  | checkSigAdd {signature key item : Bytes} {n : Int} {rest : List Bytes}
      (number : operand item = .ok n) :
      TakesSignature 0xba (key :: item :: signature :: rest) signature key
        fun valid => .ok (ScriptNumber.encode (if valid then n + 1 else n) :: rest)

/-- A signature by the key over the digest of its type, the annex, the leaf and the code
separator. -/
def LeafRun.Accepts (leaf : LeafRun) (curve : Curve) (spend : Spend) (separator : Option Nat)
    (signature key : Bytes) : Prop :=
  ∃ xOnly, curve.key? key = some xOnly ∧ Signed curve spend leaf.annex
    (some ⟨leafHash 0xc0 leaf.script, (separator.map UInt32.ofNat).getD 0xffffffff⟩) xOnly signature

/-- What an opcode that takes a signature and a key from `m` is let do. `valid` is whether the
signature is one by the key. Items are counted behind the opcode as behind any other. -/
structure FollowsPolicy (valid : Prop) (m : Machine) (signature key : Bytes)
    (leaves : Bool → Except ScriptError (List Bytes)) (outcome : Except ScriptError Machine) :
    Prop where
  emptyKey : key = [] → ∃ e, outcome = .error e
  unknownKey : key ≠ [] → key.length ≠ 32 → (signature ≠ [] → 50 ≤ m.budget) →
    outcome = .error .discourageUpgradablePubkeyType
  noSignature : key.length = 32 → signature = [] →
    outcome = leaves false >>= fun stack => (m.withStack stack).checkSize
  signature : key.length = 32 → signature ≠ [] →
    (valid ∧ 50 ≤ m.budget ∧ outcome = leaves true >>= fun stack =>
        { m with stack := stack, budget := m.budget - 50 }.checkSize)
      ∨ ¬ (valid ∧ 50 ≤ m.budget) ∧ ∃ e, outcome = .error e

/-! ## Taking the operands -/

namespace TakesSignature

variable {b : UInt8} {stack : List Bytes} {signature key : Bytes}
  {leaves : Bool → Except ScriptError (List Bytes)}

theorem absent (takes : TakesSignature b stack signature key leaves) :
    Opcode.operand ⟨b⟩ = .absent := by
  cases takes <;> rfl

theorem exists_use (takes : TakesSignature b stack signature key leaves) :
    ∃ use, Opcode.operation ⟨b⟩ = .checkSig use ∧ ∀ (env : Env) (m : Machine), m.stack = stack →
      m.useSignature env use = m.checkSignature env signature key >>= fun r =>
        (leaves r.1).map r.2.withStack := by
  cases takes with
  | checkSig =>
    refine ⟨.push, rfl, fun env m h => ?_⟩
    rw [Machine.useSignature, h]
    rfl
  | checkSigVerify =>
    refine ⟨.verify, rfl, fun env m h => ?_⟩
    rw [Machine.useSignature, h]
    show (m.checkSignature env signature key >>= _) = _
    congr 1
    funext r
    obtain ⟨valid, left⟩ := r
    cases valid <;> rfl
  | checkSigAdd number =>
    refine ⟨.add, rfl, fun env m h => ?_⟩
    rw [Machine.useSignature, h]
    show ((operand _ >>= _) >>= _) = _
    rw [number]
    show (m.checkSignature env signature key >>= _) = _
    congr 1
    funext r
    obtain ⟨valid, left⟩ := r
    cases valid
    · show Except.ok (left.withStack (ScriptNumber.encode (_ + 0) :: _)) = _
      rw [Int.add_zero]
      rfl
    · rfl

/-- An executed opcode checks the signature, and what it leaves follows from the outcome. -/
theorem step {env : Env} {m : Machine} {pc : Nat} {i : Instruction}
    (takes : TakesSignature i.opcode.byte m.stack signature key leaves) (bare : i.data = none)
    (executed : m.executing = true) :
    m.step env pc i = m.checkSignature env signature key >>= fun r =>
      leaves r.1 >>= fun stack => (r.2.withStack stack).checkSize := by
  obtain ⟨use, operation, uses⟩ := takes.exists_use
  have operation : i.opcode.operation = .checkSig use := operation
  have allowed : i.refused? = none := by
    rw [Instruction.refused?, bare, operation]
    rfl
  have obeyed : m.obeys i = true := by rw [Machine.obeys, executed, Bool.true_or]
  rw [Machine.step_of_obeys allowed obeyed, Machine.effect, bare]
  show m.perform env pc i.opcode.operation >>= _ = _
  rw [operation]
  show m.useSignature env use >>= _ = _
  rw [uses env m rfl]
  rcases m.checkSignature env signature key with e | ⟨valid, left⟩
  · rfl
  · show ((leaves valid).map left.withStack >>= _) = leaves valid >>= _
    cases leaves valid <;> rfl

/-- An opcode to which a signature counts as false has an error of its own, if any. -/
theorem counted_ne_unknownKey (takes : TakesSignature b stack signature key leaves) (m : Machine) :
    (leaves false >>= fun stack => (m.withStack stack).checkSize) ≠
      .error .discourageUpgradablePubkeyType := by
  have counted (stack : List Bytes) :
      (m.withStack stack).checkSize ≠ .error .discourageUpgradablePubkeyType := by
    rw [Machine.checkSize]
    split <;> nofun
  cases takes with
  | checkSig => exact counted _
  | checkSigVerify => nofun
  | checkSigAdd number => exact counted _

end TakesSignature

/-! ## Checking the signature -/

namespace LeafRun

variable {leaf : LeafRun} {curve : Curve} {spend : Spend} {m : Machine} {signature key : Bytes}

theorem checkSignature_eq (nonempty : key ≠ []) :
    m.checkSignature (leaf.env curve spend) signature key =
      (leaf.scope curve spend).check m.budget m.separator signature key >>=
        fun r => .ok (r.1, { m with budget := r.2 }) := by
  rw [Machine.checkSignature, if_neg (by simpa using nonempty)]
  rfl

/-- An empty signature counts as false, whatever the key. -/
theorem checkSignature_noSignature (nonempty : key ≠ []) :
    m.checkSignature (leaf.env curve spend) [] key = .ok (false, m) := by
  rw [checkSignature_eq nonempty, SignatureScope.check_nil]
  rfl

theorem checkSignature_unknownKey (nonempty : key ≠ []) (unknown : key.length ≠ 32)
    (signed : signature ≠ []) (paid : 50 ≤ m.budget) :
    m.checkSignature (leaf.env curve spend) signature key =
      .error .discourageUpgradablePubkeyType := by
  have charged : (leaf.scope curve spend).charge m.budget = .ok (m.budget - 50) :=
    (SignatureScope.charge_eq_ok_iff rfl).mpr ⟨paid, rfl⟩
  rw [checkSignature_eq nonempty, SignatureScope.check, if_neg (by simpa using signed), charged,
    Except.ok_bind, if_pos unknown]
  rfl

/-- A signature that is not empty counts as true or makes the opcode fail. -/
theorem checkSignature_cases (length : key.length = 32) (signed : signature ≠ []) :
    (leaf.Accepts curve spend m.separator signature key ∧ 50 ≤ m.budget ∧
        m.checkSignature (leaf.env curve spend) signature key =
          .ok (true, { m with budget := m.budget - 50 })) ∨
      ¬ (leaf.Accepts curve spend m.separator signature key ∧ 50 ≤ m.budget) ∧
        ∃ e, m.checkSignature (leaf.env curve spend) signature key = .error e := by
  have nonempty : key ≠ [] := by
    rintro rfl
    cases length
  rw [checkSignature_eq nonempty]
  by_cases good : leaf.Accepts curve spend m.separator signature key ∧ 50 ≤ m.budget
  · obtain ⟨⟨xOnly, read, accepted⟩, paid⟩ := good
    refine .inl ⟨⟨xOnly, read, accepted⟩, paid, ?_⟩
    rw [(SignatureScope.check_eq_ok_iff signed).mpr ⟨rfl,
      (SignatureScope.charge_eq_ok_iff rfl).mpr ⟨paid, rfl⟩, length, xOnly, read, accepted⟩]
    rfl
  · refine .inr ⟨good, ?_⟩
    cases answered : (leaf.scope curve spend).check m.budget m.separator signature key with
    | error e => exact ⟨e, rfl⟩
    | ok r =>
      obtain ⟨-, charged, -, xOnly, read, accepted⟩ :=
        (SignatureScope.check_eq_ok_iff signed).mp answered
      obtain ⟨paid, -⟩ := (SignatureScope.charge_eq_ok_iff rfl).mp charged
      exact (good ⟨⟨xOnly, read, accepted⟩, paid⟩).elim

end LeafRun

/-! ## The opcodes of a leaf -/

/-- **The machine follows the rule unless an empty signature meets a key of unknown type**, which
counts as false instead of failing. -/
theorem followsPolicy_step_iff {leaf : LeafRun} {curve : Curve} {spend : Spend} {k : Nat}
    {m : Machine} {i : Instruction} {signature key : Bytes}
    {leaves : Bool → Except ScriptError (List Bytes)}
    (visited : ((Machine.start leaf.stack leaf.budget).visits (leaf.env curve spend) 0
      (Script.decode leaf.script))[k]? = some m)
    (here : (Script.decode leaf.script)[k]? = some i) (executed : m.executing = true)
    (takes : TakesSignature i.opcode.byte m.stack signature key leaves) :
    (FollowsPolicy (leaf.Accepts curve spend ((Machine.start leaf.stack leaf.budget).lastSeparator?
          (leaf.env curve spend) (Script.decode leaf.script) k) signature key)
        m signature key leaves (m.step (leaf.env curve spend) k i) ↔
      ¬ (signature = [] ∧ key ≠ [] ∧ key.length ≠ 32)) ∧
    (signature = [] → key ≠ [] → m.step (leaf.env curve spend) k i =
      leaves false >>= fun stack => (m.withStack stack).checkSize) := by
  have bare : i.data = none := by
    rw [Script.eq_of_mem_decodeFrom_of_absent (List.mem_of_getElem? here) takes.absent]
  rw [← Machine.separator_of_visits rfl visited, takes.step bare executed]
  have countsFalse (unsigned : signature = []) (nonempty : key ≠ []) :
      (m.checkSignature (leaf.env curve spend) signature key >>= fun r =>
        leaves r.1 >>= fun stack => (r.2.withStack stack).checkSize) =
      leaves false >>= fun stack => (m.withStack stack).checkSize := by
    rw [unsigned, LeafRun.checkSignature_noSignature nonempty]
    rfl
  refine ⟨⟨?_, fun regular => ⟨?_, ?_, ?_, ?_⟩⟩, countsFalse⟩
  · rintro follows ⟨unsigned, nonempty, unknown⟩
    have refused := follows.unknownKey nonempty unknown fun signed => (signed unsigned).elim
    rw [countsFalse unsigned nonempty] at refused
    exact takes.counted_ne_unknownKey m refused
  · rintro rfl
    exact ⟨.tapscriptEmptyPubkey, rfl⟩
  · intro nonempty unknown paid
    have signed : signature ≠ [] := fun unsigned => regular ⟨unsigned, nonempty, unknown⟩
    rw [LeafRun.checkSignature_unknownKey nonempty unknown signed (paid signed)]
    rfl
  · intro length unsigned
    refine countsFalse unsigned ?_
    rintro rfl
    cases length
  · intro length signed
    rcases LeafRun.checkSignature_cases length signed with
      ⟨accepted, paid, checked⟩ | ⟨bad, e, failed⟩
    · rw [checked]
      exact .inl ⟨accepted, paid, rfl⟩
    · rw [failed]
      exact .inr ⟨bad, e, rfl⟩

/-! ## An empty signature for a key of 33 bytes -/

/-- A leaf that is content if the signature that it is given counts as false. -/
def unsignedLeaf (key : Bytes) : LeafRun := ⟨[0xac, 0x91], [key, []], none, 1000⟩

theorem decode_unsignedLeaf (key : Bytes) :
    Script.decode (unsignedLeaf key).script =
      [⟨⟨0xac⟩, none, 0, 1, false⟩, ⟨⟨0x91⟩, none, 1, 1, false⟩] := by
  rw [unsignedLeaf, Script.decode, Script.decodeFrom_of_absent rfl, Script.decodeFrom_of_absent rfl,
    Script.decodeFrom_nil]

/-- A key of 33 bytes passes with an empty signature. -/
theorem exists_not_followsPolicy :
    ∃ (leaf : LeafRun) (m : Machine) (i : Instruction) (signature key : Bytes)
      (leaves : Bool → Except ScriptError (List Bytes)),
      ((Machine.start leaf.stack leaf.budget).visits (leaf.env inertCurve onesSpend) 0
          (Script.decode leaf.script))[0]? = some m ∧
        (Script.decode leaf.script)[0]? = some i ∧ m.executing = true ∧
        TakesSignature i.opcode.byte m.stack signature key leaves ∧
        key.length = 33 ∧ signature = [] ∧ 50 ≤ m.budget ∧
        ∀ valid, ¬ FollowsPolicy valid m signature key leaves
          (m.step (leaf.env inertCurve onesSpend) 0 i) := by
  refine ⟨unsignedLeaf (List.replicate 33 2), _, ⟨⟨0xac⟩, none, 0, 1, false⟩, [], _, _,
    Machine.getElem?_visits_zero _ _ _, ?_, rfl, .checkSig, rfl, rfl, by decide, ?_⟩
  · rw [decode_unsignedLeaf]
    rfl
  · intro valid follows
    cases follows.unknownKey nofun (by decide) fun signed => (signed rfl).elim

/-! ## A signature behind a code separator -/

/-- A leaf that checks a signature by the key of all ones behind a code separator. -/
def separatedLeaf : LeafRun :=
  ⟨[0xab, 0xac], [List.replicate 32 1, List.replicate 64 2], none, 1000⟩

/-- The machine of the leaf before the signature is checked. -/
def separatedMachine : Machine := ⟨separatedLeaf.stack, [], [], some 0, 1000⟩

theorem decode_separatedLeaf : Script.decode separatedLeaf.script =
    [⟨⟨0xab⟩, none, 0, 1, false⟩, ⟨⟨0xac⟩, none, 1, 1, false⟩] := by
  rw [separatedLeaf, Script.decode, Script.decodeFrom_of_absent rfl,
    Script.decodeFrom_of_absent rfl, Script.decodeFrom_nil]

theorem visits_separatedLeaf :
    ((Machine.start separatedLeaf.stack separatedLeaf.budget).visits
      (separatedLeaf.env inertCurve onesSpend) 0 (Script.decode separatedLeaf.script))[1]? =
        some separatedMachine := by
  rw [decode_separatedLeaf, Machine.getElem?_visits_succ, Machine.getElem?_visits_zero]
  rfl

theorem followsPolicy_step_iff_separatedLeaf :
    ((Machine.start separatedLeaf.stack separatedLeaf.budget).visits
        (separatedLeaf.env inertCurve onesSpend) 0 (Script.decode separatedLeaf.script))[1]? =
          some separatedMachine ∧
      (Script.decode separatedLeaf.script)[1]? = some ⟨⟨0xac⟩, none, 1, 1, false⟩ ∧
      separatedMachine.executing = true ∧
      TakesSignature 0xac separatedMachine.stack (List.replicate 64 2) (List.replicate 32 1)
        (fun valid => .ok ((if valid then [1] else []) :: [])) ∧
      (FollowsPolicy
          (separatedLeaf.Accepts inertCurve onesSpend
            ((Machine.start separatedLeaf.stack separatedLeaf.budget).lastSeparator?
              (separatedLeaf.env inertCurve onesSpend) (Script.decode separatedLeaf.script) 1)
            (List.replicate 64 2) (List.replicate 32 1))
          separatedMachine (List.replicate 64 2) (List.replicate 32 1)
          (fun valid => .ok ((if valid then [1] else []) :: []))
          (separatedMachine.step (separatedLeaf.env inertCurve onesSpend) 1
            ⟨⟨0xac⟩, none, 1, 1, false⟩) ↔
        ¬ (List.replicate 64 (2 : UInt8) = [] ∧ List.replicate 32 (1 : UInt8) ≠ []
          ∧ (List.replicate 32 (1 : UInt8)).length ≠ 32)) := by
  have here : (Script.decode separatedLeaf.script)[1]? = some ⟨⟨0xac⟩, none, 1, 1, false⟩ := by
    rw [decode_separatedLeaf]
    rfl
  exact ⟨visits_separatedLeaf, here, rfl, .checkSig,
    (followsPolicy_step_iff visits_separatedLeaf here rfl .checkSig).1⟩

end TaprootLab
