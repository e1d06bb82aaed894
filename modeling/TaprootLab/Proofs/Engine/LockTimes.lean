import Mathlib.Tactic.MkIffOfInductiveProp
import TaprootLab.Proofs.Engine.Operands
import TaprootLab.Proofs.Engine.StackLimit

/-!
# What the lock-time opcodes let pass

A lock-time opcode compares the number on top of the stack with a field of the transaction and
leaves everything as it is. `Unlocks` says when it is let pass, over unsigned fields and single bits
of them. The machine does the same, except that it compares the version of the transaction as a
signed number: from `2 ^ 31` on, a relative lock is refused that should hold
(`followsLocks_step_iff`).
-/

namespace TaprootLab

/-! ## The rule -/

/-- An item of at most five bytes that is a number, and the shortest one that is. -/
structure LockNumber (item : Bytes) (n : Int) : Prop where
  value : ScriptNumber.value item = n
  shortest : ∀ other, ScriptNumber.value other = n → item.length ≤ other.length
  short : item.length ≤ 5

/-- The lock time of a transaction is of the kind that is asked for and not before it. -/
@[mk_iff] structure LockTimeReached (spend : Spend) (n : Int) : Prop where
  nonneg : 0 ≤ n
  kind : n < 500000000 ↔ spend.tx.lockTime.toNat < 500000000
  reached : n ≤ spend.tx.lockTime.toNat
  on : spend.input.sequence ≠ 0xffffffff

/-- The relative lock of an input is of the kind that is asked for and not shorter. -/
@[mk_iff] structure AgeReached (spend : Spend) (n : Nat) : Prop where
  on : spend.input.sequence.toNat.testBit 31 = false
  kind : n.testBit 22 = spend.input.sequence.toNat.testBit 22
  reached : n % 2 ^ 16 ≤ spend.input.sequence.toNat % 2 ^ 16

instance (spend : Spend) (n : Int) : Decidable (LockTimeReached spend n) :=
  decidable_of_iff' _ (lockTimeReached_iff spend n)

instance (spend : Spend) (n : Nat) : Decidable (AgeReached spend n) :=
  decidable_of_iff' _ (ageReached_iff spend n)

/-- A lock-time opcode is let pass on a stack. -/
inductive Unlocks (spend : Spend) : (opcode : UInt8) → (stack : List Bytes) → Prop
  | lockTime {item : Bytes} {rest : List Bytes} {n : Int} (number : LockNumber item n)
      (reached : LockTimeReached spend n) : Unlocks spend 0xb1 (item :: rest)
  | switchedOff {item : Bytes} {rest : List Bytes} {n : Nat} (number : LockNumber item n)
      (off : n.testBit 31 = true) : Unlocks spend 0xb2 (item :: rest)
  | age {item : Bytes} {rest : List Bytes} {n : Nat} (number : LockNumber item n)
      (version : 2 ≤ spend.tx.version.toNat) (reached : AgeReached spend n) :
      Unlocks spend 0xb2 (item :: rest)

/-- What a lock-time opcode is let do on `m`: nothing at all, where it passes. Items are counted
behind the opcode as behind any other. -/
structure FollowsLocks (spend : Spend) (opcode : UInt8) (m : Machine)
    (outcome : Except ScriptError Machine) :
    Prop where
  passes : Unlocks spend opcode m.stack → outcome =
    if m.stack.length + m.altStack.length ≤ 1000 then .ok m else .error .stackSize
  fails : ¬ Unlocks spend opcode m.stack → ∃ e, outcome = .error e

/-- A relative lock that holds, in a transaction whose version is negative as a signed number. -/
inductive NegativeVersionAge (spend : Spend) : (opcode : UInt8) → (stack : List Bytes) → Prop
  | intro {item : Bytes} {rest : List Bytes} {n : Nat} (number : LockNumber item n)
      (on : n.testBit 31 = false) (version : 2 ^ 31 ≤ spend.tx.version.toNat)
      (reached : AgeReached spend n) :
      NegativeVersionAge spend 0xb2 (item :: rest)

/-! ## The number -/

theorem numberOfSize_eq_ok_iff {item : Bytes} {n : Int} :
    numberOfSize 5 item = .ok n ↔ LockNumber item n := by
  rw [numberOfSize_eq_ok]
  constructor
  · rintro ⟨encodes, short⟩
    exact ⟨encodes.value, encodes.shortest, short⟩
  · rintro ⟨value, shortest, short⟩
    exact ⟨⟨value, shortest⟩, short⟩

theorem LockNumber.eq {item : Bytes} {n k : Int} (number : LockNumber item n)
    (other : LockNumber item k) :
    n = k :=
  number.value.symm.trans other.value

/-! ## The two checks -/

theorem signedVersion_lt_two_iff {tx : Transaction} :
    tx.signedVersion < 2 ↔ tx.version.toNat < 2 ∨ 2 ^ 31 ≤ tx.version.toNat := by
  have small := tx.version.toNat_lt
  have signed : tx.signedVersion =
      if 2 * tx.version.toNat < 2 ^ 32 then (tx.version.toNat : Int)
        else tx.version.toNat - (2 ^ 32 : Nat) :=
    BitVec.toInt_eq_toNat_cond tx.version.toBitVec
  rw [signed]
  split <;> omega

section
variable {scope : SignatureScope} {item : Bytes} {rest : List Bytes}

theorem checkLockTime_eq {n : Int} (number : LockNumber item n) :
    checkLockTime scope.env (item :: rest) =
      if LockTimeReached scope.spend n then .ok ()
      else .error (if n < 0 then .negativeLocktime else .unsatisfiedLocktime) := by
  have read := numberOfSize_eq_ok_iff.mpr number
  have lockTime : scope.env.lockTime = scope.spend.tx.lockTime := rfl
  have sequence : scope.env.sequence = scope.spend.input.sequence := rfl
  simp only [checkLockTime, pop, read, Except.ok_bind, Except.throw_eq, lockTime, sequence,
    Bool.or_eq_true, bne_iff_ne, ne_eq, decide_eq_decide, decide_eq_true_eq, beq_iff_eq,
    finalSequence]
  have threshold : lockTimeThreshold = 500000000 := rfl
  by_cases reached : LockTimeReached scope.spend n
  · have nonneg := reached.nonneg
    have kind := reached.kind
    have after := reached.reached
    rw [if_pos reached, if_neg (by omega), if_neg]
    · rfl
    · rintro ((other | early) | off)
      · omega
      · omega
      · exact reached.on off
  · rw [if_neg reached]
    split
    · rfl
    · rw [if_pos]
      by_contra met
      simp only [not_or, not_not] at met
      obtain ⟨⟨kind, after⟩, on⟩ := met
      exact reached ⟨by omega, by omega, by omega, on⟩

theorem checkSequence_of_off {n : Nat} (number : LockNumber item n) (off : n.testBit 31 = true) :
    checkSequence scope.env (item :: rest) = .ok () := by
  have read := numberOfSize_eq_ok_iff.mpr number
  simp only [checkSequence, pop, read, Except.ok_bind, Except.throw_eq]
  rw [if_neg (by omega), Int.toNat_natCast, relativeLockDisabled, if_pos off]
  rfl

theorem checkSequence_of_on {n : Nat} (number : LockNumber item n) (on : n.testBit 31 = false) :
    checkSequence scope.env (item :: rest) =
      if 2 ≤ scope.spend.tx.signedVersion ∧ AgeReached scope.spend n then .ok ()
      else .error .unsatisfiedLocktime := by
  have read := numberOfSize_eq_ok_iff.mpr number
  have version : scope.env.signedVersion = scope.spend.tx.signedVersion := rfl
  have sequence : scope.env.sequence = scope.spend.input.sequence := rfl
  simp only [checkSequence, pop, read, Except.ok_bind, Except.throw_eq, version, sequence,
    Int.toNat_natCast, relativeLockDisabled, relativeLockInTime, relativeLockLength, on,
    Bool.or_eq_true, bne_iff_ne, ne_eq, decide_eq_true_eq]
  rw [if_neg (by omega), if_neg Bool.false_ne_true]
  by_cases holds : 2 ≤ scope.spend.tx.signedVersion ∧ AgeReached scope.spend n
  · obtain ⟨recent, reached⟩ := holds
    have after := reached.reached
    rw [if_neg, if_neg, if_pos ⟨recent, reached⟩]
    · rfl
    · rintro (other | early)
      · exact other reached.kind
      · omega
    · rw [not_or, reached.on]
      exact ⟨by omega, Bool.false_ne_true⟩
  · rw [if_neg holds]
    split
    · rfl
    · rename_i met
      rw [if_pos]
      by_contra met'
      simp only [not_or, not_not, Bool.not_eq_true] at met met'
      exact holds ⟨by omega, met.2, met'.1, by omega⟩

theorem exists_of_checkLockTime {env : Env} {stack : List Bytes}
    (h : checkLockTime env stack = .ok ()) :
    ∃ item rest n, stack = item :: rest ∧ LockNumber item n := by
  cases stack with
  | nil => cases h
  | cons item rest =>
    rw [checkLockTime, pop, Except.ok_bind] at h
    obtain ⟨n, read, -⟩ := Except.bind_eq_ok_iff.mp h
    exact ⟨item, rest, n, rfl, numberOfSize_eq_ok_iff.mp read⟩

theorem exists_of_checkSequence {env : Env} {stack : List Bytes}
    (h : checkSequence env stack = .ok ()) :
    ∃ item rest, ∃ n : Nat, stack = item :: rest ∧ LockNumber item n := by
  cases stack with
  | nil => cases h
  | cons item rest =>
    rw [checkSequence, pop, Except.ok_bind] at h
    obtain ⟨n, read, h⟩ := Except.bind_eq_ok_iff.mp h
    have nonneg : 0 ≤ n := by
      by_contra negative
      rw [if_pos (by omega)] at h
      cases h
    refine ⟨item, rest, n.toNat, rfl, numberOfSize_eq_ok_iff.mp ?_⟩
    rw [Int.toNat_of_nonneg nonneg, read]

/-- The lock time is checked by the rule. -/
theorem checkLockTime_eq_ok_iff {stack : List Bytes} :
    checkLockTime scope.env stack = .ok () ↔ Unlocks scope.spend 0xb1 stack := by
  constructor
  · intro passed
    obtain ⟨item, rest, n, rfl, number⟩ := exists_of_checkLockTime passed
    rw [checkLockTime_eq number] at passed
    split at passed
    · exact .lockTime number ‹_›
    · cases passed
  · rintro ⟨number, reached⟩
    rw [checkLockTime_eq number, if_pos reached]

/-- A relative lock is checked by the rule, unless the version is taken for a negative one. -/
theorem checkSequence_eq_ok_iff {stack : List Bytes} :
    checkSequence scope.env stack = .ok () ↔
      Unlocks scope.spend 0xb2 stack ∧ ¬ NegativeVersionAge scope.spend 0xb2 stack := by
  have version := @signedVersion_lt_two_iff scope.spend.tx
  constructor
  · intro passed
    obtain ⟨item, rest, n, rfl, number⟩ := exists_of_checkSequence passed
    by_cases off : n.testBit 31 = true
    · refine ⟨.switchedOff number off, ?_⟩
      rintro ⟨number', on, -, -⟩
      rw [Int.ofNat_inj.mp (number.eq number'), on] at off
      cases off
    · rw [checkSequence_of_on number (Bool.not_eq_true _ ▸ off)] at passed
      split at passed
      · rename_i holds
        refine ⟨.age number (by omega) holds.2, ?_⟩
        rintro ⟨-, -, negative, -⟩
        omega
      · cases passed
  · rintro ⟨unlocked, signed⟩
    cases unlocked with
    | switchedOff number off => exact checkSequence_of_off number off
    | @age item rest n number recent reached =>
      by_cases off : n.testBit 31 = true
      · exact checkSequence_of_off number off
      · rw [Bool.not_eq_true] at off
        have positive : ¬ 2 ^ 31 ≤ scope.spend.tx.version.toNat :=
          fun h => signed ⟨number, off, h, reached⟩
        rw [checkSequence_of_on number off, if_pos ⟨by omega, reached⟩]

theorem checkSequence_of_negativeVersionAge {stack : List Bytes}
    (h : NegativeVersionAge scope.spend 0xb2 stack) :
    checkSequence scope.env stack = .error .unsatisfiedLocktime
      ∧ Unlocks scope.spend 0xb2 stack := by
  have version := @signedVersion_lt_two_iff scope.spend.tx
  obtain ⟨number, on, negative, reached⟩ := h
  refine ⟨?_, .age number (by omega) reached⟩
  rw [checkSequence_of_on number on, if_neg]
  rintro ⟨recent, -⟩
  omega

end

/-! ## The opcodes -/

namespace Machine

variable {env : Env} {m : Machine} {pc : Nat} {i : Instruction}

/-- An instruction that only checks something passes where the check does. -/
theorem step_of_check {check : Except ScriptError Unit} (allowed : i.refused? = none)
    (executed : m.executing = true) (checks : m.effect env pc i = check >>= fun _ => pure m) :
    m.step env pc i = check >>= fun _ => m.checkSize := by
  rw [step_of_obeys allowed (by rw [obeys, executed, Bool.true_or]), checks]
  cases check <;> rfl

theorem step_lockTime (byte : i.opcode.byte = 0xb1) (bare : i.data = none)
    (executed : m.executing = true) :
    m.step env pc i = checkLockTime env m.stack >>= fun _ => m.checkSize := by
  obtain ⟨⟨b⟩, data, offset, length, truncated⟩ := i
  obtain rfl : b = 0xb1 := byte
  obtain rfl : data = none := bare
  exact step_of_check rfl executed rfl

theorem step_sequence (byte : i.opcode.byte = 0xb2) (bare : i.data = none)
    (executed : m.executing = true) :
    m.step env pc i = checkSequence env m.stack >>= fun _ => m.checkSize := by
  obtain ⟨⟨b⟩, data, offset, length, truncated⟩ := i
  obtain rfl : b = 0xb2 := byte
  obtain rfl : data = none := bare
  exact step_of_check rfl executed rfl

end Machine

/-- An opcode that checks something and then does nothing follows the rule where the check does. -/
theorem followsLocks_iff_of_check {spend : Spend} {opcode : UInt8} {m : Machine}
    {check : Except ScriptError Unit} {signed : Prop}
    (checked : check = .ok () ↔ Unlocks spend opcode m.stack ∧ ¬ signed)
    (refused : signed → check = .error .unsatisfiedLocktime ∧ Unlocks spend opcode m.stack) :
    (FollowsLocks spend opcode m (check >>= fun _ => m.checkSize) ↔ ¬ signed)
      ∧ (∀ m', (check >>= fun _ => m.checkSize) = .ok m' → m' = m)
      ∧ (signed → (check >>= fun _ => m.checkSize) = .error .unsatisfiedLocktime) := by
  have counted : m.checkSize =
      if m.stack.length + m.altStack.length ≤ 1000 then .ok m else .error .stackSize := by
    rw [Machine.checkSize, maxStackSize]
    split <;> split <;> first | rfl | omega
  refine ⟨⟨fun follows bad => ?_, fun good => ⟨fun unlocked => ?_, fun locked => ?_⟩⟩,
    fun m' passed => ?_,
    fun bad => ?_⟩
  · obtain ⟨failed, unlocked⟩ := refused bad
    have outcome := follows.passes unlocked
    rw [failed, Except.error_bind] at outcome
    split at outcome <;> cases outcome
  · rw [checked.mpr ⟨unlocked, good⟩, Except.ok_bind, counted]
  · cases check with
    | ok _ => exact (locked (checked.mp rfl).1).elim
    | error e => exact ⟨e, rfl⟩
  · obtain ⟨_, -, sized⟩ := Except.bind_eq_ok_iff.mp passed
    exact (Machine.checkSize_eq_ok.mp sized).1
  · rw [(refused bad).1, Except.error_bind]

/-- **The machine follows the rule unless a version is negative as a signed number.** Then a
relative lock that holds is refused. Whatever passes leaves the machine as it is. -/
theorem followsLocks_step_iff {scope : SignatureScope} {m : Machine} {pc : Nat} {i : Instruction}
    (byte : i.opcode.byte = 0xb1 ∨ i.opcode.byte = 0xb2) (bare : i.data = none)
    (executed : m.executing = true) :
    (FollowsLocks scope.spend i.opcode.byte m (m.step scope.env pc i) ↔
        ¬ NegativeVersionAge scope.spend i.opcode.byte m.stack)
      ∧ (∀ m', m.step scope.env pc i = .ok m' → m' = m)
      ∧ (NegativeVersionAge scope.spend i.opcode.byte m.stack →
        m.step scope.env pc i = .error .unsatisfiedLocktime) := by
  rcases byte with byte | byte
  · rw [Machine.step_lockTime byte bare executed, byte]
    refine followsLocks_iff_of_check ?_ nofun
    rw [checkLockTime_eq_ok_iff]
    exact ⟨fun unlocked => ⟨unlocked, nofun⟩, And.left⟩
  · rw [Machine.step_sequence byte bare executed, byte]
    exact followsLocks_iff_of_check checkSequence_eq_ok_iff checkSequence_of_negativeVersionAge

/-! ## A lock of ten blocks -/

/-- A spend of an input with a relative lock of ten blocks. -/
def agedSpend (version : UInt32) : Spend where
  tx := ⟨version, [{ TxIn.blank with sequence := 10 }], [], 0⟩
  prevouts := [⟨0, []⟩]
  index := 0
  leafHash := none
  prevouts_length := rfl
  index_lt := Nat.one_pos

/-- A leaf that asks for a relative lock of ten blocks. -/
def agedLeaf : LeafRun := ⟨[0x5a, 0xb2], [], none, 1000⟩

/-- The machine of the leaf before the lock is checked. -/
def agedMachine : Machine := ⟨[[10]], [], [], none, 1000⟩

theorem decode_agedLeaf : Script.decode agedLeaf.script =
    [⟨⟨0x5a⟩, none, 0, 1, false⟩, ⟨⟨0xb2⟩, none, 1, 1, false⟩] := by
  rw [agedLeaf, Script.decode, Script.decodeFrom_of_absent rfl, Script.decodeFrom_of_absent rfl,
    Script.decodeFrom_nil]

theorem visits_agedLeaf (version : UInt32) :
    ((Machine.start agedLeaf.stack agedLeaf.budget).visits
      (agedLeaf.env inertCurve (agedSpend version)) 0 (Script.decode agedLeaf.script))[1]? =
        some agedMachine := by
  have written : ScriptNumber.encode 10 = [10] := @ScriptNumber.encode_value [10] rfl
  have pushed : (Machine.start agedLeaf.stack agedLeaf.budget).step
      (agedLeaf.env inertCurve (agedSpend version)) 0
      ⟨⟨0x5a⟩, none, 0, 1, false⟩ = .ok agedMachine := by
    refine Machine.step_eq_ok.mpr ⟨rfl, .inr ⟨rfl, ?_, by decide⟩⟩
    show Except.ok (Machine.withStack _ [ScriptNumber.encode 10]) = _
    rw [written]
    rfl
  rw [decode_agedLeaf, Machine.getElem?_visits_succ, Machine.getElem?_visits_zero]
  exact congrArg Except.toOption pushed

theorem lockNumber_ten : LockNumber [10] (10 : Nat) := numberOfSize_eq_ok_iff.mp rfl

theorem ageReached_ten (version : UInt32) : AgeReached (agedSpend version) 10 := by
  have sequence : (agedSpend version).input.sequence = 10 := rfl
  rw [ageReached_iff, sequence]
  decide

/-- The lock is refused in a transaction with the greatest version there is. -/
theorem exists_not_followsLocks :
    ∃ (leaf : LeafRun) (spend : Spend) (m : Machine) (i : Instruction),
      ((Machine.start leaf.stack leaf.budget).visits (leaf.env inertCurve spend) 0
          (Script.decode leaf.script))[1]? = some m ∧
        (Script.decode leaf.script)[1]? = some i ∧ m.executing = true ∧ i.opcode.byte = 0xb2 ∧
        2 ≤ spend.tx.version.toNat ∧ Unlocks spend 0xb2 m.stack ∧
        m.step (leaf.env inertCurve spend) 1 i = .error .unsatisfiedLocktime ∧
        ¬ FollowsLocks spend 0xb2 m (m.step (leaf.env inertCurve spend) 1 i) := by
  have unlocked : Unlocks (agedSpend 0xffffffff) 0xb2 agedMachine.stack :=
    .age lockNumber_ten (by decide) (ageReached_ten _)
  have refused : agedMachine.step (agedLeaf.env inertCurve (agedSpend 0xffffffff)) 1
      ⟨⟨0xb2⟩, none, 1, 1, false⟩ = .error .unsatisfiedLocktime := by
    have negative : NegativeVersionAge (agedSpend 0xffffffff) 0xb2 agedMachine.stack :=
      ⟨lockNumber_ten, by decide, by decide, ageReached_ten _⟩
    have checked := @checkSequence_of_negativeVersionAge (agedLeaf.scope inertCurve _) _ negative
    rw [Machine.step_sequence rfl rfl rfl]
    exact congrArg (· >>= fun _ => agedMachine.checkSize) checked.1
  refine ⟨agedLeaf, agedSpend 0xffffffff, agedMachine, ⟨⟨0xb2⟩, none, 1, 1, false⟩,
    visits_agedLeaf _, ?_, rfl, rfl, by decide, unlocked, refused, fun follows => ?_⟩
  · rw [decode_agedLeaf]
    rfl
  · cases refused.symm.trans (follows.passes unlocked)

/-- The lock holds in a transaction of version two. -/
theorem followsLocks_step_iff_agedLeaf :
    agedMachine.executing = true ∧ Unlocks (agedSpend 2) 0xb2 agedMachine.stack ∧
      agedMachine.step (agedLeaf.env inertCurve (agedSpend 2)) 1 ⟨⟨0xb2⟩, none, 1, 1, false⟩ =
        .ok agedMachine := by
  have unlocked : Unlocks (agedSpend 2) 0xb2 agedMachine.stack :=
    .age lockNumber_ten (by decide) (ageReached_ten _)
  have signed : ¬ NegativeVersionAge (agedSpend 2) 0xb2 agedMachine.stack := by
    rintro ⟨-, -, negative, -⟩
    revert negative
    decide
  have follows := (@followsLocks_step_iff (agedLeaf.scope inertCurve (agedSpend 2)) agedMachine 1
    ⟨⟨0xb2⟩, none, 1, 1, false⟩ (.inr rfl) rfl rfl).1.mpr signed
  exact ⟨rfl, unlocked, follows.passes unlocked⟩

end TaprootLab
