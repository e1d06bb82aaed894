import TaprootLab.Proofs.Engine.ArithmeticWords
import TaprootLab.Proofs.Engine.Operations

/-!
# How long an item gets

No item that a run shows is longer than 520 bytes. What a script pushes is refused beyond that, what
a witness hands over is looked at before the leaf starts, and what opcodes make themselves is a
digest or the item of a small number. All other items were there before (`Exchanges.short_left`,
`short_calculated`), so every instruction keeps the bound (`Machine.Short.step`). The first two
scripts start with nothing on the stacks, and keep it as well, whatever stands in them
(`length_le_of_reports`).
-/

namespace TaprootLab

open Taproot Run

/-- An item of a number of few digits. -/
theorem short_encode {n : Int} (small : n.natAbs < 2 ^ 32) :
    (ScriptNumber.encode n).length ≤ 520 := by
  have few : (ScriptNumber.encode n).length ≤ 5 :=
    (ScriptNumber.length_encode_le_iff n 5).mpr (small.trans_le (by decide))
  exact few.trans (by decide)

theorem short_ofBool (b : Bool) : (ScriptNumber.ofBool b).length ≤ 520 := by
  cases b <;> decide

theorem short_digest (op : DigestOp) (item : Bytes) : (op.eval item).length ≤ 520 := by
  cases op <;> simp [DigestOp.eval]

/-! ## What opcodes leave -/

/-- An exchange leaves nothing long, where the depth is counted behind it. -/
theorem Exchanges.short_left {depth : Nat} {opcode : UInt8} {e : Exchange}
    (exchange : Exchanges depth opcode e)
    (short : ∀ item ∈ e.taken ++ e.altTaken, item.length ≤ 520)
    (counted : depth + e.left.length ≤ 1000 + e.taken.length) :
    ∀ item ∈ e.left ++ e.altLeft, item.length ≤ 520 := by
  cases exchange with
  | depth =>
    have few : depth ≤ 999 := Nat.le_of_succ_le_succ counted
    exact List.forall_mem_singleton.mpr (short_encode (by omega))
  | size x =>
    have fits : x.length ≤ 520 := short x List.mem_cons_self
    exact List.forall_mem_cons.mpr ⟨fits, List.forall_mem_singleton.mpr (short_encode (by omega))⟩
  | equal x => exact List.forall_mem_singleton.mpr (by decide)
  | unequal differ => exact List.forall_mem_singleton.mpr (by decide)
  | _ =>
    simp only [List.forall_mem_append, List.forall_mem_cons, List.cons_append, List.nil_append,
      List.append_nil] at short ⊢
    tauto

section
variable {stack altStack left : List Bytes} {opcode : UInt8}

theorem short_moved (listed : opcode ∈ movingOpcodes) {r : List Bytes × List Bytes}
    (short : ∀ item ∈ stack ++ altStack, item.length ≤ 520)
    (h : moved opcode stack altStack = .ok r) (counted : r.1.length + r.2.length ≤ 1000) :
    ∀ item ∈ r.1 ++ r.2, item.length ≤ 520 := by
  obtain ⟨e, base, altBase, exchange, rfl, rfl, rfl⟩ := ((moved_eq_iff listed).1 r).mp h
  -- the depth that may be pushed is that before the exchange, but the items are counted behind it
  simp only [List.length_reverse, List.length_append] at exchange counted
  simp only [List.forall_mem_append, List.mem_reverse] at short ⊢
  obtain ⟨⟨below, taken⟩, altBelow, altTaken⟩ := short
  have left := exchange.short_left (List.forall_mem_append.mpr ⟨taken, altTaken⟩) (by omega)
  rw [List.forall_mem_append] at left
  exact ⟨⟨below, left.1⟩, altBelow, left.2⟩

/-- A calculation leaves nothing long. -/
theorem short_calculated (listed : opcode ∈ arithmeticOpcodes)
    (short : ∀ item ∈ stack, item.length ≤ 520) (h : calculated opcode stack = .ok left) :
    ∀ item ∈ left, item.length ≤ 520 := by
  obtain ⟨base, items, operands, results, written, good, computes, encoded, rfl, rfl⟩ :=
    ((calculated_eq_iff listed).1 left).mp h
  simp only [List.forall_mem_append, List.mem_reverse] at short ⊢
  refine ⟨short.1, ?_⟩
  rw [forall₂_encodes_iff.mp encoded, List.forall_mem_map]
  exact fun n h => short_encode (computes.natAbs_lt (natAbs_lt_of_operands good) n h)

end

/-! ## What instructions leave -/

theorem pop_eq_ok_iff {stack rest : List Bytes} {item : Bytes} :
    pop stack = .ok (item, rest) ↔ stack = item :: rest := by
  cases stack <;> simp [pop]

theorem exists_of_popNumber {stack rest : List Bytes} {n : Int}
    (h : popNumber stack = .ok (n, rest)) :
    ∃ item, stack = item :: rest ∧ Operand item n := by
  obtain ⟨⟨item, rest'⟩, popped, h⟩ := Except.bind_eq_ok_iff.mp h
  obtain ⟨n', read, h⟩ := Except.bind_eq_ok_iff.mp h
  cases h
  exact ⟨item, pop_eq_ok_iff.mp popped, operand_eq_ok_iff.mp read⟩

/-- The numbers that opcodes stand for take a byte. -/
theorem Opcode.natAbs_lt_of_number {op : Opcode} {n : Int} (h : op.operation = .number n) :
    n.natAbs < 2 ^ 8 := by
  have small := op.byte.toNat_lt
  unfold operation at h
  split at h
  · cases h
    omega
  · split at h
    all_goals first
      | (cases h; decide)
      | cases h

namespace Machine

/-- Nothing on the two stacks is long. -/
def Short (m : Machine) : Prop := ∀ item ∈ m.stack ++ m.altStack, item.length ≤ 520

section
variable {env : Env} {m m' : Machine} {pc : Nat} {i : Instruction}

theorem Short.withStack (short : m.Short) {stack : List Bytes}
    (new : ∀ item ∈ stack, item.length ≤ 520) :
    (m.withStack stack).Short :=
  List.forall_mem_append.mpr ⟨new, (List.forall_mem_append.mp short).2⟩

theorem Short.push (short : m.Short) {item : Bytes} (fits : item.length ≤ 520) {rest : List Bytes}
    (below : ∀ x ∈ rest, x ∈ m.stack) : (m.withStack (item :: rest)).Short :=
  short.withStack (List.forall_mem_cons.mpr
    ⟨fits, fun x h => short x (List.mem_append_left _ (below x h))⟩)

theorem Short.drop (short : m.Short) {rest : List Bytes} (below : ∀ x ∈ rest, x ∈ m.stack) :
    (m.withStack rest).Short :=
  short.withStack fun x h => short x (List.mem_append_left _ (below x h))

theorem Short.useSignature (short : m.Short) {use : SignatureUse}
    (h : m.useSignature env use = .ok m') :
    m'.Short := by
  cases use with
  | push =>
    obtain ⟨⟨key, rest⟩, popped, h⟩ := Except.bind_eq_ok_iff.mp h
    obtain ⟨⟨signature, rest'⟩, popped', h⟩ := Except.bind_eq_ok_iff.mp h
    obtain ⟨⟨valid, m₁⟩, checked, h⟩ := Except.bind_eq_ok_iff.mp h
    obtain ⟨left, rfl⟩ := exists_of_checkSignature checked
    cases h
    refine short.push (short_ofBool valid) fun x h => ?_
    rw [pop_eq_ok_iff.mp popped, pop_eq_ok_iff.mp popped']
    exact .tail _ (.tail _ h)
  | verify =>
    obtain ⟨⟨key, rest⟩, popped, h⟩ := Except.bind_eq_ok_iff.mp h
    obtain ⟨⟨signature, rest'⟩, popped', h⟩ := Except.bind_eq_ok_iff.mp h
    obtain ⟨⟨valid, m₁⟩, checked, h⟩ := Except.bind_eq_ok_iff.mp h
    obtain ⟨left, rfl⟩ := exists_of_checkSignature checked
    cases valid <;> cases h
    refine short.drop fun x h => ?_
    rw [pop_eq_ok_iff.mp popped, pop_eq_ok_iff.mp popped']
    exact .tail _ (.tail _ h)
  | add =>
    obtain ⟨⟨key, rest⟩, popped, h⟩ := Except.bind_eq_ok_iff.mp h
    obtain ⟨⟨n, rest'⟩, counter, h⟩ := Except.bind_eq_ok_iff.mp h
    obtain ⟨⟨signature, rest''⟩, popped', h⟩ := Except.bind_eq_ok_iff.mp h
    obtain ⟨⟨valid, m₁⟩, checked, h⟩ := Except.bind_eq_ok_iff.mp h
    obtain ⟨left, rfl⟩ := exists_of_checkSignature checked
    cases h
    obtain ⟨item, split, number⟩ := exists_of_popNumber counter
    have small := number.natAbs_lt
    refine short.push (short_encode ?_) fun x h => ?_
    · cases valid <;> simp only [truthNumber, Bool.false_eq_true, if_false, if_true] <;> omega
    · rw [pop_eq_ok_iff.mp popped, split, pop_eq_ok_iff.mp popped']
      exact .tail _ (.tail _ (.tail _ h))

theorem Short.openBranch (short : m.Short) {negated : Bool} (h : m.openBranch negated = .ok m') :
    m'.Short := by
  rw [Machine.openBranch] at h
  split at h
  · obtain ⟨⟨item, rest⟩, popped, h⟩ := Except.bind_eq_ok_iff.mp h
    obtain ⟨taken, -, h⟩ := Except.bind_eq_ok_iff.mp h
    cases h
    refine short.drop fun x h => ?_
    rw [pop_eq_ok_iff.mp popped]
    exact .tail _ h
  · cases h
    exact short

/-- A moved item was there before, or is one that stands for a depth, a length or the outcome of a
comparison. -/
theorem Short.moving (short : m.Short) {opcode : UInt8} (listed : opcode ∈ movingOpcodes)
    (h : m.perform env pc (Opcode.operation ⟨opcode⟩) = .ok m') (counted : m'.size ≤ maxStackSize) :
    m'.Short := by
  rw [perform_moving listed] at h
  obtain ⟨r, result, rfl⟩ := Except.map_eq_ok_iff.mp h
  exact short_moved listed short result counted

theorem Short.arithmetic (short : m.Short) {opcode : UInt8} (listed : opcode ∈ arithmeticOpcodes)
    (h : m.perform env pc (Opcode.operation ⟨opcode⟩) = .ok m') : m'.Short := by
  rw [perform_arithmetic listed] at h
  obtain ⟨left, result, rfl⟩ := Except.map_eq_ok_iff.mp h
  exact short.withStack (short_calculated listed (List.forall_mem_append.mp short).1 result)

theorem Short.perform (short : m.Short) {op : Opcode} (h : m.perform env pc op.operation = .ok m')
    (counted : m'.size ≤ maxStackSize) : m'.Short := by
  cases operation : op.operation with
  | number n =>
    rw [operation] at h
    cases h
    have small := Opcode.natAbs_lt_of_number operation
    exact short.push (short_encode (by omega)) fun _ h => h
  | stack op =>
    rw [operation, ← op.operation_opcode] at h
    exact short.moving op.opcode_mem h counted
  | equal =>
    have listed : 0x87 ∈ movingOpcodes := by decide
    rw [operation] at h
    exact short.moving listed h counted
  | equalVerify =>
    have listed : 0x88 ∈ movingOpcodes := by decide
    rw [operation] at h
    exact short.moving listed h counted
  | unary op =>
    rw [operation, ← op.operation_opcode] at h
    exact short.arithmetic (by cases op <;> decide) h
  | binary op =>
    rw [operation, ← op.operation_opcode] at h
    exact short.arithmetic (by cases op <;> decide) h
  | numEqualVerify =>
    have listed : 0x9d ∈ arithmeticOpcodes := by decide
    rw [operation] at h
    exact short.arithmetic listed h
  | within =>
    have listed : 0xa5 ∈ arithmeticOpcodes := by decide
    rw [operation] at h
    exact short.arithmetic listed h
  | digest op =>
    rw [operation] at h
    obtain ⟨⟨item, rest⟩, popped, h⟩ := Except.bind_eq_ok_iff.mp h
    cases h
    refine short.push (short_digest op item) fun x h => ?_
    rw [pop_eq_ok_iff.mp popped]
    exact .tail _ h
  | checkSig use =>
    rw [operation] at h
    exact short.useSignature h
  | verify =>
    rw [operation] at h
    obtain ⟨⟨item, rest⟩, popped, h⟩ := Except.bind_eq_ok_iff.mp h
    dsimp only at h
    split at h <;> cases h
    refine short.drop fun x h => ?_
    rw [pop_eq_ok_iff.mp popped]
    exact .tail _ h
  | openBranch negated =>
    rw [operation] at h
    exact short.openBranch h
  | elseBranch | closeBranch =>
    obtain ⟨stack, altStack, conditions, separator, budget⟩ := m
    rw [operation] at h
    cases conditions <;> cases h
    exact short
  | nop | codeSeparator =>
    rw [operation] at h
    cases h
    exact short
  | lockTimeVerify | sequenceVerify =>
    rw [operation] at h
    obtain ⟨_, -, h⟩ := Except.bind_eq_ok_iff.mp h
    cases h
    exact short
  | upgradableNop | giveUp | checkMultiSig | versionBranch | invalid =>
    rw [operation] at h
    cases h

/-- What is too long to push is refused. -/
theorem length_le_of_allowed {data : Bytes} (allowed : i.refused? = none)
    (pushes : i.data = some data) :
    data.length ≤ 520 := by
  rw [Instruction.refused?, pushes] at allowed
  split at allowed
  · cases allowed
  · rename_i fits
    rw [Option.any_some, decide_eq_true_iff] at fits
    exact Nat.not_lt.mp fits

theorem Short.pushData (short : m.Short) {data : Bytes} (fits : data.length ≤ 520)
    (h : m.pushData i data = .ok m') :
    m'.Short := by
  rw [Machine.pushData] at h
  split at h
  · cases h
  · split at h
    · cases h
    · cases h
      exact short.push fits fun _ h => h

/-- An instruction leaves nothing long. -/
theorem Short.step (short : m.Short) (h : m.step env pc i = .ok m') : m'.Short := by
  obtain ⟨allowed, ⟨-, rfl⟩ | ⟨-, effect, counted⟩⟩ := step_eq_ok.mp h
  · exact short
  · rw [Machine.effect] at effect
    cases pushes : i.data with
    | none =>
      rw [pushes] at effect
      exact short.perform effect counted
    | some data =>
      rw [pushes] at effect
      exact short.pushData (length_le_of_allowed allowed pushes) effect

end

/-- A script that starts with nothing long shows nothing long. -/
theorem Short.boundary {env : Env} {m : Machine} {scriptIndex : Nat} {script : Bytes} {b : Boundary}
    (short : m.Short) (h : b ∈ (m.run env scriptIndex script).boundaries) :
    ∀ item ∈ b.stack ++ b.altStack, item.length ≤ 520 := by
  rw [boundaries_run, List.mem_mapIdx] at h
  obtain ⟨k, hk, rfl⟩ := h
  exact visits_induction short (fun _ _ _ _ _ short h => short.step h) _ (List.getElem_mem hk)

end Machine

/-! ## All scripts of a spend -/

theorem mem_boundaries_bind {α β : Type} {run : Run α} {next : α → Run β} {b : Boundary}
    (h : b ∈ (run.bind next).boundaries) : b ∈ run.boundaries ∨ ∃ a, b ∈ (next a).boundaries := by
  rw [boundaries_bind, List.mem_append] at h
  refine h.imp_right fun h => ?_
  split at h
  · exact ⟨_, h⟩
  · cases h

/-- What is shown of a spend is shown by one of its first two scripts, or by the leaf. -/
theorem mem_boundaries_runTaproot_cases {curve : Curve} {spend : Spend} {witness : List Bytes}
    {b : Boundary} (h : b ∈ (runTaproot curve spend witness).boundaries) :
    (∃ env scriptIndex script, b ∈ ((Machine.start [] 0).run env scriptIndex script).boundaries) ∨
      ∃ leaf, authorize curve spend witness = .ok (some leaf)
        ∧ b ∈ (leaf.run curve spend).boundaries := by
  rw [runTaproot_eq] at h
  rcases mem_boundaries_bind h with h | ⟨_, h⟩
  · exact .inl ⟨_, _, _, h⟩
  split at h
  · cases h
  rcases mem_boundaries_bind h with h | ⟨_, h⟩
  · exact .inl ⟨_, _, _, h⟩
  rw [runWitness] at h
  split at h
  · cases h
  · cases h
  · exact .inr ⟨_, ‹_›, h⟩

/-- **No item is longer than 520 bytes.** Of whatever is spent, with whatever witness and script in
the input, this holds at every boundary that is shown. -/
theorem length_le_of_reports {curve : Curve} {spend : Spend} {witness : List Bytes} {b : Boundary}
    (shown : (runTaproot curve spend witness).Reports b) :
    ∀ item ∈ b.stack ++ b.altStack, item.length ≤ 520 := by
  have h := (stopsOnAbort_runTaproot curve spend witness).mem_boundaries shown
  rcases mem_boundaries_runTaproot_cases h with
    ⟨env, scriptIndex, script, h⟩ | ⟨leaf, authorized, h⟩
  · exact Machine.Short.boundary (m := .start [] 0) nofun h
  · obtain ⟨output, control, -, -, allowed, -⟩ := authorize_eq_some_iff.mp authorized
    obtain ⟨-, -, handed⟩ := authorizeScript_eq_ok_iff.mp allowed
    rw [LeafRun.boundaries_run] at h
    refine Machine.Short.boundary (m := .start leaf.stack leaf.budget) ?_ h
    exact List.forall_mem_append.mpr ⟨handed, nofun⟩

/-- An item of 520 bytes is shown, and none is longer. -/
theorem length_le_of_reports_longest :
    (runTaproot inertCurve onesSpend ([List.replicate 520 7] ++ crowdedWitness 0)).Reports
        ⟨2, 0, [0x51], [List.replicate 520 7], []⟩ ∧
      (List.replicate 520 (7 : UInt8)).length = 520 ∧
      ∀ item ∈ [List.replicate 520 (7 : UInt8)] ++ [], item.length ≤ 520 := by
  have handed : ∀ item ∈ [List.replicate 520 (7 : UInt8)], item.length ≤ 520 :=
    List.forall_mem_singleton.mpr (List.length_replicate ..).le
  have shown := reports_handed handed
  exact ⟨shown, List.length_replicate .., length_le_of_reports shown⟩

end TaprootLab
