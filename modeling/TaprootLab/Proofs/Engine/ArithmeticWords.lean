import TaprootLab.Proofs.Engine.Arithmetic
import TaprootLab.Proofs.Engine.StackLimit
import TaprootLab.Proofs.Script.NumberWord

/-!
# Arithmetic in words

A processor calculates in words of 64 bits. The operands of a script are below `2 ^ 31`, so of
twenty opcodes none leaves a word, and what they calculate is what the integers say
(`computeWords_of_computes`). A result may be too large to be an operand again, but never takes more
than five bytes (`Computes.natAbs_lt`).
-/

namespace TaprootLab

/-! ## Words that do not overflow -/

namespace Word

/-- The sum, if it is a word. -/
def add? (a b : BitVec 64) : Option (BitVec 64) := if a.saddOverflow b then none else some (a + b)

/-- The difference, if it is a word. -/
def sub? (a b : BitVec 64) : Option (BitVec 64) := if a.ssubOverflow b then none else some (a - b)

/-- The word with the other sign, if there is one. -/
def neg? (a : BitVec 64) : Option (BitVec 64) := if a.negOverflow then none else some (-a)

/-- The absolute value, if it is a word. -/
def abs? (a : BitVec 64) : Option (BitVec 64) := if a.slt 0 then neg? a else some a

def truth (b : Bool) : BitVec 64 := if b then 1 else 0

variable {a b : BitVec 64}

theorem exists_add? (ha : a.toInt.natAbs < 2 ^ 31) (hb : b.toInt.natAbs < 2 ^ 31) :
    ∃ w, add? a b = some w ∧ w.toInt = a.toInt + b.toInt := by
  have fits : ¬ a.saddOverflow b = true := by
    rw [BitVec.saddOverflow, Bool.or_eq_true, decide_eq_true_iff, decide_eq_true_iff]
    omega
  exact ⟨a + b, if_neg fits, BitVec.toInt_add_of_not_saddOverflow fits⟩

theorem exists_sub? (ha : a.toInt.natAbs < 2 ^ 31) (hb : b.toInt.natAbs < 2 ^ 31) :
    ∃ w, sub? a b = some w ∧ w.toInt = a.toInt - b.toInt := by
  have fits : ¬ a.ssubOverflow b = true := by
    rw [BitVec.ssubOverflow, Bool.or_eq_true, decide_eq_true_iff, decide_eq_true_iff]
    omega
  exact ⟨a - b, if_neg fits, BitVec.toInt_sub_of_not_ssubOverflow fits⟩

theorem exists_neg? (ha : a.toInt.natAbs < 2 ^ 31) : ∃ w, neg? a = some w ∧ w.toInt = -a.toInt := by
  have fits : ¬ a.negOverflow = true := by
    rw [BitVec.negOverflow, beq_iff_eq]
    omega
  exact ⟨-a, if_neg fits, BitVec.toInt_neg_of_not_negOverflow fits⟩

theorem exists_abs? (ha : a.toInt.natAbs < 2 ^ 31) :
    ∃ w, abs? a = some w ∧ w.toInt = |a.toInt| := by
  rw [abs?]
  by_cases negative : a.toInt < 0
  · rw [if_pos (BitVec.slt_iff_toInt_lt.mpr negative), abs_of_neg negative]
    exact exists_neg? ha
  · rw [if_neg (mt BitVec.slt_iff_toInt_lt.mp negative)]
    exact ⟨a, rfl, (abs_of_nonneg (Int.not_lt.mp negative)).symm⟩

theorem toInt_truth (b : Bool) : (truth b).toInt = if b then 1 else 0 := by
  cases b <;> rfl

theorem toInt_truth_iff {b : Bool} {p : Prop} [Decidable p] (same : b = true ↔ p) :
    (truth b).toInt = if p then 1 else 0 := by
  rw [toInt_truth]
  exact if_congr same rfl rfl

theorem beq_iff_toInt_eq : (a == b) = true ↔ a.toInt = b.toInt := by
  rw [beq_iff_eq, BitVec.toInt_inj]

theorem bne_iff_toInt_ne : (a != b) = true ↔ a.toInt ≠ b.toInt := by
  rw [bne_iff_ne, Ne, ← BitVec.toInt_inj]

end Word

/-! ## What opcodes calculate -/

open Word in
/-- What an opcode makes of words. The one that verifies compares them and makes nothing. -/
def computeWords : (opcode : UInt8) → (operands : List (BitVec 64)) → Option (List (BitVec 64))
  | 0x8b, [a] => (add? a 1).map ([·])
  | 0x8c, [a] => (sub? a 1).map ([·])
  | 0x8f, [a] => (neg? a).map ([·])
  | 0x90, [a] => (abs? a).map ([·])
  | 0x91, [a] => some [truth (a == 0)]
  | 0x92, [a] => some [truth (a != 0)]
  | 0x93, [a, b] => (add? a b).map ([·])
  | 0x94, [a, b] => (sub? a b).map ([·])
  | 0x9a, [a, b] => some [truth (a != 0 && b != 0)]
  | 0x9b, [a, b] => some [truth (a != 0 || b != 0)]
  | 0x9c, [a, b] => some [truth (a == b)]
  | 0x9d, [a, b] => if a == b then some [] else none
  | 0x9e, [a, b] => some [truth (a != b)]
  | 0x9f, [a, b] => some [truth (a.slt b)]
  | 0xa0, [a, b] => some [truth (b.slt a)]
  | 0xa1, [a, b] => some [truth (a.sle b)]
  | 0xa2, [a, b] => some [truth (b.sle a)]
  | 0xa3, [a, b] => some [if a.sle b then a else b]
  | 0xa4, [a, b] => some [if a.sle b then b else a]
  | 0xa5, [x, low, high] => some [truth (low.sle x && x.slt high)]
  | _, _ => none

section
variable {opcode : UInt8} {operands results : List Int}

theorem exists_map {w : Option (BitVec 64)} {n : Int} (h : ∃ word, w = some word ∧ word.toInt = n) :
    ∃ words, w.map ([·]) = some words ∧ words.map BitVec.toInt = [n] := by
  obtain ⟨word, rfl, rfl⟩ := h
  exact ⟨[word], rfl, rfl⟩

theorem exists_two {words : List (BitVec 64)} {n k : Int} (read : words.map BitVec.toInt = [n, k]) :
    ∃ a b, words = [a, b] ∧ a.toInt = n ∧ b.toInt = k := by
  obtain ⟨a, rest, rfl, first, read⟩ := List.map_eq_cons_iff.mp read
  obtain ⟨b, rfl, second⟩ := List.map_eq_singleton_iff.mp read
  exact ⟨a, b, rfl, first, second⟩

open Word in
/-- Words of small numbers give the words of what is calculated from the numbers. -/
theorem computeWords_of_computes {words : List (BitVec 64)}
    (computes : Computes opcode operands results) (read : words.map BitVec.toInt = operands)
    (small : ∀ n ∈ operands, n.natAbs < 2 ^ 31) :
    ∃ made, computeWords opcode words = some made ∧ made.map BitVec.toInt = results := by
  cases computes with
  | increment n =>
    obtain ⟨a, rfl, rfl⟩ := List.map_eq_singleton_iff.mp read
    exact exists_map (exists_add? (small _ List.mem_cons_self) (by decide))
  | decrement n =>
    obtain ⟨a, rfl, rfl⟩ := List.map_eq_singleton_iff.mp read
    exact exists_map (exists_sub? (small _ List.mem_cons_self) (by decide))
  | negate n =>
    obtain ⟨a, rfl, rfl⟩ := List.map_eq_singleton_iff.mp read
    exact exists_map (exists_neg? (small _ List.mem_cons_self))
  | abs n =>
    obtain ⟨a, rfl, rfl⟩ := List.map_eq_singleton_iff.mp read
    exact exists_map (exists_abs? (small _ List.mem_cons_self))
  | not n =>
    obtain ⟨a, rfl, rfl⟩ := List.map_eq_singleton_iff.mp read
    exact ⟨_, rfl, congrArg ([·]) (toInt_truth_iff beq_iff_toInt_eq)⟩
  | notZero n =>
    obtain ⟨a, rfl, rfl⟩ := List.map_eq_singleton_iff.mp read
    exact ⟨_, rfl, congrArg ([·]) (toInt_truth_iff bne_iff_toInt_ne)⟩
  | add n k =>
    obtain ⟨a, b, rfl, rfl, rfl⟩ := exists_two read
    exact exists_map
      (exists_add? (small _ List.mem_cons_self)
        (small _ (List.mem_cons_of_mem _ List.mem_cons_self)))
  | sub n k =>
    obtain ⟨a, b, rfl, rfl, rfl⟩ := exists_two read
    exact exists_map
      (exists_sub? (small _ List.mem_cons_self)
        (small _ (List.mem_cons_of_mem _ List.mem_cons_self)))
  | boolAnd n k =>
    obtain ⟨a, b, rfl, rfl, rfl⟩ := exists_two read
    refine ⟨_, rfl, congrArg ([·]) (toInt_truth_iff ?_)⟩
    rw [Bool.and_eq_true, bne_iff_toInt_ne, bne_iff_toInt_ne]
    rfl
  | boolOr n k =>
    obtain ⟨a, b, rfl, rfl, rfl⟩ := exists_two read
    refine ⟨_, rfl, congrArg ([·]) (toInt_truth_iff ?_)⟩
    rw [Bool.or_eq_true, bne_iff_toInt_ne, bne_iff_toInt_ne]
    rfl
  | numEqual n k =>
    obtain ⟨a, b, rfl, rfl, rfl⟩ := exists_two read
    exact ⟨_, rfl, congrArg ([·]) (toInt_truth_iff beq_iff_toInt_eq)⟩
  | numEqualVerify n =>
    obtain ⟨a, b, rfl, rfl, same⟩ := exists_two read
    exact ⟨_, if_pos (beq_iff_toInt_eq.mpr same.symm), rfl⟩
  | numNotEqual n k =>
    obtain ⟨a, b, rfl, rfl, rfl⟩ := exists_two read
    exact ⟨_, rfl, congrArg ([·]) (toInt_truth_iff bne_iff_toInt_ne)⟩
  | less n k | greater n k =>
    obtain ⟨a, b, rfl, rfl, rfl⟩ := exists_two read
    exact ⟨_, rfl, congrArg ([·]) (toInt_truth_iff BitVec.slt_iff_toInt_lt)⟩
  | lessOrEqual n k | greaterOrEqual n k =>
    obtain ⟨a, b, rfl, rfl, rfl⟩ := exists_two read
    exact ⟨_, rfl, congrArg ([·]) (toInt_truth_iff BitVec.sle_iff_toInt_le)⟩
  | min n k =>
    obtain ⟨a, b, rfl, rfl, rfl⟩ := exists_two read
    refine ⟨_, rfl, congrArg ([·]) ?_⟩
    rw [apply_ite BitVec.toInt, min_def]
    exact if_congr BitVec.sle_iff_toInt_le rfl rfl
  | max n k =>
    obtain ⟨a, b, rfl, rfl, rfl⟩ := exists_two read
    refine ⟨_, rfl, congrArg ([·]) ?_⟩
    rw [apply_ite BitVec.toInt, max_def]
    exact if_congr BitVec.sle_iff_toInt_le rfl rfl
  | within n low high =>
    obtain ⟨x, rest, rfl, rfl, bounds⟩ := List.map_eq_cons_iff.mp read
    obtain ⟨a, b, rfl, rfl, rfl⟩ := exists_two bounds
    refine ⟨_, rfl, congrArg ([·]) (toInt_truth_iff ?_)⟩
    rw [Bool.and_eq_true, BitVec.sle_iff_toInt_le, BitVec.slt_iff_toInt_lt]

theorem natAbs_ite_lt (p : Prop) [Decidable p] : (if p then 1 else 0 : Int).natAbs < 2 ^ 32 := by
  split <;> decide

/-- No result takes more than 32 bits and a sign. -/
theorem Computes.natAbs_lt (computes : Computes opcode operands results)
    (small : ∀ n ∈ operands, n.natAbs < 2 ^ 31) :
    ∀ n ∈ results, n.natAbs < 2 ^ 32 := by
  cases computes with
  | numEqualVerify a => exact nofun
  | not | notZero | boolAnd | boolOr | numEqual | numNotEqual | less | greater | lessOrEqual
  | greaterOrEqual | within =>
    exact List.forall_mem_singleton.mpr (natAbs_ite_lt _)
  | abs a =>
    have ha := List.forall_mem_singleton.mp small
    rw [List.forall_mem_singleton, Int.natAbs_abs]
    omega
  | increment a | decrement a | negate a =>
    have ha := List.forall_mem_singleton.mp small
    rw [List.forall_mem_singleton]
    omega
  | add a b | sub a b | min a b | max a b =>
    have ha := small a List.mem_cons_self
    have hb := small b (List.mem_cons_of_mem _ List.mem_cons_self)
    rw [List.forall_mem_singleton]
    omega

end

theorem map_readWord_of_operands {items : List Bytes} {operands : List Int}
    (good : List.Forall₂ Operand items operands) :
    (items.map ScriptNumber.readWord).map BitVec.toInt = operands := by
  induction good with
  | nil => rfl
  | cons number _ ih =>
    rw [List.map_cons, List.map_cons, ih,
      ScriptNumber.toInt_readWord (number.short.trans (by decide)), number.value]

theorem natAbs_lt_of_operands {items : List Bytes} {operands : List Int}
    (good : List.Forall₂ Operand items operands) :
    ∀ n ∈ operands, n.natAbs < 2 ^ 31 := by
  induction good with
  | nil => exact nofun
  | cons number _ ih => exact List.forall_mem_cons.mpr ⟨number.natAbs_lt, ih⟩

/-- The item of a result is an operand again if the result is small enough. -/
theorem Encodes.exists_operand_iff {item : Bytes} {n : Int} (encodes : Encodes item n) :
    (∃ k, Operand item k) ↔ n.natAbs < 2 ^ 31 := by
  rw [← operand_encode_iff, ← encodes_iff.mp encodes]
  constructor
  · rintro ⟨k, number⟩
    rwa [← encodes.value, number.value]
  · exact fun number => ⟨n, number⟩

namespace Machine

/-- **Arithmetic is exact.** An executed opcode that calculates leaves the shortest items of the
results if its operands are there, and not too many items lie on the stacks then. In words of 64
bits nothing overflows on the way. The item of a result has at most five bytes, and is an operand
again if the result is below `2 ^ 31`. -/
theorem step_calculates {env : Env} {m : Machine} {pc : Nat} {i : Instruction}
    (listed : i.opcode.byte ∈ arithmeticOpcodes) (bare : i.data = none)
    (executed : m.executing = true) :
    Counted (Calculated i.opcode.byte m) (NumberFault m.stack i.opcode.byte) (m.step env pc i) ∧
      ∀ items operands results, List.Forall₂ Operand items operands →
        Computes i.opcode.byte operands results →
        (∃ made, computeWords i.opcode.byte (items.map ScriptNumber.readWord) = some made ∧
            made.map BitVec.toInt = results) ∧
          ∀ n ∈ results, ∀ item, Encodes item n →
            item.length ≤ 5 ∧ ((∃ k, Operand item k) ↔ n.natAbs < 2 ^ 31) := by
  refine ⟨counted_step_arithmetic listed bare executed,
    fun items operands results good computes => ?_⟩
  have small := natAbs_lt_of_operands good
  refine ⟨computeWords_of_computes computes (map_readWord_of_operands good) small,
    fun n h item encodes => ?_⟩
  refine ⟨?_, encodes.exists_operand_iff⟩
  rw [encodes_iff.mp encodes, ScriptNumber.length_encode_le_iff]
  calc n.natAbs < 2 ^ 32 := computes.natAbs_lt small n h
    _ ≤ 2 ^ (8 * 5 - 1) := by decide

/-- The numbers one and `2 ^ 31 - 1`. -/
def summedMachine : Machine := ⟨[[0xff, 0xff, 0xff, 0x7f], [1]], [], [], none, 0⟩

/-- The sum of two operands that is none. -/
theorem step_calculates_summedMachine :
    0x93 ∈ arithmeticOpcodes ∧ summedMachine.executing = true ∧
      summedMachine.step Env.unsigned 0 ⟨⟨0x93⟩, none, 0, 1, false⟩ =
        .ok { summedMachine with stack := [[0, 0, 0, 0x80, 0]] } ∧
      ¬ ∃ k, Operand [0, 0, 0, 0x80, 0] k := by
  have good : List.Forall₂ Operand [[1], [0xff, 0xff, 0xff, 0x7f]] [1, 2147483647] :=
    .cons (operand_eq_ok_iff.mp rfl) (.cons (operand_eq_ok_iff.mp rfl) .nil)
  have computes : Computes 0x93 [1, 2147483647] [2147483648] := .add 1 2147483647
  have encodes : Encodes [0, 0, 0, 0x80, 0] 2147483648 := encodes_value_iff.mpr rfl
  obtain ⟨counted, exactly⟩ :=
    @step_calculates Env.unsigned summedMachine 0 ⟨⟨0x93⟩, none, 0, 1, false⟩ (by decide) rfl rfl
  refine ⟨by decide, rfl, (counted.passes _).mpr ⟨?_, by decide⟩, fun operand => ?_⟩
  · exact ⟨[], _, _, _, _, good, computes, .cons encodes .nil, rfl, rfl⟩
  · have small := ((exactly _ _ _ good computes).2 _ List.mem_cons_self _ encodes).2.mp operand
    revert small
    decide

/-- A leaf that adds one to the last of 1001 items. -/
def overfullLeaf : LeafRun := ⟨[0x8b], List.replicate 1001 [], none, 0⟩

theorem decode_overfullLeaf :
    Script.decode overfullLeaf.script = [⟨⟨0x8b⟩, none, 0, 1, false⟩] := by
  rw [overfullLeaf, Script.decode, Script.decodeFrom_of_absent rfl, Script.decodeFrom_nil]

/-- Operands alone are not enough: with more than 1000 items on the stack nothing can be
calculated. -/
theorem exists_calculated_step_error :
    ∃ (leaf : LeafRun) (spend : Spend) (m m' : Machine) (i : Instruction),
      ((start leaf.stack leaf.budget).visits (leaf.env inertCurve spend) 0
        (Script.decode leaf.script))[0]? = some m ∧ (Script.decode leaf.script)[0]? = some i ∧
          i.opcode.byte = 0x8b ∧ i.data = none ∧ m.executing = true ∧
        Calculated i.opcode.byte m m'
          ∧ m.step (leaf.env inertCurve spend) 0 i = .error .stackSize := by
  have zero : Operand [] 0 := operand_eq_ok_iff.mp rfl
  have one : Encodes [1] 1 := encodes_value_iff.mpr rfl
  have split : List.replicate 1001 ([] : Bytes) = (List.replicate 1000 [] ++ [[]]).reverse := by
    rw [← List.replicate_succ', List.reverse_replicate]
  have calculated : Calculated 0x8b (start (List.replicate 1001 []) 0)
      ⟨(List.replicate 1000 ([] : Bytes) ++ [[1]]).reverse, [], [], none, 0⟩ :=
    ⟨_, _, _, _, _, .cons zero .nil, .increment 0, .cons one .nil, split, rfl⟩
  have counted :=
    @counted_step_arithmetic (overfullLeaf.env inertCurve onesSpend)
      (start (List.replicate 1001 []) 0) 0
    ⟨⟨0x8b⟩, none, 0, 1, false⟩ (by decide) rfl rfl
  refine ⟨overfullLeaf, onesSpend, _, _, ⟨⟨0x8b⟩, none, 0, 1, false⟩, getElem?_visits_zero .., ?_,
    rfl, rfl, rfl, calculated, (counted.fails _).mpr (.inr ⟨rfl, _, calculated, ?_⟩)⟩
  · rw [decode_overfullLeaf]
    rfl
  · rw [List.length_reverse, List.length_append, List.length_replicate]
    decide

end Machine

end TaprootLab
