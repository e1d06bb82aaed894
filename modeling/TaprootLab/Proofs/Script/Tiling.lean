import Mathlib
import TaprootLab.Proofs.Script.Decoding

/-!
# The bytes of an instruction

An instruction that is not cut short stands for its opcode, the length field that the opcode asks
for and the data. A script without cut instructions is the bytes of its instructions one after the
other (`flatMap_bytes_decodeFrom`), and only the last instruction of a script can be cut short
(`truncated_of_mem_dropLast`).
-/

namespace TaprootLab

/-- The opcodes with a length field, and its width. -/
def lengthFields : List (UInt8 × Nat) := [(0x4c, 1), (0x4d, 2), (0x4e, 4)]

theorem Opcode.operand_cases (op : Opcode) :
    op.operand = .absent
      ∨ (op.byte.toNat < 76 ∧ op.operand = .fixed op.byte.toNat)
      ∨ ∃ width, (op.byte, width) ∈ lengthFields ∧ op.operand = .counted width := by
  obtain ⟨b⟩ := op
  rw [operand]
  split
  · rename_i zero
    obtain rfl : b = 0 := beq_iff_eq.mp zero
    exact .inr (.inl ⟨by decide, rfl⟩)
  split
  · rename_i direct
    rw [isDirectPush, Bool.and_eq_true, decide_eq_true_iff, decide_eq_true_iff] at direct
    exact .inr (.inl ⟨Nat.lt_succ_of_le (UInt8.le_iff_toNat_le.mp direct.2), rfl⟩)
  split
  · rename_i one
    obtain rfl : b = 0x4c := beq_iff_eq.mp one
    exact .inr (.inr ⟨1, by decide, rfl⟩)
  split
  · rename_i two
    obtain rfl : b = 0x4d := beq_iff_eq.mp two
    exact .inr (.inr ⟨2, by decide, rfl⟩)
  split
  · rename_i four
    obtain rfl : b = 0x4e := beq_iff_eq.mp four
    exact .inr (.inr ⟨4, by decide, rfl⟩)
  · exact .inl rfl

/-- The opcode, its length field and the data, in a row. -/
def Instruction.bytes (i : Instruction) : Bytes :=
  let data := i.data.getD []
  i.opcode.byte :: match i.opcode.operand with
    | .absent => []
    | .fixed _ => data
    | .counted width => Bytes.ofNatLE width data.length ++ data

/-- The data is what the opcode asks for, of a size that its length field can hold. -/
def Instruction.Fits (i : Instruction) : Prop :=
  match i.opcode.operand with
  | .absent => i.data = none
  | .fixed size => ∃ data, i.data = some data ∧ data.length = size
  | .counted width => ∃ data, i.data = some data ∧ data.length < 256 ^ width

namespace Instruction

/-- A bare opcode, a push that carries its length in its opcode, or one behind a length field. -/
theorem Fits.kinds {i : Instruction} (fits : i.Fits) :
    (i.data = none ∧ i.bytes = [i.opcode.byte])
      ∨ (∃ data, i.data = some data ∧ i.opcode.byte.toNat = data.length ∧ data.length < 76
          ∧ i.bytes = i.opcode.byte :: data)
      ∨ ∃ data width, i.data = some data ∧ data.length < 256 ^ width
        ∧ (i.opcode.byte, width) ∈ lengthFields
          ∧ i.bytes = i.opcode.byte :: (Bytes.ofNatLE width data.length ++ data) := by
  rcases i.opcode.operand_cases with operand | ⟨small, operand⟩ | ⟨width, field, operand⟩
  · simp only [Fits, operand] at fits
    exact .inl ⟨fits, by simp only [bytes, operand]⟩
  · simp only [Fits, operand] at fits
    obtain ⟨data, some, size⟩ := fits
    exact .inr (.inl ⟨data, some, size.symm, by omega,
      by simp only [bytes, operand, some, Option.getD_some]⟩)
  · simp only [Fits, operand] at fits
    obtain ⟨data, some, bound⟩ := fits
    exact .inr (.inr ⟨data, width, some, bound, field,
      by simp only [bytes, operand, some, Option.getD_some]⟩)

end Instruction

namespace Script

theorem toNatLE_lt (bytes : Bytes) : Bytes.toNatLE bytes < 256 ^ bytes.length := by
  induction bytes with
  | nil => exact Nat.one_pos
  | cons b rest ih =>
    have := b.toNat_lt
    rw [Bytes.toNatLE_cons, List.length_cons, Nat.pow_succ]
    omega

/-- An instruction that is not cut short is read off its own bytes. -/
theorem decodeFirst_tiles {offset : Nat} {opcode : Opcode} {rest : Bytes}
    (whole : (decodeFirst offset opcode rest).truncated = false) :
    opcode.byte :: rest
        = (decodeFirst offset opcode rest).bytes ++
          rest.drop ((decodeFirst offset opcode rest).length - 1)
      ∧ (decodeFirst offset opcode rest).bytes.length = (decodeFirst offset opcode rest).length
      ∧ (decodeFirst offset opcode rest).Fits := by
  have same := opcode_decodeFirst offset opcode rest
  simp only [Instruction.bytes, Instruction.Fits, same]
  revert whole
  simp only [decodeFirst]
  cases opcode.operand with
  | absent => exact fun _ => ⟨rfl, rfl, rfl⟩
  | fixed size =>
    intro whole
    obtain ⟨-, length, enough⟩ := withData_append [] whole
    have data : (withData opcode offset 0 size rest).data = some (rest.take size) := rfl
    simp only [length, data, Option.getD_some, List.length_cons, List.length_take_of_le enough]
    refine ⟨?_, by omega, rest.take size, rfl, List.length_take_of_le enough⟩
    rw [show 1 + 0 + size - 1 = size by omega, List.cons_append, List.take_append_drop]
  | counted width =>
    by_cases short : (rest.take width).length < width
    · simp only [short, if_true]
      exact nofun
    · simp only [short, if_false]
      intro whole
      obtain ⟨-, length, enough⟩ := withData_append [] whole
      have field : (rest.take width).length = width := by
        rw [List.length_take] at short ⊢
        omega
      have bound := toNatLE_lt (rest.take width)
      have back := Bytes.ofNatLE_toNatLE (rest.take width)
      rw [field] at bound back
      have data : (withData opcode offset width (Bytes.toNatLE (rest.take width))
          (rest.drop width)).data
          = some ((rest.drop width).take (Bytes.toNatLE (rest.take width))) := rfl
      simp only [length, data, Option.getD_some, List.length_take_of_le enough, back]
      refine ⟨?_, ?_, _, rfl, ?_⟩
      · rw [show 1 + width + Bytes.toNatLE (rest.take width) - 1
            = width + Bytes.toNatLE (rest.take width) by omega,
          ← List.drop_drop, List.cons_append, List.append_assoc, List.take_append_drop,
          List.take_append_drop]
      · rw [List.length_cons, List.length_append, field, List.length_take_of_le enough]
        omega
      · rwa [List.length_take_of_le enough]

/-- A script without cut instructions is its instructions in a row. -/
theorem flatMap_bytes_decodeFrom {offset : Nat} {script : Bytes}
    (whole : ∀ i ∈ decodeFrom offset script, i.truncated = false) :
    (decodeFrom offset script).flatMap Instruction.bytes = script
      ∧ ∀ i ∈ decodeFrom offset script, i.Fits := by
  induction offset, script using decodeFrom.induct with
  | case1 offset => rw [decodeFrom_nil]; exact ⟨rfl, List.forall_mem_nil _⟩
  | case2 offset b rest first shorter ih =>
    rw [decodeFrom_cons, List.forall_mem_cons] at whole
    obtain ⟨tiles, -, fits⟩ := decodeFirst_tiles whole.1
    obtain ⟨others, fit⟩ := ih whole.2
    rw [decodeFrom_cons, List.flatMap_cons, List.forall_mem_cons]
    refine ⟨?_, fits, fit⟩
    rw [others]
    exact tiles.symm

/-- What is cut short is a push of something. -/
theorem data_of_truncated {offset : Nat} {script : Bytes} {i : Instruction}
    (h : i ∈ decodeFrom offset script) (cut : i.truncated = true) :
    ∃ data, i.data = some data ∧ i.opcode.byte ≠ 0 := by
  induction offset, script using decodeFrom.induct with
  | case1 offset => rw [decodeFrom_nil] at h; cases h
  | case2 offset b rest first shorter ih =>
    rw [decodeFrom_cons, List.mem_cons] at h
    rcases h with rfl | h
    · obtain ⟨data, some⟩ := Option.ne_none_iff_exists'.mp (drop_of_truncated cut).1
      refine ⟨data, some, ?_⟩
      rw [opcode_decodeFirst]
      rintro rfl
      -- the empty push asks for nothing that could be missing
      cases cut
    · exact ih h

/-- Nothing follows an instruction that is cut short. -/
theorem truncated_of_mem_dropLast {offset : Nat} {script : Bytes} {i : Instruction}
    (h : i ∈ (decodeFrom offset script).dropLast) : i.truncated = false := by
  induction offset, script using decodeFrom.induct with
  | case1 offset => rw [decodeFrom_nil] at h; cases h
  | case2 offset b rest first shorter ih =>
    rw [decodeFrom_cons] at h
    cases left : decodeFrom (offset + first.length) (rest.drop (first.length - 1)) with
    | nil =>
      rw [left] at h
      cases h
    | cons j more =>
      rw [left] at h ih
      rw [List.dropLast_cons_cons, List.mem_cons] at h
      rcases h with rfl | h
      · cases cut : (decodeFirst offset ⟨b⟩ rest).truncated with
        | false => rfl
        | true =>
          rw [(drop_of_truncated cut).2, decodeFrom_nil] at left
          cases left
      · exact ih h

end Script

end TaprootLab
