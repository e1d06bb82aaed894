import TaprootLab.Proofs.Script.Tiling

/-!
# Instructions that are written and read back

The converse of tiling: instructions whose data fits their opcodes, written one after the other, are
decoded as the same instructions, each standing where the bytes of those before it end
(`decodeFrom_flatMap_bytes`).
-/

namespace TaprootLab

theorem toNatLE_ofNatLE {width n : Nat} (h : n < 256 ^ width) :
    Bytes.toNatLE (Bytes.ofNatLE width n) = n := by
  induction width generalizing n with
  | zero => simp [Bytes.ofNatLE] at h ⊢; omega
  | succ width ih =>
    rw [Nat.pow_succ] at h
    have low : (UInt8.ofNat n).toNat = n % 256 := UInt8.toNat_ofNat'
    rw [Bytes.ofNatLE, Bytes.toNatLE_cons, low, ih (by omega)]
    omega

namespace Instruction

/-- The instruction at another place of a script, where it is whole. -/
def placedAt (i : Instruction) (offset : Nat) : Instruction :=
  { i with offset, length := i.bytes.length, truncated := false }

/-- Instructions in a row, the first one at `offset`. -/
def inRow (offset : Nat) : List Instruction → List Instruction
  | [] => []
  | i :: is => i.placedAt offset :: inRow (offset + i.bytes.length) is

/-- What stands at a place of the row stands behind the bytes of all before it. -/
theorem getElem?_inRow (offset : Nat) (is : List Instruction) (k : Nat) :
    (inRow offset is)[k]? =
      is[k]?.map (placedAt · (offset + ((is.take k).flatMap bytes).length)) := by
  induction is generalizing offset k with
  | nil => rfl
  | cons i is ih =>
    cases k with
    | zero => rfl
    | succ k =>
      rw [inRow, List.getElem?_cons_succ, ih, List.getElem?_cons_succ, List.take_succ_cons,
        List.flatMap_cons, List.length_append, Nat.add_assoc]

/-- Nothing but the place changes. -/
theorem forall₂_inRow {α : Type} {R : α → Instruction → Prop} {as : List α} {is : List Instruction}
    (h : List.Forall₂ (fun a i => ∀ offset, R a (i.placedAt offset)) as is) (offset : Nat) :
    List.Forall₂ R as (inRow offset is) := by
  induction h generalizing offset with
  | nil => exact .nil
  | cons first _ ih => exact .cons (first offset) (ih _)

end Instruction

namespace Script

theorem withData_enough {opcode : Opcode} {offset header : Nat} (data more : Bytes) :
    withData opcode offset header data.length (data ++ more)
      = ⟨opcode, some data, offset, 1 + header + data.length, false⟩ := by
  simp [withData]

/-- An instruction is read off its own bytes, whatever follows them. -/
theorem decodeFirst_bytes {i : Instruction} (fits : i.Fits) (offset : Nat) (more : Bytes) :
    decodeFirst offset i.opcode (i.bytes.tail ++ more) = i.placedAt offset := by
  obtain ⟨opcode, data, _, _, _⟩ := i
  cases operand : opcode.operand with
  | absent =>
    simp only [Instruction.Fits, operand] at fits
    simp only [decodeFirst, Instruction.placedAt, Instruction.bytes, operand, fits]
    rfl
  | fixed size =>
    simp only [Instruction.Fits, operand] at fits
    obtain ⟨data, rfl, rfl⟩ := fits
    simp only [decodeFirst, Instruction.placedAt, Instruction.bytes, operand, Option.getD_some,
      List.tail_cons, withData_enough, List.length_cons]
    congr 1
    omega
  | counted width =>
    simp only [Instruction.Fits, operand] at fits
    obtain ⟨data, rfl, small⟩ := fits
    have field : (Bytes.ofNatLE width data.length ++ data ++ more).take width
        = Bytes.ofNatLE width data.length := by
      rw [List.append_assoc, List.take_left' (Bytes.length_ofNatLE _ _)]
    have body : (Bytes.ofNatLE width data.length ++ data ++ more).drop width = data ++ more := by
      rw [List.append_assoc, List.drop_left' (Bytes.length_ofNatLE _ _)]
    simp only [decodeFirst, Instruction.placedAt, Instruction.bytes, operand, Option.getD_some,
      List.tail_cons, field, body, Bytes.length_ofNatLE, Nat.lt_irrefl, if_false,
      toNatLE_ofNatLE small, withData_enough, List.length_cons, List.length_append]
    congr 1
    omega

theorem decodeFrom_bytes_append {i : Instruction} (fits : i.Fits) (offset : Nat) (more : Bytes) :
    decodeFrom offset (i.bytes ++ more)
      = i.placedAt offset :: decodeFrom (offset + i.bytes.length) more := by
  have shape : i.bytes ++ more = i.opcode.byte :: (i.bytes.tail ++ more) := rfl
  have length : (i.placedAt offset).length = i.bytes.length := rfl
  have tail : i.bytes.tail.length = i.bytes.length - 1 := List.length_tail
  rw [shape, decodeFrom_cons, decodeFirst_bytes fits, length, List.drop_left' tail]

/-- **Instructions written in a row are read back.** -/
theorem decodeFrom_flatMap_bytes {is : List Instruction} (fits : ∀ i ∈ is, i.Fits) (offset : Nat) :
    decodeFrom offset (is.flatMap Instruction.bytes) = Instruction.inRow offset is := by
  induction is generalizing offset with
  | nil => exact decodeFrom_nil offset
  | cons i is ih =>
    obtain ⟨first, others⟩ := List.forall_mem_cons.mp fits
    rw [List.flatMap_cons, decodeFrom_bytes_append first, ih others, Instruction.inRow]

/-- An instruction of a script that is not cut short has data that fits, and takes up its bytes. -/
theorem fits_of_mem_decodeFrom {offset : Nat} {script : Bytes} {i : Instruction}
    (h : i ∈ decodeFrom offset script) (whole : i.truncated = false) :
    i.Fits ∧ i.bytes.length = i.length := by
  induction offset, script using decodeFrom.induct with
  | case1 offset => rw [decodeFrom_nil] at h; cases h
  | case2 offset b rest first shorter ih =>
    rw [decodeFrom_cons, List.mem_cons] at h
    rcases h with rfl | h
    · obtain ⟨-, length, fits⟩ := decodeFirst_tiles whole
      exact ⟨fits, length⟩
    · exact ih h

end Script

end TaprootLab
