import TaprootLab.Taproot.Leaf

/-!
# Control blocks as bytes

A control block is one byte, a key and a row of hashes, so its length says how many hashes there are
(`length_toBytes`). One that is written with a valid key is read back as it was, if it has no more
hashes than are allowed (`ofBytes?_toBytes`).
-/

namespace TaprootLab

/-- Runs of one size that were put in a row are cut apart again. -/
theorem Bytes.chunks_flatten {α : Type} {size : Nat} (positive : 0 < size) {runs : List (List α)}
    (h : ∀ run ∈ runs, run.length = size) : chunks size runs.flatten = runs := by
  induction runs with
  | nil =>
    rw [List.flatten_nil, chunks, dif_pos (.inr rfl)]
  | cons run runs ih =>
    rw [List.forall_mem_cons] at h
    have nonempty : ¬(size = 0 ∨ run ++ runs.flatten = []) := by
      rintro (zero | empty)
      · omega
      · rw [(List.append_eq_nil_iff.mp empty).1, List.length_nil] at h
        omega
    rw [List.flatten_cons, chunks, dif_neg nonempty]
    show _ :: chunks size _ = _
    rw [List.take_left' h.1, List.drop_left' h.1, ih h.2]

namespace Taproot.ControlBlock

variable {curve : Curve} {c : ControlBlock}

theorem length_toBytes (key : c.internalKey.bytes.length = 32)
    (hashes : ∀ hash ∈ c.path, hash.length = 32) : c.toBytes.length = 33 + 32 * c.path.length := by
  have path : c.path.flatten.length = 32 * c.path.length := by
    rw [List.length_flatten, List.map_congr_left hashes, List.map_const', List.sum_replicate_nat,
      Nat.mul_comm]
  rw [toBytes, List.cons_append, List.length_cons, List.length_append, key, path]
  omega

/-- The version and the parity are told apart again. -/
theorem firstByte_and (version : c.leafVersion = tapscriptVersion) :
    (c.firstByte &&& 0xfe) = tapscriptVersion ∧ (c.firstByte &&& 1 == 1) = c.odd := by
  rw [firstByte, version]
  cases c.odd <;> decide

/-- A control block is not taken for an annex. -/
theorem head?_toBytes (version : c.leafVersion = tapscriptVersion) :
    c.toBytes.head? ≠ some annexTag := by
  rw [toBytes, List.cons_append, List.head?_cons, firstByte, version]
  cases c.odd <;> decide

theorem ofBytes?_toBytes (version : c.leafVersion = tapscriptVersion)
    (isKey : curve.isKey c.internalKey.bytes = true) (length : c.internalKey.bytes.length = 32)
    (hashes : ∀ hash ∈ c.path, hash.length = 32) :
    ofBytes? curve c.toBytes = if c.path.length ≤ maxDepth then some c else none := by
  have read : curve.key? c.internalKey.bytes = some c.internalKey :=
    Curve.key?_eq_some_iff.mpr ⟨isKey, rfl⟩
  have total := length_toBytes length hashes
  rw [toBytes, List.cons_append, List.length_cons] at total
  have row : c.path.flatten.length = 32 * c.path.length := by
    rw [List.length_append] at total
    omega
  rw [toBytes, List.cons_append, ofBytes?]
  simp only [List.drop_left' length, List.take_left' length, row, read, (firstByte_and version).1,
    (firstByte_and version).2, Bytes.chunks_flatten (by decide) hashes]
  by_cases depth : c.path.length ≤ maxDepth
  · rw [if_neg (by omega), if_neg (by decide), if_pos depth, ← version]
    rfl
  · rw [if_pos (by omega), if_neg depth]

end Taproot.ControlBlock

end TaprootLab
