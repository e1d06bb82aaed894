import TaprootLab.Proofs.Script.Number

/-!
# Numbers of a word

A processor reads a number by shifting each byte to its place in a word of 64 bits. If the sign bit
of the last byte is set, it is cleared with a mask and the word negated. For up to eight bytes
nothing is lost on the way: no shift leaves the word and no negation overflows, so the word is the
value (`toInt_readWord`). Between the numbers that are read in this way and the minimal items there
is a one-to-one correspondence (`encode_decode?_correspond`).
-/

namespace TaprootLab.ScriptNumber

open Bytes

/-- Adds bytes to a word, the first one shifted by `shift` bits. -/
def orBytes (word : BitVec 64) (shift : Nat) : Bytes → BitVec 64
  | [] => word
  | b :: rest => orBytes (word ||| b.toBitVec.setWidth 64 <<< shift) (shift + 8) rest

def readWord (item : Bytes) : BitVec 64 :=
  match item.getLast? with
  | none => 0
  | some last =>
    let word := orBytes 0 0 item
    if last &&& 0x80 = 0 then word else -(word &&& ~~~(0x80#64 <<< (8 * (item.length - 1))))

theorem toNat_or_shift {word : BitVec 64} {shift : Nat} {b : UInt8} (free : word.toNat < 2 ^ shift)
    (room : shift + 8 ≤ 64) :
    (word ||| b.toBitVec.setWidth 64 <<< shift).toNat = word.toNat + 2 ^ shift * b.toNat := by
  have small := b.toNat_lt
  have fits : 2 ^ shift * b.toNat < 2 ^ 64 := by
    calc 2 ^ shift * b.toNat < 2 ^ shift * 2 ^ 8 :=
      Nat.mul_lt_mul_of_pos_left small (Nat.two_pow_pos _)
      _ = 2 ^ (shift + 8) := (Nat.pow_add ..).symm
      _ ≤ 2 ^ 64 := Nat.pow_le_pow_right (by decide) room
  have byte : (b.toBitVec.setWidth 64).toNat = b.toNat := by
    rw [BitVec.toNat_setWidth]
    exact Nat.mod_eq_of_lt (by rw [UInt8.toNat_toBitVec]; omega)
  rw [BitVec.toNat_or, BitVec.toNat_shiftLeft, byte, Nat.shiftLeft_eq, Nat.mul_comm b.toNat,
    Nat.mod_eq_of_lt fits, Nat.or_comm, ← Nat.two_pow_add_eq_or_of_lt free, Nat.add_comm]

theorem toNat_orBytes {item : Bytes} {word : BitVec 64} {shift : Nat}
    (free : word.toNat < 2 ^ shift) (room : shift + 8 * item.length ≤ 64) :
    (orBytes word shift item).toNat = word.toNat + 2 ^ shift * toNatLE item := by
  induction item generalizing word shift with
  | nil => rw [orBytes, toNatLE_nil, Nat.mul_zero, Nat.add_zero]
  | cons b rest ih =>
    rw [List.length_cons] at room
    have next := toNat_or_shift (b := b) free (by omega)
    have free' : (word ||| b.toBitVec.setWidth 64 <<< shift).toNat < 2 ^ (shift + 8) := by
      have small := b.toNat_lt
      calc _ = word.toNat + 2 ^ shift * b.toNat := next
        _ < 2 ^ shift * (b.toNat + 1) := by rw [Nat.mul_succ]; omega
        _ ≤ 2 ^ shift * 2 ^ 8 := Nat.mul_le_mul_left _ (by omega)
        _ = 2 ^ (shift + 8) := (Nat.pow_add ..).symm
    rw [orBytes, ih free' (by omega), next, toNatLE_cons, Nat.pow_add]
    ring

/-- The mask clears the bit that is set above a number and leaves the number. -/
theorem toNat_and_not_mask {word : BitVec 64} {n i : Nat} (below : n < 2 ^ i) (inside : i < 64)
    (h : word.toNat = n + 2 ^ i) : (word &&& ~~~(1#64 <<< i)).toNat = n := by
  apply Nat.eq_of_testBit_eq
  intro j
  rw [BitVec.testBit_toNat, BitVec.getLsbD_and, ← BitVec.testBit_toNat (x := word), h, Nat.add_comm]
  obtain lower | rfl | higher := Nat.lt_trichotomy j i
  · rw [Nat.testBit_two_pow_add_gt lower]
    simp [lower, lower.trans inside]
  · simp [inside, Nat.testBit_lt_two_pow below]
  · have clear : n < 2 ^ j := below.trans (Nat.pow_lt_pow_right (by decide) higher)
    have clear' : 2 ^ i + n < 2 ^ j := by
      have : 2 ^ (i + 1) ≤ 2 ^ j := Nat.pow_le_pow_right (by decide) higher
      rw [Nat.pow_succ] at this
      omega
    rw [Nat.testBit_lt_two_pow clear, Nat.testBit_lt_two_pow clear', Bool.false_and]

theorem toInt_eq_toNat {word : BitVec 64} (small : word.toNat < 2 ^ 63) : word.toInt = word.toNat :=
  BitVec.toInt_eq_toNat_of_lt (by omega)

theorem toInt_neg_eq_neg_toNat {word : BitVec 64} (small : word.toNat < 2 ^ 63) :
    (-word).toInt = -(word.toNat : Int) := by
  rw [BitVec.toInt_neg, toInt_eq_toNat small]
  exact Int.bmod_eq_of_le (by omega) (by omega)

/-- The word that is read from an item of at most eight bytes is its value. -/
theorem toInt_readWord {item : Bytes} (short : item.length ≤ 8) :
    (readWord item).toInt = value item := by
  rcases item.eq_nil_or_concat' with rfl | ⟨digits, last, rfl⟩
  · rfl
  · rw [List.length_append, List.length_singleton] at short
    have whole : (orBytes 0 0 (digits ++ [last])).toNat = toNatLE (digits ++ [last]) := by
      have read : (orBytes 0 0 (digits ++ [last])).toNat = 0 + 2 ^ 0 * toNatLE (digits ++ [last]) :=
        toNat_orBytes (by decide) (by rw [List.length_append, List.length_singleton]; omega)
      rwa [Nat.pow_zero, Nat.one_mul, Nat.zero_add] at read
    -- what the sign leaves of the word
    have bound := natAbs_value_lt (digits ++ [last])
    rw [value_concat, natAbs_signed, List.length_append, List.length_singleton,
      show 8 * (digits.length + 1) - 1 = 8 * digits.length + 7 by omega] at bound
    have size : toNatLE (digits ++ [last &&& 0x7f]) < 2 ^ 63 :=
      bound.trans_le (Nat.pow_le_pow_right (by decide) (by omega))
    have low := toNat_and_127 last
    rw [readWord, List.getLast?_concat, value_concat, signed]
    simp only [and_128_eq_zero_iff]
    by_cases negative : 128 ≤ last.toNat
    · have marker : (0x80#64 <<< (8 * digits.length)) = 1#64 <<< (8 * digits.length + 7) := by
        rw [Nat.add_comm, BitVec.shiftLeft_add]
        rfl
      have sum : toNatLE (digits ++ [last])
          = toNatLE (digits ++ [last &&& 0x7f]) + 2 ^ (8 * digits.length + 7) := by
        have small := last.toNat_lt
        have split : last.toNat = (last &&& 0x7f).toNat + 128 := by omega
        rw [toNatLE_concat, toNatLE_concat, split, Nat.pow_add, Nat.pow_mul]
        ring
      have kept := toNat_and_not_mask bound (by omega) (whole.trans sum)
      rw [if_neg (by omega), if_pos negative, List.length_append, List.length_singleton,
        Nat.add_sub_cancel, marker, toInt_neg_eq_neg_toNat (kept ▸ size), kept]
    · have same : last &&& 0x7f = last := by
        rw [← UInt8.toNat_inj, low, Nat.mod_eq_of_lt (by omega)]
      rw [same] at size ⊢
      rw [if_pos (by omega), if_neg negative, toInt_eq_toNat (whole ▸ size), whole]

/-- **Numbers and minimal items are in one-to-one correspondence.** The numbers of 63 bits and a
sign are written in at most eight bytes, minimally, and read back as they were. Every item of at
most eight bytes reads as such a number, in a word of 64 bits too; the number is written as that
item again if the item is minimal and as a shorter one if it is not, and it is zero exactly if the
item counts as false. The number just below the least of them takes nine bytes. -/
theorem encode_decode?_correspond :
    (∀ n : Int, n.natAbs < 2 ^ 63 →
        (encode n).length ≤ 8 ∧ isMinimal (encode n) = true ∧ decode? 8 (encode n) = some n)
      ∧ (∀ item : Bytes, item.length ≤ 8 → ∃ n : Int, decode? 8 item = some n ∧ n.natAbs < 2 ^ 63
        ∧ (readWord item).toInt = n
        ∧ (encode n = item ↔ isMinimal item = true)
        ∧ (encode n ≠ item → (encode n).length < item.length)
        ∧ (truthy item = true ↔ n ≠ 0))
      ∧ (encode (-2 ^ 63)).length = 9 ∧ isMinimal (encode (-2 ^ 63)) = true := by
  refine ⟨fun n small => ?_, fun item short => ?_, ?_, isMinimal_encode _⟩
  · have short : (encode n).length ≤ 8 := (length_encode_le_iff n 8).mpr small
    exact ⟨short, isMinimal_encode n, decode?_eq_some_iff.mpr ⟨short, value_encode n⟩⟩
  · have minimal : encode (value item) = item ↔ isMinimal item = true :=
      ⟨fun same => same ▸ isMinimal_encode (value item), encode_value⟩
    refine ⟨value item, decode?_eq_some_iff.mpr ⟨short, rfl⟩, ?_, toInt_readWord short, minimal,
      fun differs => ?_, truthy_iff item⟩
    · calc (value item).natAbs < 2 ^ (8 * item.length - 1) := natAbs_value_lt item
        _ ≤ 2 ^ 63 := Nat.pow_le_pow_right (by decide) (by omega)
    · exact length_encode_value_lt (by rw [← Bool.not_eq_true, ← minimal]; exact differs)
  · have upper := (length_encode_le_iff (-2 ^ 63) 9).mpr (by decide)
    have lower := mt (length_encode_le_iff (-2 ^ 63) 8).mp (by decide)
    omega

/-- The least number of eight bytes, and eight bytes that are a negative zero behind a padding. -/
theorem encode_least_and_padded_zero :
    decode? 8 (encode (-(2 ^ 63 - 1))) = some (-(2 ^ 63 - 1))
      ∧ ∃ n : Int, decode? 8 [0, 0, 0, 0, 0, 0, 0, 0x80] = some n ∧ (encode n).length < 8
        ∧ truthy [0, 0, 0, 0, 0, 0, 0, 0x80] = false ∧ n = 0 := by
  obtain ⟨written, read, -⟩ := encode_decode?_correspond
  obtain ⟨n, value, -, -, same, shorter, nonzero⟩ := read [0, 0, 0, 0, 0, 0, 0, 0x80] (by decide)
  have redundant : isMinimal [0, 0, 0, 0, 0, 0, 0, 0x80] ≠ true := by decide
  have falsy : truthy [0, 0, 0, 0, 0, 0, 0, 0x80] = false := by decide
  refine ⟨(written (-(2 ^ 63 - 1)) (by decide)).2.2, n, value,
    shorter (mt same.mp redundant), falsy, ?_⟩
  rw [falsy] at nonzero
  exact not_not.mp (mt nonzero.mpr nofun)

end TaprootLab.ScriptNumber
