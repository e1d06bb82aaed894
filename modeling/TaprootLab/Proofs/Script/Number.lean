import Mathlib.Tactic.Ring
import TaprootLab.Proofs.Script.Tiling
import TaprootLab.Script.Number

/-!
# Numbers and their encodings

Every item of the stack reads as a number, and every number has one encoding that is minimal:
writing and reading are inverse to each other on minimal items (`value_encode`, `encode_value`), and
any other item is longer than the encoding of its value (`length_encode_value_lt`). How long an
encoding is depends on the size of the number alone (`length_encode_le_iff`), so the numbers of at
most eight bytes are those of a signed 64-bit word, the least one aside.

All of it is read off the last byte, in which the sign shares a place with the most significant
digit.
-/

namespace TaprootLab

namespace Bytes

theorem toNatLE_append (front back : Bytes) :
    toNatLE (front ++ back) = toNatLE front + 256 ^ front.length * toNatLE back := by
  induction front with
  | nil => simp
  | cons b front ih =>
    rw [List.cons_append, toNatLE_cons, toNatLE_cons, ih, List.length_cons, Nat.pow_succ]
    ring

theorem toNatLE_concat (digits : Bytes) (last : UInt8) :
    toNatLE (digits ++ [last]) = toNatLE digits + 256 ^ digits.length * last.toNat := by
  rw [toNatLE_append, toNatLE_cons, toNatLE_nil, Nat.mul_zero, Nat.add_zero]

theorem toNatLE_eq_zero_iff {digits : Bytes} : toNatLE digits = 0 ↔ ∀ b ∈ digits, b = 0 := by
  induction digits with
  | nil => simp
  | cons b digits ih =>
    rw [toNatLE_cons, List.forall_mem_cons, ← ih, ← UInt8.toNat_inj]
    simp

end Bytes

namespace ScriptNumber

open Bytes Script

/-! ## The last byte -/

theorem toNat_and_127 (b : UInt8) : (b &&& 0x7f).toNat = b.toNat % 128 := by
  rw [UInt8.toNat_and]
  exact Nat.and_two_pow_sub_one_eq_mod b.toNat 7

theorem toNat_or_128 {b : UInt8} (h : b.toNat < 128) : (b ||| 0x80).toNat = b.toNat + 128 := by
  have sum := Nat.two_pow_add_eq_or_of_lt (i := 7) h 1
  rw [UInt8.toNat_or, Nat.or_comm, Nat.add_comm]
  exact sum.symm

theorem and_127_eq_zero_iff {b : UInt8} : b &&& 0x7f = 0 ↔ b.toNat % 128 = 0 := by
  rw [← UInt8.toNat_inj, toNat_and_127]
  rfl

theorem and_128_eq_zero_iff {b : UInt8} : b &&& 0x80 = 0 ↔ b.toNat < 128 := by
  have checked : ∀ i : Fin 256, UInt8.ofNat i &&& 0x80 = 0 ↔ i.val < 128 := by decide +kernel
  simpa using checked ⟨b.toNat, b.toNat_lt⟩

theorem le_iff_toNat {b : UInt8} : 0x80 ≤ b ↔ 128 ≤ b.toNat := Iff.rfl

/-- The last byte of an item, from what it holds of the magnitude. -/
def marked (negative : Prop) [Decidable negative] (low : UInt8) : UInt8 :=
  if negative then low ||| 0x80 else low

section
variable {negative : Prop} [Decidable negative] {low : UInt8}

theorem toNat_marked (h : low.toNat < 128) :
    (marked negative low).toNat = low.toNat + if negative then 128 else 0 := by
  rw [marked]
  split
  · exact toNat_or_128 h
  · rfl

theorem le_toNat_marked_iff (h : low.toNat < 128) :
    128 ≤ (marked negative low).toNat ↔ negative := by
  rw [toNat_marked h]
  split <;> simp_all

theorem toNat_marked_mod (h : low.toNat < 128) : (marked negative low).toNat % 128 = low.toNat := by
  rw [toNat_marked h]
  split <;> omega

theorem marked_and_127 (last : UInt8) : marked (128 ≤ last.toNat) (last &&& 0x7f) = last := by
  have small := last.toNat_lt
  have low := toNat_and_127 last
  rw [← UInt8.toNat_inj, toNat_marked (by omega), low]
  split <;> omega

end

/-! ## Items by their last byte -/

def signed (negative : Prop) [Decidable negative] (n : Nat) : Int :=
  if negative then -(n : Int) else n

section
variable {negative : Prop} [Decidable negative]

theorem natAbs_signed (n : Nat) : (signed negative n).natAbs = n := by
  rw [signed]
  split <;> simp

theorem signed_lt_zero_iff {n : Nat} (h : n ≠ 0) : signed negative n < 0 ↔ negative := by
  rw [signed]
  split <;> rename_i h'
  · exact ⟨fun _ => h', fun _ => by omega⟩
  · exact ⟨fun _ => by omega, fun p => (h' p).elim⟩

theorem signed_natAbs {n : Int} (h : negative ↔ n < 0) : signed negative n.natAbs = n := by
  rw [signed]
  split <;> rename_i h'
  · have := h.mp h'
    omega
  · have := mt h.mpr h'
    omega

end

/-- The bytes of a minimal encoding: the last one holds something of the magnitude, or the one
before it needs all its bits. -/
def Shortest (digits : Bytes) (low : UInt8) : Prop :=
  low.toNat ≠ 0 ∨ ∃ front before, digits = front ++ [before] ∧ 128 ≤ before.toNat

theorem value_concat (digits : Bytes) (last : UInt8) :
    value (digits ++ [last]) = signed (128 ≤ last.toNat) (toNatLE (digits ++ [last &&& 0x7f])) := by
  rw [value, List.getLast?_concat, signed]
  simp only [le_iff_toNat]
  split
  · rw [List.dropLast_concat]
  · rename_i positive
    have low := marked_and_127 last
    rw [marked, if_neg positive] at low
    rw [low]

theorem isMinimal_concat {digits : Bytes} {last : UInt8} :
    isMinimal (digits ++ [last]) = true ↔ Shortest digits (last &&& 0x7f) := by
  rw [isMinimal, List.reverse_concat, Shortest, toNat_and_127]
  rcases digits.eq_nil_or_concat' with rfl | ⟨front, before, rfl⟩
  · simp [and_127_eq_zero_iff]
  · simp [and_127_eq_zero_iff, and_128_eq_zero_iff]

/-- An item counts as false exactly if it is an encoding of zero, minimal or not. -/
theorem truthy_iff (item : Bytes) : truthy item = true ↔ value item ≠ 0 := by
  rcases item.eq_nil_or_concat' with rfl | ⟨digits, last, rfl⟩
  · decide
  · rw [value_concat, ← Int.natAbs_ne_zero, natAbs_signed, Ne, toNatLE_eq_zero_iff,
      List.forall_mem_append, List.forall_mem_singleton, truthy, List.reverse_concat]
    simp [or_iff_not_imp_left]

/-! ## Digits of a magnitude -/

theorem magnitude_zero : magnitude 0 = [] := by
  rw [magnitude, dif_pos rfl]

theorem magnitude_of_ne_zero {n : Nat} (h : n ≠ 0) :
    magnitude n = UInt8.ofNat n :: magnitude (n / 256) := by
  rw [magnitude, dif_neg h]

theorem toNatLE_magnitude (n : Nat) : toNatLE (magnitude n) = n := by
  induction n using Nat.strongRecOn with
  | ind n ih =>
    by_cases zero : n = 0
    · rw [zero, magnitude_zero, toNatLE_nil]
    · rw [magnitude_of_ne_zero zero, toNatLE_cons, ih (n / 256) (by omega), UInt8.toNat_ofNat']
      omega

/-- The digits of a number have no leading zero. -/
theorem getLast?_magnitude (n : Nat) : (magnitude n).getLast? ≠ some 0 := by
  induction n using Nat.strongRecOn with
  | ind n ih =>
    by_cases zero : n = 0
    · rw [zero, magnitude_zero]
      nofun
    · rw [magnitude_of_ne_zero zero, List.getLast?_cons]
      have whole := toNatLE_magnitude (n / 256)
      cases last : (magnitude (n / 256)).getLast? with
      | some b => exact last ▸ ih (n / 256) (by omega)
      | none =>
        -- the only digit is the number itself
        rw [List.getLast?_eq_none_iff.mp last, toNatLE_nil] at whole
        intro h
        have h : n % 256 = 0 := UInt8.toNat_ofNat' ▸ congrArg UInt8.toNat (Option.some.inj h)
        omega

/-- Digits without a leading zero are those of their number. -/
theorem magnitude_toNatLE {digits : Bytes} (h : digits.getLast? ≠ some 0) :
    magnitude (toNatLE digits) = digits := by
  induction digits with
  | nil => rw [toNatLE_nil, magnitude_zero]
  | cons b digits ih =>
    have small := b.toNat_lt
    have rest : digits.getLast? ≠ some 0 := by
      intro zero
      rw [List.getLast?_cons, zero] at h
      exact h rfl
    have positive : toNatLE (b :: digits) ≠ 0 := by
      intro zero
      have zeros := toNatLE_eq_zero_iff.mp zero
      rw [List.getLast?_eq_some_getLast (List.cons_ne_nil b digits)] at h
      exact h (congrArg some (zeros _ (List.getLast_mem _)))
    have low : UInt8.ofNat (b.toNat + 256 * toNatLE digits) = b := by
      rw [← UInt8.toNat_inj, UInt8.toNat_ofNat']
      omega
    have high : (b.toNat + 256 * toNatLE digits) / 256 = toNatLE digits := by omega
    rw [magnitude_of_ne_zero positive, toNatLE_cons, low, high, ih rest]

/-! ## Writing -/

variable {digits : Bytes} {low : UInt8}

theorem toNatLE_concat_ne_zero (shortest : Shortest digits low) :
    toNatLE (digits ++ [low]) ≠ 0 := by
  intro zero
  rw [toNatLE_eq_zero_iff, List.forall_mem_append, List.forall_mem_singleton] at zero
  obtain nonzero | ⟨front, before, rfl, large⟩ := shortest
  · exact nonzero (congrArg UInt8.toNat zero.2)
  · rw [zero.1 before (by simp)] at large
    contradiction

/-- Where the sign goes. -/
theorem encode_signed {negative : Prop} [Decidable negative] (small : low.toNat < 128)
    (shortest : Shortest digits low) :
    encode (signed negative (toNatLE (digits ++ [low]))) = digits ++ [marked negative low] := by
  rw [encode, natAbs_signed]
  simp only [signed_lt_zero_iff (toNatLE_concat_ne_zero shortest)]
  by_cases zero : low.toNat = 0
  · -- the magnitude ends one byte earlier, with its top bit in use
    obtain rfl : low = 0 := UInt8.toNat_inj.mp zero
    obtain ⟨front, before, rfl, large⟩ := shortest.resolve_left fun h => h rfl
    have digits : toNatLE (front ++ [before] ++ [0]) = toNatLE (front ++ [before]) := by
      rw [toNatLE_concat]
      rfl
    rw [digits, magnitude_toNatLE, withSign, List.getLast?_concat]
    · simp only [le_iff_toNat, if_pos large, decide_eq_true_eq]
      rfl
    · rw [List.getLast?_concat]
      rintro ⟨⟩
      contradiction
  · rw [magnitude_toNatLE, withSign, List.getLast?_concat]
    · simp only [le_iff_toNat, if_neg (Nat.not_le.mpr small), decide_eq_true_eq, marked]
      split
      · rw [List.dropLast_concat]
      · rfl
    · rw [List.getLast?_concat]
      rintro ⟨⟩
      exact zero rfl

/-- All that is written: nothing for zero, else the shortest bytes with a sign in the last one. -/
theorem encode_cases (n : Int) :
    n = 0 ∧ encode n = [] ∨ ∃ digits low, low.toNat < 128 ∧ Shortest digits low
      ∧ n.natAbs = toNatLE (digits ++ [low]) ∧ encode n = digits ++ [marked (n < 0) low] := by
  by_cases zero : n = 0
  · refine .inl ⟨zero, ?_⟩
    rw [zero, encode, Int.natAbs_zero, magnitude_zero]
    rfl
  · right
    -- it is enough to find bytes for the magnitude
    suffices ∃ digits low, low.toNat < 128 ∧ Shortest digits low
        ∧ n.natAbs = toNatLE (digits ++ [low]) by
      obtain ⟨digits, low, small, shortest, size⟩ := this
      refine ⟨digits, low, small, shortest, size, ?_⟩
      rw [← encode_signed small shortest, ← size, signed_natAbs Iff.rfl]
    have whole := toNatLE_magnitude n.natAbs
    have leading := getLast?_magnitude n.natAbs
    rcases (magnitude n.natAbs).eq_nil_or_concat' with empty | ⟨digits, last, split⟩
    · rw [empty, toNatLE_nil] at whole
      omega
    · rw [split] at whole leading
      by_cases free : last.toNat < 128
      · refine ⟨digits, last, free, .inl fun zero => leading ?_, whole.symm⟩
        rw [List.getLast?_concat, (UInt8.toNat_inj (b := 0)).mp zero]
      · refine ⟨digits ++ [last], 0, by decide, .inr ⟨digits, last, rfl, by omega⟩, ?_⟩
        rw [toNatLE_concat, whole]
        rfl

/-- What is read back is the number that was written. -/
theorem value_encode (n : Int) : value (encode n) = n := by
  obtain ⟨rfl, empty⟩ | ⟨digits, low, small, -, size, written⟩ := encode_cases n
  · rw [empty]
    rfl
  · have kept : marked (n < 0) low &&& 0x7f = low := by
      rw [← UInt8.toNat_inj, toNat_and_127, toNat_marked_mod small]
    rw [written, value_concat, kept, ← size]
    exact signed_natAbs (le_toNat_marked_iff small)

theorem isMinimal_encode (n : Int) : isMinimal (encode n) = true := by
  obtain ⟨-, empty⟩ | ⟨digits, low, small, shortest, -, written⟩ := encode_cases n
  · rw [empty]
    rfl
  · have kept : marked (n < 0) low &&& 0x7f = low := by
      rw [← UInt8.toNat_inj, toNat_and_127, toNat_marked_mod small]
    rw [written, isMinimal_concat, kept]
    exact shortest

/-- A minimal item is the encoding of its value. -/
theorem encode_value {item : Bytes} (minimal : isMinimal item = true) :
    encode (value item) = item := by
  rcases item.eq_nil_or_concat' with rfl | ⟨digits, last, rfl⟩
  · rw [value, List.getLast?_nil, encode, Int.natAbs_zero, magnitude_zero]
    rfl
  · have small : (last &&& 0x7f).toNat < 128 := by
      rw [toNat_and_127]
      omega
    rw [value_concat, encode_signed small (isMinimal_concat.mp minimal), marked_and_127]

/-! ## Lengths -/

theorem two_pow_mul_succ (k : Nat) : 2 ^ (8 * (k + 1) - 1) = 256 ^ k * 128 := by
  rw [show 8 * (k + 1) - 1 = 8 * k + 7 by omega, Nat.pow_add, Nat.pow_mul]

/-- One bit of an item is its sign. -/
theorem natAbs_value_lt (item : Bytes) : (value item).natAbs < 2 ^ (8 * item.length - 1) := by
  rcases item.eq_nil_or_concat' with rfl | ⟨digits, last, rfl⟩
  · decide
  · have front := toNatLE_lt digits
    have low := toNat_and_127 last
    rw [value_concat, natAbs_signed, toNatLE_concat, List.length_append, List.length_singleton,
      two_pow_mul_succ]
    calc toNatLE digits + 256 ^ digits.length * (last &&& 0x7f).toNat
        < 256 ^ digits.length * ((last &&& 0x7f).toNat + 1) := by rw [Nat.mul_succ]; omega
      _ ≤ 256 ^ digits.length * 128 := Nat.mul_le_mul_left _ (by omega)

/-- The shortest bytes cannot do with one bit less. -/
theorem Shortest.le (shortest : Shortest digits low) :
    2 ^ (8 * digits.length - 1) ≤ toNatLE (digits ++ [low]) := by
  rw [toNatLE_concat]
  obtain nonzero | ⟨front, before, rfl, large⟩ := shortest
  · calc 2 ^ (8 * digits.length - 1) ≤ 2 ^ (8 * digits.length) :=
      Nat.pow_le_pow_right (by decide) (by omega)
      _ = 256 ^ digits.length := Nat.pow_mul 2 8 _
      _ ≤ 256 ^ digits.length * low.toNat := Nat.le_mul_of_pos_right _ (Nat.pos_of_ne_zero nonzero)
      _ ≤ _ := Nat.le_add_left _ _
  · rw [List.length_append, List.length_singleton, two_pow_mul_succ, toNatLE_concat]
    calc 256 ^ front.length * 128 ≤ 256 ^ front.length * before.toNat := Nat.mul_le_mul_left _ large
      _ ≤ _ := by omega

/-- A number of `k` bytes is one of `8 * k - 1` bits and a sign. -/
theorem length_encode_le_iff (n : Int) (k : Nat) :
    (encode n).length ≤ k ↔ n.natAbs < 2 ^ (8 * k - 1) := by
  constructor
  · intro short
    have bound := natAbs_value_lt (encode n)
    rw [value_encode] at bound
    exact bound.trans_le (Nat.pow_le_pow_right (by decide) (by omega))
  · intro small
    obtain ⟨-, empty⟩ | ⟨digits, low, -, shortest, size, written⟩ := encode_cases n
    · rw [empty]
      exact Nat.zero_le k
    · have least := shortest.le
      rw [← size] at least
      have fewer := (Nat.pow_lt_pow_iff_right (by decide)).mp (Nat.lt_of_le_of_lt least small)
      rw [written, List.length_append, List.length_singleton]
      omega

/-- An item that is not minimal is longer than it has to be. -/
theorem length_encode_value_lt {item : Bytes} (redundant : isMinimal item = false) :
    (encode (value item)).length < item.length := by
  rcases item.eq_nil_or_concat' with rfl | ⟨digits, last, rfl⟩
  · cases redundant
  · have long : ¬ Shortest digits (last &&& 0x7f) := by
      rw [← isMinimal_concat, redundant]
      nofun
    rw [Shortest, not_or, not_not] at long
    -- the last byte is nothing but a sign, and the bytes before it have room for that
    have same : toNatLE (digits ++ [last &&& 0x7f]) = (value digits).natAbs := by
      rw [toNatLE_concat, long.1, Nat.mul_zero, Nat.add_zero]
      rcases digits.eq_nil_or_concat' with rfl | ⟨front, before, rfl⟩
      · rfl
      · have room : before.toNat < 128 := by
          by_contra large
          exact long.2 ⟨front, before, rfl, by omega⟩
        have kept : before &&& 0x7f = before := by
          rw [← UInt8.toNat_inj, toNat_and_127, Nat.mod_eq_of_lt room]
        rw [value_concat, natAbs_signed, kept]
    rw [List.length_append, List.length_singleton, Nat.lt_succ_iff, length_encode_le_iff,
      value_concat, natAbs_signed, same]
    exact natAbs_value_lt digits

/-- A minimal item is one that no other item of the same value is shorter than. -/
theorem isMinimal_iff {item : Bytes} :
    isMinimal item = true ↔ ∀ other, value other = value item → item.length ≤ other.length := by
  constructor
  · intro minimal other same
    have written : encode (value other) = item := by rw [same, encode_value minimal]
    cases shortest : isMinimal other with
    | true => rw [← written, encode_value shortest]
    | false => exact written ▸ Nat.le_of_lt (length_encode_value_lt shortest)
  · intro least
    by_contra redundant
    have shorter := length_encode_value_lt (Bool.eq_false_iff.mpr redundant)
    exact Nat.not_le.mpr shorter (least _ (value_encode _))

theorem decode?_eq_some_iff {size : Nat} {item : Bytes} {n : Int} :
    decode? size item = some n ↔ item.length ≤ size ∧ value item = n := by
  rw [decode?]
  split <;> simp <;> omega

end ScriptNumber

end TaprootLab
