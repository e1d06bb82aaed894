/-!
# Byte strings

Scripts, hashes, keys and witness elements are all byte strings, kept as lists so that statements
about them are statements about lists. Numbers enter and leave in either byte order.

* `length_ofNatLE`, `length_ofNatBE`: a number written in `width` bytes takes exactly `width` bytes.
* `ofNatLE_toNatLE`: writing the number that was read from bytes gives the bytes back.
-/

namespace TaprootLab

/-- A string of bytes, first byte first. -/
abbrev Bytes := List UInt8

namespace Bytes

/-- The low `width` bytes of `n`, least significant first. -/
def ofNatLE : (width : Nat) → (n : Nat) → Bytes
  | 0, _ => []
  | width + 1, n => UInt8.ofNat n :: ofNatLE width (n / 256)

/-- The low `width` bytes of `n`, most significant first. -/
def ofNatBE (width n : Nat) : Bytes := (ofNatLE width n).reverse

/-- The number whose digits in base 256 are the bytes, least significant first. -/
def toNatLE (bytes : Bytes) : Nat := bytes.foldr (fun b n => b.toNat + 256 * n) 0

/-- The number whose digits in base 256 are the bytes, most significant first. -/
def toNatBE (bytes : Bytes) : Nat := bytes.foldl (fun n b => 256 * n + b.toNat) 0

@[simp] theorem length_ofNatLE (width n : Nat) : (ofNatLE width n).length = width := by
  induction width generalizing n with
  | zero => rfl
  | succ width ih => simp [ofNatLE, ih]

@[simp] theorem length_ofNatBE (width n : Nat) : (ofNatBE width n).length = width := by
  simp [ofNatBE]

@[simp] theorem toNatLE_nil : toNatLE [] = 0 := rfl

@[simp] theorem toNatLE_cons (b : UInt8) (bytes : Bytes) :
    toNatLE (b :: bytes) = b.toNat + 256 * toNatLE bytes := rfl

theorem ofNatLE_toNatLE (bytes : Bytes) : ofNatLE bytes.length (toNatLE bytes) = bytes := by
  induction bytes with
  | nil => rfl
  | cons b rest ih =>
    have low : UInt8.ofNat (b.toNat + 256 * toNatLE rest) = b := by
      apply UInt8.toNat_inj.mp
      have := b.toNat_lt
      rw [UInt8.toNat_ofNat']
      omega
    have high : (b.toNat + 256 * toNatLE rest) / 256 = toNatLE rest := by
      have := b.toNat_lt
      omega
    rw [toNatLE_cons, List.length_cons, ofNatLE, low, high, ih]

/-- Cuts a list into runs of `size` items; the last run holds what is left. -/
def chunks {α : Type} (size : Nat) (items : List α) : List (List α) :=
  if h : size = 0 ∨ items = [] then []
  else
    have : (items.drop size).length < items.length := by
      have := List.length_pos_iff.mpr fun e => h (.inr e)
      simp only [List.length_drop]
      omega
    items.take size :: chunks size (items.drop size)
termination_by items.length

end Bytes

end TaprootLab
