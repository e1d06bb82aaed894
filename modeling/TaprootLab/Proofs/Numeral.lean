import Mathlib.Data.List.Forall2
import Mathlib.Data.Nat.Digits.Defs
import TaprootLab.Numeral

/-!
# Numerals and their values

The digits of a numeral are read from left to right, and reading stops at the first digit with which
the value would be too large. The value only grows on the way, so a numeral is read exactly if its
whole value is in range (`parseDigits_eq_ok_iff`). What that value is, is the standard library's
matter (`Nat.ofDigits`), as is how a number is written (`denotes_toDigits`).
-/

namespace TaprootLab.Numeral

/-- A digit and its value. The letters of either case are the digits from ten on. -/
structure DigitOf (radix : Nat) (c : Char) (d : Nat) : Prop where
  small : d < radix
  shape : c.toLower = Nat.digitChar d

/-- A numeral of at least one digit and the number that it denotes. -/
structure Denotes (radix : Nat) (cs : List Char) (n : Nat) : Prop where
  nonempty : cs ≠ []
  digits : ∃ ds, List.Forall₂ (DigitOf radix) cs ds ∧ n = Nat.ofDigits radix ds.reverse

/-! ## Digits -/

theorem digit_checked_below : ∀ (k : Fin 128) (d : Fin 16),
    digit? 16 (Char.ofNat k) = some d.val ↔ (Char.ofNat k).toLower = Nat.digitChar d := by
  decide +kernel

theorem toNat_lt_of_le {c e : Char} (h : c ≤ e) (ascii : e.toNat < 128) : c.toNat < 128 :=
  Nat.lt_of_le_of_lt (UInt32.le_iff_toNat_le.mp h) ascii

theorem digit?_eq_some_iff_of_le {radix : Nat} {c : Char} {d : Nat} (few : radix ≤ 16) :
    digit? radix c = some d ↔ digit? 16 c = some d ∧ d < radix := by
  simp only [digit?, Option.filter_eq_some_iff, decide_eq_true_eq]
  constructor
  · rintro ⟨value, small⟩
    exact ⟨⟨value, by omega⟩, small⟩
  · rintro ⟨⟨value, -⟩, small⟩
    exact ⟨value, small⟩

theorem toNat_lt_of_digit? {radix : Nat} {c : Char} {d : Nat} (h : digit? radix c = some d) :
    c.toNat < 128 := by
  simp only [digit?, Option.filter_eq_some_iff] at h
  obtain ⟨value, -⟩ := h
  split_ifs at value with low lower upper
  · exact toNat_lt_of_le low.2 (by decide)
  · exact toNat_lt_of_le lower.2 (by decide)
  · exact toNat_lt_of_le upper.2 (by decide)

theorem toLower_of_not_upper {c : Char} (h : ¬ ('A' ≤ c ∧ c ≤ 'Z')) : c.toLower = c := dif_neg h

theorem DigitOf.toNat_lt {radix : Nat} {c : Char} {d : Nat} (h : DigitOf radix c d)
    (few : radix ≤ 16) : c.toNat < 128 := by
  have written : ∀ d : Fin 16, (Nat.digitChar d).toNat < 128 := by decide
  by_cases upper : 'A' ≤ c ∧ c ≤ 'Z'
  · exact toNat_lt_of_le upper.2 (by decide)
  · have ascii := written ⟨d, Nat.lt_of_lt_of_le h.small few⟩
    rwa [← h.shape, toLower_of_not_upper upper] at ascii

theorem digit?_eq_some_iff {radix : Nat} {c : Char} {d : Nat} (few : radix ≤ 16) :
    digit? radix c = some d ↔ DigitOf radix c d := by
  have checked (ascii : c.toNat < 128) (small : d < 16) :=
    digit_checked_below ⟨c.toNat, ascii⟩ ⟨d, small⟩
  simp only [Char.ofNat_toNat] at checked
  rw [digit?_eq_some_iff_of_le few]
  constructor
  · rintro ⟨found, small⟩
    exact ⟨small, (checked (toNat_lt_of_digit? found) (by omega)).mp found⟩
  · intro h
    have small := h.small
    exact ⟨(checked (h.toNat_lt few) (by omega)).mpr h.shape, small⟩

theorem forall₂_digitOf_cons_iff {radix : Nat} {c : Char} {cs : List Char} {d : Nat} {ds : List Nat}
    (few : radix ≤ 16) (found : digit? radix c = some d) :
    List.Forall₂ (DigitOf radix) (c :: cs) ds ↔
      ∃ more, List.Forall₂ (DigitOf radix) cs more ∧ ds = d :: more := by
  rw [List.forall₂_cons_left_iff]
  constructor
  · rintro ⟨d', more, digit, digits, rfl⟩
    have same : some d = some d' := found.symm.trans ((digit?_eq_some_iff few).mpr digit)
    exact ⟨more, digits, by rw [Option.some.inj same]⟩
  · rintro ⟨more, digits, rfl⟩
    exact ⟨d, more, (digit?_eq_some_iff few).mp found, digits, rfl⟩

/-! ## Values -/

/-- A digit more, in front. -/
theorem ofDigits_reverse_cons_add (radix acc d : Nat) (ds : List Nat) :
    Nat.ofDigits radix (d :: ds).reverse + radix ^ (d :: ds).length * acc
      = Nat.ofDigits radix ds.reverse + radix ^ ds.length * (radix * acc + d) := by
  rw [Nat.ofDigits_reverse_cons, List.length_cons, Nat.pow_succ]
  ring

/-- What is read of further digits, behind digits of the value `acc`. -/
theorem readDigits_eq_ok_iff {radix max : Nat} (positive : 0 < radix) (few : radix ≤ 16)
    {cs : List Char} {acc n : Nat} (inRange : acc ≤ max) :
    readDigits radix max acc cs = .ok n ↔
      ∃ ds, List.Forall₂ (DigitOf radix) cs ds
        ∧ n = Nat.ofDigits radix ds.reverse + radix ^ ds.length * acc ∧ n ≤ max := by
  induction cs generalizing acc with
  | nil =>
    simp only [readDigits, Except.ok.injEq, List.forall₂_nil_left_iff]
    constructor
    · rintro rfl
      exact ⟨[], rfl, by simp, inRange⟩
    · rintro ⟨_, rfl, whole, -⟩
      simpa using whole.symm
  | cons c cs ih =>
    rw [readDigits]
    cases found : digit? radix c with
    | none =>
      refine iff_of_false nofun ?_
      rintro ⟨ds, digits, -⟩
      obtain ⟨d, -, digit, -, -⟩ := List.forall₂_cons_left_iff.mp digits
      rw [(digit?_eq_some_iff few).mpr digit] at found
      cases found
    | some d =>
      simp only [forall₂_digitOf_cons_iff few found]
      split
      · -- the value only grows with further digits
        rename_i large
        refine iff_of_false nofun ?_
        rintro ⟨-, ⟨ds, -, rfl⟩, value, small⟩
        have grows : radix * acc + d ≤ radix ^ ds.length * (radix * acc + d) :=
          Nat.le_mul_of_pos_left _ (Nat.pow_pos positive)
        rw [ofDigits_reverse_cons_add] at value
        omega
      · rename_i small
        rw [ih (Nat.le_of_not_lt small)]
        constructor
        · rintro ⟨ds, digits, rfl, bound⟩
          exact ⟨d :: ds, ⟨ds, digits, rfl⟩, (ofDigits_reverse_cons_add radix acc d ds).symm, bound⟩
        · rintro ⟨-, ⟨ds, digits, rfl⟩, rfl, bound⟩
          exact ⟨ds, digits, ofDigits_reverse_cons_add radix acc d ds, bound⟩

/-- **Numerals in range are read, and nothing else.** -/
theorem parseDigits_eq_ok_iff {radix max : Nat} (positive : 0 < radix) (few : radix ≤ 16)
    {cs : List Char} {n : Nat} :
    parseDigits radix max cs = .ok n ↔ Denotes radix cs n ∧ n ≤ max := by
  rw [parseDigits]
  split
  · rename_i empty
    exact iff_of_false nofun fun h => h.1.nonempty (List.isEmpty_iff.mp empty)
  · rename_i nonempty
    rw [readDigits_eq_ok_iff positive few (Nat.zero_le max)]
    simp only [Nat.mul_zero, Nat.add_zero]
    constructor
    · rintro ⟨ds, digits, value, bound⟩
      exact ⟨⟨fun nil => nonempty (List.isEmpty_iff.mpr nil), ds, digits, value⟩, bound⟩
    · rintro ⟨⟨-, ds, digits, value⟩, bound⟩
      exact ⟨ds, digits, value, bound⟩

theorem Denotes.unique {radix : Nat} {cs : List Char} {m n : Nat} (positive : 0 < radix)
    (few : radix ≤ 16) (first : Denotes radix cs m) (second : Denotes radix cs n) : m = n := by
  have readFirst : parseDigits radix (max m n) cs = .ok m :=
    (parseDigits_eq_ok_iff positive few).mpr ⟨first, Nat.le_max_left m n⟩
  have readSecond : parseDigits radix (max m n) cs = .ok n :=
    (parseDigits_eq_ok_iff positive few).mpr ⟨second, Nat.le_max_right m n⟩
  exact Except.ok.inj (readFirst.symm.trans readSecond)

/-! ## Writing -/

theorem digitOf_of_isDigit {c : Char} (h : c.isDigit = true) :
    DigitOf 10 c (c.toNat - '0'.toNat) := by
  simp only [Char.isDigit, Bool.and_eq_true, decide_eq_true_eq] at h
  have range : '0' ≤ c ∧ c ≤ '9' := h
  have high : c.toNat ≤ 57 := UInt32.le_iff_toNat_le.mp range.2
  have small : c.toNat - '0'.toNat < 10 :=
    Nat.lt_of_le_of_lt (Nat.sub_le_sub_right high 48) (by decide)
  rw [← digit?_eq_some_iff (by decide), digit?, if_pos range, Option.filter_some,
    if_pos (decide_eq_true small)]

theorem ofDigitChars_eq (cs : List Char) (acc : Nat) :
    Nat.ofDigitChars 10 cs acc
      = Nat.ofDigits 10 (cs.map fun c => c.toNat - '0'.toNat).reverse + 10 ^ cs.length * acc := by
  induction cs generalizing acc with
  | nil => simp [Nat.ofDigitChars]
  | cons c cs ih =>
    have step :=
      ofDigits_reverse_cons_add 10 acc (c.toNat - '0'.toNat) (cs.map fun c => c.toNat - '0'.toNat)
    rw [List.length_cons, List.length_map] at step
    rw [Nat.ofDigitChars_cons, ih, List.map_cons, List.length_cons, step]

/-- A number is denoted by its decimal digits. -/
theorem denotes_toDigits (n : Nat) : Denotes 10 (Nat.toDigits 10 n) n := by
  refine ⟨Nat.toDigits_ne_nil, (Nat.toDigits 10 n).map fun c => c.toNat - '0'.toNat, ?_, ?_⟩
  · rw [List.forall₂_map_right_iff, List.forall₂_same]
    exact fun c mem => digitOf_of_isDigit (Nat.isDigit_of_mem_toDigits (by decide) (by decide) mem)
  · have value := ofDigitChars_eq (Nat.toDigits 10 n) 0
    rwa [Nat.ofDigitChars_ten_toDigits, Nat.mul_zero, Nat.add_zero] at value

end TaprootLab.Numeral
