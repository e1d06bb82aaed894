import TaprootLab.Proofs.Engine.Operands
import TaprootLab.Proofs.Hex
import TaprootLab.Proofs.Numeral

/-!
# Numbers as text

An integer is written with at most one sign, then in decimal or, after 0x, in hexadecimal
(`Writes`). Such text becomes the shortest item of the integer if that has a magnitude of 63 bits,
and no other text is read (`ofText_outcome`). The other way an item is written in hexadecimal; it is
refused if it is not the shortest one of its value, and only then for its length (`ofHex_outcome`).
Both ways together lead back to where they began (`text_converts`).
-/

namespace TaprootLab.ScriptNumber

open Assembly (Spells HexWord)

/-! ## Integers -/

/-- A magnitude as it is written. -/
inductive WritesMagnitude : List Char → Nat → Prop
  | decimal {cs : List Char} {n : Nat} (digits : Numeral.Denotes 10 cs n) : WritesMagnitude cs n
  | hexadecimal {cs : List Char} {n : Nat} (digits : Numeral.Denotes 16 cs n) :
      WritesMagnitude ('0' :: 'x' :: cs) n

/-- An integer as it is written. There is no plus sign, and zero may have a minus sign. -/
inductive Writes : List Char → Int → Prop
  | plain {cs : List Char} {n : Nat} (magnitude : WritesMagnitude cs n) : Writes cs n
  | negative {cs : List Char} {n : Nat} (magnitude : WritesMagnitude cs n) :
      Writes ('-' :: cs) (-(n : Int))

section
variable {cs : List Char} {n : Nat}

theorem not_denotes_mark : ¬ Numeral.Denotes 10 ('0' :: 'x' :: cs) n := by
  rintro ⟨-, ds, digits, -⟩
  obtain ⟨_, _, -, digits, -⟩ := List.forall₂_cons_left_iff.mp digits
  obtain ⟨_, _, letter, -, -⟩ := List.forall₂_cons_left_iff.mp digits
  have found := (Numeral.digit?_eq_some_iff (by decide)).mpr letter
  cases found

theorem not_denotes_minus : ¬ Numeral.Denotes 10 ('-' :: cs) n := by
  rintro ⟨-, ds, digits, -⟩
  obtain ⟨_, _, sign, -, -⟩ := List.forall₂_cons_left_iff.mp digits
  have found := (Numeral.digit?_eq_some_iff (by decide)).mpr sign
  cases found

theorem not_writesMagnitude_minus : ¬ WritesMagnitude ('-' :: cs) n := by
  intro h
  cases h with
  | decimal digits => exact not_denotes_minus digits

/-- The mark tells the two ways to write a magnitude apart. -/
theorem writesMagnitude_iff :
    WritesMagnitude cs n ↔ Numeral.Denotes (splitRadix cs).1 (splitRadix cs).2 n := by
  constructor
  · intro h
    cases h with
    | hexadecimal digits => exact digits
    | decimal digits =>
      unfold splitRadix
      split
      · exact (not_denotes_mark digits).elim
      · exact digits
  · unfold splitRadix
    split
    · exact .hexadecimal
    · exact .decimal

theorem radix_of_splitRadix (cs : List Char) : 0 < (splitRadix cs).1 ∧ (splitRadix cs).1 ≤ 16 := by
  unfold splitRadix
  split <;> simp

theorem parseMagnitude?_eq_some_iff :
    parseMagnitude? cs = some n ↔ WritesMagnitude cs n ∧ n < 2 ^ 63 := by
  have largest : maxMagnitude + 1 = 2 ^ 63 := rfl
  obtain ⟨positive, few⟩ := radix_of_splitRadix cs
  show (Numeral.parseDigits (splitRadix cs).1 maxMagnitude (splitRadix cs).2).toOption = some n ↔ _
  rw [Except.toOption_eq_some_iff, Numeral.parseDigits_eq_ok_iff positive few, writesMagnitude_iff,
    ← largest, Nat.lt_succ_iff]

theorem parseInt?_minus :
    parseInt? ('-' :: cs) = (parseMagnitude? cs).map fun n : Nat => -(n : Int) := by
  rw [parseInt?]
  cases parseMagnitude? cs <;> rfl

theorem parseInt?_of_ne_minus (other : ∀ rest, cs ≠ '-' :: rest) :
    parseInt? cs = (parseMagnitude? cs).map fun n : Nat => (n : Int) := by
  unfold parseInt?
  split
  · exact absurd rfl (other _)
  · cases parseMagnitude? cs <;> rfl

theorem parseInt?_eq_some_iff {i : Int} :
    parseInt? cs = some i ↔ Writes cs i ∧ i.natAbs < 2 ^ 63 := by
  by_cases signed : ∃ rest, cs = '-' :: rest
  · obtain ⟨rest, rfl⟩ := signed
    simp only [parseInt?_minus, Option.map_eq_some_iff, parseMagnitude?_eq_some_iff]
    constructor
    · rintro ⟨n, ⟨magnitude, small⟩, rfl⟩
      exact ⟨.negative magnitude, by rwa [Int.natAbs_neg, Int.natAbs_natCast]⟩
    · rintro ⟨writes, small⟩
      cases writes with
      | plain magnitude => exact (not_writesMagnitude_minus magnitude).elim
      | @negative _ n magnitude =>
        rw [Int.natAbs_neg, Int.natAbs_natCast] at small
        exact ⟨n, ⟨magnitude, small⟩, rfl⟩
  · rw [not_exists] at signed
    simp only [parseInt?_of_ne_minus signed, Option.map_eq_some_iff, parseMagnitude?_eq_some_iff]
    constructor
    · rintro ⟨n, ⟨magnitude, small⟩, rfl⟩
      exact ⟨.plain magnitude, by rwa [Int.natAbs_natCast]⟩
    · rintro ⟨writes, small⟩
      cases writes with
      | @plain _ n magnitude => exact ⟨n, ⟨magnitude, small⟩, rfl⟩
      | negative magnitude => exact absurd rfl (signed _)

theorem WritesMagnitude.unique {m : Nat} (first : WritesMagnitude cs m)
    (second : WritesMagnitude cs n) : m = n := by
  obtain ⟨positive, few⟩ := radix_of_splitRadix cs
  exact (writesMagnitude_iff.mp first).unique positive few (writesMagnitude_iff.mp second)

/-- Text stands for one integer at most. -/
theorem Writes.unique {i j : Int} (first : Writes cs i) (second : Writes cs j) : i = j := by
  cases first with
  | plain one =>
    cases second with
    | plain other => rw [one.unique other]
    | negative => exact (not_writesMagnitude_minus one).elim
  | negative one =>
    cases second with
    | plain other => exact (not_writesMagnitude_minus other).elim
    | negative other => rw [one.unique other]

/-- A number is written in decimal. -/
theorem writes_toString (i : Int) : Writes (toString i).toList i := by
  cases i with
  | ofNat n =>
    show Writes n.repr.toList n
    rw [Nat.toList_repr]
    exact .plain (.decimal (Numeral.denotes_toDigits n))
  | negSucc n =>
    show Writes ("-" ++ (n + 1).repr).toList (-((n + 1 : Nat) : Int))
    rw [String.toList_append, Nat.toList_repr]
    exact .negative (.decimal (Numeral.denotes_toDigits (n + 1)))

end

/-! ## From text to items -/

theorem ofText_outcome (text : String) :
    (∀ item, ofText text = .ok item ↔
      ∃ n, Writes text.toList n ∧ n.natAbs < 2 ^ 63 ∧ Encodes item n)
      ∧ ∀ e, ofText text = .error e ↔
        e = .number text ∧ ¬ ∃ n, Writes text.toList n ∧ n.natAbs < 2 ^ 63 := by
  refine Except.eq_iff_of_total ?_ ?_ ?_
  · rintro item ⟨n, writes, small, encodes⟩
    rw [ofText, parseInt?_eq_some_iff.mpr ⟨writes, small⟩, encodes_iff.mp encodes]
  · rintro _ ⟨rfl, unwritten⟩
    have unread : parseInt? text.toList = none :=
      Option.eq_none_iff_forall_ne_some.mpr fun n read =>
        unwritten ⟨n, parseInt?_eq_some_iff.mp read⟩
    rw [ofText, unread]
  · by_cases written : ∃ n, Writes text.toList n ∧ n.natAbs < 2 ^ 63
    · obtain ⟨n, writes, small⟩ := written
      exact .inl ⟨encode n, n, writes, small, encodes_encode n⟩
    · exact .inr ⟨_, rfl, written⟩

/-! ## From hexadecimal to integers -/

/-- Why text is not the shortest item of an integer of eight bytes. How long an item is counts only
if it is the shortest. -/
inductive HexFault (text : String) : Error → Prop
  | hex (other : ¬ HexWord text.toList) : HexFault text (.hex text)
  | padded {item shorter : Bytes} (spells : Spells text.toList item)
      (same : value shorter = value item) (less : shorter.length < item.length) :
      HexFault text (.nonMinimal text)
  | long {item : Bytes} {n : Int} (spells : Spells text.toList item) (encodes : Encodes item n)
      (long : 8 < item.length) :
      HexFault text (.tooLong item.length)

theorem ofHex_of_encodes {text : String} {item : Bytes} {n : Int} (spells : Spells text.toList item)
    (encodes : Encodes item n) :
    ofHex text = if 8 < item.length then .error (.tooLong item.length) else .ok n := by
  rw [ofHex, Hex.decode_of_spells spells]
  simp only [encodes.isMinimal, Bool.not_true, Bool.false_eq_true, if_false, decode?,
    encodes.value, shownSize]
  by_cases long : 8 < item.length
  · simp only [if_pos long]
  · simp only [if_neg long]

theorem ofHex_outcome (text : String) :
    (∀ n, ofHex text = .ok n ↔ ∃ item, Spells text.toList item ∧ Encodes item n ∧ item.length ≤ 8)
      ∧ ∀ e, ofHex text = .error e ↔ HexFault text e := by
  refine Except.eq_iff_of_total ?_ ?_ ?_
  · rintro n ⟨item, spells, encodes, short⟩
    rw [ofHex_of_encodes spells encodes, if_neg (Nat.not_lt.mpr short)]
  · intro e fault
    cases fault with
    | hex other =>
      rw [ofHex, Hex.decode, Hex.ofDigits?_eq_none_iff.mpr other]
    | @padded item shorter spells same less =>
      have redundant : isMinimal item = false := by
        rw [← Bool.not_eq_true, isMinimal_iff]
        exact fun least => Nat.not_le.mpr less (least shorter same)
      rw [ofHex, Hex.decode_of_spells spells]
      simp only [redundant, Bool.not_false, if_true]
    | long spells encodes long => rw [ofHex_of_encodes spells encodes, if_pos long]
  · by_cases word : HexWord text.toList
    · obtain ⟨item, spells⟩ := Assembly.exists_spells_iff.mpr word
      by_cases minimal : isMinimal item = true
      · have encodes := encodes_value_iff.mpr minimal
        rcases Nat.lt_or_ge 8 item.length with long | short
        · exact .inr ⟨_, .long spells encodes long⟩
        · exact .inl ⟨value item, item, spells, encodes, short⟩
      · have shorter := length_encode_value_lt (Bool.not_eq_true _ ▸ minimal)
        exact .inr ⟨_, .padded spells (value_encode _) shorter⟩
    · exact .inr ⟨_, .hex word⟩

/-! ## There and back -/

theorem ofHex_encode {text : String} {item : Bytes} {n : Int} (read : ofText text = .ok item)
    (writes : Writes text.toList n) :
    ofHex (Hex.encode item) = .ok n := by
  obtain ⟨m, same, small, encodes⟩ := ((ofText_outcome text).1 item).mp read
  obtain rfl := same.unique writes
  have spells : Spells (Hex.encode item).toList item := by
    rw [Hex.encode, String.toList_ofList, Assembly.spells_iff, Hex.ofDigits?_toDigits]
  have short : item.length ≤ 8 := by
    rw [encodes_iff.mp encodes]
    exact (length_encode_le_iff m 8).mpr small
  exact ((ofHex_outcome _).1 m).mpr ⟨item, spells, encodes, short⟩

theorem ofText_toString {text : String} {item : Bytes} {n : Int} (read : ofHex text = .ok n)
    (spells : Spells text.toList item) :
    ofText (toString n) = .ok item := by
  obtain ⟨other, same, encodes, short⟩ := ((ofHex_outcome text).1 n).mp read
  obtain rfl : other = item := Option.some.inj (same.ofDigits?.symm.trans spells.ofDigits?)
  have small : n.natAbs < 2 ^ 63 := by
    rw [encodes_iff.mp encodes] at short
    exact (length_encode_le_iff n 8).mp short
  exact ((ofText_outcome _).1 other).mpr ⟨n, writes_toString n, small, encodes⟩

/-- **Numbers as text.** Text becomes an item exactly if it writes an integer whose magnitude has 63
bits, and the item is the shortest of that integer. Text in hexadecimal becomes an integer exactly
if its bytes are the shortest item of the integer and no more than eight. It is refused for not
being hexadecimal before all else, and for not being the shortest item before being too long. An
integer that was read becomes the bytes it was read from if it is written in decimal, and an item
that was made becomes the integer it was made for. -/
theorem text_converts :
    (∀ text item, ofText text = .ok item ↔
      ∃ n, Writes text.toList n ∧ n.natAbs < 2 ^ 63 ∧ Encodes item n)
      ∧ (∀ text e, ofText text = .error e ↔
        e = .number text ∧ ¬ ∃ n, Writes text.toList n ∧ n.natAbs < 2 ^ 63)
      ∧ (∀ text n, ofHex text = .ok n ↔
        ∃ item, Spells text.toList item ∧ Encodes item n ∧ item.length ≤ 8)
      ∧ (∀ text e, ofHex text = .error e ↔ HexFault text e)
      ∧ (∀ text item n, ofText text = .ok item → Writes text.toList n →
        ofHex (Hex.encode item) = .ok n)
      ∧ ∀ text n item, ofHex text = .ok n → Spells text.toList item →
        ofText (toString n) = .ok item :=
  ⟨fun text => (ofText_outcome text).1, fun text => (ofText_outcome text).2,
    fun text => (ofHex_outcome text).1,
    fun text => (ofHex_outcome text).2, fun _ _ _ => ofHex_encode, fun _ _ _ => ofText_toString⟩

/-- A negative number in hexadecimal, with letters of both cases. -/
theorem writes_mixedCase : Writes "-0xfF".toList (-255) := by
  refine .negative (.hexadecimal ⟨List.cons_ne_nil _ _, [15, 15], ?_, rfl⟩)
  exact .cons ⟨by decide, by decide⟩ (.cons ⟨by decide, by decide⟩ .nil)

/-- The number is made an item and read back. -/
theorem text_converts_mixedCase :
    ofText "-0xfF" = .ok [0xff, 0x80] ∧ Writes "-0xfF".toList (-255)
      ∧ ofHex (Hex.encode [0xff, 0x80]) = .ok (-255) := by
  obtain ⟨made, -, -, -, back, -⟩ := text_converts
  have read : ofText "-0xfF" = .ok [0xff, 0x80] :=
    (made _ _).mpr ⟨-255, writes_mixedCase, by decide, encodes_value_iff.mpr rfl⟩
  exact ⟨read, writes_mixedCase, back _ _ _ read writes_mixedCase⟩

end TaprootLab.ScriptNumber
