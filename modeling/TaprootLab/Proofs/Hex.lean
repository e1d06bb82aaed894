import TaprootLab.Proofs.Assembly.Classification

/-!
# Text that is not hexadecimal

Text is read as digits and refused as bytes. The two views agree: every byte that encodes text in
UTF-8 is a digit exactly if every character is, as the bytes of all other characters have the high
bit (`digitBytes_utf8_iff`). So the search for what is wrong with refused text always finds
something, an odd number of bytes before a byte that is no digit (`decode_outcome`).
-/

namespace TaprootLab.Hex

open Assembly (Spells HexDigit HexWord)

/-! ## Bytes of a text -/

theorem toList_eq_toList_data (bytes : ByteArray) : bytes.toList = bytes.data.toList := by
  have loop (i : Nat) (done : List UInt8) :
      ByteArray.toList.loop bytes i done = done.reverse ++ bytes.data.toList.drop i := by
    fun_induction ByteArray.toList.loop bytes i done with
    | case1 i done inside ih =>
      have within : i < bytes.data.toList.length := inside
      have here : bytes.get! i = bytes.data.toList[i] := getElem!_pos bytes.data i within
      rw [ih, List.drop_eq_getElem_cons within, here, List.reverse_cons, List.append_assoc,
        List.singleton_append]
    | case2 i done outside =>
      rw [List.drop_eq_nil_of_le (Nat.le_of_not_lt outside), List.append_nil]
  rw [ByteArray.toList, loop 0 [], List.reverse_nil, List.nil_append, List.drop_zero]

/-- The bytes of a text are those of its characters. -/
theorem toList_toUTF8 (text : String) :
    text.toUTF8.toList = text.toList.flatMap String.utf8EncodeChar := by
  have chars : text.toByteArray = text.toList.utf8Encode := by
    rw [← String.toByteArray_ofList, String.ofList_toList]
  rw [String.toUTF8_eq_toByteArray, chars, toList_eq_toList_data, List.utf8Encode,
    List.toList_data_toByteArray]

/-- A byte that is a digit, taken as a character. -/
def DigitByte (b : UInt8) : Prop := HexDigit (Char.ofNat b.toNat)

theorem isDigitByte_iff {b : UInt8} : isDigitByte b = true ↔ DigitByte b := Assembly.isDigit_iff

theorem not_isDigitByte_iff {b : UInt8} : (!isDigitByte b) = true ↔ ¬ DigitByte b := by
  rw [Bool.not_eq_true', ← Bool.not_eq_true, isDigitByte_iff]

theorem DigitByte.toNat_lt {b : UInt8} (h : DigitByte b) : b.toNat < 103 := by
  have small := HexDigit.toNat_lt h
  have valid : b.toNat.isValidChar := .inl (Nat.lt_trans b.toNat_lt (by decide))
  rwa [Char.toNat_ofNat, if_pos valid] at small

theorem utf8EncodeChar_of_lt {c : Char} (ascii : c.toNat < 128) :
    String.utf8EncodeChar c = [UInt8.ofNat c.toNat] :=
  if_pos (Nat.le_of_lt_succ ascii)

/-- The bytes of a character beyond ASCII start with one that has the high bit. -/
theorem exists_mem_utf8EncodeChar {c : Char} (beyond : 128 ≤ c.toNat) :
    ∃ b ∈ String.utf8EncodeChar c, 128 ≤ b.toNat := by
  have notAscii : ¬ c.val.toNat ≤ 0x7f := Nat.not_le.mpr beyond
  simp only [String.utf8EncodeChar, if_neg notAscii]
  split_ifs
  all_goals
    refine ⟨_, List.mem_cons_self, ?_⟩
    rw [UInt8.toNat_ofNat']
    omega

theorem digitBytes_utf8EncodeChar_iff {c : Char} :
    (∀ b ∈ String.utf8EncodeChar c, DigitByte b) ↔ HexDigit c := by
  by_cases ascii : c.toNat < 128
  · have same : Char.ofNat (UInt8.ofNat c.toNat).toNat = c := by
      rw [UInt8.toNat_ofNat', Nat.mod_eq_of_lt (by omega), Char.ofNat_toNat]
    rw [utf8EncodeChar_of_lt ascii, List.forall_mem_singleton, DigitByte, same]
  · obtain ⟨b, mem, high⟩ := exists_mem_utf8EncodeChar (Nat.le_of_not_lt ascii)
    refine iff_of_false (fun digits => ?_) fun digit => ascii (digit.toNat_lt.trans (by decide))
    exact Nat.not_lt.mpr high ((digits b mem).toNat_lt.trans (by decide))

theorem digitBytes_utf8_iff {text : String} :
    (∀ b ∈ text.toUTF8.toList, DigitByte b) ↔ ∀ c ∈ text.toList, HexDigit c := by
  rw [toList_toUTF8, List.forall_mem_flatMap]
  exact forall₂_congr fun _ _ => digitBytes_utf8EncodeChar_iff

theorem length_utf8_of_digits {text : String} (digits : ∀ c ∈ text.toList, HexDigit c) :
    text.toUTF8.toList.length = text.toList.length := by
  have one (c : Char) (mem : c ∈ text.toList) : (String.utf8EncodeChar c).length = 1 := by
    rw [utf8EncodeChar_of_lt ((digits c mem).toNat_lt.trans (by decide)), List.length_singleton]
  rw [toList_toUTF8, List.length_flatMap, List.map_congr_left one, List.map_const',
    List.sum_replicate_nat, Nat.mul_one]

/-- Hexadecimal words can be told by their bytes. -/
theorem hexWord_iff {text : String} :
    HexWord text.toList ↔ Even text.toUTF8.toList.length
      ∧ ∀ b ∈ text.toUTF8.toList, DigitByte b := by
  rw [digitBytes_utf8_iff]
  constructor
  · rintro ⟨digits, even⟩
    exact ⟨by rwa [length_utf8_of_digits digits], digits⟩
  · rintro ⟨even, digits⟩
    exact ⟨digits, by rwa [length_utf8_of_digits digits] at even⟩

/-! ## What is wrong -/

/-- What keeps bytes from being digits, two for each byte. How many there are counts before what
they are. -/
inductive Fault : Bytes → Error → Prop
  | odd {bytes : Bytes} (odd : ¬ Even bytes.length) : Fault bytes .oddLength
  | foreign {before after : Bytes} {b : UInt8} (even : Even (before ++ b :: after).length)
      (digits : ∀ d ∈ before, DigitByte d) (other : ¬ DigitByte b) :
      Fault (before ++ b :: after) (.invalidCharacter b before.length)

theorem exists_fault {bytes : Bytes} (h : ¬ (Even bytes.length ∧ ∀ b ∈ bytes, DigitByte b)) :
    ∃ e, Fault bytes e := by
  by_cases even : Even bytes.length
  · have other : ∃ b ∈ bytes, (!isDigitByte b) = true := by
      simpa only [even, true_and, not_isDigitByte_iff, not_forall, exists_prop] using h
    obtain ⟨b, found⟩ := Option.isSome_iff_exists.mp (List.find?_isSome.mpr other)
    obtain ⟨here, before, after, rfl, digits⟩ := List.find?_eq_some_iff_append.mp found
    simp only [Bool.not_not, isDigitByte_iff] at digits
    exact ⟨_, .foreign even digits (not_isDigitByte_iff.mp here)⟩
  · exact ⟨_, .odd even⟩

/-- A search among numbered items stops at the first that passes. -/
theorem find?_zipIdx_append_cons {test : UInt8 × Nat → Bool} {before : Bytes} {b : UInt8}
    (passed : ∀ d ∈ before, ∀ i, test (d, i) = false) (here : test (b, before.length) = true)
    (after : Bytes) :
    (before ++ b :: after).zipIdx.find? test = some (b, before.length) := by
  refine List.find?_eq_some_iff_append.mpr
    ⟨here, before.zipIdx, after.zipIdx (before.length + 1), ?_, ?_⟩
  · rw [List.zipIdx_append, List.zipIdx_cons, Nat.zero_add]
  · rintro ⟨d, i⟩ mem
    rw [passed d (List.fst_mem_of_mem_zipIdx mem) i, Bool.not_false]

theorem diagnose_of_fault {text : String} {e : Error} (fault : Fault text.toUTF8.toList e) :
    diagnose text = e := by
  rw [diagnose]
  generalize text.toUTF8.toList = bytes at fault
  cases fault with
  | odd odd => rw [if_pos (Nat.not_even_iff.mp odd)]
  | @foreign before after b even digits other =>
    have full : ¬ (before ++ b :: after).length % 2 = 1 :=
      mt Nat.odd_iff.mpr (Nat.not_odd_iff_even.mpr even)
    have passed (d : UInt8) (mem : d ∈ before) : (!isDigitByte d) = false := by
      rw [isDigitByte_iff.mpr (digits d mem), Bool.not_true]
    have found : (before ++ b :: after).zipIdx.find? (fun p => !isDigitByte p.1) =
        some (b, before.length) :=
      find?_zipIdx_append_cons (fun d mem _ => passed d mem) (not_isDigitByte_iff.mpr other) after
    simp only [if_neg full, found]

theorem Fault.not_digits {bytes : Bytes} {e : Error} (fault : Fault bytes e) :
    ¬ (Even bytes.length ∧ ∀ b ∈ bytes, DigitByte b) := by
  rintro ⟨even, all⟩
  cases fault with
  | odd odd => exact odd even
  | foreign _ _ other => exact other (all _ (List.mem_append_right _ List.mem_cons_self))

/-! ## Reading -/

theorem ofDigits?_eq_none_iff {w : List Char} : ofDigits? w = none ↔ ¬ HexWord w := by
  simp only [← Assembly.exists_spells_iff, Assembly.spells_iff,
    Option.eq_none_iff_forall_ne_some, not_exists]

theorem decode_of_spells {text : String} {data : Bytes} (h : Spells text.toList data) :
    decode text = .ok data := by
  rw [decode, h.ofDigits?]

/-- **Text is read exactly if it spells bytes.** Other text is refused for its fault. -/
theorem decode_outcome (text : String) :
    (∀ data, decode text = .ok data ↔ Spells text.toList data)
      ∧ ∀ e, decode text = .error e ↔ Fault text.toUTF8.toList e := by
  refine Except.eq_iff_of_total (fun _ => decode_of_spells) (fun e fault => ?_) ?_
  · rw [decode, ofDigits?_eq_none_iff.mpr (mt hexWord_iff.mp fault.not_digits),
      diagnose_of_fault fault]
  · by_cases word : HexWord text.toList
    · exact .inl (Assembly.exists_spells_iff.mpr word)
    · exact .inr (exists_fault (mt hexWord_iff.mpr word))

end TaprootLab.Hex
