import Mathlib.Data.List.Nodup
import TaprootLab.Script.Opcode

/-!
# Mnemonics tell opcodes apart

No two opcodes share a name, and no second spelling is the name of an opcode, so a name leads back
to its opcode (`ofName?_name`). Every mnemonic starts with the letter O, which is no digit of a
hexadecimal number, so data that is written in digits is never taken for an opcode
(`ofName?_eq_none`). Names are made up of capitals, digits and underscores (`isPlain_of_mem_name`).
-/

namespace TaprootLab.Opcode

/-! ## Spellings that stand in a table -/

def spellings : List (List Char) := aliases.map (·.1.toList) ++ assigned.map (·.2.toList)

/-- A number that tells short words apart. -/
def fingerprint (word : List Char) : Nat := word.foldl (fun n c => 128 * n + c.toNat) 0

def allDistinct : List Nat → Bool
  | [] => true
  | n :: ns => ns.all (!Nat.beq n ·) && allDistinct ns

theorem nodup_of_allDistinct {ns : List Nat} (h : allDistinct ns = true) : ns.Nodup := by
  induction ns with
  | nil => exact List.nodup_nil
  | cons n ns ih =>
    rw [allDistinct, Bool.and_eq_true, List.all_eq_true] at h
    refine List.nodup_cons.mpr ⟨fun mem => ?_, ih h.2⟩
    have := h.1 n mem
    rw [Nat.beq_refl] at this
    cases this

def dataPrefix : List Char := ['O', 'P', '_', 'D', 'A', 'T', 'A', '_']

def smallPrefix : List Char := ['O', 'P', '_']

def unknownPrefix : List Char := ['O', 'P', '_', 'U', 'N', 'K', 'N', 'O', 'W', 'N']

def isPlain (c : Char) : Bool := c.isUpper || c.isDigit || c == '_'

/-- A word with the common prefix that is not made up of any of the prefixes and a number, zero
apart. -/
def isFixed (word : List Char) : Bool :=
  smallPrefix.isPrefixOf word && !dataPrefix.isPrefixOf word && !unknownPrefix.isPrefixOf word
    && word.all isPlain && ((word.drop 3).any (!·.isDigit) || word == ['O', 'P', '_', '0'])

set_option maxRecDepth 4000 in
theorem spellings_checked :
    (spellings.all isFixed && allDistinct (spellings.map fingerprint)) = true := by decide +kernel

theorem isFixed_of_mem {word : List Char} (h : word ∈ spellings) : isFixed word = true :=
  List.all_eq_true.mp (Bool.and_eq_true_iff.mp spellings_checked).1 word h

theorem head?_of_mem_spellings {word : List Char} (h : word ∈ spellings) :
    word.head? = some 'O' := by
  have fixed := isFixed_of_mem h
  simp only [isFixed, Bool.and_eq_true, List.isPrefixOf_iff_prefix] at fixed
  obtain ⟨rest, rfl⟩ := fixed.1.1.1.1
  rfl

theorem nodup_spellings : spellings.Nodup :=
  (nodup_of_allDistinct (Bool.and_eq_true_iff.mp spellings_checked).2).of_map fingerprint

theorem toDigits_inj {m n : Nat} (h : Nat.toDigits 10 m = Nat.toDigits 10 n) : m = n := by
  have := congrArg (Nat.ofDigitChars 10 · 0) h
  rwa [Nat.ofDigitChars_ten_toDigits, Nat.ofDigitChars_ten_toDigits] at this

/-- A number behind the common prefix is no fixed spelling. -/
theorem smallPrefix_append_notMem {n : Nat} (pos : 0 < n) :
    smallPrefix ++ Nat.toDigits 10 n ∉ spellings := by
  intro mem
  have fixed := isFixed_of_mem mem
  have digits : ∀ c ∈ Nat.toDigits 10 n, c.isDigit = true := fun c hc =>
    Nat.isDigit_of_mem_toDigits (by decide) (by decide) hc
  simp only [isFixed, Bool.and_eq_true, Bool.or_eq_true, List.any_eq_true, beq_iff_eq] at fixed
  rcases fixed.2 with ⟨c, hc, other⟩ | zero
  · rw [digits c hc] at other
    cases other
  · have same : smallPrefix ++ Nat.toDigits 10 n = smallPrefix ++ Nat.toDigits 10 0 := zero
    have := toDigits_inj (List.append_cancel_left same)
    omega

/-! ## Names -/

/-- What a word looks like: data prefix, unknown prefix, fixed spelling, or anything else. -/
def kind (word : List Char) : Nat :=
  if dataPrefix.isPrefixOf word then 0
  else if unknownPrefix.isPrefixOf word then 1
  else if word ∈ spellings then 2
  else 3

/-- The four ways in which an opcode comes by its name, each with the kind of the name. -/
inductive Named (op : Opcode) : Nat → List Char → Prop
  | data (h : op.isDirectPush = true) : Named op 0 (dataPrefix ++ Nat.toDigits 10 op.byte.toNat)
  | unknown : Named op 1 (unknownPrefix ++ Nat.toDigits 10 op.byte.toNat)
  | fixed {s : String} (h : (op.byte, s) ∈ assigned) : Named op 2 s.toList
  | small (h : 0x50 < op.byte.toNat) :
    Named op 3 (smallPrefix ++ Nat.toDigits 10 (op.byte.toNat - 0x50))

theorem toList_numbered (s : String) (n : Nat) :
    (s ++ n.repr).toList = s.toList ++ Nat.toDigits 10 n := by
  rw [String.toList_append, Nat.toList_repr]

theorem mem_of_lookup {α β : Type} [BEq α] [LawfulBEq α] {entries : List (α × β)} {a : α} {b : β}
    (h : entries.lookup a = some b) : (a, b) ∈ entries := by
  obtain ⟨front, back, same, -⟩ := List.lookup_eq_some_iff.mp h
  rw [same]
  exact List.mem_append_right _ List.mem_cons_self

theorem exists_named (op : Opcode) : ∃ k, Named op k op.name.toList := by
  rw [name]
  split
  · rename_i h
    rw [show toString op.byte = op.byte.toNat.repr from rfl, toList_numbered]
    exact ⟨0, .data h⟩
  · split
    · rename_i h
      rw [isSmallNumber, Bool.and_eq_true, decide_eq_true_iff] at h
      rw [show toString (op.byte.toNat - 0x50) = (op.byte.toNat - 0x50).repr from rfl,
        toList_numbered]
      exact ⟨3, .small (UInt8.le_iff_toNat_le.mp h.1)⟩
    · cases h : assigned.lookup op.byte with
      | some s => exact ⟨2, .fixed (mem_of_lookup h)⟩
      | none =>
        show ∃ k, Named op k ("OP_UNKNOWN" ++ op.byte.toNat.repr).toList
        rw [toList_numbered]
        exact ⟨1, .unknown⟩

theorem kind_fixed {word : List Char} (h : word ∈ spellings) : kind word = 2 := by
  have fixed := isFixed_of_mem h
  simp only [isFixed, Bool.and_eq_true, Bool.not_eq_true'] at fixed
  obtain ⟨⟨⟨⟨-, noData⟩, noUnknown⟩, -⟩, -⟩ := fixed
  rw [kind, noData, noUnknown, if_neg Bool.false_ne_true, if_neg Bool.false_ne_true, if_pos h]

theorem kind_small {n : Nat} (pos : 0 < n) : kind (smallPrefix ++ Nat.toDigits 10 n) = 3 := by
  have absent := smallPrefix_append_notMem pos
  have isDigit : ∀ c ∈ Nat.toDigits 10 n, c.isDigit = true := fun c hc =>
    Nat.isDigit_of_mem_toDigits (by decide) (by decide) hc
  cases digits : Nat.toDigits 10 n with
  | nil => exact absurd digits Nat.toDigits_ne_nil
  | cons c cs =>
    rw [digits] at absent isDigit
    have digit := isDigit c List.mem_cons_self
    have notD : 'D' ≠ c := by rintro rfl; cases digit
    have notU : 'U' ≠ c := by rintro rfl; cases digit
    rw [kind, if_neg (by simp [dataPrefix, smallPrefix, notD]),
      if_neg (by simp [unknownPrefix, smallPrefix, notU]), if_neg absent]

theorem Named.kind_eq {op : Opcode} {k : Nat} {word : List Char} (h : Named op k word) :
    kind word = k := by
  cases h with
  | data h => rw [kind, if_pos (by simp)]
  | unknown => rw [kind, if_neg (by simp [dataPrefix, unknownPrefix]), if_pos (by simp)]
  | fixed h => exact kind_fixed (List.mem_append_right _ (List.mem_map_of_mem h))
  | small h => exact kind_small (Nat.sub_pos_of_lt h)

theorem eq_of_toNat {op op' : Opcode} (h : op.byte.toNat = op'.byte.toNat) : op = op' := by
  obtain ⟨b⟩ := op
  obtain ⟨b'⟩ := op'
  exact congrArg Opcode.mk (UInt8.toNat_inj.mp h)

/-- A word is the name of one opcode at most. -/
theorem Named.unique {op op' : Opcode} {k k' : Nat} {word word' : List Char} (h : Named op k word)
    (h' : Named op' k' word') (same : word = word') : op = op' := by
  -- The word tells its kind, so only names of one kind are left to compare.
  obtain rfl : k = k' := by rw [← h.kind_eq, ← h'.kind_eq, same]
  cases h with
  | data h =>
    cases h' with
    | data h' => exact eq_of_toNat (toDigits_inj (List.append_cancel_left same))
  | unknown =>
    cases h' with
    | unknown => exact eq_of_toNat (toDigits_inj (List.append_cancel_left same))
  | fixed h =>
    cases h' with
    | fixed h' =>
      have distinct := (List.nodup_append.mp nodup_spellings).2.1
      have := List.inj_on_of_nodup_map distinct h h' same
      exact eq_of_toNat (congrArg (·.1.toNat) this)
  | small h =>
    cases h' with
    | small h' =>
      have := toDigits_inj (List.append_cancel_left same)
      exact eq_of_toNat (by omega)

theorem Named.head? {op : Opcode} {k : Nat} {word : List Char} (h : Named op k word) :
    word.head? = some 'O' := by
  cases h with
  | data h => rfl
  | unknown => rfl
  | fixed h => exact head?_of_mem_spellings (List.mem_append_right _ (List.mem_map_of_mem h))
  | small h => rfl

theorem isPlain_of_mem_numbered {start : List Char} (plain : start.all isPlain = true) (n : Nat)
    {c : Char} (h : c ∈ start ++ Nat.toDigits 10 n) : isPlain c = true := by
  rcases List.mem_append.mp h with front | number
  · exact List.all_eq_true.mp plain c front
  · have digit : c.isDigit = true := Nat.isDigit_of_mem_toDigits (by decide) (by decide) number
    simp [isPlain, digit]

theorem Named.isPlain {op : Opcode} {k : Nat} {word : List Char} (h : Named op k word) {c : Char}
    (hc : c ∈ word) : isPlain c = true := by
  cases h with
  | data h => exact isPlain_of_mem_numbered (by decide) _ hc
  | unknown => exact isPlain_of_mem_numbered (by decide) _ hc
  | fixed h =>
    have fixed := isFixed_of_mem (List.mem_append_right _ (List.mem_map_of_mem h))
    simp only [isFixed, Bool.and_eq_true] at fixed
    exact List.all_eq_true.mp fixed.1.2 c hc
  | small h => exact isPlain_of_mem_numbered (by decide) _ hc

theorem isPlain_of_mem_name {op : Opcode} {c : Char} (h : c ∈ op.name.toList) : isPlain c = true :=
  op.exists_named.choose_spec.isPlain h

theorem name_ne_nil (op : Opcode) : op.name.toList ≠ [] := by
  have := op.exists_named.choose_spec.head?
  intro none
  rw [none] at this
  cases this

theorem name_injective {op op' : Opcode} (h : op.name = op'.name) : op = op' := by
  obtain ⟨k, named⟩ := op.exists_named
  obtain ⟨k', named'⟩ := op'.exists_named
  exact named.unique named' (congrArg String.toList h)

theorem Named.mem_assigned {op : Opcode} {word : List Char} (h : Named op 2 word) :
    word ∈ assigned.map (·.2.toList) := by
  cases h with
  | fixed h => exact List.mem_map_of_mem h

/-- A second spelling is no name. -/
theorem name_ne_of_mem_aliases {op : Opcode} {s : String} {b : UInt8} (h : (s, b) ∈ aliases) :
    op.name ≠ s := by
  intro same
  have mem : s.toList ∈ aliases.map (·.1.toList) := List.mem_map_of_mem h
  obtain ⟨k, named⟩ := op.exists_named
  rw [same] at named
  obtain rfl : k = 2 := named.kind_eq.symm.trans (kind_fixed (List.mem_append_left _ mem))
  exact (List.nodup_append.mp nodup_spellings).2.2 _ mem _ named.mem_assigned rfl

/-! ## Looking names up -/

theorem mem_all (op : Opcode) : op ∈ all :=
  List.mem_map.mpr ⟨op.byte.toNat, List.mem_range.mpr op.byte.toNat_lt,
    eq_of_toNat (by rw [UInt8.ofNat_toNat])⟩

theorem lookup_eq_some {α β : Type} [BEq α] [LawfulBEq α] {entries : List (α × β)} {a : α} {b : β}
    (h : (a, b) ∈ entries) (only : ∀ b', (a, b') ∈ entries → b' = b) :
    entries.lookup a = some b := by
  cases found : entries.lookup a with
  | none => exact absurd (List.lookup_eq_none_iff.mp found (a, b) h) (by simp)
  | some b' =>
    rw [only b' (mem_of_lookup found)]

/-- **Every name is a mnemonic of its opcode.** -/
theorem ofName?_name (op : Opcode) : ofName? op.name = some op := by
  refine lookup_eq_some (List.mem_append_right _ (List.mem_map_of_mem op.mem_all)) fun op' h => ?_
  rcases List.mem_append.mp h with other | named
  · obtain ⟨⟨s, b⟩, mem, same⟩ := List.mem_map.mp other
    obtain ⟨rfl, -⟩ := Prod.mk.inj same
    exact absurd rfl (name_ne_of_mem_aliases mem)
  · obtain ⟨op'', -, same⟩ := List.mem_map.mp named
    obtain ⟨names, rfl⟩ := Prod.mk.inj same
    exact name_injective names

/-- No two mnemonics are spelled alike. -/
theorem ofName?_of_mem {s : String} {op : Opcode} (h : (s, op) ∈ mnemonics) :
    ofName? s = some op := by
  rcases List.mem_append.mp h with other | named
  · obtain ⟨⟨s', b⟩, mem, same⟩ := List.mem_map.mp other
    obtain ⟨rfl, rfl⟩ := Prod.mk.inj same
    refine lookup_eq_some h fun op' h' => ?_
    rcases List.mem_append.mp h' with other' | named'
    · obtain ⟨⟨s'', b'⟩, mem', same'⟩ := List.mem_map.mp other'
      obtain ⟨rfl, rfl⟩ := Prod.mk.inj same'
      have distinct := (List.nodup_append.mp nodup_spellings).1
      have entry := List.inj_on_of_nodup_map distinct mem' mem rfl
      exact congrArg (fun e => Opcode.mk e.2) entry
    · obtain ⟨op'', -, same'⟩ := List.mem_map.mp named'
      exact absurd (Prod.mk.inj same').1 (name_ne_of_mem_aliases mem)
  · obtain ⟨op', -, same⟩ := List.mem_map.mp named
    obtain ⟨rfl, rfl⟩ := Prod.mk.inj same
    exact ofName?_name op'

theorem ofName?_eq_some_iff {s : String} {op : Opcode} :
    ofName? s = some op ↔ (s, op) ∈ mnemonics :=
  ⟨mem_of_lookup, ofName?_of_mem⟩

/-- A word that starts with another letter is no mnemonic. -/
theorem ofName?_eq_none {s : String} (h : s.toList.head? ≠ some 'O') : ofName? s = none := by
  refine List.lookup_eq_none_iff.mpr fun ⟨s', op⟩ known => ?_
  suffices s'.toList.head? = some 'O' by
    refine bne_iff_ne.mpr ?_
    rintro rfl
    exact h this
  rcases List.mem_append.mp known with other | named
  · obtain ⟨⟨s'', b⟩, mem, same⟩ := List.mem_map.mp other
    obtain ⟨rfl, -⟩ := Prod.mk.inj same
    exact head?_of_mem_spellings (List.mem_append_left _ (List.mem_map_of_mem mem))
  · obtain ⟨op', -, same⟩ := List.mem_map.mp named
    obtain ⟨rfl, rfl⟩ := Prod.mk.inj same
    exact op'.exists_named.choose_spec.head?

end TaprootLab.Opcode
