import TaprootLab.Proofs.Assembly.Correspondence
import TaprootLab.Proofs.Except
import TaprootLab.Proofs.Text

/-!
# What a word stands for

A word is tried as a mnemonic, as `<>`, as a placeholder, as a group and as hexadecimal, in this
order. The order never shows: a word stands for at most one thing, and for which one can be said of
each kind of words without the others (`classify_eq_ok_iff`). A word that stands for nothing is
refused for what it was meant to be, and that is decided by its first character; only what starts
with no bracket may have been meant as a mnemonic or as digits (`classify_eq_error_iff`).
-/

namespace TaprootLab.Assembly

/-! ## Hexadecimal words -/

/-- A digit in base sixteen, of either case. -/
def HexDigit (c : Char) : Prop := '0' ≤ c ∧ c ≤ '9' ∨ 'a' ≤ c ∧ c ≤ 'f' ∨ 'A' ≤ c ∧ c ≤ 'F'

instance : DecidablePred HexDigit := fun _ => inferInstanceAs (Decidable (_ ∨ _ ∨ _))

/-- Two digits for each byte. There may be none. -/
structure HexWord (w : List Char) : Prop where
  digits : ∀ c ∈ w, HexDigit c
  even : Even w.length

theorem HexDigit.toNat_lt {c : Char} (h : HexDigit c) : c.toNat < 103 := by
  rcases h with ⟨-, high⟩ | ⟨-, high⟩ | ⟨-, high⟩
  all_goals exact Nat.lt_of_le_of_lt (UInt32.le_iff_toNat_le.mp high) (by decide)

theorem isDigit_iff {c : Char} : Hex.isDigit c = true ↔ HexDigit c := by
  rw [Hex.isDigit, Hex.digit?, HexDigit]
  split_ifs <;> simp [*]

theorem all_isDigit_iff {w : List Char} : w.all Hex.isDigit = true ↔ ∀ c ∈ w, HexDigit c := by
  simp only [List.all_eq_true, isDigit_iff]

theorem digit_checked_below : ∀ k : Fin 103, (Hex.digit? (Char.ofNat k)).all
    (fun n => n < 16 ∧ (Char.ofNat k).toLower = Hex.digit n) = true := by decide +kernel

/-- A digit is the lower-case digit of its value, but for its case. -/
theorem digit?_eq_some {c : Char} {n : UInt8} (h : Hex.digit? c = some n) :
    n < 16 ∧ c.toLower = Hex.digit n := by
  have digit : HexDigit c := isDigit_iff.mp (by rw [Hex.isDigit, h]; rfl)
  have checked := digit_checked_below ⟨c.toNat, digit.toNat_lt⟩
  rw [Char.ofNat_toNat, h] at checked
  exact of_decide_eq_true checked

theorem divMod_joined {h l : UInt8} (hh : h < 16) (hl : l < 16) :
    (h * 16 + l) / 16 = h ∧ (h * 16 + l) % 16 = l := by
  rw [UInt8.lt_iff_toNat_lt] at hh hl
  constructor
  all_goals
    apply UInt8.toNat_inj.mp
    simp only [UInt8.toNat_div, UInt8.toNat_mod, UInt8.toNat_add, UInt8.toNat_mul,
      UInt8.reduceToNat] at *
    omega

theorem spells_iff {w : List Char} {data : Bytes} :
    Spells w data ↔ Hex.ofDigits? w = some data := by
  refine ⟨Spells.ofDigits?, fun read => ?_⟩
  induction w using Hex.ofDigits?.induct generalizing data with
  | case1 =>
    obtain rfl := Option.some.inj read
    rfl
  | case2 c => cases read
  | case3 high low rest h l bytes others lowest highest ih =>
    rw [Hex.ofDigits?, highest, lowest, others] at read
    obtain rfl := Option.some.inj read
    obtain ⟨hh, upper⟩ := digit?_eq_some highest
    obtain ⟨hl, lower⟩ := digit?_eq_some lowest
    obtain ⟨quotient, remainder⟩ := divMod_joined hh hl
    have front : Hex.toDigits ((h * 16 + l) :: bytes)
        = Hex.digit ((h * 16 + l) / 16) :: Hex.digit ((h * 16 + l) % 16) :: Hex.toDigits bytes :=
          rfl
    rw [Spells, front, quotient, remainder, List.map_cons, List.map_cons, upper, lower]
    exact congrArg (Hex.digit h :: Hex.digit l :: ·) (ih others)
  | case4 high low rest missing =>
    rw [Hex.ofDigits?] at read
    split at read
    · rename_i h l bytes highest lowest others
      exact (missing h l bytes highest lowest others).elim
    · cases read

theorem exists_ofDigits? : ∀ {w : List Char}, HexWord w → ∃ data, Hex.ofDigits? w = some data
  | [], _ => ⟨[], rfl⟩
  | [_], h => absurd h.even Nat.not_even_one
  | high :: low :: rest, h => by
    obtain ⟨first, second, digits⟩ : HexDigit high ∧ HexDigit low ∧ ∀ c ∈ rest, HexDigit c := by
      simpa only [List.forall_mem_cons] using h.digits
    have even : Even rest.length := by
      have whole : Even (rest.length + 2) := h.even
      exact (Nat.even_add.mp whole).mpr even_two
    obtain ⟨n, highest⟩ := Option.isSome_iff_exists.mp (isDigit_iff.mpr first)
    obtain ⟨m, lowest⟩ := Option.isSome_iff_exists.mp (isDigit_iff.mpr second)
    obtain ⟨bytes, others⟩ := exists_ofDigits? ⟨digits, even⟩
    exact ⟨(n * 16 + m) :: bytes, by rw [Hex.ofDigits?, highest, lowest, others]⟩

/-- Hexadecimal words are those that spell something. -/
theorem exists_spells_iff {w : List Char} : (∃ data, Spells w data) ↔ HexWord w := by
  constructor
  · rintro ⟨data, spells⟩
    have length : w.length = data.length * 2 := by
      rw [← @List.length_map _ _ w Char.toLower, spells, Hex.toDigits, List.length_flatMap]
      simp
    exact ⟨fun c hc => isDigit_iff.mp (spells.isDigit c hc), length ▸ even_two.mul_left data.length⟩
  · intro h
    obtain ⟨data, read⟩ := exists_ofDigits? h
    exact ⟨data, spells_iff.mpr read⟩

/-- A word was meant as a mnemonic if it starts as one, in letters of either case, or if it is
written as they are, with a letter that is no digit. -/
def MeantAsMnemonic (w : List Char) : Prop :=
  (∃ o p rest, w = o :: p :: '_' :: rest ∧ (o = 'O' ∨ o = 'o') ∧ (p = 'P' ∨ p = 'p'))
    ∨ (∀ c ∈ w, 'A' ≤ c ∧ c ≤ 'Z' ∨ '0' ≤ c ∧ c ≤ '9' ∨ c = '_') ∧ ∃ c ∈ w, 'F' < c ∧ c ≤ 'Z'

/-- What keeps a word from being hexadecimal. -/
inductive NoHex : List Char → Fault → Prop
  | odd {w : List Char} (digits : ∀ c ∈ w, HexDigit c) (odd : ¬ Even w.length) :
      NoHex w .oddLengthHex
  | misspelled {w : List Char} (other : ∃ c ∈ w, ¬ HexDigit c) (meant : MeantAsMnemonic w) :
      NoHex w .unknownOpcode
  | other {w : List Char} (other : ∃ c ∈ w, ¬ HexDigit c) (meant : ¬ MeantAsMnemonic w) :
      NoHex w .invalidHex

theorem isUpper_iff {c : Char} : c.isUpper = true ↔ 'A' ≤ c ∧ c ≤ 'Z' := by
  rw [Char.isUpper, decide_eq_true_iff]
  rfl

theorem isDecimal_iff {c : Char} : c.isDigit = true ↔ '0' ≤ c ∧ c ≤ '9' := by
  rw [Char.isDigit, Bool.and_eq_true, decide_eq_true_iff, decide_eq_true_iff]
  rfl

/-- The capitals that are no digits are those past F. -/
theorem beyond_iff {c : Char} : (c.isUpper && !Hex.isDigit c) = true ↔ 'F' < c ∧ c ≤ 'Z' := by
  rw [Bool.and_eq_true, Bool.not_eq_true', ← Bool.not_eq_true, isDigit_iff, isUpper_iff, HexDigit]
  constructor
  · rintro ⟨⟨low, high⟩, other⟩
    exact ⟨not_le.mp fun small => other (.inr (.inr ⟨low, small⟩)), high⟩
  · rintro ⟨low, high⟩
    have capital : 'A' ≤ c := le_trans (by decide) low.le
    refine ⟨⟨capital, high⟩, ?_⟩
    rintro (⟨-, small⟩ | ⟨large, -⟩ | ⟨-, small⟩)
    · exact absurd (le_trans capital small) (by decide)
    · exact absurd (le_trans large high) (by decide)
    · exact absurd small (not_le.mpr low)

theorem startsWithOp_iff {w : List Char} :
    (match w with
      | a :: b :: c :: _ => (a == 'O' || a == 'o') && (b == 'P' || b == 'p') && c == '_'
      | _ => false) = true
      ↔ ∃ o p rest, w = o :: p :: '_' :: rest ∧ (o = 'O' ∨ o = 'o') ∧ (p = 'P' ∨ p = 'p') := by
  rcases w with _ | ⟨a, _ | ⟨b, _ | ⟨c, rest⟩⟩⟩
  · simp
  · simp
  · simp
  · simp only [Bool.and_eq_true, Bool.or_eq_true, beq_iff_eq, List.cons.injEq]
    constructor
    · rintro ⟨⟨first, second⟩, rfl⟩
      exact ⟨a, b, rest, ⟨rfl, rfl, rfl, rfl⟩, first, second⟩
    · rintro ⟨o, p, rest', ⟨rfl, rfl, rfl, -⟩, first, second⟩
      exact ⟨⟨first, second⟩, rfl⟩

theorem looksLikeMnemonic_iff {w : List Char} : looksLikeMnemonic w = true ↔ MeantAsMnemonic w := by
  unfold looksLikeMnemonic
  rw [Bool.or_eq_true, MeantAsMnemonic]
  refine or_congr startsWithOp_iff ?_
  rw [Bool.and_eq_true, List.all_eq_true, List.any_eq_true]
  simp only [beyond_iff, Bool.or_eq_true, isUpper_iff, isDecimal_iff, beq_iff_eq, or_assoc]

theorem readBytes_eq_ok_iff {w : List Char} {data : Bytes} :
    readBytes w = .ok data ↔ Spells w data := by
  constructor
  · intro read
    rw [readBytes] at read
    split at read
    · cases digits : Hex.ofDigits? w with
      | none =>
        rw [digits] at read
        cases read
      | some bytes =>
        rw [digits] at read
        obtain rfl := Except.ok.inj read
        exact spells_iff.mpr digits
    · cases read
  · intro spells
    rw [readBytes, if_pos (List.all_eq_true.mpr spells.isDigit), spells.ofDigits?]

theorem readBytes_eq_error_iff {w : List Char} {fault : Fault} :
    readBytes w = .error fault ↔ NoHex w fault := by
  constructor
  · intro refused
    rw [readBytes] at refused
    split at refused
    · rename_i digits
      cases read : Hex.ofDigits? w with
      | some bytes =>
        rw [read] at refused
        cases refused
      | none =>
        rw [read] at refused
        obtain rfl := Except.error.inj refused
        refine .odd (all_isDigit_iff.mp digits) fun even => ?_
        obtain ⟨data, whole⟩ := exists_ofDigits? ⟨all_isDigit_iff.mp digits, even⟩
        cases read.symm.trans whole
    · rename_i digits
      have other : ∃ c ∈ w, ¬ HexDigit c := by
        simpa only [all_isDigit_iff, not_forall, exists_prop] using digits
      split at refused
      · rename_i meant
        obtain rfl := Except.error.inj refused
        exact .misspelled other (looksLikeMnemonic_iff.mp meant)
      · rename_i meant
        obtain rfl := Except.error.inj refused
        exact .other other fun h => meant (looksLikeMnemonic_iff.mpr h)
  · have mixed (other : ∃ c ∈ w, ¬ HexDigit c) : ¬ w.all Hex.isDigit = true := by
      obtain ⟨c, mem, odd⟩ := other
      exact fun all => odd (all_isDigit_iff.mp all c mem)
    rintro (⟨digits, odd⟩ | ⟨other, meant⟩ | ⟨other, meant⟩)
    · cases read : Hex.ofDigits? w with
      | some data => exact absurd (exists_spells_iff.mp ⟨data, spells_iff.mpr read⟩).even odd
      | none => rw [readBytes, if_pos (all_isDigit_iff.mpr digits), read]
    · rw [readBytes, if_neg (mixed other), if_pos (looksLikeMnemonic_iff.mpr meant)]
    · rw [readBytes, if_neg (mixed other), if_neg fun h => meant (looksLikeMnemonic_iff.mp h)]

/-! ## Groups -/

def groupWord (parts : List (List Char)) : List Char := '(' :: ([','].intercalate parts ++ [')'])

theorem untilLast?_eq_some_iff {close : Char} {cs inner : List Char} :
    untilLast? close cs = some inner ↔ cs = inner ++ [close] := by
  rw [untilLast?]
  constructor
  · intro cut
    split at cut
    · rename_i last
      obtain rfl := Option.some.inj cut
      exact (List.dropLast_append_getLast? close last).symm
    · cases cut
  · rintro rfl
    simp

theorem untilLast?_eq_none_iff {close : Char} {cs : List Char} :
    untilLast? close cs = none ↔ cs.getLast? ≠ some close := by
  rw [untilLast?]
  split
  · rename_i last
    simp [last]
  · rename_i last
    simp [last]

theorem notMem_of_hexWord {w : List Char} (h : HexWord w) : ',' ∉ w :=
  fun comma => absurd (h.digits ',' comma) (by decide)

theorem readGroupValue_eq_ok_iff {part : List Char} {data : Bytes} :
    readGroupValue part = .ok data ↔ Spells part data := by
  rw [← readBytes_eq_ok_iff, readGroupValue]
  cases readBytes part <;> simp

theorem readGroupValue_eq_error_iff {part : List Char} {fault : Fault} :
    readGroupValue part = .error fault ↔
      ∃ reason, NoHex part reason
        ∧ fault = .malformedGroup ("'" ++ String.ofList part ++ "': " ++ reason.message) := by
  simp only [← readBytes_eq_error_iff]
  rw [readGroupValue]
  cases readBytes part <;> simp [eq_comm]

/-- What follows an opening bracket is not closed, or holds the parts of a group. -/
theorem group_cases (rest : List Char) :
    rest.getLast? ≠ some ')'
      ∨ ∃ parts, parts ≠ [] ∧ (∀ p ∈ parts, ',' ∉ p) ∧ rest = [','].intercalate parts ++ [')'] := by
  cases closed : untilLast? ')' rest with
  | none => exact .inl (untilLast?_eq_none_iff.mp closed)
  | some inner =>
    obtain ⟨nonempty, free, whole⟩ := Text.splitOn_eq_iff.mp (rfl : Text.splitOn ',' inner = _)
    exact .inr ⟨Text.splitOn ',' inner, nonempty, free, by
      rw [whole, untilLast?_eq_some_iff.mp closed]⟩

theorem readGroup_open {rest : List Char} (h : rest.getLast? ≠ some ')') :
    readGroup rest = .error (.malformedGroup "missing closing ')'") := by
  rw [readGroup, untilLast?_eq_none_iff.mpr h]

theorem readGroup_closed {parts : List (List Char)} (nonempty : parts ≠ [])
    (free : ∀ p ∈ parts, ',' ∉ p) :
    readGroup ([','].intercalate parts ++ [')']) = parts.mapM readGroupValue := by
  rw [readGroup, untilLast?_eq_some_iff.mpr rfl]
  show (Text.splitOn ',' _).mapM _ = _
  rw [Text.splitOn_eq_iff.mpr ⟨nonempty, free, rfl⟩]

/-! ## Placeholders -/

def placeholderWord (id : List Char) : List Char := ['<', 's', 'i', 'g', ':'] ++ id ++ ['>']

/-- An identifier can be told from the brackets around it. -/
structure Identifier (id : List Char) : Prop where
  nonempty : id ≠ []
  opening : '<' ∉ id
  closing : '>' ∉ id

/-- The text between the brackets decides, if the brackets are there. -/
theorem readPlaceholder_cases (w : List Char) :
    (∃ id, w = placeholderWord id
        ∧ readPlaceholder w =
          if id.isEmpty || id.any (fun c => c == '<' || c == '>') then .error .malformedPlaceholder
          else .ok (String.ofList id))
      ∨ (∀ id, w ≠ placeholderWord id) ∧ readPlaceholder w = .error .malformedPlaceholder := by
  unfold readPlaceholder
  split
  · rename_i rest
    cases closed : untilLast? '>' rest with
    | some id =>
      left
      rw [untilLast?_eq_some_iff.mp closed]
      exact ⟨id, rfl, rfl⟩
    | none =>
      right
      refine ⟨fun id same => ?_, rfl⟩
      have whole : rest = id ++ ['>'] := by simpa [placeholderWord] using same
      cases closed.symm.trans (untilLast?_eq_some_iff.mpr whole)
  · rename_i other
    exact .inr ⟨fun id same => other (id ++ ['>']) same, rfl⟩

theorem identifier_iff {id : List Char} :
    (id.isEmpty || id.any fun c => c == '<' || c == '>') = false ↔ Identifier id := by
  constructor
  · intro plain
    rw [Bool.or_eq_false_iff, List.isEmpty_eq_false_iff, List.any_eq_false] at plain
    exact ⟨plain.1, fun h => plain.2 '<' h rfl, fun h => plain.2 '>' h rfl⟩
  · intro ⟨nonempty, opening, closing⟩
    rw [Bool.or_eq_false_iff, List.isEmpty_eq_false_iff, List.any_eq_false]
    refine ⟨nonempty, fun c mem bracket => ?_⟩
    rcases Bool.or_eq_true_iff.mp bracket with left | right
    · exact opening (beq_iff_eq.mp left ▸ mem)
    · exact closing (beq_iff_eq.mp right ▸ mem)

theorem readPlaceholder_eq_ok_iff {w : List Char} {id : String} :
    readPlaceholder w = .ok id ↔
      ∃ cs, Identifier cs ∧ w = placeholderWord cs ∧ id = String.ofList cs := by
  constructor
  · intro read
    rcases readPlaceholder_cases w with ⟨cs, shape, same⟩ | ⟨-, same⟩
    · rw [same] at read
      split at read
      · cases read
      · rename_i plain
        rw [Bool.not_eq_true] at plain
        exact ⟨cs, identifier_iff.mp plain, shape, (Except.ok.inj read).symm⟩
    · cases same.symm.trans read
  · rintro ⟨cs, plain, shape, rfl⟩
    rcases readPlaceholder_cases w with ⟨cs', shape', same⟩ | ⟨other, -⟩
    · obtain rfl : cs' = cs := by simpa [placeholderWord] using shape'.symm.trans shape
      rw [same, identifier_iff.mpr plain]
      rfl
    · exact absurd shape (other cs)

theorem eq_of_readPlaceholder_eq_error {w : List Char} {fault : Fault}
    (h : readPlaceholder w = .error fault) :
    fault = .malformedPlaceholder := by
  rcases readPlaceholder_cases w with ⟨cs, -, same⟩ | ⟨-, same⟩
  · rw [same] at h
    split at h
    · exact (Except.error.inj h).symm
    · cases h
  · exact (Except.error.inj (same.symm.trans h)).symm

/-! ## Words -/

/-- What a word stands for. -/
inductive Denotes : List Char → Meaning → Prop
  | opcode {w : List Char} {op : Opcode} (known : (String.ofList w, op) ∈ Opcode.mnemonics) :
      Denotes w (.opcode op)
  | empty : Denotes ['<', '>'] .empty
  | bytes {w : List Char} {data : Bytes} (spells : Spells w data) : Denotes w (.bytes data)
  | group {parts : List (List Char)} {values : List Bytes} (nonempty : parts ≠ [])
      (spells : List.Forall₂ Spells parts values) : Denotes (groupWord parts) (.group values)
  | signature {id : List Char} (plain : Identifier id) :
      Denotes (placeholderWord id) (.signature (String.ofList id))

/-- What is wrong with a word that stands for nothing. A bracket decides what it was meant to be. -/
inductive Refused : List Char → Fault → Prop
  | placeholder {rest : List Char} : Refused ('<' :: rest) .malformedPlaceholder
  | openGroup {rest : List Char} (h : rest.getLast? ≠ some ')') :
      Refused ('(' :: rest) (.malformedGroup "missing closing ')'")
  | groupPart {before after : List (List Char)} {part : List Char} {reason : Fault}
      (free : ∀ p ∈ before ++ part :: after, ',' ∉ p) (fine : ∀ p ∈ before, HexWord p)
      (noHex : NoHex part reason) :
      Refused (groupWord (before ++ part :: after))
        (.malformedGroup ("'" ++ String.ofList part ++ "': " ++ reason.message))
  | bytes {w : List Char} {fault : Fault} (bare : ∀ c ∈ w.head?, c ≠ '<' ∧ c ≠ '(')
      (noHex : NoHex w fault) :
      Refused w fault

/-- Words differ in how they are read. -/
theorem word_cases (w : List Char) :
    (∃ op, (String.ofList w, op) ∈ Opcode.mnemonics) ∨ w = ['<', '>']
      ∨ (∃ rest, w = '<' :: rest ∧ rest ≠ ['>'])
      ∨ (∃ rest, w = '(' :: rest)
      ∨ Opcode.ofName? (String.ofList w) = none ∧ ∀ c ∈ w.head?, c ≠ '<' ∧ c ≠ '(' := by
  cases known : Opcode.ofName? (String.ofList w) with
  | some op => exact .inl ⟨op, Opcode.ofName?_eq_some_iff.mp known⟩
  | none =>
    right
    rcases w with _ | ⟨c, rest⟩
    · exact .inr (.inr (.inr ⟨rfl, nofun⟩))
    by_cases placeholder : c = '<'
    · by_cases marker : rest = ['>']
      · exact .inl (by rw [placeholder, marker])
      · exact .inr (.inl ⟨rest, by rw [placeholder], marker⟩)
    by_cases group : c = '('
    · exact .inr (.inr (.inl ⟨rest, by rw [group]⟩))
    · refine .inr (.inr (.inr ⟨rfl, ?_⟩))
      rintro c' ⟨⟩
      exact ⟨placeholder, group⟩

theorem ofName?_of_head {c : Char} (other : c ≠ 'O') (rest : List Char) :
    Opcode.ofName? (String.ofList (c :: rest)) = none :=
  Opcode.ofName?_eq_none (by simpa using other)

theorem classify_placeholder {rest : List Char} (other : rest ≠ ['>']) :
    classify ('<' :: rest) = (readPlaceholder ('<' :: rest)).map .signature := by
  rw [classify.eq_def, ofName?_of_head (by decide)]
  dsimp only
  split
  · rename_i same
    exact absurd (List.cons.inj same).2 other
  · rfl
  · rename_i same
    cases (List.cons.inj same).1
  · rename_i noMarker noAngle noGroup
    exact absurd rfl (noAngle rest)

theorem classify_group (rest : List Char) :
    classify ('(' :: rest) = (readGroup rest).map .group := by
  rw [classify.eq_def, ofName?_of_head (by decide)]
  rfl

theorem bare_of_digits {w : List Char} (digits : ∀ c ∈ w, HexDigit c) :
    ∀ c ∈ w.head?, c ≠ '<' ∧ c ≠ '(' := by
  intro c first
  have digit := digits c (List.mem_of_head? first)
  constructor
  · rintro rfl
    exact absurd digit (by decide)
  · rintro rfl
    exact absurd digit (by decide)

theorem unknown_of_digits {w : List Char} (digits : ∀ c ∈ w, HexDigit c) :
    Opcode.ofName? (String.ofList w) = none := by
  refine Opcode.ofName?_eq_none fun first => ?_
  rw [String.toList_ofList] at first
  exact absurd (digits 'O' (List.mem_of_head? first)) (by decide)

theorem classify_eq_ok_iff {w : List Char} {meaning : Meaning} :
    classify w = .ok meaning ↔ Denotes w meaning := by
  constructor
  · intro classified
    rcases word_cases w with ⟨op, known⟩ | rfl | ⟨rest, rfl, other⟩ | ⟨rest, rfl⟩ | ⟨unknown, bare⟩
    · cases (classify_mnemonic known).symm.trans classified
      exact .opcode known
    · cases classify_marker.symm.trans classified
      exact .empty
    · rw [classify_placeholder other, Except.map_eq_ok_iff] at classified
      obtain ⟨id, read, rfl⟩ := classified
      obtain ⟨cs, plain, whole, rfl⟩ := readPlaceholder_eq_ok_iff.mp read
      rw [whole]
      exact .signature plain
    · rw [classify_group, Except.map_eq_ok_iff] at classified
      obtain ⟨values, read, rfl⟩ := classified
      rcases group_cases rest with unclosed | ⟨parts, nonempty, free, rfl⟩
      · cases (readGroup_open unclosed).symm.trans read
      · rw [readGroup_closed nonempty free, Except.mapM_eq_ok_iff] at read
        exact .group nonempty (read.imp fun _ _ => readGroupValue_eq_ok_iff.mp)
    · rw [classify_bare unknown bare, Except.map_eq_ok_iff] at classified
      obtain ⟨data, read, rfl⟩ := classified
      exact .bytes (readBytes_eq_ok_iff.mp read)
  · intro denotes
    cases denotes with
    | opcode known => exact classify_mnemonic known
    | empty => exact classify_marker
    | bytes spells =>
      have digits := (exists_spells_iff.mp ⟨_, spells⟩).digits
      rw [classify_bare (unknown_of_digits digits) (bare_of_digits digits),
        readBytes_eq_ok_iff.mpr spells]
      rfl
    | @group parts values nonempty spells =>
      have free : ∀ p ∈ parts, ',' ∉ p := by
        intro p mem
        exact notMem_of_hexWord (exists_spells_iff.mp (exists_of_forall₂ spells p mem))
      have read : parts.mapM readGroupValue = .ok values :=
        Except.mapM_eq_ok_iff.mpr (spells.imp fun _ _ => readGroupValue_eq_ok_iff.mpr)
      rw [groupWord, classify_group, readGroup_closed nonempty free, read]
      rfl
    | @signature id plain =>
      have other : 's' :: 'i' :: 'g' :: ':' :: (id ++ ['>']) ≠ ['>'] := by simp
      have read := readPlaceholder_eq_ok_iff.mpr ⟨id, plain, rfl, rfl⟩
      show classify ('<' :: 's' :: 'i' :: 'g' :: ':' :: (id ++ ['>'])) = _
      rw [classify_placeholder other]
      exact Except.map_eq_ok_iff.mpr ⟨_, read, rfl⟩

theorem classify_eq_error_iff {w : List Char} {fault : Fault} :
    classify w = .error fault ↔ (¬ ∃ meaning, Denotes w meaning) ∧ Refused w fault := by
  constructor
  · intro refused
    have nothing : ¬ ∃ meaning, Denotes w meaning := by
      rintro ⟨meaning, denotes⟩
      cases refused.symm.trans (classify_eq_ok_iff.mpr denotes)
    refine ⟨nothing, ?_⟩
    rcases word_cases w with ⟨op, known⟩ | rfl | ⟨rest, rfl, other⟩ | ⟨rest, rfl⟩ | ⟨unknown, bare⟩
    · exact absurd ⟨_, .opcode known⟩ nothing
    · exact absurd ⟨_, .empty⟩ nothing
    · rw [classify_placeholder other, Except.map_eq_error_iff] at refused
      rw [eq_of_readPlaceholder_eq_error refused]
      exact .placeholder
    · rw [classify_group, Except.map_eq_error_iff] at refused
      rcases group_cases rest with unclosed | ⟨parts, nonempty, free, rfl⟩
      · cases (readGroup_open unclosed).symm.trans refused
        exact .openGroup unclosed
      · rw [readGroup_closed nonempty free, Except.mapM_eq_error_iff] at refused
        obtain ⟨before, part, after, rfl, passed, stops⟩ := refused
        obtain ⟨reason, noHex, rfl⟩ := readGroupValue_eq_error_iff.mp stops
        refine .groupPart free (fun p mem => ?_) noHex
        obtain ⟨data, read⟩ := passed p mem
        exact exists_spells_iff.mp ⟨data, readGroupValue_eq_ok_iff.mp read⟩
    · rw [classify_bare unknown bare, Except.map_eq_error_iff] at refused
      exact .bytes bare (readBytes_eq_error_iff.mp refused)
  · rintro ⟨nothing, refused⟩
    cases refused with
    | @placeholder rest =>
      have other : rest ≠ ['>'] := by
        rintro rfl
        exact nothing ⟨_, .empty⟩
      -- there is only one thing that can be wrong with a placeholder
      cases classified : classify ('<' :: rest) with
      | ok meaning => exact absurd ⟨meaning, classify_eq_ok_iff.mp classified⟩ nothing
      | error fault =>
        rw [classify_placeholder other, Except.map_eq_error_iff] at classified
        rw [eq_of_readPlaceholder_eq_error classified]
    | openGroup unclosed =>
      rw [classify_group, readGroup_open unclosed]
      rfl
    | @groupPart before after part reason free fine noHex =>
      have stops : (before ++ part :: after).mapM readGroupValue
          = .error (.malformedGroup ("'" ++ String.ofList part ++ "': " ++ reason.message)) := by
        refine Except.mapM_eq_error_iff.mpr ⟨before, part, after, rfl, fun p mem => ?_, ?_⟩
        · obtain ⟨data, spells⟩ := exists_spells_iff.mpr (fine p mem)
          exact ⟨data, readGroupValue_eq_ok_iff.mpr spells⟩
        · exact readGroupValue_eq_error_iff.mpr ⟨reason, noHex, rfl⟩
      rw [groupWord, classify_group, readGroup_closed (by simp) free, stops]
      rfl
    | bytes bare noHex =>
      have unknown : Opcode.ofName? (String.ofList w) = none := by
        refine Option.eq_none_iff_forall_ne_some.mpr fun op known => ?_
        exact nothing ⟨_, .opcode (Opcode.ofName?_eq_some_iff.mp known)⟩
      rw [classify_bare unknown bare, readBytes_eq_error_iff.mpr noHex]
      rfl

end TaprootLab.Assembly
