import Mathlib
import TaprootLab.Assembly.Script
import TaprootLab.Proofs.Assembly.Words
import TaprootLab.Proofs.Except
import TaprootLab.Proofs.Script.Mnemonics
import TaprootLab.Proofs.Script.Tiling

/-!
# Assembling what was disassembled

The text of a script says which data is pushed, not how. So assembling it again gives the script
back if and only if every push was as short as it can be, and something shorter otherwise; a push of
nothing behind a length field leaves no word at all. A script that ends within a push has no text
that assembles, and it is the word of that push that is refused.
-/

namespace TaprootLab

/-- The opcode that pushes data of `size` bytes behind the shortest length field. -/
def shortestOpcode (size : Nat) : Opcode :=
  if size < 76 then ⟨UInt8.ofNat size⟩
  else if size < 256 then ⟨0x4c⟩
  else if size < 65536 then ⟨0x4d⟩
  else ⟨0x4e⟩

namespace Instruction

/-- Data, if there is any, stands behind the shortest length field. -/
def IsShortest (i : Instruction) : Prop :=
  ∀ data, i.data = some data → i.opcode = shortestOpcode data.length

/-- What becomes of an instruction whose word is assembled. -/
def recompiled (i : Instruction) : Bytes :=
  match i.data with
  | none => [i.opcode.byte]
  | some data =>
    if i.opcode.byte == 0 then [0]
    else if data.isEmpty then []
    else Script.push data

/-! ## Pushes and their length fields -/

/-- The shortest length field is no wider than any other that can hold the size. -/
theorem pushHeader_cases (size : Nat) :
    (size < 76 ∧ shortestOpcode size = ⟨UInt8.ofNat size⟩
      ∧ Script.pushHeader size = [UInt8.ofNat size])
      ∨ 76 ≤ size ∧ ∃ width, ((shortestOpcode size).byte, width) ∈ lengthFields
          ∧ Script.pushHeader size = (shortestOpcode size).byte :: Bytes.ofNatLE width size
          ∧ ∀ field ∈ lengthFields, size < 256 ^ field.2 → width ≤ field.2 := by
  have widths : ∀ field ∈ lengthFields, field.2 = 1 ∨ field.2 = 2 ∨ field.2 = 4 := by decide
  rw [shortestOpcode, Script.pushHeader]
  by_cases direct : size < 76
  · rw [if_pos direct, if_pos direct]
    exact .inl ⟨direct, rfl, rfl⟩
  refine .inr ⟨by omega, ?_⟩
  rw [if_neg direct, if_neg direct]
  by_cases one : size < 256
  · rw [if_pos one, if_pos (show size ≤ 0xff by omega)]
    refine ⟨1, by decide, rfl, fun field mem _ => ?_⟩
    rcases widths field mem with h | h | h <;> omega
  rw [if_neg one, if_neg (show ¬ size ≤ 0xff by omega)]
  by_cases two : size < 65536
  · rw [if_pos two, if_pos (show size ≤ 0xffff by omega)]
    refine ⟨2, by decide, rfl, fun field mem bound => ?_⟩
    rcases widths field mem with h | h | h <;> rw [h] at bound <;> omega
  · rw [if_neg two, if_neg (show ¬ size ≤ 0xffff by omega)]
    refine ⟨4, by decide, rfl, fun field mem bound => ?_⟩
    rcases widths field mem with h | h | h <;> rw [h] at bound <;> omega

theorem eq_shortestOpcode {op : Opcode} {size : Nat} (small : size < 76)
    (h : op.byte.toNat = size) :
    op = shortestOpcode size := by
  rw [shortestOpcode, if_pos small, ← h, UInt8.ofNat_toNat]

theorem recompiled_of_ne_zero {i : Instruction} {data : Bytes} (some : i.data = some data)
    (h : i.opcode.byte ≠ 0) : i.recompiled = if data.isEmpty then [] else Script.push data := by
  simp only [recompiled, some]
  rw [if_neg (by simpa using h)]

/-- Assembling a push gives its bytes back if it was as short as can be, and fewer otherwise. -/
theorem recompiled_cases {i : Instruction} (fits : i.Fits) :
    (i.IsShortest ∧ i.recompiled = i.bytes)
      ∨ (¬ i.IsShortest ∧ i.recompiled.length < i.bytes.length) := by
  rcases fits.kinds with ⟨none, bytes⟩ | ⟨data, some, size, small, bytes⟩
    | ⟨data, width, some, bound, field, bytes⟩
  · left
    refine ⟨fun data some => ?_, by rw [bytes, recompiled, none]⟩
    rw [none] at some
    cases some
  · left
    have shortest := eq_shortestOpcode small size
    refine ⟨fun data' some' => ?_, ?_⟩
    · obtain rfl : data = data' := Option.some.inj (some.symm.trans some')
      exact shortest
    by_cases zero : i.opcode.byte = 0
    · have empty : data = [] := List.length_eq_zero_iff.mp (by rw [← size, zero]; rfl)
      rw [bytes, recompiled, some, zero, empty]
      rfl
    · have filled : data.isEmpty = false := by
        rw [← Bool.not_eq_true, List.isEmpty_iff_length_eq_zero, ← size]
        exact fun h => zero (UInt8.toNat_inj.mp h)
      rcases pushHeader_cases data.length with ⟨-, same, header⟩ | ⟨large, -⟩
      · rw [recompiled_of_ne_zero some zero, filled, bytes, shortest, same, Script.push, header]
        rfl
      · omega
  · have counted : ∀ field ∈ lengthFields, 76 ≤ field.1.toNat ∧ 1 ≤ field.2 := by decide
    have determined : ∀ f ∈ lengthFields, ∀ f' ∈ lengthFields, f.1 = f'.1 ↔ f.2 = f'.2 := by decide
    obtain ⟨above, wide⟩ := counted _ field
    have nonzero : i.opcode.byte ≠ 0 := fun h => by
      have : 76 ≤ (0 : UInt8).toNat := h ▸ above
      exact absurd this (by decide)
    have recompiled := recompiled_of_ne_zero some nonzero
    have length : i.bytes.length = 1 + width + data.length := by
      rw [bytes, List.length_cons, List.length_append, Bytes.length_ofNatLE]
      omega
    by_cases shortest : i.opcode = shortestOpcode data.length
    · left
      refine ⟨fun data' some' => ?_, ?_⟩
      · obtain rfl : data = data' := Option.some.inj (some.symm.trans some')
        exact shortest
      rcases pushHeader_cases data.length with ⟨small, same, -⟩ | ⟨large, width', field', header, -⟩
      · -- an opcode with a length field is no length below 76
        rw [shortest, same, UInt8.toNat_ofNat'] at above
        omega
      · rw [shortest] at field
        obtain rfl : width = width' := (determined _ field _ field').mp rfl
        have filled : data.isEmpty = false := by
          rw [← Bool.not_eq_true, List.isEmpty_iff_length_eq_zero]
          omega
        rw [recompiled, filled, bytes, shortest, Script.push, header]
        rfl
    · right
      refine ⟨fun h => shortest (h data some), ?_⟩
      rw [recompiled, length]
      split
      · rw [List.length_nil]; omega
      rw [Script.push, List.length_append]
      rcases pushHeader_cases data.length with ⟨-, -, header⟩ | ⟨-, width', field', header, least⟩
      · rw [header, List.length_singleton]
        omega
      · have narrow : width' ≤ width := least _ field bound
        have other : width' ≠ width := by
          rintro rfl
          have := (determined _ field _ field').mpr rfl
          exact shortest (congrArg Opcode.mk this)
        rw [header, List.length_cons, Bytes.length_ofNatLE]
        omega

/-- The same for instructions in a row. -/
theorem flatMap_recompiled_cases {is : List Instruction} (fits : ∀ i ∈ is, i.Fits) :
    ((∀ i ∈ is, i.IsShortest) ∧ is.flatMap recompiled = is.flatMap bytes)
      ∨ ((¬ ∀ i ∈ is, i.IsShortest)
        ∧ (is.flatMap recompiled).length < (is.flatMap bytes).length) := by
  induction is with
  | nil => exact .inl ⟨nofun, rfl⟩
  | cons i is ih =>
    obtain ⟨first, others⟩ := List.forall_mem_cons.mp fits
    simp only [List.forall_mem_cons, List.flatMap_cons, List.length_append]
    rcases recompiled_cases first with ⟨short, same⟩ | ⟨long, less⟩ <;>
      rcases ih others with ⟨shorts, sames⟩ | ⟨longs, fewer⟩
    · exact .inl ⟨⟨short, shorts⟩, by rw [same, sames]⟩
    · exact .inr ⟨fun h => longs h.2, by rw [same]; omega⟩
    · exact .inr ⟨fun h => long h.1, by rw [sames]; omega⟩
    · exact .inr ⟨fun h => long h.1, by omega⟩

end Instruction

namespace Assembly

/-! ## The words of instructions -/

def wordOf (i : Instruction) : List Char := (instructionWord i).toList

/-- A digit is none of the characters that give a word another meaning. -/
theorem digit_checked : ∀ n : Fin 16,
    Hex.isDigit (Hex.digit (UInt8.ofNat n)) = true ∧ 48 ≤ (Hex.digit (UInt8.ofNat n)).toNat
      ∧ (Hex.digit (UInt8.ofNat n)).toNat ≤ 122
      ∧ Hex.digit (UInt8.ofNat n) ∉ ['O', '<', '('] := by decide

theorem mem_toDigits {data : Bytes} {c : Char} (h : c ∈ Hex.toDigits data) :
    Hex.isDigit c = true ∧ 48 ≤ c.toNat ∧ c.toNat ≤ 122 ∧ c ∉ ['O', '<', '('] := by
  obtain ⟨b, -, hc⟩ := List.mem_flatMap.mp h
  have checked (n : UInt8) (small : n.toNat < 16) := digit_checked ⟨n.toNat, small⟩
  simp only [UInt8.ofNat_toNat] at checked
  have := b.toNat_lt
  rcases List.mem_pair.mp hc with rfl | rfl
  · exact checked _ (by simp only [UInt8.toNat_div, UInt8.reduceToNat]; omega)
  · exact checked _ (by simp only [UInt8.toNat_mod, UInt8.reduceToNat]; omega)

theorem unbroken_of_mem_toDigits {data : Bytes} {c : Char}
    (h : c ∈ Hex.toDigits data) : Unbroken c :=
  unbroken_of_toNat ((show 36 ≤ 48 by decide).trans (mem_toDigits h).2.1) (mem_toDigits h).2.2.1

theorem toNat_of_isPlain {c : Char} (h : Opcode.isPlain c = true) :
    36 ≤ c.toNat ∧ c.toNat ≤ 122 := by
  simp only [Opcode.isPlain, Char.isUpper, Char.isDigit, Bool.or_eq_true, Bool.and_eq_true,
    decide_eq_true_iff, beq_iff_eq, UInt32.le_iff_toNat_le] at h
  rcases h with (upper | digit) | rfl
  · have low : 65 ≤ c.toNat := upper.1
    have high : c.toNat ≤ 90 := upper.2
    omega
  · have low : 48 ≤ c.toNat := digit.1
    have high : c.toNat ≤ 57 := digit.2
    omega
  · decide

theorem unbroken_of_isPlain {c : Char} (h : Opcode.isPlain c = true) : Unbroken c :=
  unbroken_of_toNat (toNat_of_isPlain h).1 (toNat_of_isPlain h).2

/-- What stands around data that was cut short. Nothing can be read from it. -/
def bracket : List Char := ['[', 't', 'r', 'u', 'n', 'c', 'a', 't', 'e', 'd', ':']

theorem toList_truncated (data : Bytes) :
    ("[truncated:" ++ Hex.encode data ++ "]").toList = bracket ++ Hex.toDigits data ++ [']'] := by
  simp only [String.toList_append, Hex.encode, String.toList_ofList]
  rfl

/-- The words of instructions are written in letters, digits and a few marks. -/
theorem toNat_of_mem_wordOf {i : Instruction} {c : Char} (h : c ∈ wordOf i) :
    36 ≤ c.toNat ∧ c.toNat ≤ 122 := by
  have name (h : c ∈ i.opcode.name.toList) : 36 ≤ c.toNat ∧ c.toNat ≤ 122 :=
    toNat_of_isPlain (Opcode.isPlain_of_mem_name h)
  have digits {data : Bytes} (h : c ∈ Hex.toDigits data) : 36 ≤ c.toNat ∧ c.toNat ≤ 122 :=
    ⟨(show 36 ≤ 48 by decide).trans (mem_toDigits h).2.1, (mem_toDigits h).2.2.1⟩
  rw [wordOf, instructionWord] at h
  split at h
  · exact name h
  · split at h
    · exact name h
    split at h
    · rw [toList_truncated, List.mem_append, List.mem_append] at h
      have letters : bracket.all (fun c => 36 ≤ c.toNat && c.toNat ≤ 122) = true := by decide
      rcases h with (h | h) | h
      · have range := List.all_eq_true.mp letters c h
        rwa [Bool.and_eq_true, decide_eq_true_iff, decide_eq_true_iff] at range
      · exact digits h
      · rw [List.mem_singleton.mp h]
        decide
    · rw [Hex.encode, String.toList_ofList] at h
      exact digits h

theorem unbroken_wordOf (i : Instruction) : ∀ c ∈ wordOf i, Unbroken c := fun _ h =>
  unbroken_of_toNat (toNat_of_mem_wordOf h).1 (toNat_of_mem_wordOf h).2

/-- A word that is no mnemonic and starts with no bracket is read as hexadecimal. -/
theorem classify_bare {w : List Char} (unknown : Opcode.ofName? (String.ofList w) = none)
    (bare : ∀ c ∈ w.head?, c ≠ '<' ∧ c ≠ '(') : classify w = (readBytes w).map .bytes := by
  rw [classify.eq_def, unknown]
  dsimp only
  split
  · exact absurd rfl (bare '<' rfl).1
  · exact absurd rfl (bare '<' rfl).1
  · exact absurd rfl (bare '(' rfl).2
  · rfl

theorem classify_of_head {c : Char} {cs : List Char} (h : c ∉ ['O', '<', '(']) :
    classify (c :: cs) = (readBytes (c :: cs)).map .bytes := by
  simp only [List.mem_cons, List.not_mem_nil, or_false, not_or] at h
  refine classify_bare (Opcode.ofName?_eq_none (by simpa using h.1)) ?_
  rintro c' ⟨⟩
  exact h.2

theorem classify_toDigits {data : Bytes} (filled : data ≠ []) :
    classify (Hex.toDigits data) = .ok (.bytes data) := by
  have digits : (Hex.toDigits data).all Hex.isDigit = true :=
    List.all_eq_true.mpr fun c h => (mem_toDigits h).1
  have back := Hex.ofDigits?_toDigits data
  cases data with
  | nil => exact absurd rfl filled
  | cons b data =>
    show classify (Hex.digit (b / 16) :: _) = _
    have first : Hex.digit (b / 16) ∈ Hex.toDigits (b :: data) := List.mem_cons_self
    have head : Hex.digit (b / 16) ∉ ['O', '<', '('] := (mem_toDigits first).2.2.2
    rw [classify_of_head head]
    show (readBytes (Hex.toDigits (b :: data))).map _ = _
    rw [readBytes, if_pos digits, back]
    rfl

theorem classify_truncated (data : Bytes) :
    classify ("[truncated:" ++ Hex.encode data ++ "]").toList = .error .invalidHex := by
  rw [String.toList_append, String.toList_append]
  show classify ('[' :: _) = _
  rw [classify_of_head (by decide)]
  rfl

theorem classify_name (op : Opcode) : classify op.name.toList = .ok (.opcode op) := by
  rw [classify.eq_def, String.ofList_toList, Opcode.ofName?_name]

/-- What a word stands for that is not the word of a cut instruction: nothing if there is no
word. -/
theorem wordOf_cases {i : Instruction} (whole : i.truncated = false) :
    (wordOf i = [] ∧ i.recompiled = [])
      ∨ wordOf i ≠ [] ∧ ∃ meaning, classify (wordOf i) = .ok meaning
        ∧ ∀ text position, Token.scriptBytes ⟨text, position, meaning⟩ = .ok i.recompiled := by
  rw [wordOf, instructionWord, Instruction.recompiled]
  cases i.data with
  | none => exact .inr ⟨i.opcode.name_ne_nil, _, classify_name _, fun _ _ => rfl⟩
  | some data =>
    by_cases zero : i.opcode.byte = 0
    · simp only [beq_iff_eq, if_pos zero]
      refine .inr ⟨i.opcode.name_ne_nil, _, classify_name _, fun _ _ => ?_⟩
      show Except.ok [i.opcode.byte] = _
      rw [zero]
    simp only [whole, beq_iff_eq, if_neg zero, if_neg Bool.false_ne_true, Hex.encode,
      String.toList_ofList]
    cases data with
    | nil => exact .inl ⟨rfl, rfl⟩
    | cons b data => exact .inr ⟨nofun, _, classify_toDigits nofun, fun _ _ => rfl⟩

/-! ## Scripts -/

theorem toList_scriptText (script : Bytes) :
    (scriptText script).toList = row ((Script.decode script).map wordOf) := by
  rw [scriptText, String.toList_intercalate, disassemble, List.map_map]
  rfl

theorem words_scriptText (script : Bytes) :
    words (scriptText script).toList = placed 1 ((Script.decode script).map wordOf) := by
  rw [toList_scriptText]
  refine words_row fun w mem => ?_
  obtain ⟨i, -, rfl⟩ := List.mem_map.mp mem
  exact unbroken_wordOf i

/-- Words of whole instructions are tokens, and what the tokens stand for is put in a row. -/
theorem assembles_placed {is : List Instruction} (whole : ∀ i ∈ is, i.truncated = false)
    (column : Nat) :
    ∃ tokens parts, (placed column (is.map wordOf)).mapM Token.ofWord = .ok tokens
      ∧ tokens.mapM Token.scriptBytes = .ok parts
      ∧ parts.flatten = is.flatMap Instruction.recompiled := by
  induction is generalizing column with
  | nil => exact ⟨[], [], rfl, rfl, rfl⟩
  | cons i is ih =>
    obtain ⟨first, others⟩ := List.forall_mem_cons.mp whole
    rw [List.map_cons]
    rcases wordOf_cases first with ⟨silent, nothing⟩ | ⟨heard, meaning, classified, bytes⟩
    -- A push of nothing behind a length field has no word, and only the blank after it is left.
    · obtain ⟨tokens, parts, read, assembled, flat⟩ := ih others (column + 1)
      rw [silent, placed]
      exact ⟨tokens, parts, read, assembled, by
        rw [flat, List.flatMap_cons, nothing, List.nil_append]⟩
    · cases word : wordOf i with
      | nil => exact absurd word heard
      | cons c cs =>
        obtain ⟨tokens, parts, read, assembled, flat⟩ := ih others (column + (c :: cs).length + 1)
        rw [word] at classified
        refine ⟨⟨String.ofList (c :: cs), ⟨1, column⟩, meaning⟩ :: tokens,
          i.recompiled :: parts, ?_, ?_, ?_⟩
        · rw [placed, List.mapM_cons, Token.ofWord, classified, read]
          rfl
        · rw [List.mapM_cons, bytes, assembled]
          rfl
        · rw [List.flatten_cons, flat, List.flatMap_cons]

theorem assemble_of_whole {script : Bytes}
    (whole : ∀ i ∈ Script.decode script, i.truncated = false) :
    assemble (scriptText script) = .ok ((Script.decode script).flatMap Instruction.recompiled) := by
  obtain ⟨tokens, parts, read, assembled, flat⟩ := assembles_placed whole 1
  rw [assemble, tokenize, words_scriptText, read, Except.ok_bind, assembled, Except.ok_bind, flat]
  rfl

/-- Where the word of the last instruction starts. -/
def lastColumn (script : Bytes) (last : Instruction) : Nat :=
  (scriptText script).length - (instructionWord last).length + 1

/-- The word of a cut instruction is no word of a script. -/
theorem assemble_of_truncated {script : Bytes} {last : Instruction}
    (h : (Script.decode script).getLast? = some last) (cut : last.truncated = true) :
    assemble (scriptText script)
      = .error ⟨instructionWord last, ⟨1, lastColumn script last⟩, .invalidHex⟩ := by
  have split : Script.decode script = (Script.decode script).dropLast ++ [last] :=
    (List.dropLast_append_getLast? last h).symm
  obtain ⟨data, some, nonzero⟩ := Script.data_of_truncated (List.mem_of_getLast? h) cut
  have word : instructionWord last = "[truncated:" ++ Hex.encode data ++ "]" := by
    simp only [instructionWord, some, beq_iff_eq, if_neg nonzero, if_pos cut]
  have front : ∀ i ∈ (Script.decode script).dropLast, i.truncated = false := fun i mem =>
    Script.truncated_of_mem_dropLast mem
  obtain ⟨tokens, parts, read, -, -⟩ := assembles_placed front 1
  obtain ⟨c, cs, text⟩ : ∃ c cs, wordOf last = c :: cs := by
    rw [wordOf, word, toList_truncated]
    exact ⟨_, _, rfl⟩
  have column : lastColumn script last =
      1 + offset ((Script.decode script).dropLast.map wordOf) := by
    have length : (instructionWord last).length = (c :: cs).length := by
      rw [← text, wordOf, String.length_toList]
    rw [lastColumn, ← String.length_toList, toList_scriptText, split, List.map_append,
      List.map_singleton, length_row_concat, text, length, ← split]
    omega
  have refused : classify (c :: cs) = .error .invalidHex := by
    rw [← text, wordOf, word, classify_truncated]
  have back : String.ofList (c :: cs) = instructionWord last := by
    rw [← text, wordOf, String.ofList_toList]
  rw [assemble, tokenize, words_scriptText, column, ← back]
  -- Only the words are taken apart: the column still speaks of the whole script.
  nth_rewrite 1 [split]
  rw [List.map_append, List.map_singleton, text, placed_concat, List.mapM_append, read,
    List.mapM_cons, Token.ofWord, refused]
  rfl

/-- **Assembling the text of a script.** It fails if and only if the script ends within an
instruction, whose word then is no hexadecimal number; it gives the script back if and only if every
push in it was as short as it can be, and something shorter otherwise. -/
theorem assemble_scriptText (script : Bytes) :
    (∀ e, assemble (scriptText script) = .error e ↔
        ∃ last, (Script.decode script).getLast? = some last ∧ last.truncated = true
          ∧ e = ⟨instructionWord last, ⟨1, lastColumn script last⟩, .invalidHex⟩)
      ∧ ((∀ last ∈ (Script.decode script).getLast?, last.truncated = false) →
        ∃ again, assemble (scriptText script) = .ok again
          ∧ (again = script ↔ ∀ i ∈ Script.decode script, i.IsShortest)
          ∧ (again ≠ script → again.length < script.length)) := by
  have whole (intact : ∀ last ∈ (Script.decode script).getLast?, last.truncated = false) :
      ∀ i ∈ Script.decode script, i.truncated = false := by
    intro i mem
    cases last : (Script.decode script).getLast? with
    | none => rw [List.getLast?_eq_none_iff.mp last] at mem; cases mem
    | some l =>
      rw [← List.dropLast_append_getLast? l last, List.mem_append, List.mem_singleton] at mem
      rcases mem with mem | rfl
      · exact Script.truncated_of_mem_dropLast mem
      · exact intact i last
  refine ⟨fun e => ⟨fun failed => ?_, ?_⟩, fun intact => ?_⟩
  · by_cases intact : ∀ last ∈ (Script.decode script).getLast?, last.truncated = false
    · rw [assemble_of_whole (whole intact)] at failed
      cases failed
    · simp only [not_forall, Bool.not_eq_false] at intact
      obtain ⟨last, h, cut⟩ := intact
      rw [assemble_of_truncated h cut] at failed
      exact ⟨last, h, cut, (Except.error.inj failed).symm⟩
  · rintro ⟨last, h, cut, rfl⟩
    exact assemble_of_truncated h cut
  · obtain ⟨tiles, fits⟩ : (Script.decode script).flatMap Instruction.bytes = script
        ∧ ∀ i ∈ Script.decode script, i.Fits := Script.flatMap_bytes_decodeFrom (whole intact)
    refine ⟨_, assemble_of_whole (whole intact), ?_⟩
    rcases Instruction.flatMap_recompiled_cases fits with ⟨short, same⟩ | ⟨long, less⟩
    · rw [tiles] at same
      exact ⟨⟨fun _ => short, fun _ => same⟩, fun other => absurd same other⟩
    · rw [tiles] at less
      refine ⟨⟨fun same => ?_, fun short => absurd short long⟩, fun _ => less⟩
      have := congrArg List.length same
      omega

end Assembly
end TaprootLab
