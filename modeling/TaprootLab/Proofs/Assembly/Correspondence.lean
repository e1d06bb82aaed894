import TaprootLab.Proofs.Assembly.Layout
import TaprootLab.Proofs.Assembly.Recompilation
import TaprootLab.Proofs.Script.Encoding

/-!
# Words and instructions

A script text is assembled word by word and the script decoded instruction by instruction, and the
two agree: every word becomes one instruction, which stands where the bytes of the words before it
end (`decode_assemble`). Mnemonics that announce data of their own are left out, since what follows
them in the text would be taken for that data.
-/

namespace TaprootLab

/-! ## Instructions without a place -/

/-- The instruction that pushes data behind the shortest length field. -/
def Instruction.pushing (data : Bytes) : Instruction :=
  ⟨shortestOpcode data.length, some data, 0, 0, false⟩

/-- The instruction of an opcode that announces no data. -/
def Instruction.bare (op : Opcode) : Instruction :=
  ⟨op, if op.byte = 0 then some [] else none, 0, 0, false⟩

theorem Opcode.operand_small {size : Nat} (h : size < 76) :
    Opcode.operand ⟨UInt8.ofNat size⟩ = .fixed size := by
  have all : ∀ n : Fin 76, Opcode.operand ⟨UInt8.ofNat n⟩ = .fixed n := by decide
  exact all ⟨size, h⟩

theorem Opcode.operand_bare {op : Opcode} (bare : op.isPush = false) :
    op.operand = if op.byte = 0 then .fixed 0 else .absent := by
  rw [isPush, Bool.or_eq_false_iff] at bare
  rcases op.operand_cases with absent | ⟨small, fixed⟩ | ⟨width, field, counted⟩
  · have nonzero : op.byte ≠ 0 := by
      intro zero
      rw [operand, zero] at absent
      cases absent
    rw [absent, if_neg nonzero]
  · have zero : op.byte.toNat = 0 := by
      by_contra nonzero
      have direct : op.isDirectPush = true := by
        rw [isDirectPush, Bool.and_eq_true, decide_eq_true_iff, decide_eq_true_iff,
          UInt8.le_iff_toNat_le, UInt8.le_iff_toNat_le]
        exact ⟨Nat.pos_of_ne_zero nonzero, Nat.le_of_lt_succ small⟩
      rw [direct] at bare
      cases bare.1
    rw [fixed, if_pos (UInt8.toNat_inj.mp zero), zero]
  · have counts : ∀ f ∈ lengthFields, (0x4c ≤ f.1 && f.1 ≤ 0x4e) = true := by decide
    rw [counts _ field] at bare
    cases bare.2

namespace Instruction

theorem fits_bare {op : Opcode} (h : op.isPush = false) :
    (bare op).Fits ∧ (bare op).bytes = [op.byte] := by
  simp only [Fits, bytes, bare, Opcode.operand_bare h]
  by_cases zero : op.byte = 0
  · simp [zero]
  · simp [zero]

theorem fits_pushing {data : Bytes} (h : data.length < 2 ^ 32) :
    (pushing data).Fits ∧ (pushing data).bytes = Script.push data := by
  simp only [Fits, bytes, pushing, Script.push, Script.pushHeader, shortestOpcode, Option.getD_some]
  by_cases direct : data.length < 76
  · simp only [if_pos direct, Opcode.operand_small direct]
    exact ⟨⟨data, rfl, rfl⟩, rfl⟩
  rw [if_neg direct, if_neg (show ¬ data.length < 0x4c from direct)]
  by_cases one : data.length < 256
  · rw [if_pos one, if_pos (show data.length ≤ 0xff by omega)]
    exact ⟨⟨data, rfl, one⟩, rfl⟩
  rw [if_neg one, if_neg (show ¬ data.length ≤ 0xff by omega)]
  by_cases two : data.length < 65536
  · rw [if_pos two, if_pos (show data.length ≤ 0xffff by omega)]
    exact ⟨⟨data, rfl, two⟩, rfl⟩
  · rw [if_neg two, if_neg (show ¬ data.length ≤ 0xffff by omega)]
    exact ⟨⟨data, rfl, h⟩, rfl⟩

theorem isShortest_pushing (data : Bytes) : (pushing data).IsShortest := by
  intro data' same
  rw [← Option.some.inj same]
  rfl

/-- No instruction that pushes the same data takes up less. -/
theorem length_push_le {i : Instruction} (fits : i.Fits) {data : Bytes} (h : i.data = some data) :
    (Script.push data).length ≤ i.bytes.length := by
  rw [Script.push, List.length_append]
  rcases fits.kinds with ⟨none, -⟩ | ⟨data', same, -, small, bytes⟩
    | ⟨data', width, same, bound, field, bytes⟩
  · rw [h] at none
    cases none
  all_goals
    obtain rfl := Option.some.inj (h.symm.trans same)
    rw [bytes]
    rcases pushHeader_cases data.length with ⟨direct, -, header⟩ | ⟨large, width', -, header, least⟩
  · simp [header]
    omega
  · omega
  · simp [header]
    omega
  · have narrow : width' ≤ width := least _ field bound
    simp [header]
    omega

end Instruction

namespace Assembly

/-! ## What a word stands for -/

/-- A word in hexadecimal digits, of either case, stands for bytes. -/
def Spells (w : List Char) (data : Bytes) : Prop := w.map Char.toLower = Hex.toDigits data

/-- A word that says all about one instruction: a mnemonic that announces no data, the empty
element, or data that some length field can hold. -/
inductive ScriptWord : List Char → Prop
  | mnemonic {name : String} {op : Opcode} (known : (name, op) ∈ Opcode.mnemonics)
      (bare : op.isPush = false) : ScriptWord name.toList
  | marker : ScriptWord ['<', '>']
  | literal {w : List Char} {data : Bytes} (spells : Spells w data) (short : data.length < 2 ^ 32) :
      ScriptWord w

/-- What a word says of an instruction. -/
structure StandsFor (w : List Char) (i : Instruction) : Prop where
  whole : i.truncated = false
  mnemonic : ∀ op, (String.ofList w, op) ∈ Opcode.mnemonics →
    i.opcode = op ∧ i.data = if op.byte = 0 then some [] else none
  marker : w = ['<', '>'] → i.opcode.byte = 0 ∧ i.data = some []
  literal : ∀ data, Spells w data → i.data = some data ∧ i.IsShortest
    ∧ ∀ (script : Bytes) (j : Instruction), j ∈ Script.decode script → j.truncated = false →
        j.data = some data → i.length ≤ j.length

theorem digit?_toLower (c : Char) : Hex.digit? c.toLower = Hex.digit? c := by
  by_cases upper : c.isUpper = true
  · have letters : ∀ n : Fin 26, Hex.digit? (Char.ofNat (65 + n)).toLower
        = Hex.digit? (Char.ofNat (65 + n)) := by decide
    simp only [Char.isUpper, decide_eq_true_iff, UInt32.le_iff_toNat_le] at upper
    have low : 65 ≤ c.toNat := upper.1
    have high : c.toNat ≤ 90 := upper.2
    have here := letters ⟨c.toNat - 65, by omega⟩
    rwa [show 65 + (c.toNat - 65) = c.toNat by omega, Char.ofNat_toNat] at here
  · rw [Char.toLower_eq_of_not_isUpper upper]

theorem ofDigits?_map_toLower :
    ∀ w : List Char, Hex.ofDigits? (w.map Char.toLower) = Hex.ofDigits? w
  | [] => rfl
  | [_] => rfl
  | high :: low :: rest => by
    simp only [List.map_cons, Hex.ofDigits?, digit?_toLower, ofDigits?_map_toLower rest]

theorem Spells.ofDigits? {w : List Char} {data : Bytes} (h : Spells w data) :
    Hex.ofDigits? w = some data := by
  rw [← ofDigits?_map_toLower, h, Hex.ofDigits?_toDigits]

theorem Spells.isDigit {w : List Char} {data : Bytes} (h : Spells w data) :
    ∀ c ∈ w, Hex.isDigit c = true := by
  intro c hc
  have lower : c.toLower ∈ Hex.toDigits data := h ▸ List.mem_map_of_mem hc
  rw [Hex.isDigit, ← digit?_toLower]
  exact (mem_toDigits lower).1

theorem classify_mnemonic {w : List Char} {op : Opcode}
    (h : (String.ofList w, op) ∈ Opcode.mnemonics) :
    classify w = .ok (.opcode op) := by
  rw [classify.eq_def, Opcode.ofName?_of_mem h]

theorem classify_marker : classify ['<', '>'] = .ok .empty := by
  have none : Opcode.ofName? (String.ofList ['<', '>']) = none := Opcode.ofName?_eq_none (by simp)
  rw [classify.eq_def, none]
  rfl

theorem classify_literal {w : List Char} {data : Bytes} (nonempty : w ≠ []) (h : Spells w data) :
    classify w = .ok (.bytes data) := by
  have digits := h.isDigit
  rcases w with _ | ⟨c, cs⟩
  · exact absurd rfl nonempty
  · have ordinary : c ∉ ['O', '<', '('] := by
      intro listed
      have digit := digits c List.mem_cons_self
      simp only [List.mem_cons, List.not_mem_nil, or_false] at listed
      rcases listed with rfl | rfl | rfl <;> cases digit
    rw [classify_of_head ordinary, readBytes, if_pos (List.all_eq_true.mpr digits), h.ofDigits?]
    rfl

/-- A word is assembled to the given bytes, wherever it stands. -/
def Yields (w : List Char) (part : Bytes) : Prop :=
  ∃ meaning, classify w = .ok meaning
    ∧ ∀ text position, Token.scriptBytes ⟨text, position, meaning⟩ = .ok part

/-- The instruction behind a word, before it has a place. -/
theorem ScriptWord.exists_instruction {w : List Char} (h : ScriptWord w) (nonempty : w ≠ []) :
    ∃ i : Instruction, i.Fits ∧ Yields w i.bytes ∧ ∀ offset, StandsFor w (i.placedAt offset) := by
  -- A word has one meaning, so what is said of the other two kinds of words is void.
  cases h with
  | @mnemonic name op known bare =>
    obtain ⟨fits, bytes⟩ := Instruction.fits_bare bare
    have same : String.ofList name.toList = name := String.ofList_toList
    have meaning : classify name.toList = .ok (.opcode op) := classify_mnemonic (by rwa [same])
    refine ⟨.bare op, fits, ⟨_, meaning, fun _ _ => congrArg Except.ok bytes.symm⟩,
      fun offset => ?_⟩
    refine ⟨rfl, ?_, ?_, ?_⟩
    · intro op' known'
      cases meaning.symm.trans (classify_mnemonic known')
      exact ⟨rfl, rfl⟩
    · intro marker
      rw [marker, classify_marker] at meaning
      cases meaning
    · intro data spells
      cases meaning.symm.trans (classify_literal nonempty spells)
  | marker =>
    obtain ⟨fits, bytes⟩ := @Instruction.fits_bare ⟨0⟩ rfl
    refine ⟨.bare ⟨0⟩, fits, ⟨_, classify_marker, fun _ _ => congrArg Except.ok bytes.symm⟩,
      fun offset => ?_⟩
    refine ⟨rfl, ?_, ?_, ?_⟩
    · intro op known
      cases classify_marker.symm.trans (classify_mnemonic known)
    · intro _
      exact ⟨rfl, rfl⟩
    · intro data spells
      cases classify_marker.symm.trans (classify_literal nonempty spells)
  | @literal _ data spells short =>
    obtain ⟨fits, bytes⟩ := Instruction.fits_pushing short
    have meaning := classify_literal nonempty spells
    refine ⟨.pushing data, fits, ⟨_, meaning, fun _ _ => congrArg Except.ok bytes.symm⟩,
      fun offset => ?_⟩
    refine ⟨rfl, ?_, ?_, ?_⟩
    · intro op known
      cases meaning.symm.trans (classify_mnemonic known)
    · intro marker
      rw [marker, classify_marker] at meaning
      cases meaning
    · intro data' spells'
      cases meaning.symm.trans (classify_literal nonempty spells')
      refine ⟨rfl, Instruction.isShortest_pushing data, ?_⟩
      intro script j mem whole same
      obtain ⟨fits', length⟩ := Script.fits_of_mem_decodeFrom mem whole
      show (Instruction.pushing data).bytes.length ≤ j.length
      rw [bytes, ← length]
      exact Instruction.length_push_le fits' same

/-! ## Texts -/

theorem tokens_of_yields {found : List Word} {parts : List Bytes}
    (h : List.Forall₂ Yields (found.map Word.text) parts) :
    ∃ tokens, found.mapM Token.ofWord = .ok tokens ∧ tokens.mapM Token.scriptBytes = .ok parts := by
  rw [List.forall₂_map_left_iff] at h
  induction h with
  | nil => exact ⟨[], rfl, rfl⟩
  | @cons word part found parts first _ ih =>
    obtain ⟨meaning, classified, bytes⟩ := first
    obtain ⟨tokens, read, assembled⟩ := ih
    refine ⟨⟨String.ofList word.text, word.position, meaning⟩ :: tokens, ?_, ?_⟩
    · rw [List.mapM_cons, Token.ofWord, classified, read]
      rfl
    · rw [List.mapM_cons, bytes, assembled]
      rfl

/-- A text is assembled word by word. -/
theorem assemble_of_yields {text : String} {ws : List (List Char)} {parts : List Bytes}
    (laid : Layout text.toList ws) (h : List.Forall₂ Yields ws parts) :
    assemble text = .ok parts.flatten := by
  rw [← laid.map_text_words] at h
  obtain ⟨tokens, read, assembled⟩ := tokens_of_yields h
  rw [assemble, tokenize, read, Except.ok_bind, assembled, Except.ok_bind]
  rfl

theorem assemble_word {w : List Char} {part : Bytes} (nonempty : w ≠ [])
    (unbroken : ∀ c ∈ w, Unbroken c) (yields : Yields w part) :
    assemble (String.ofList w) = .ok part := by
  have text : Layout (String.ofList w).toList [w] := by
    rw [String.toList_ofList]
    exact layout_singleton nonempty unbroken
  simpa using assemble_of_yields text (.cons yields .nil)

theorem exists_forall₂ {α β : Type} {R : α → β → Prop} {as : List α} (h : ∀ a ∈ as, ∃ b, R a b) :
    ∃ bs, List.Forall₂ R as bs := by
  induction as with
  | nil => exact ⟨[], .nil⟩
  | cons a as ih =>
    obtain ⟨⟨b, first⟩, others⟩ := List.forall_mem_cons.mp h
    obtain ⟨bs, rest⟩ := ih others
    exact ⟨b :: bs, .cons first rest⟩

theorem exists_of_forall₂ {α β : Type} {R : α → β → Prop} {as : List α} {bs : List β}
    (h : List.Forall₂ R as bs) : ∀ a ∈ as, ∃ b, R a b := by
  induction h with
  | nil => nofun
  | cons first _ ih => exact List.forall_mem_cons.mpr ⟨⟨_, first⟩, ih⟩

/-- **A script is decoded word by word.** A text of words that each say all about one instruction is
assembled, whatever blanks and comments stand between them, to what its words alone are assembled
to. Decoded again it has one instruction for each word, in order, which is what the word says and
stands where the bytes of the words before it end. -/
theorem decode_assemble {text : String} {ws : List (List Char)} (laid : Layout text.toList ws)
    (known : ∀ w ∈ ws, ScriptWord w) :
    ∃ parts : List Bytes,
      List.Forall₂ (fun w part => assemble (String.ofList w) = .ok part) ws parts
      ∧ assemble text = .ok parts.flatten
      ∧ List.Forall₂ StandsFor ws (Script.decode parts.flatten)
      ∧ ∀ k i, (Script.decode parts.flatten)[k]? = some i →
          i.offset = (parts.take k).flatten.length ∧ parts[k]?.map List.length = some i.length := by
  have behind : ∀ w ∈ ws, ∃ i : Instruction, i.Fits ∧ Yields w i.bytes
      ∧ assemble (String.ofList w) = .ok i.bytes ∧ ∀ offset, StandsFor w (i.placedAt offset) := by
    intro w mem
    obtain ⟨nonempty, unbroken⟩ := laid.of_mem w mem
    obtain ⟨i, fits, yields, stands⟩ := (known w mem).exists_instruction nonempty
    exact ⟨i, fits, yields, assemble_word nonempty unbroken yields, stands⟩
  obtain ⟨is, all⟩ := exists_forall₂ behind
  have fits : ∀ i ∈ is, i.Fits := by
    intro i mem
    obtain ⟨k, hk⟩ := List.mem_iff_getElem?.mp mem
    obtain ⟨-, related⟩ := List.forall₂_iff_get.mp all
    obtain ⟨bound, rfl⟩ := List.getElem?_eq_some_iff.mp hk
    exact (related k (by rwa [all.length_eq]) bound).1
  have flat : (is.map Instruction.bytes).flatten = is.flatMap Instruction.bytes :=
    List.flatMap_def.symm
  have decoded : Script.decode (is.flatMap Instruction.bytes) = Instruction.inRow 0 is :=
    Script.decodeFrom_flatMap_bytes fits 0
  have yields : List.Forall₂ Yields ws (is.map Instruction.bytes) :=
    List.forall₂_map_right_iff.mpr (all.imp fun _ _ h => h.2.1)
  refine ⟨is.map Instruction.bytes, ?_, assemble_of_yields laid yields, ?_, ?_⟩
  · exact List.forall₂_map_right_iff.mpr (all.imp fun _ _ h => h.2.2.1)
  · rw [flat, decoded]
    exact Instruction.forall₂_inRow (all.imp fun _ _ h => h.2.2.2) 0
  · intro k i here
    rw [flat, decoded, Instruction.getElem?_inRow] at here
    obtain ⟨j, found, rfl⟩ := Option.map_eq_some_iff.mp here
    refine ⟨?_, ?_⟩
    · show 0 + _ = _
      rw [Nat.zero_add, ← List.map_take, List.flatMap_def]
    · rw [List.getElem?_map, found]
      rfl

/-! ### Two lines with a word of each kind -/

def sampleText : String := "OP_TRUE <># nothing\n\t0aFF"

def sampleWords : List (List Char) :=
  [['O', 'P', '_', 'T', 'R', 'U', 'E'], ['<', '>'], ['0', 'a', 'F', 'F']]

theorem layout_sampleText : Layout sampleText.toList sampleWords := by
  have solid : ∀ w ∈ sampleWords, w ≠ [] ∧ ∀ c ∈ w, Unbroken c := by
    intro w mem
    have range : w.all (fun c => 36 ≤ c.toNat && c.toNat ≤ 122) = true ∧ w ≠ [] := by
      simp only [sampleWords, List.mem_cons, List.not_mem_nil, or_false] at mem
      rcases mem with rfl | rfl | rfl <;> exact ⟨rfl, by simp⟩
    exact ⟨range.2, unbroken_of_all range.1⟩
  have opcode := solid ['O', 'P', '_', 'T', 'R', 'U', 'E'] (by simp [sampleWords])
  have marker := solid ['<', '>'] (by simp [sampleWords])
  have literal := solid ['0', 'a', 'F', 'F'] (by simp [sampleWords])
  have last : Layout ['0', 'a', 'F', 'F'] [['0', 'a', 'F', 'F']] :=
    layout_singleton literal.1 literal.2
  have below : Layout ('\n' :: '\t' :: ['0', 'a', 'F', 'F']) [['0', 'a', 'F', 'F']] :=
    .blank (by decide) (.blank (by decide) last)
  have comment : Layout ('#' :: [' ', 'n', 'o', 't', 'h', 'i', 'n', 'g']
      ++ '\n' :: '\t' :: ['0', 'a', 'F', 'F']) [['0', 'a', 'F', 'F']] :=
    .comment (by decide) (by simp) below
  have hash : ∀ c ∈ some '#', ¬ Unbroken c := by
    rintro c ⟨⟩ unbroken
    exact unbroken.2 rfl
  have space : ∀ c ∈ some ' ', ¬ Unbroken c := by
    rintro c ⟨⟩ unbroken
    exact absurd unbroken.1 (by decide)
  exact .word opcode.1 opcode.2 space (.blank (by decide) (.word marker.1 marker.2 hash comment))

theorem scriptWord_sampleWords : ∀ w ∈ sampleWords, ScriptWord w := by
  have opcode : ScriptWord "OP_TRUE".toList :=
    @ScriptWord.mnemonic "OP_TRUE" ⟨0x51⟩ (List.mem_append_left _ (by decide)) rfl
  have literal : ScriptWord ['0', 'a', 'F', 'F'] :=
    @ScriptWord.literal _ [0x0a, 0xff] rfl (by decide)
  simp only [sampleWords, List.forall_mem_cons]
  exact ⟨opcode, .marker, literal, List.forall_mem_nil _⟩

theorem decode_assemble_sampleText :
    Layout sampleText.toList sampleWords ∧ (∀ w ∈ sampleWords, ScriptWord w) ∧
      ∃ parts : List Bytes,
        List.Forall₂ (fun w part => assemble (String.ofList w) = .ok part) sampleWords parts
          ∧ assemble sampleText = .ok parts.flatten
          ∧ List.Forall₂ StandsFor sampleWords (Script.decode parts.flatten)
          ∧ ∀ k i, (Script.decode parts.flatten)[k]? = some i →
              i.offset = (parts.take k).flatten.length
                ∧ parts[k]?.map List.length = some i.length :=
  ⟨layout_sampleText, scriptWord_sampleWords,
    decode_assemble layout_sampleText scriptWord_sampleWords⟩

end Assembly

end TaprootLab
