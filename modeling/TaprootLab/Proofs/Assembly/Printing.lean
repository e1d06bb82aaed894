import TaprootLab.Proofs.Assembly.Grammar

/-!
# Witnesses that are printed

A part of a witness is printed as one word, and a group as the value that it came to. Not every part
has a word that is read back: bytes without any would leave no word, and an identifier with a blank
in it would leave two. Parts that were read off a text are never of this kind (`WitnessPart.Plain`),
so nothing is lost when they are printed and read again (`readWitness_witnessText`).
-/

namespace TaprootLab

open Assembly

/-- The part has a word of its own. -/
def WitnessPart.Plain : WitnessPart → Prop
  | .literal data => data ≠ []
  | .empty => True
  | .signature id => Identifier id.toList ∧ ∀ c ∈ id.toList, Unbroken c

def WitnessPart.word (part : WitnessPart) : List Char := part.toText.toList

namespace WitnessPart

theorem word_literal (data : Bytes) : word (.literal data) = Hex.toDigits data := by
  rw [word, toText, Hex.encode, String.toList_ofList]

theorem word_signature (id : String) : word (.signature id) = placeholderWord id.toList := by
  rw [word, toText, String.toList_append, String.toList_append]
  rfl

/-- A plain part is printed as a word that stands by itself. -/
theorem Plain.isWord {part : WitnessPart} (plain : part.Plain) :
    part.word ≠ [] ∧ ∀ c ∈ part.word, Unbroken c := by
  cases part with
  | literal data =>
    rw [word_literal]
    cases data with
    | nil => exact absurd rfl plain
    | cons b data => exact ⟨List.cons_ne_nil _ _, fun c => unbroken_of_mem_toDigits⟩
  | empty =>
    have brackets : ∀ c ∈ ['<', '>'], Unbroken c := unbroken_of_all (by decide)
    exact ⟨List.cons_ne_nil _ _, brackets⟩
  | signature id =>
    have front : ∀ c ∈ ['<', 's', 'i', 'g', ':'], Unbroken c := unbroken_of_all (by decide)
    have back : ∀ c ∈ ['>'], Unbroken c := unbroken_of_all (by decide)
    rw [word_signature, placeholderWord]
    simp only [List.forall_mem_append]
    exact ⟨List.cons_ne_nil _ _, ⟨front, plain.2⟩, back⟩

end WitnessPart

namespace Assembly

/-! ## Words and parts -/

def Reads (w : List Char) (part : WitnessPart) : Prop := ∃ m, Denotes w m ∧ m.part? = some part

/-- A witness is read word by word, however its words are laid out. -/
theorem readWitness_eq_ok_iff {text : String} {ws : List (List Char)} (laid : Layout text.toList ws)
    {parts : List WitnessPart} : readWitness text = .ok parts ↔ List.Forall₂ Reads ws parts := by
  rw [readWitness_eq_compile, compile_eq_ok_iff, ← laid.map_text_words, List.forall₂_map_left_iff]
  rfl

/-- Digits stand for the bytes that they were made of. -/
theorem reads_toDigits (data : Bytes) : Reads (Hex.toDigits data) (.literal data) :=
  ⟨.bytes data, .bytes (spells_iff.mpr (Hex.ofDigits?_toDigits data)), rfl⟩

/-- A plain part is read off its word. -/
theorem reads_word {part : WitnessPart} (plain : part.Plain) : Reads part.word part := by
  cases part with
  | literal data =>
    rw [WitnessPart.word_literal]
    exact reads_toDigits data
  | empty => exact ⟨.empty, .empty, rfl⟩
  | signature id =>
    rw [WitnessPart.word_signature]
    refine ⟨.signature (String.ofList id.toList), .signature plain.1, ?_⟩
    rw [String.ofList_toList]
    rfl

/-- Whatever is read off a word is plain: a literal word has digits, a group has members with a
digest each, and an identifier is part of its word. -/
theorem Reads.plain {w : List Char} {part : WitnessPart} (reads : Reads w part) (nonempty : w ≠ [])
    (unbroken : ∀ c ∈ w, Unbroken c) : part.Plain := by
  obtain ⟨m, denotes, read⟩ := reads
  cases denotes with
  | opcode => cases read
  | empty =>
    obtain rfl := Option.some.inj read
    trivial
  | @bytes w data spells =>
    obtain rfl := Option.some.inj read
    rintro rfl
    exact nonempty (List.map_eq_nil_iff.mp spells)
  | @group members values several spells =>
    obtain rfl := Option.some.inj read
    rcases values with _ | ⟨value, values⟩
    · exact absurd (List.forall₂_nil_right_iff.mp spells) several
    · intro nothing
      have length := congrArg List.length nothing
      rw [List.map_cons, List.flatten_cons, List.length_append, Hash.length_sha256,
        List.length_nil] at length
      omega
  | @signature id identifier =>
    obtain rfl := Option.some.inj read
    show Identifier _ ∧ ∀ c ∈ _, Unbroken c
    rw [String.toList_ofList]
    refine ⟨identifier, fun c mem => unbroken c ?_⟩
    exact List.mem_append_left _ (List.mem_append_right _ mem)

theorem plain_of_readWitness {text : String} {parts : List WitnessPart}
    (read : readWitness text = .ok parts) :
    ∀ part ∈ parts, part.Plain := by
  have laid := layout_words text.toList
  have reads := (List.forall₂_and_left _ _).mpr ⟨laid.of_mem, (readWitness_eq_ok_iff laid).mp read⟩
  intro part mem
  obtain ⟨w, ⟨nonempty, unbroken⟩, here⟩ := exists_of_forall₂ reads.flip part mem
  exact here.plain nonempty unbroken

/-! ## Printed texts -/

/-- Words with a space between them are laid out as these words. -/
theorem layout_row {ws : List (List Char)} (solid : ∀ w ∈ ws, w ≠ [] ∧ ∀ c ∈ w, Unbroken c) :
    Layout (row ws) ws := by
  induction ws with
  | nil => exact .nothing
  | cons w ws ih =>
    obtain ⟨⟨nonempty, unbroken⟩, others⟩ := List.forall_mem_cons.mp solid
    cases ws with
    | nil =>
      have alone : row [w] = w := by simp [row, List.intercalate, List.intersperse]
      rw [alone]
      exact layout_singleton nonempty unbroken
    | cons v ws =>
      rw [row_cons_cons]
      exact .spaced nonempty unbroken (ih others)

theorem toList_witnessText (parts : List WitnessPart) :
    (witnessText parts).toList = row (parts.map WitnessPart.word) := by
  rw [witnessText, String.toList_intercalate, List.map_map]
  rfl

/-- Plain parts are read back as they were printed. -/
theorem readWitness_of_plain {parts : List WitnessPart} (plain : ∀ part ∈ parts, part.Plain) :
    readWitness (witnessText parts) = .ok parts := by
  have laid : Layout (witnessText parts).toList (parts.map WitnessPart.word) := by
    rw [toList_witnessText]
    exact layout_row (List.forall_mem_map.mpr fun part mem => (plain part mem).isWord)
  rw [readWitness_eq_ok_iff laid, List.forall₂_map_left_iff, List.forall₂_same]
  exact fun part mem => reads_word (plain part mem)

/-- **Printing a witness loses nothing.** -/
theorem readWitness_witnessText {text : String} {parts : List WitnessPart}
    (read : readWitness text = .ok parts) : readWitness (witnessText parts) = .ok parts :=
  readWitness_of_plain (plain_of_readWitness read)

/-! ### A witness with a part of each kind -/

def mixedText : String := "(,AB)#x\n<sig:a> <> 0F"

def mixedParts : List WitnessPart :=
  [.literal (Hash.sha256 [] ++ Hash.sha256 [0xab]), .signature "a", .empty, .literal [0x0f]]

theorem layout_mixedText :
    Layout mixedText.toList [groupWord [[], ['A', 'B']], placeholderWord ['a'], ['<', '>'],
      ['0', 'F']] := by
  have literal : Layout ['0', 'F'] [['0', 'F']] :=
    layout_singleton nofun (unbroken_of_all (by decide))
  have marker : Layout (['<', '>'] ++ ' ' :: ['0', 'F']) [['<', '>'], ['0', 'F']] :=
    .spaced nofun (unbroken_of_all (by decide)) literal
  have signature : Layout (placeholderWord ['a'] ++ ' ' :: (['<', '>'] ++ ' ' :: ['0', 'F']))
      [placeholderWord ['a'], ['<', '>'], ['0', 'F']] :=
    .spaced nofun (unbroken_of_all (by decide)) marker
  have comment : Layout ('#' :: ['x'] ++ '\n' :: "<sig:a> <> 0F".toList)
      [placeholderWord ['a'], ['<', '>'], ['0', 'F']] :=
    .comment (by decide) (by simp) (.blank (by decide) signature)
  have hash : ∀ c ∈ some '#', ¬ Unbroken c := by
    rintro c ⟨⟩ unbroken
    exact unbroken.2 rfl
  exact .word (List.cons_ne_nil _ _)
    (unbroken_of_all (w := groupWord [[], ['A', 'B']]) (by decide)) hash comment

theorem readWitness_mixedText : readWitness mixedText = .ok mixedParts := by
  have group : Reads (groupWord [[], ['A', 'B']])
      (.literal (Hash.sha256 [] ++ Hash.sha256 [0xab])) := by
    have nothing : Spells [] [] := rfl
    have member : Spells ['A', 'B'] [0xab] := rfl
    refine ⟨.group [[], [0xab]],
      .group (List.cons_ne_nil _ _) (.cons nothing (.cons member .nil)), ?_⟩
    simp [Meaning.part?]
  have signature : Reads (placeholderWord ['a']) (.signature "a") :=
    ⟨_, .signature ⟨by decide, by decide, by decide⟩, rfl⟩
  have literal : Reads ['0', 'F'] (.literal [0x0f]) :=
    ⟨_, .bytes (show Spells ['0', 'F'] [0x0f] from rfl), rfl⟩
  rw [readWitness_eq_ok_iff layout_mixedText]
  exact .cons group (.cons signature (.cons ⟨_, .empty, rfl⟩ (.cons literal .nil)))

theorem readWitness_witnessText_mixedText :
    readWitness mixedText = .ok mixedParts
      ∧ readWitness (witnessText mixedParts) = .ok mixedParts :=
  ⟨readWitness_mixedText, readWitness_witnessText readWitness_mixedText⟩

end Assembly

end TaprootLab
