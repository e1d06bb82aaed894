import TaprootLab.Assembly.Witness
import TaprootLab.Proofs.Assembly.Classification
import TaprootLab.Proofs.Assembly.Places

/-!
# The grammars of scripts and witnesses

Scripts and witnesses are written in tokens of one kind, but not every token may stand in both.
Either text is read if and only if all of its words are tokens that may stand in it
(`follows_grammar`), and a witness has one part for each of them. What else is reported is the first
word that is no token, even if a token further up is out of place: only a text of tokens is looked
through for those.

The two readers differ in what they make of a token and in the error for one that is out of place,
so what is said of them is said once of a reader that is given both (`compile`).
-/

namespace TaprootLab.Assembly

/-! ## What may stand where -/

/-- What a meaning comes to in a script. -/
def Meaning.code? : Meaning → Option Bytes
  | .opcode op => some [op.byte]
  | .empty => some [0x00]
  | .bytes data => some (Script.push data)
  | .group _ | .signature _ => none

/-- What a meaning comes to in a witness. -/
def Meaning.part? : Meaning → Option WitnessPart
  | .opcode _ => none
  | .empty => some .empty
  | .bytes data => some (.literal data)
  | .group values => some (.literal (values.map Hash.sha256).flatten)
  | .signature id => some (.signature id)

/-- A word that stands for something which may stand in a script. -/
inductive ScriptToken : List Char → Prop
  | mnemonic {w : List Char} {op : Opcode}
      (known : (String.ofList w, op) ∈ Opcode.mnemonics) : ScriptToken w
  | empty : ScriptToken ['<', '>']
  | bytes {w : List Char} (h : HexWord w) : ScriptToken w

/-- A word that stands for something which may stand in a witness. -/
inductive WitnessToken : List Char → Prop
  | empty : WitnessToken ['<', '>']
  | bytes {w : List Char} (h : HexWord w) : WitnessToken w
  | group {parts : List (List Char)} (nonempty : parts ≠ []) (h : ∀ p ∈ parts, HexWord p) :
      WitnessToken (groupWord parts)
  | signature {id : List Char} (plain : Identifier id) : WitnessToken (placeholderWord id)

def IsToken (w : List Char) : Prop := ScriptToken w ∨ WitnessToken w

theorem scriptToken_iff {w : List Char} :
    ScriptToken w ↔ ∃ b m, Denotes w m ∧ m.code? = some b := by
  constructor
  · rintro (known | _ | hex)
    · exact ⟨_, _, .opcode known, rfl⟩
    · exact ⟨_, _, .empty, rfl⟩
    · obtain ⟨data, spells⟩ := exists_spells_iff.mpr hex
      exact ⟨_, _, .bytes spells, rfl⟩
  · rintro ⟨b, m, denotes, code⟩
    cases denotes with
    | opcode known => exact .mnemonic known
    | empty => exact .empty
    | bytes spells => exact .bytes (exists_spells_iff.mp ⟨_, spells⟩)
    | group | signature => cases code

theorem witnessToken_iff {w : List Char} :
    WitnessToken w ↔ ∃ b m, Denotes w m ∧ m.part? = some b := by
  constructor
  · rintro (_ | hex | ⟨nonempty, hex⟩ | plain)
    · exact ⟨_, _, .empty, rfl⟩
    · obtain ⟨data, spells⟩ := exists_spells_iff.mpr hex
      exact ⟨_, _, .bytes spells, rfl⟩
    · obtain ⟨values, spells⟩ := exists_forall₂ fun p mem => exists_spells_iff.mpr (hex p mem)
      exact ⟨_, _, .group nonempty spells, rfl⟩
    · exact ⟨_, _, .signature plain, rfl⟩
  · rintro ⟨b, m, denotes, part⟩
    cases denotes with
    | opcode => cases part
    | empty => exact .empty
    | bytes spells => exact .bytes (exists_spells_iff.mp ⟨_, spells⟩)
    | group nonempty spells =>
      exact .group nonempty fun p mem => exists_spells_iff.mp (exists_of_forall₂ spells p mem)
    | signature plain => exact .signature plain

theorem isToken_iff {w : List Char} : IsToken w ↔ ∃ m, Denotes w m := by
  constructor
  · rintro (script | witness)
    · obtain ⟨-, m, denotes, -⟩ := scriptToken_iff.mp script
      exact ⟨m, denotes⟩
    · obtain ⟨-, m, denotes, -⟩ := witnessToken_iff.mp witness
      exact ⟨m, denotes⟩
  · rintro ⟨m, denotes⟩
    cases denotes with
    | opcode known => exact .inl (.mnemonic known)
    | empty => exact .inl .empty
    | bytes spells => exact .inl (.bytes (exists_spells_iff.mp ⟨_, spells⟩))
    | group nonempty spells => exact .inr (witnessToken_iff.mpr ⟨_, _, .group nonempty spells, rfl⟩)
    | signature plain => exact .inr (.signature plain)

/-- The error of the first word that is no token. -/
def FirstUnread (ws : List Word) (e : SourceError) : Prop :=
  ∃ before w after, ws = before ++ w :: after ∧ (∀ v ∈ before, IsToken v.text) ∧ ¬ IsToken w.text
    ∧ Refused w.text e.fault ∧ e.word = String.ofList w.text ∧ e.position = w.position

/-- The error of the first word that is out of place, where only some are allowed. -/
def FirstMisplaced (Allowed : List Char → Prop) (misplaced : Fault) (ws : List Word)
    (e : SourceError) : Prop :=
  ∃ before w after, ws = before ++ w :: after ∧ (∀ v ∈ before, Allowed v.text) ∧ ¬ Allowed w.text
    ∧ e = ⟨String.ofList w.text, w.position, misplaced⟩

/-! ## Readers of texts -/

section Compile

variable {β : Type} {use : Meaning → Option β} {misplaced : Fault} {Allowed : List Char → Prop}
    {text : String}

/-- A token is used for what it stands for. -/
def Token.useFor (use : Meaning → Option β) (misplaced : Fault) (t : Token) :
    Except SourceError β :=
  match use t.meaning with
  | some b => .ok b
  | none => .error (t.reject misplaced)

/-- A text is read by using all of its tokens. -/
def compile (use : Meaning → Option β) (misplaced : Fault) (text : String) :
    Except SourceError (List β) := do
  (← tokenize text).mapM (Token.useFor use misplaced)

theorem ofWord_of_denotes {w : Word} {m : Meaning} (h : Denotes w.text m) :
    Token.ofWord w = .ok ⟨String.ofList w.text, w.position, m⟩ :=
  ofWord_eq_ok_iff.mpr ⟨rfl, rfl, classify_eq_ok_iff.mpr h⟩

theorem useFor_eq_ok_iff {w : Word} {b : β} :
    (Token.ofWord w >>= Token.useFor use misplaced) = .ok b ↔
      ∃ m, Denotes w.text m ∧ use m = some b := by
  rw [Except.bind_eq_ok_iff]
  constructor
  · rintro ⟨t, read, used⟩
    refine ⟨t.meaning, classify_eq_ok_iff.mp (ofWord_eq_ok_iff.mp read).meaning, ?_⟩
    rw [Token.useFor] at used
    cases found : use t.meaning with
    | none =>
      rw [found] at used
      cases used
    | some b' =>
      rw [found] at used
      rw [Except.ok.inj used]
  · rintro ⟨m, denotes, found⟩
    refine ⟨⟨String.ofList w.text, w.position, m⟩, ofWord_of_denotes denotes, ?_⟩
    rw [Token.useFor, found]

theorem useFor_eq_error_iff {w : Word} {e : SourceError} (token : IsToken w.text) :
    (Token.ofWord w >>= Token.useFor use misplaced) = .error e ↔
      (¬ ∃ b m, Denotes w.text m ∧ use m = some b)
        ∧ e = ⟨String.ofList w.text, w.position, misplaced⟩ := by
  obtain ⟨m, denotes⟩ := isToken_iff.mp token
  have read := ofWord_of_denotes denotes
  constructor
  · intro refused
    refine ⟨fun ⟨b, used⟩ => ?_, ?_⟩
    · cases refused.symm.trans (useFor_eq_ok_iff.mpr used)
    · rw [read, Except.ok_bind, Token.useFor] at refused
      split at refused
      · cases refused
      · exact (Except.error.inj refused).symm
  · rintro ⟨useless, rfl⟩
    have none : use m = none := by
      refine Option.eq_none_iff_forall_ne_some.mpr fun b found => ?_
      exact useless ⟨b, m, denotes, found⟩
    rw [read, Except.ok_bind, Token.useFor, none]
    rfl

theorem isToken_of_tokenize {tokens : List Token} (read : tokenize text = .ok tokens) :
    ∀ w ∈ words text.toList, IsToken w.text := by
  intro w mem
  obtain ⟨t, reads⟩ := exists_of_forall₂ (tokenize_eq_ok_iff.mp read) w mem
  exact isToken_iff.mpr ⟨t.meaning, classify_eq_ok_iff.mp reads.meaning⟩

/-- Once all words are tokens, they are read one by one. -/
theorem compile_of_isToken (tokens : ∀ w ∈ words text.toList, IsToken w.text) :
    compile use misplaced text
      = (words text.toList).mapM fun w => Token.ofWord w >>= Token.useFor use misplaced := by
  refine Except.mapM_bind_mapM fun w mem => ?_
  obtain ⟨m, denotes⟩ := isToken_iff.mp (tokens w mem)
  exact ⟨_, ofWord_of_denotes denotes⟩

theorem compile_eq_ok_iff {bs : List β} :
    compile use misplaced text = .ok bs ↔
      List.Forall₂ (fun w b => ∃ m, Denotes w.text m ∧ use m = some b) (words text.toList) bs := by
  constructor
  · intro compiled
    obtain ⟨tokens, read, -⟩ := Except.bind_eq_ok_iff.mp compiled
    rw [compile_of_isToken (isToken_of_tokenize read), Except.mapM_eq_ok_iff] at compiled
    exact compiled.imp fun _ _ => useFor_eq_ok_iff.mp
  · intro used
    have tokens : ∀ w ∈ words text.toList, IsToken w.text := by
      intro w mem
      obtain ⟨b, m, denotes, -⟩ := exists_of_forall₂ used w mem
      exact isToken_iff.mpr ⟨m, denotes⟩
    rw [compile_of_isToken tokens, Except.mapM_eq_ok_iff]
    exact used.imp fun _ _ => useFor_eq_ok_iff.mpr

/-- A text is read if and only if each word of it is allowed. -/
theorem exists_compile_iff (allowed : ∀ w, Allowed w ↔ ∃ b m, Denotes w m ∧ use m = some b) :
    (∃ bs, compile use misplaced text = .ok bs) ↔ ∀ w ∈ words text.toList, Allowed w.text := by
  simp only [compile_eq_ok_iff, allowed]
  exact ⟨fun ⟨bs, used⟩ => exists_of_forall₂ used, exists_forall₂⟩

theorem tokenize_eq_error_iff_firstUnread {e : SourceError} :
    tokenize text = .error e ↔ FirstUnread (words text.toList) e := by
  have passes (v : Word) : (∃ m, classify v.text = .ok m) ↔ IsToken v.text := by
    simp only [classify_eq_ok_iff, isToken_iff]
  simp only [tokenize_eq_error_iff, passes]
  constructor
  · rintro ⟨before, w, after, whole, passed, blames⟩
    obtain ⟨nothing, refused⟩ := classify_eq_error_iff.mp blames.fault
    exact ⟨before, w, after, whole, passed, isToken_iff.not.mpr nothing, refused, blames.word,
      blames.position⟩
  · rintro ⟨before, w, after, whole, passed, noToken, refused, word, position⟩
    have fault := classify_eq_error_iff.mpr ⟨isToken_iff.not.mp noToken, refused⟩
    exact ⟨before, w, after, whole, passed, word, position, fault⟩

theorem mapM_useFor_eq_error_iff (allowed : ∀ w, Allowed w ↔ ∃ b m, Denotes w m ∧ use m = some b)
    {ws : List Word} (tokens : ∀ w ∈ ws, IsToken w.text) {e : SourceError} :
    (ws.mapM fun w => Token.ofWord w >>= Token.useFor use misplaced) = .error e
      ↔ FirstMisplaced Allowed misplaced ws e := by
  have passes (v : Word) :
      (∃ b, (Token.ofWord v >>= Token.useFor use misplaced) = .ok b) ↔ Allowed v.text := by
    simp only [useFor_eq_ok_iff, allowed]
  simp only [Except.mapM_eq_error_iff, passes]
  constructor
  · rintro ⟨before, w, after, rfl, passed, stops⟩
    have here := tokens w (List.mem_append_right _ List.mem_cons_self)
    obtain ⟨useless, rfl⟩ := (useFor_eq_error_iff here).mp stops
    exact ⟨before, w, after, rfl, passed, (allowed w.text).not.mpr useless, rfl⟩
  · rintro ⟨before, w, after, rfl, passed, useless, rfl⟩
    have here := tokens w (List.mem_append_right _ List.mem_cons_self)
    refine ⟨before, w, after, rfl, passed, ?_⟩
    exact (useFor_eq_error_iff here).mpr ⟨(allowed w.text).not.mp useless, rfl⟩

/-- Words that are no tokens come first, wherever they stand. -/
theorem compile_eq_error_iff (allowed : ∀ w, Allowed w ↔ ∃ b m, Denotes w m ∧ use m = some b)
    {e : SourceError} :
    compile use misplaced text = .error e ↔
      FirstUnread (words text.toList) e
        ∨ (∀ w ∈ words text.toList, IsToken w.text)
          ∧ FirstMisplaced Allowed misplaced (words text.toList) e := by
  constructor
  · intro failed
    cases read : tokenize text with
    | error e' =>
      rw [compile, read, Except.error_bind] at failed
      rw [← Except.error.inj failed]
      exact .inl (tokenize_eq_error_iff_firstUnread.mp read)
    | ok tokens =>
      have known := isToken_of_tokenize read
      rw [compile_of_isToken known] at failed
      exact .inr ⟨known, (mapM_useFor_eq_error_iff allowed known).mp failed⟩
  · rintro (unread | ⟨known, misplaced⟩)
    · rw [compile, tokenize_eq_error_iff_firstUnread.mpr unread, Except.error_bind]
    · rw [compile_of_isToken known]
      exact (mapM_useFor_eq_error_iff allowed known).mpr misplaced

end Compile

theorem assemble_eq_compile (text : String) :
    assemble text = (compile Meaning.code? .notAllowedInScript text).map List.flatten := by
  have step : Token.scriptBytes = Token.useFor Meaning.code? .notAllowedInScript := by
    funext ⟨text, position, meaning⟩
    cases meaning <;> rfl
  rw [assemble, compile, step, Except.map_bind]
  congr 1

theorem readWitness_eq_compile (text : String) :
    readWitness text = compile Meaning.part? .opcodeInWitness text := by
  have step : Token.witnessPart = Token.useFor Meaning.part? .opcodeInWitness := by
    funext ⟨text, position, meaning⟩
    cases meaning with
    | group values =>
      have value : groupValue values = (values.map Hash.sha256).flatten := List.flatMap_def
      show Except.ok (WitnessPart.literal (groupValue values)) = _
      rw [value]
      rfl
    | opcode | empty | bytes | signature => rfl
  rw [readWitness, compile, step]

/-- **Scripts and witnesses follow their grammars.** A text is read if and only if each of its words
may stand in it, and a witness then has one part for each word, in order. Otherwise the error is at
the first word that is no token, or else at the first one that is out of place. -/
theorem follows_grammar (text : String) :
    ((∃ script, assemble text = .ok script) ↔ ∀ w ∈ words text.toList, ScriptToken w.text)
      ∧ ((∃ parts, readWitness text = .ok parts) ↔ ∀ w ∈ words text.toList, WitnessToken w.text)
      ∧ (∀ parts, readWitness text = .ok parts ↔
          List.Forall₂ (fun w part => ∃ m, Denotes w.text m ∧ m.part? = some part)
            (words text.toList) parts)
      ∧ (∀ e, assemble text = .error e ↔
          FirstUnread (words text.toList) e
            ∨ (∀ w ∈ words text.toList, IsToken w.text)
              ∧ FirstMisplaced ScriptToken .notAllowedInScript (words text.toList) e)
      ∧ ∀ e, readWitness text = .error e ↔
          FirstUnread (words text.toList) e
            ∨ (∀ w ∈ words text.toList, IsToken w.text)
              ∧ FirstMisplaced WitnessToken .opcodeInWitness (words text.toList) e := by
  have assembled : (∃ script, assemble text = .ok script)
      ↔ ∃ parts, compile Meaning.code? .notAllowedInScript text = .ok parts := by
    rw [assemble_eq_compile]
    constructor
    · rintro ⟨script, done⟩
      obtain ⟨parts, compiled, -⟩ := Except.map_eq_ok_iff.mp done
      exact ⟨parts, compiled⟩
    · rintro ⟨parts, compiled⟩
      exact ⟨_, Except.map_eq_ok_iff.mpr ⟨parts, compiled, rfl⟩⟩
  refine ⟨?_, ?_, ?_, ?_, ?_⟩
  · exact assembled.trans (exists_compile_iff fun _ => scriptToken_iff)
  · rw [readWitness_eq_compile]
    exact exists_compile_iff fun _ => witnessToken_iff
  · intro parts
    rw [readWitness_eq_compile]
    exact compile_eq_ok_iff
  · intro e
    rw [assemble_eq_compile, Except.map_eq_error_iff]
    exact compile_eq_error_iff fun _ => scriptToken_iff
  · intro e
    rw [readWitness_eq_compile]
    exact compile_eq_error_iff fun _ => witnessToken_iff

end TaprootLab.Assembly
