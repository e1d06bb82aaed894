import TaprootLab.Proofs.Except
import TaprootLab.Proofs.Hex
import TaprootLab.Signing.SecretTable

/-!
# Tables of secrets as text

A text is cut into pieces at its commas. It is the text of a table if each piece is blank or an
entry with blanks around it (`Written`), and the table then records the last secret of each
identifier (`Records`). Any other text has a first piece that is neither, and is refused for what is
wrong with that piece (`Refused`). There is no third kind of text (`written_text_read`).
-/

namespace TaprootLab.SecretTable

open Assembly (Spells HexDigit)
open Text (isBlank trim Pads)

/-! ## What a table records -/

/-- The secret of an identifier in the last of its entries. -/
def LastOf (entries : List (String × Bytes)) (id : String) (secret : Bytes) : Prop :=
  ∃ before after, entries = before ++ (id, secret) :: after ∧ ∀ e ∈ after, e.1 ≠ id

/-- The table finds the last secret of each identifier and nothing else, and it holds each
identifier once. -/
structure Records (table : SecretTable) (entries : List (String × Bytes)) : Prop where
  last : ∀ id secret, table.get? id = some secret ↔ LastOf entries id secret
  once : (table.entries.map Prod.fst).Nodup

section
variable {table : SecretTable} {before entries : List (String × Bytes)} {id other : String}
    {secret value : Bytes}

theorem lastOf_iff : LastOf entries id secret ↔ entries.reverse.lookup id = some secret := by
  rw [List.lookup_eq_some_iff]
  constructor
  · rintro ⟨before, after, rfl, later⟩
    refine ⟨after.reverse, before.reverse, by simp, fun e mem => ?_⟩
    exact bne_iff_ne.mpr (later e (List.mem_reverse.mp mem)).symm
  · rintro ⟨after, before, whole, later⟩
    refine ⟨before.reverse, after.reverse, ?_, fun e mem => ?_⟩
    · rw [← List.reverse_reverse entries, whole]
      simp
    · exact (bne_iff_ne.mp (later e (List.mem_reverse.mp mem))).symm

theorem lastOf_concat_iff :
    LastOf (entries ++ [(id, secret)]) other value ↔
      if other = id then secret = value else LastOf entries other value := by
  rw [lastOf_iff, lastOf_iff, List.reverse_concat, List.lookup_cons]
  by_cases same : other = id
  · rw [if_pos same, beq_iff_eq.mpr same, Option.some.injEq]
  · rw [if_neg same, beq_eq_false_iff_ne.mpr same]

theorem records_empty : empty.Records [] := by
  refine ⟨fun id secret => iff_of_false nofun ?_, List.nodup_nil⟩
  rw [lastOf_iff]
  nofun

/-- An entry more. -/
theorem Records.insert (records : table.Records entries) (id : String) (secret : Bytes) :
    (table.insert id secret).Records (entries ++ [(id, secret)]) := by
  refine ⟨fun other value => ?_, ?_⟩
  · rw [get?_insert, lastOf_concat_iff, ← records.last]
    split
    · rw [Option.some.injEq]
    · rfl
  · have names : (table.insert id secret).entries.map Prod.fst =
        (table.entries.map Prod.fst).filter (· != id) ++ [id] := by
      rw [List.filter_map, SecretTable.insert, List.map_append]
      rfl
    rw [names, List.nodup_append]
    refine ⟨records.once.filter _, List.nodup_singleton _, fun other kept => ?_⟩
    rw [List.forall_mem_singleton]
    exact bne_iff_ne.mp (List.mem_filter.mp kept).2

/-- The table that entries make, one after another. -/
def ofEntries (entries : List (String × Bytes)) : SecretTable :=
  entries.foldl (fun table e => table.insert e.1 e.2) empty

theorem Records.foldl_insert (records : table.Records before) (entries : List (String × Bytes)) :
    (entries.foldl (fun table e => table.insert e.1 e.2) table).Records (before ++ entries) := by
  induction entries generalizing table before with
  | nil => rwa [List.append_nil]
  | cons e entries ih =>
    rw [List.foldl_cons, List.append_cons]
    exact ih (records.insert e.1 e.2)

theorem records_ofEntries (entries : List (String × Bytes)) : (ofEntries entries).Records entries :=
  records_empty.foldl_insert entries

end

/-! ## How a table is written -/

/-- An identifier as it may stand in front of a colon. -/
structure Identifier (id : String) : Prop where
  nonempty : id ≠ ""
  noComma : ',' ∉ id.toList
  noColon : ':' ∉ id.toList
  start : ∀ c ∈ id.toList.head?, isBlank c = false

/-- An entry as it is written, with blanks around it. -/
inductive Writes : List Char → String × Bytes → Prop
  | intro {front word back : List Char} {id : String} {secret : Bytes}
      (leading : ∀ c ∈ front, isBlank c = true) (name : Identifier id) (spells : Spells word secret)
      (trailing : ∀ c ∈ back, isBlank c = true) :
      Writes (front ++ (id.toList ++ ':' :: word) ++ back) (id, secret)

/-- Pieces between commas and the entries that they write, with any blank pieces among them. -/
inductive Lists : List (List Char) → List (String × Bytes) → Prop
  | nil : Lists [] []
  | blank {piece : List Char} {pieces : List (List Char)} {entries : List (String × Bytes)}
      (blank : ∀ c ∈ piece, isBlank c = true) (rest : Lists pieces entries) :
      Lists (piece :: pieces) entries
  | entry {piece : List Char} {pieces : List (List Char)} {pair : String × Bytes}
      {entries : List (String × Bytes)} (writes : Writes piece pair) (rest : Lists pieces entries) :
      Lists (piece :: pieces) (pair :: entries)

/-- The text of a table with these entries. -/
def Written (text : String) (entries : List (String × Bytes)) : Prop :=
  ∃ pieces, [','].intercalate pieces = text.toList ∧ Lists pieces entries

/-- What is wrong with an entry, blanks around it left out. What stands behind the colon counts
last. -/
inductive EntryFault : List Char → SigningError → Prop
  | noColon {entry : List Char} (h : ':' ∉ entry) :
      EntryFault entry (.invalidTable (String.ofList entry))
  | noIdentifier {rest : List Char} :
      EntryFault (':' :: rest) (.invalidTable (String.ofList (':' :: rest)))
  | noHex {id : String} {word : List Char} {reason : Hex.Error} (nonempty : id ≠ "")
      (first : ':' ∉ id.toList) (fault : Hex.Fault (String.ofList word).toUTF8.toList reason) :
      EntryFault (id.toList ++ ':' :: word) (.invalidKey id reason.message)

/-- All pieces are fine up to one that is neither blank nor an entry. -/
inductive StopsAt : List (List Char) → SigningError → Prop
  | intro {before after : List (List Char)} {piece entry : List Char}
      {entries : List (String × Bytes)} {e : SigningError} (passed : Lists before entries)
      (pads : Pads entry piece) (solid : entry ≠ []) (fault : EntryFault entry e) :
      StopsAt (before ++ piece :: after) e

/-- The text has a fault, and this is the first. -/
def Refused (text : String) (e : SigningError) : Prop :=
  ∃ pieces, [','].intercalate pieces = text.toList ∧ (∀ p ∈ pieces, ',' ∉ p) ∧ StopsAt pieces e

variable {piece entry : List Char} {pieces : List (List Char)} {pair : String × Bytes}
    {entries : List (String × Bytes)}
  {e : SigningError} {id : String}

/-! ## One entry -/

/-- An entry, blanks around it left out. -/
inductive IsEntry : List Char → String × Bytes → Prop
  | intro {id : String} {word : List Char} {secret : Bytes} (nonempty : id ≠ "")
      (first : ':' ∉ id.toList) (spells : Spells word secret) :
      IsEntry (id.toList ++ ':' :: word) (id, secret)

theorem IsEntry.ne_nil (h : IsEntry entry pair) : entry ≠ [] := by
  cases h
  exact List.append_ne_nil_of_right_ne_nil _ (List.cons_ne_nil _ _)

theorem toList_ne_nil (nonempty : id ≠ "") : id.toList ≠ [] :=
  mt String.toList_eq_nil_iff.mp nonempty

theorem readEntry_append {word : List Char} (nonempty : id ≠ "") (first : ':' ∉ id.toList) :
    readEntry (id.toList ++ ':' :: word) =
      match Hex.decode (String.ofList word) with
      | .ok secret => .ok (id, secret)
      | .error reason => .error (.invalidKey id reason.message) := by
  have named : id.toList.isEmpty = false := List.isEmpty_eq_false_iff.mpr (toList_ne_nil nonempty)
  rw [readEntry, Text.splitOnce?_append first]
  cases read : Hex.decode (String.ofList word) <;>
    simp only [named, Bool.false_eq_true, if_false, read, String.ofList_toList]

theorem readEntry_of_isEntry (h : IsEntry entry pair) : readEntry entry = .ok pair := by
  obtain @⟨id, word, secret, nonempty, first, spells⟩ := h
  have read : Hex.decode (String.ofList word) = .ok secret :=
    Hex.decode_of_spells (by rwa [String.toList_ofList])
  rw [readEntry_append nonempty first, read]

theorem readEntry_of_fault (fault : EntryFault entry e) : readEntry entry = .error e := by
  cases fault with
  | noColon h => rw [readEntry, Text.splitOnce?_of_notMem h]
  | @noIdentifier rest =>
    rw [readEntry, ← List.nil_append (':' :: rest), Text.splitOnce?_append List.not_mem_nil]
    rfl
  | noHex nonempty first fault =>
      rw [readEntry_append nonempty first, ((Hex.decode_outcome _).2 _).mpr fault]

theorem isEntry_or_fault (entry : List Char) :
    (∃ pair, IsEntry entry pair) ∨ ∃ e, EntryFault entry e := by
  by_cases marked : ':' ∈ entry
  · obtain ⟨front, word, rfl, first⟩ := List.eq_append_cons_of_mem marked
    obtain ⟨id, rfl⟩ : ∃ id : String, front = id.toList :=
      ⟨String.ofList front, String.toList_ofList.symm⟩
    by_cases named : id = ""
    · rw [named]
      exact .inr ⟨_, .noIdentifier⟩
    · obtain ⟨accepted, refused⟩ := Hex.decode_outcome (String.ofList word)
      cases read : Hex.decode (String.ofList word) with
      | ok secret =>
        have spells := (accepted secret).mp read
        rw [String.toList_ofList] at spells
        exact .inl ⟨_, .intro named first spells⟩
      | error reason => exact .inr ⟨_, .noHex named first ((refused reason).mp read)⟩
  · exact .inr ⟨_, .noColon marked⟩

/-! ## One piece -/

theorem isBlank_of_hexDigit {c : Char} (h : HexDigit c) : isBlank c = false := by
  have checked : ∀ k : Fin 103, HexDigit (Char.ofNat k) → isBlank (Char.ofNat k) = false := by
    decide +kernel
  have digit := checked ⟨c.toNat, h.toNat_lt⟩
  rw [Char.ofNat_toNat] at digit
  exact digit h

theorem Writes.exists_pads (writes : Writes piece pair) :
    ∃ entry, Pads entry piece ∧ IsEntry entry pair := by
  obtain @⟨front, word, back, id, secret, leading, name, spells, trailing⟩ := writes
  refine ⟨_, ⟨⟨front, back, leading, trailing, rfl⟩, ?_, ?_⟩,
    .intro name.nonempty name.noColon spells⟩
  · rw [List.head?_append_of_ne_nil _ (toList_ne_nil name.nonempty)]
    exact name.start
  · rw [List.getLast?_append_of_ne_nil _ (List.cons_ne_nil _ _)]
    intro c last
    rcases List.mem_cons.mp (List.mem_of_getLast? last) with rfl | mem
    · decide
    · exact isBlank_of_hexDigit (Assembly.isDigit_iff.mp (spells.isDigit c mem))

theorem IsEntry.writes (h : IsEntry entry pair) (pads : Pads entry piece) (noComma : ',' ∉ piece) :
    Writes piece pair := by
  obtain ⟨nonempty, first, spells⟩ := h
  obtain ⟨⟨front, back, leading, trailing, rfl⟩, start, -⟩ := pads
  rw [List.head?_append_of_ne_nil _ (toList_ne_nil nonempty)] at start
  simp only [List.mem_append, not_or] at noComma
  exact .intro leading ⟨nonempty, noComma.1.2.1, first, start⟩ spells trailing

theorem notMem_of_blanks (blank : ∀ c ∈ piece, isBlank c = true) : ',' ∉ piece :=
  fun mem => absurd (blank ',' mem) (by decide)

theorem Writes.notMem (writes : Writes piece pair) : ',' ∉ piece := by
  obtain @⟨front, word, back, id, secret, leading, name, spells, trailing⟩ := writes
  have other : ',' ∉ word := fun mem => absurd (spells.isDigit ',' mem) (by decide)
  simp only [List.mem_append, List.mem_cons, not_or]
  exact ⟨⟨notMem_of_blanks leading, name.noComma, by decide, other⟩, notMem_of_blanks trailing⟩

theorem Identifier.writes (name : Identifier id) (secret : Bytes) :
    Writes (id.toList ++ ':' :: Hex.toDigits secret) (id, secret) := by
  have spells : Spells (Hex.toDigits secret) secret :=
    Assembly.spells_iff.mpr (Hex.ofDigits?_toDigits secret)
  have bare := @Writes.intro [] _ [] _ _ nofun name spells nofun
  rwa [List.nil_append, List.append_nil] at bare

/-! ## All pieces -/

/-- The entries that pieces of text write, up to the first fault. -/
def readPieces (pieces : List (List Char)) : Except SigningError (List (String × Bytes)) :=
  ((pieces.map trim).filter (!·.isEmpty)).mapM readEntry

theorem ofText_eq (text : String) :
    ofText text = (readPieces (Text.splitOn ',' text.toList)).map ofEntries :=
  Except.foldlM_eq_map_mapM readEntry
    (fun (table : SecretTable) pair => table.insert pair.1 pair.2) empty _

theorem readPieces_cons_of_blanks (blank : ∀ c ∈ piece, isBlank c = true) :
    readPieces (piece :: pieces) = readPieces pieces := by
  rw [readPieces, List.map_cons, Text.trim_of_blanks blank, List.filter_cons_of_neg (by simp)]
  rfl

theorem readPieces_cons_of_pads (pads : Pads entry piece) (solid : entry ≠ []) :
    readPieces (piece :: pieces) = readEntry entry >>= fun pair =>
      (readPieces pieces).map (pair :: ·) := by
  rw [readPieces, List.map_cons, pads.trim_eq, List.filter_cons_of_pos (by simpa using solid),
    List.mapM_cons]
  rfl

theorem readPieces_cons_of_writes (writes : Writes piece pair) :
    readPieces (piece :: pieces) = (readPieces pieces).map (pair :: ·) := by
  obtain ⟨entry, pads, whole⟩ := writes.exists_pads
  rw [readPieces_cons_of_pads pads whole.ne_nil, readEntry_of_isEntry whole, Except.ok_bind]

theorem readPieces_of_lists (lists : Lists pieces entries) : readPieces pieces = .ok entries := by
  induction lists with
  | nil => rfl
  | blank blank _ ih => rw [readPieces_cons_of_blanks blank, ih]
  | entry writes _ ih =>
    rw [readPieces_cons_of_writes writes, ih]
    rfl

theorem readPieces_of_stopsAt (stops : StopsAt pieces e) : readPieces pieces = .error e := by
  obtain ⟨passed, pads, solid, fault⟩ := stops
  induction passed with
  | nil => rw [List.nil_append, readPieces_cons_of_pads pads solid, readEntry_of_fault fault,
      Except.error_bind]
  | blank blank _ ih => rw [List.cons_append, readPieces_cons_of_blanks blank, ih]
  | entry writes _ ih =>
    rw [List.cons_append, readPieces_cons_of_writes writes, ih]
    rfl

/-- A fine piece in front changes nothing. -/
theorem StopsAt.cons
    (fine : ∀ {before entries}, Lists before entries → ∃ more, Lists (piece :: before) more)
    (stops : StopsAt pieces e) : StopsAt (piece :: pieces) e := by
  obtain ⟨passed, pads, solid, fault⟩ := stops
  obtain ⟨more, lists⟩ := fine passed
  exact .intro lists pads solid fault

theorem lists_or_stopsAt (noComma : ∀ p ∈ pieces, ',' ∉ p) :
    (∃ entries, Lists pieces entries) ∨ ∃ e, StopsAt pieces e := by
  induction pieces with
  | nil => exact .inl ⟨[], .nil⟩
  | cons piece pieces ih =>
    obtain ⟨here, others⟩ := List.forall_mem_cons.mp noComma
    have pads := Text.pads_trim piece
    have onward
        (fine : ∀ {before entries}, Lists before entries → ∃ more, Lists (piece :: before) more) :
        (∃ entries, Lists (piece :: pieces) entries) ∨ ∃ e, StopsAt (piece :: pieces) e := by
      rcases ih others with ⟨entries, lists⟩ | ⟨e, stops⟩
      · exact .inl (fine lists)
      · exact .inr ⟨e, stops.cons fine⟩
    by_cases nothing : trim piece = []
    · rw [nothing] at pads
      exact onward fun lists => ⟨_, .blank pads.blank lists⟩
    · rcases isEntry_or_fault (trim piece) with ⟨pair, whole⟩ | ⟨e, fault⟩
      · exact onward fun lists => ⟨_, .entry (whole.writes pads here) lists⟩
      · exact .inr ⟨e, .intro .nil pads nothing fault⟩

/-! ## The whole text -/

theorem Lists.notMem (lists : Lists pieces entries) : ∀ p ∈ pieces, ',' ∉ p := by
  induction lists with
  | nil => nofun
  | blank blank _ ih => exact List.forall_mem_cons.mpr ⟨notMem_of_blanks blank, ih⟩
  | entry writes _ ih => exact List.forall_mem_cons.mpr ⟨writes.notMem, ih⟩

theorem StopsAt.ne_nil (stops : StopsAt pieces e) : pieces ≠ [] := by
  cases stops
  exact List.append_ne_nil_of_right_ne_nil _ (List.cons_ne_nil _ _)

theorem written_iff {text : String} :
    Written text entries ↔ Lists (Text.splitOn ',' text.toList) entries := by
  constructor
  · rintro ⟨pieces, whole, lists⟩
    cases pieces with
    | nil =>
      -- nothing joined is the empty text, which splits into one blank piece
      cases lists
      rw [← whole, List.intercalate_nil, Text.splitOn_of_notMem List.not_mem_nil]
      exact .blank nofun .nil
    | cons piece pieces => rwa [Text.splitOn_eq_iff.mpr ⟨List.cons_ne_nil _ _, lists.notMem, whole⟩]
  · intro lists
    exact ⟨_, Text.intercalate_splitOn ',' text.toList, lists⟩

theorem refused_iff {text : String} :
    Refused text e ↔ StopsAt (Text.splitOn ',' text.toList) e := by
  constructor
  · rintro ⟨pieces, whole, noComma, stops⟩
    rwa [Text.splitOn_eq_iff.mpr ⟨stops.ne_nil, noComma, whole⟩]
  · intro stops
    exact ⟨_, Text.intercalate_splitOn ',' text.toList, fun _ => Text.notMem_of_mem_splitOn, stops⟩

theorem readPieces_splitOn_outcome (text : String) :
    (∀ entries, readPieces (Text.splitOn ',' text.toList) = .ok entries ↔ Written text entries)
      ∧ ∀ e, readPieces (Text.splitOn ',' text.toList) = .error e ↔ Refused text e := by
  simp only [written_iff, refused_iff]
  exact Except.eq_iff_of_total (fun _ => readPieces_of_lists) (fun _ => readPieces_of_stopsAt)
    (lists_or_stopsAt fun _ => Text.notMem_of_mem_splitOn)

theorem exists_written_iff :
    (∃ text, Written text entries) ↔ ∀ pair ∈ entries, Identifier pair.1 := by
  constructor
  · rintro ⟨text, pieces, -, lists⟩
    induction lists with
    | nil => nofun
    | blank _ _ ih => exact ih
    | entry writes _ ih =>
      obtain ⟨-, name, -, -⟩ := writes
      exact List.forall_mem_cons.mpr ⟨name, ih⟩
  · intro named
    have lists : Lists (entries.map fun pair =>
        pair.1.toList ++ ':' :: Hex.toDigits pair.2) entries := by
      induction entries with
      | nil => exact .nil
      | cons pair entries ih =>
        obtain ⟨name, others⟩ := List.forall_mem_cons.mp named
        exact .entry (name.writes pair.2) (ih others)
    exact ⟨String.ofList ([','].intercalate _), _, String.toList_ofList.symm, lists⟩

/-- **Tables of secrets as text.** Entries can be written if their identifiers may stand in front of
a colon. Whichever way they are written, the text is read as the table of the last secret of each
identifier, and no other text is read as a table. It is refused for the first of its pieces that is
neither blank nor an entry: an entry without a colon or an identifier is shown whole, and of any
other the identifier is shown with what keeps the rest from being hexadecimal. -/
theorem written_text_read :
    (∀ entries, (∃ text, Written text entries) ↔ ∀ pair ∈ entries, Identifier pair.1)
      ∧ (∀ text entries, Written text entries →
        ∃ table, ofText text = .ok table ∧ table.Records entries)
      ∧ (∀ text table, ofText text = .ok table →
        ∃ entries, Written text entries ∧ table.Records entries)
      ∧ ∀ text e, ofText text = .error e ↔ Refused text e := by
  refine ⟨fun _ => exists_written_iff, fun text entries written => ?_, fun text table read => ?_,
    fun text e => ?_⟩
  · rw [ofText_eq, ((readPieces_splitOn_outcome text).1 entries).mpr written]
    exact ⟨_, rfl, records_ofEntries entries⟩
  · rw [ofText_eq, Except.map_eq_ok_iff] at read
    obtain ⟨entries, read, rfl⟩ := read
    exact ⟨entries, ((readPieces_splitOn_outcome text).1 entries).mp read,
      records_ofEntries entries⟩
  · rw [ofText_eq, Except.map_eq_error_iff]
    exact (readPieces_splitOn_outcome text).2 e

example : ofText "a:07, :ff ,b" = .error (.invalidTable ":ff") := by cbv

/-- Two entries of one identifier, one of another without a secret, and a blank piece. -/
theorem written_repeatedly :
    Written " a b:aF,\t, c:,a b:07\n" [("a b", [0xaf]), ("c", []), ("a b", [7])] := by
  have name : Identifier "a b" := ⟨by decide, by decide, by decide, by rintro _ ⟨⟩; rfl⟩
  have other : Identifier "c" := ⟨by decide, by decide, by decide, by rintro _ ⟨⟩; rfl⟩
  have space : ∀ c ∈ [' '], isBlank c = true := List.forall_mem_singleton.mpr rfl
  have tab : ∀ c ∈ ['\t'], isBlank c = true := List.forall_mem_singleton.mpr rfl
  have newline : ∀ c ∈ ['\n'], isBlank c = true := List.forall_mem_singleton.mpr rfl
  have first :=
    @Writes.intro [' '] ['a', 'F'] [] "a b" [0xaf] space name (by unfold Spells; decide) nofun
  have second := @Writes.intro [' '] [] [] "c" [] space other rfl nofun
  have third := @Writes.intro [] ['0', '7'] ['\n'] "a b" [7] nofun name rfl newline
  exact ⟨_, by decide, .entry first (.blank tab (.entry second (.entry third .nil)))⟩

/-- The later of the two entries counts. -/
theorem written_text_read_repeatedly :
    ∃ table, ofText " a b:aF,\t, c:,a b:07\n" = .ok table ∧ table.get? "a b" = some [7]
      ∧ table.get? "c" = some []
      ∧ ∃ entries, Written " a b:aF,\t, c:,a b:07\n" entries ∧ table.Records entries := by
  obtain ⟨-, reads, written, -⟩ := written_text_read
  obtain ⟨table, read, records⟩ := reads _ _ written_repeatedly
  have later : LastOf [("a b", [0xaf]), ("c", []), ("a b", [7])] "a b" [7] :=
    ⟨[("a b", [0xaf]), ("c", [])], [], rfl, nofun⟩
  have only : LastOf [("a b", [0xaf]), ("c", []), ("a b", [7])] "c" [] :=
    ⟨[("a b", [0xaf])], [("a b", [7])], rfl, by decide⟩
  exact ⟨table, read, (records.last _ _).mpr later, (records.last _ _).mpr only,
    written _ table read⟩

end TaprootLab.SecretTable
