import TaprootLab.Hex
import TaprootLab.Text

/-!
# Tables of secret keys

Which secret an identifier stands for, as written on a command line: entries of identifier and
hexadecimal with a colon between them, separated by commas. An identifier without a secret gets one
when it is first used.
-/

namespace TaprootLab

/-- Why a witness could not be completed. -/
inductive SigningError where
  | unknownKey (id : String)
  | invalidKey (id reason : String)
  | invalidTable (entry : String)
  | noContext (id : String)
  | sign (id reason : String)
  deriving DecidableEq, Repr

def SigningError.message : SigningError → String
  | .unknownKey id => "private key " ++ id ++ " not known"
  | .invalidKey id reason => "invalid private key " ++ id ++ ": " ++ reason
  | .invalidTable entry => "invalid key table entry '" ++ entry ++ "', expected '<id>:<hex>'"
  | .noContext id => "signature for " ++ id ++ " requested before a transaction context exists"
  | .sign id reason => "signing with " ++ id ++ ": " ++ reason

/-- Secrets by identifier, each identifier once. -/
structure SecretTable where
  entries : List (String × Bytes)
  deriving DecidableEq, Repr

namespace SecretTable

def empty : SecretTable := ⟨[]⟩

/-- The table with the secret of `id` replaced. -/
def insert (table : SecretTable) (id : String) (secret : Bytes) : SecretTable :=
  ⟨table.entries.filter (fun e => e.1 != id) ++ [(id, secret)]⟩

def get? (table : SecretTable) (id : String) : Option Bytes := table.entries.lookup id

def size (table : SecretTable) : Nat := table.entries.length

def isEmpty (table : SecretTable) : Bool := table.entries.isEmpty

/-- An entry without blanks around it. -/
def readEntry (entry : List Char) : Except SigningError (String × Bytes) :=
  match Text.splitOnce? ':' entry with
  | none => .error (.invalidTable (String.ofList entry))
  | some (id, hex) =>
    if id.isEmpty then .error (.invalidTable (String.ofList entry))
    else
      match Hex.decode (String.ofList hex) with
      | .ok secret => .ok (String.ofList id, secret)
      | .error e => .error (.invalidKey (String.ofList id) e.message)

/-- The entries of a text; blank ones do not count. -/
def entryTexts (text : String) : List (List Char) :=
  ((Text.splitOn ',' text.toList).map Text.trim).filter (!·.isEmpty)

/-- Reads a table; the last entry of an identifier counts. -/
def ofText (text : String) : Except SigningError SecretTable :=
  (entryTexts text).foldlM (fun table entry => do
    let (id, secret) ← readEntry entry
    return table.insert id secret) empty

/-! ## Looking up -/

theorem lookup_filter_ne (entries : List (String × Bytes)) {id other : String} (h : other ≠ id) :
    (entries.filter fun e => e.1 != id).lookup other = entries.lookup other := by
  induction entries with
  | nil => rfl
  | cons e rest ih =>
    obtain ⟨name, secret⟩ := e
    by_cases hn : name = id
    · subst hn
      have : (other == name) = false := by simpa using h
      simp [List.lookup_cons, ih, this]
    · simp [hn, List.lookup_cons, ih]

theorem lookup_filter_eq (entries : List (String × Bytes)) (id : String) :
    (entries.filter fun e => e.1 != id).lookup id = none := by
  induction entries with
  | nil => rfl
  | cons e rest ih =>
    obtain ⟨name, secret⟩ := e
    by_cases hn : name = id
    · subst hn
      simp [ih]
    · have : (id == name) = false := by simpa using fun e => hn e.symm
      simp [hn, List.lookup_cons, ih, this]

theorem get?_insert (table : SecretTable) (id other : String) (secret : Bytes) :
    (table.insert id secret).get? other = if other = id then some secret else table.get? other := by
  unfold get? insert
  rw [List.lookup_append]
  by_cases h : other = id
  · subst h
    simp [lookup_filter_eq]
  · have : (other == id) = false := by simpa using h
    simp [lookup_filter_ne _ h, List.lookup_cons, h, this]

end SecretTable

end TaprootLab
