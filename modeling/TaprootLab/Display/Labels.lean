import TaprootLab.FileTree
import TaprootLab.Hex
import TaprootLab.Text

/-!
# Labels for known values

A label file is a JSON object that maps values to labels: data in hexadecimal, in either letter
case, or mnemonics as they are written. Anything that is not such an object is refused as a whole.
-/

namespace TaprootLab

/-! ## JSON objects of strings -/

namespace JsonText

/-- The text after blanks in the sense of JSON. -/
def skipBlanks (cs : List Char) : List Char :=
  cs.dropWhile fun c => c == ' ' || c == '\n' || c == '\t' || c == '\r'

/-- The value of four hexadecimal digits. -/
def readUnit? : List Char → Option (Nat × List Char)
  | a :: b :: c :: d :: rest =>
    match Hex.ofDigits? [a, b, c, d] with
    | some bytes => some (Bytes.toNatBE bytes, rest)
    | none => none
  | _ => none

def isLeading (unit : Nat) : Bool := 0xd800 ≤ unit && unit ≤ 0xdbff

def isTrailing (unit : Nat) : Bool := 0xdc00 ≤ unit && unit ≤ 0xdfff

/-- The character of an escape whose `u` is already read: one unit, or a leading and a trailing unit
that make up one character. -/
def readUnicode? (cs : List Char) : Option (Char × List Char) :=
  match readUnit? cs with
  | none => none
  | some (unit, rest) =>
    if isTrailing unit then none
    else if isLeading unit then
      match rest with
      | '\\' :: 'u' :: rest =>
        match readUnit? rest with
        | some (low, rest) =>
          if isTrailing low then
            some (Char.ofNat (0x10000 + (unit - 0xd800) * 0x400 + (low - 0xdc00)), rest)
          else none
        | none => none
      | _ => none
    else some (Char.ofNat unit, rest)

/-- The character after a backslash. -/
def readEscape? : List Char → Option (Char × List Char)
  | '"' :: rest => some ('"', rest)
  | '\\' :: rest => some ('\\', rest)
  | '/' :: rest => some ('/', rest)
  | 'b' :: rest => some (Char.ofNat 8, rest)
  | 'f' :: rest => some (Char.ofNat 12, rest)
  | 'n' :: rest => some ('\n', rest)
  | 'r' :: rest => some ('\r', rest)
  | 't' :: rest => some ('\t', rest)
  | 'u' :: rest => readUnicode? rest
  | _ => none

theorem length_of_readUnit? {cs rest : List Char} {unit : Nat}
    (h : readUnit? cs = some (unit, rest)) : rest.length < cs.length := by
  unfold readUnit? at h
  split at h
  · split at h
    · obtain ⟨-, rfl⟩ := Prod.mk.inj (Option.some.inj h)
      simp only [List.length_cons]
      omega
    · cases h
  · cases h

theorem length_of_readUnicode? {cs rest : List Char} {c : Char}
    (h : readUnicode? cs = some (c, rest)) : rest.length < cs.length := by
  unfold readUnicode? at h
  split at h
  · cases h
  · next unit after hu =>
    have short := length_of_readUnit? hu
    split at h
    · cases h
    · split at h
      · split at h
        · next later =>
          split at h
          · next low after' hl =>
            have shorter := length_of_readUnit? hl
            split at h
            · obtain ⟨-, rfl⟩ := Prod.mk.inj (Option.some.inj h)
              simp only [List.length_cons] at short
              omega
            · cases h
          · cases h
        · cases h
      · obtain ⟨-, rfl⟩ := Prod.mk.inj (Option.some.inj h)
        exact short

theorem length_of_readEscape? {cs rest : List Char} {c : Char}
    (h : readEscape? cs = some (c, rest)) : rest.length < cs.length := by
  unfold readEscape? at h
  split at h
  case h_9 => exact Nat.lt_succ_of_lt (length_of_readUnicode? h)
  case h_10 => cases h
  all_goals
    obtain ⟨-, rfl⟩ := Prod.mk.inj (Option.some.inj h)
    exact Nat.lt_succ_self _

/-- The rest of a string whose opening quote is already read, put after the characters in `done`,
the last of which comes first. Control characters have to be written as escapes. -/
def readString? (done : List Char) : List Char → Option (String × List Char)
  | [] => none
  | '"' :: rest => some (String.ofList done.reverse, rest)
  | '\\' :: rest =>
    match h : readEscape? rest with
    | none => none
    | some (c, after) =>
      have : after.length < rest.length + 1 := Nat.lt_succ_of_lt (length_of_readEscape? h)
      readString? (c :: done) after
  | c :: rest => if c.toNat < 0x20 then none else readString? (c :: done) rest
termination_by cs => cs.length

/-- A string after blanks. -/
def readNextString? (cs : List Char) : Option (String × List Char) :=
  match skipBlanks cs with
  | '"' :: rest => readString? [] rest
  | _ => none

/-- A key and its value, with the colon between them. -/
def readPair? (cs : List Char) : Option ((String × String) × List Char) :=
  match readNextString? cs with
  | none => none
  | some (key, rest) =>
    match skipBlanks rest with
    | ':' :: rest =>
      match readNextString? rest with
      | some (value, rest) => some ((key, value), rest)
      | none => none
    | _ => none

/-- The pairs up to the closing brace. `fuel` bounds their number; a pair takes up characters, so
the length of the text is enough. -/
def readPairs? (done : List (String × String)) :
    (fuel : Nat) → List Char → Option (List (String × String) × List Char)
  | 0, _ => none
  | fuel + 1, cs =>
    match readPair? cs with
    | none => none
    | some (pair, rest) =>
      match skipBlanks rest with
      | ',' :: rest => readPairs? (pair :: done) fuel rest
      | '}' :: rest => some ((pair :: done).reverse, rest)
      | _ => none

/-- The pairs of an object of strings that makes up the whole text. -/
def readObject? (text : String) : Option (List (String × String)) :=
  let pairs? :=
    match skipBlanks text.toList with
    | '{' :: rest =>
      match skipBlanks rest with
      | '}' :: rest => some ([], rest)
      | _ => readPairs? [] (rest.length + 1) rest
    | _ => none
  match pairs? with
  | some (pairs, rest) => if (skipBlanks rest).isEmpty then some pairs else none
  | none => none

end JsonText

/-! ## Labels -/

/-- Why a label file cannot be used. -/
inductive LabelError where
  | file (path : String) (reason : FileError)
  | json
  deriving DecidableEq, Repr

def LabelError.message : LabelError → String
  | .file path reason => "reading tag file " ++ path ++ ": " ++ reason.message
  | .json => "parsing tags: expected an object of strings"

structure Labels where
  entries : List (String × String)
  deriving DecidableEq, Repr

namespace Labels

def empty : Labels := ⟨[]⟩

/-- Data is known by its lower-case digits, anything else as it is written. -/
def normalizeKey (key : String) : String :=
  if key.toList.all Hex.isDigit then String.ofList (key.toList.map Char.toLower) else key

/-- Labels with the label of a value replaced. -/
def insert (labels : Labels) (key label : String) : Labels :=
  let key := normalizeKey key
  ⟨(key, label) :: labels.entries.filter fun e => e.1 != key⟩

def get? (labels : Labels) (key : String) : Option String := labels.entries.lookup key

def isEmpty (labels : Labels) : Bool := labels.entries.isEmpty

def ofJson (text : String) : Except LabelError Labels :=
  match JsonText.readObject? text with
  | some pairs => .ok (pairs.foldl (fun labels (key, label) => labels.insert key label) empty)
  | none => .error .json

/-- The labels of a file, given what reading it gave: its bytes, or the reason why there are
none. -/
def ofFile (path : String) (content : Except FileError Bytes) : Except LabelError Labels :=
  match content with
  | .error reason => .error (.file path reason)
  | .ok bytes =>
    match Text.ofUtf8? bytes with
    | some text => ofJson text
    | none => .error (.file path .notText)

def textOf (labels : Labels) (value : String) : String := (labels.get? value).getD value

end Labels

end TaprootLab
