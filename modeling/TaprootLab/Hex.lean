import TaprootLab.Bytes

/-!
# Hexadecimal text

Two digits a byte, written in lower case and read in either. Reading is a recursion on the
characters; what exactly is wrong with refused text is found out afterwards, on its UTF-8 bytes.

* `ofDigits?_toDigits`: reading what was written gives the bytes back.
-/

namespace TaprootLab.Hex

/-- Why text is not hexadecimal. `byte` is the first byte of the text that is no digit. -/
inductive Error where
  | oddLength
  | invalidCharacter (byte : UInt8) (position : Nat)
  deriving DecidableEq, Repr

def digit? (c : Char) : Option UInt8 :=
  if '0' ≤ c ∧ c ≤ '9' then some (UInt8.ofNat (c.toNat - '0'.toNat))
  else if 'a' ≤ c ∧ c ≤ 'f' then some (UInt8.ofNat (c.toNat - 'a'.toNat + 10))
  else if 'A' ≤ c ∧ c ≤ 'F' then some (UInt8.ofNat (c.toNat - 'A'.toNat + 10))
  else none

def isDigit (c : Char) : Bool := (digit? c).isSome

/-- The lower-case digit of a value below sixteen. -/
def digit (n : UInt8) : Char :=
  if n < 10 then Char.ofNat ('0'.toNat + n.toNat) else Char.ofNat ('a'.toNat + n.toNat - 10)

def toDigits (bytes : Bytes) : List Char :=
  bytes.flatMap fun b => [digit (b / 16), digit (b % 16)]

/-- Reads two digits a byte. Nothing is read unless all of the text can be. -/
def ofDigits? : List Char → Option Bytes
  | [] => some []
  | [_] => none
  | high :: low :: rest =>
    match digit? high, digit? low, ofDigits? rest with
    | some h, some l, some bytes => some ((h * 16 + l) :: bytes)
    | _, _, _ => none

def encode (bytes : Bytes) : String := String.ofList (toDigits bytes)

/-- Whether a byte, taken as an ASCII character, is a digit. -/
def isDigitByte (b : UInt8) : Bool := isDigit (Char.ofNat b.toNat)

/-- What is wrong with text that is not hexadecimal: an odd number of bytes is reported before any
byte that is no digit. -/
def diagnose (text : String) : Error :=
  let bytes := text.toUTF8.toList
  if bytes.length % 2 = 1 then .oddLength
  else
    match bytes.zipIdx.find? fun (b, _) => !isDigitByte b with
    | some (b, i) => .invalidCharacter b i
    | none => .oddLength

def decode (text : String) : Except Error Bytes :=
  match ofDigits? text.toList with
  | some bytes => .ok bytes
  | none => .error (diagnose text)

/-- A byte shown as the character of that number, between quotes, with an escape for what cannot be
seen. -/
def quoted (b : UInt8) : String :=
  let body :=
    if b == 0 then "\\0"
    else if b == 9 then "\\t"
    else if b == 10 then "\\n"
    else if b == 13 then "\\r"
    else if b == 39 then "\\'"
    else if b == 92 then "\\\\"
    else if b < 32 || (127 ≤ b && b ≤ 160) || b == 173 then
      "\\u\x7b" ++ String.ofList (Nat.toDigits 16 b.toNat) ++ "\x7d"
    else String.ofList [Char.ofNat b.toNat]
  "'" ++ body ++ "'"

def Error.message : Error → String
  | .oddLength => "Odd number of digits"
  | .invalidCharacter byte position =>
    s!"Invalid character " ++ quoted byte ++ s!" at position {position}"

/-! ## Reading what was written -/

theorem digit?_digit {n : UInt8} (h : n < 16) : digit? (digit n) = some n := by
  have all : ∀ m : Fin 16, digit? (digit (UInt8.ofNat m.val)) =
      some (UInt8.ofNat m.val) := by decide
  have bound : n.toNat < 16 := UInt8.lt_iff_toNat_lt.mp h
  simpa using all ⟨n.toNat, bound⟩

theorem ofDigits?_toDigits (bytes : Bytes) : ofDigits? (toDigits bytes) = some bytes := by
  induction bytes with
  | nil => rfl
  | cons b rest ih =>
    have high : b / 16 < 16 := by
      rw [UInt8.lt_iff_toNat_lt, UInt8.toNat_div]
      have := b.toNat_lt
      simp only [UInt8.reduceToNat]
      omega
    have low : b % 16 < 16 := by
      rw [UInt8.lt_iff_toNat_lt, UInt8.toNat_mod]
      exact Nat.mod_lt _ (by decide)
    have whole : b / 16 * 16 + b % 16 = b := by
      apply UInt8.toNat_inj.mp
      have := b.toNat_lt
      simp only [UInt8.toNat_add, UInt8.toNat_mul, UInt8.toNat_div, UInt8.toNat_mod,
        UInt8.reduceToNat]
      omega
    have ih' : ofDigits? (List.flatMap (fun b => [digit (b / 16), digit (b % 16)]) rest) =
        some rest := ih
    simp [toDigits, List.flatMap_cons, ofDigits?, digit?_digit high, digit?_digit low, ih', whole]

end TaprootLab.Hex
