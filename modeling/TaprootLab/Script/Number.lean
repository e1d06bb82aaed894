import TaprootLab.Hex
import TaprootLab.Numeral

/-!
# Script numbers

A number on the stack is its magnitude in base 256, least significant byte first, with the sign in
the top bit of the last byte. Zero is the empty item. An encoding is minimal if no shorter one has
the same value.
-/

namespace TaprootLab.ScriptNumber

/-- The most bytes an operand of an arithmetic opcode may have. -/
def operandSize : Nat := 4

/-- The most bytes of a number that is shown to a user. -/
def shownSize : Nat := 8

/-- The digits of a magnitude in base 256 without leading zeros, least significant first. -/
def magnitude (n : Nat) : Bytes :=
  if h : n = 0 then []
  else
    have : n / 256 < n := Nat.div_lt_self (Nat.pos_of_ne_zero h) (by decide)
    UInt8.ofNat n :: magnitude (n / 256)
termination_by n

/-- Puts the sign into the top bit of the last byte, in a byte of its own if the bit is in use. -/
def withSign (negative : Bool) (digits : Bytes) : Bytes :=
  match digits.getLast? with
  | none => []
  | some last =>
    if 0x80 ≤ last then digits ++ [if negative then 0x80 else 0x00]
    else if negative then digits.dropLast ++ [last ||| 0x80]
    else digits

/-- The minimal encoding. -/
def encode (n : Int) : Bytes := withSign (n < 0) (magnitude n.natAbs)

/-- The value of an item of any length. -/
def value (item : Bytes) : Int :=
  match item.getLast? with
  | none => 0
  | some last =>
    if 0x80 ≤ last then -((Bytes.toNatLE (item.dropLast ++ [last &&& 0x7f]) : Nat) : Int)
    else ((Bytes.toNatLE item : Nat) : Int)

/-- The value of an item of at most `size` bytes. -/
def decode? (size : Nat) (item : Bytes) : Option Int :=
  if size < item.length then none else some (value item)

/-- Whether an item is the shortest encoding of its value: its last byte may hold nothing but the
sign only if the byte before it has its top bit set. -/
def isMinimal (item : Bytes) : Bool :=
  match item.reverse with
  | [] => true
  | last :: rest =>
    last &&& 0x7f != 0 ||
      match rest with
      | [] => false
      | before :: _ => before &&& 0x80 != 0

/-- Whether an item counts as true: every encoding of zero counts as false. -/
def truthy (item : Bytes) : Bool :=
  match item.reverse with
  | [] => false
  | last :: rest => rest.any (· != 0) || last &&& 0x7f != 0

def ofBool (b : Bool) : Bytes := if b then [1] else []

/-- An item as it is shown: hexadecimal, with a mark for the empty item. -/
def display (item : Bytes) : String := if item.isEmpty then "<>" else Hex.encode item

/-! ## Text -/

/-- Why text is no script number. -/
inductive Error where
  | number (text : String)
  | hex (text : String)
  | nonMinimal (text : String)
  | tooLong (size : Nat)
  deriving DecidableEq, Repr

def Error.message : Error → String
  | .number text => "'" ++ text ++ "' is not a decimal or 0x-prefixed hex number"
  | .hex text => "'" ++ text ++ "' is not valid hex"
  | .nonMinimal text => "'" ++ text ++ "' is not a minimally encoded script number"
  | .tooLong size => s!"script number of {size} bytes is too long"

/-- The digits after an optional mark for hexadecimal, with their radix. -/
def splitRadix : List Char → Nat × List Char
  | '0' :: 'x' :: digits => (16, digits)
  | digits => (10, digits)

def maxMagnitude : Nat := 0x7fffffffffffffff

def parseMagnitude? (cs : List Char) : Option Nat :=
  let (radix, digits) := splitRadix cs
  (Numeral.parseDigits radix maxMagnitude digits).toOption

/-- An integer in decimal, or in hexadecimal after 0x, with an optional minus sign in front. -/
def parseInt? : List Char → Option Int
  | '-' :: cs => (parseMagnitude? cs).map fun n => -(n : Int)
  | cs => (parseMagnitude? cs).map fun n => (n : Int)

/-- The minimal encoding of a written integer. -/
def ofText (text : String) : Except Error Bytes :=
  match parseInt? text.toList with
  | some n => .ok (encode n)
  | none => .error (.number text)

/-- The integer that a minimal encoding, written in hexadecimal, stands for. -/
def ofHex (text : String) : Except Error Int :=
  match Hex.decode text with
  | .error _ => .error (.hex text)
  | .ok item =>
    if !isMinimal item then .error (.nonMinimal text)
    else
      match decode? shownSize item with
      | some n => .ok n
      | none => .error (.tooLong item.length)

end TaprootLab.ScriptNumber
