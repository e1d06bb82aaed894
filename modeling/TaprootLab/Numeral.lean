/-!
# Bounded numerals

Numbers typed by a user: digits in a radix, read from left to right, refused as soon as a digit is
unknown or the value passes a bound.
-/

namespace TaprootLab.Numeral

/-- Why text is not a number in range. -/
inductive Error where
  | empty
  | invalidDigit
  | tooLarge
  deriving DecidableEq, Repr

def Error.message : Error → String
  | .empty => "cannot parse integer from empty string"
  | .invalidDigit => "invalid digit found in string"
  | .tooLarge => "number too large to fit in target type"

/-- The value of one ASCII digit, letters in either case standing for ten and above. -/
def digit? (radix : Nat) (c : Char) : Option Nat :=
  let value :=
    if '0' ≤ c ∧ c ≤ '9' then some (c.toNat - '0'.toNat)
    else if 'a' ≤ c ∧ c ≤ 'z' then some (c.toNat - 'a'.toNat + 10)
    else if 'A' ≤ c ∧ c ≤ 'Z' then some (c.toNat - 'A'.toNat + 10)
    else none
  value.filter (· < radix)

/-- Continues a number whose digits so far have the value `acc`. -/
def readDigits (radix max : Nat) (acc : Nat) : List Char → Except Error Nat
  | [] => .ok acc
  | c :: cs =>
    match digit? radix c with
    | none => .error .invalidDigit
    | some d =>
      if max < radix * acc + d then .error .tooLarge else readDigits radix max (radix * acc + d) cs

/-- A number of at least one digit, without a sign. -/
def parseDigits (radix max : Nat) (cs : List Char) : Except Error Nat :=
  if cs.isEmpty then .error .empty else readDigits radix max 0 cs

/-- A decimal number with an optional plus sign. -/
def parseUnsigned (max : Nat) (cs : List Char) : Except Error Nat :=
  match cs with
  | ['+'] => .error .invalidDigit
  | '+' :: rest => parseDigits 10 max rest
  | _ => parseDigits 10 max cs

/-- The largest number that 64 bits hold. -/
def maxWord64 : Nat := 0xffffffffffffffff

end TaprootLab.Numeral
