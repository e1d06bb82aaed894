import TaprootLab.Assembly.Source
import TaprootLab.Hash.Sha256
import TaprootLab.Hex
import TaprootLab.Script.Opcode

/-!
# Tokens

A word is, tried in this order: the mnemonic of an opcode, `<>` for the empty element, `<sig:ID>`
for a signature that is made later, a group `(aa,bb,...)` of values that are hashed one by one, or
bytes in hexadecimal. Mnemonics come first, so a misspelled one is reported as such and not as bad
hexadecimal.
-/

namespace TaprootLab.Assembly

inductive Fault where
  | unknownOpcode
  | invalidHex
  | oddLengthHex
  | malformedGroup (reason : String)
  | malformedPlaceholder
  | notAllowedInScript
  | opcodeInWitness
  deriving DecidableEq, Repr

def Fault.message : Fault → String
  | .unknownOpcode => "unknown opcode"
  | .invalidHex => "invalid hex"
  | .oddLengthHex => "odd-length hex"
  | .malformedGroup reason => "malformed group: " ++ reason
  | .malformedPlaceholder => "malformed placeholder"
  | .notAllowedInScript => "not allowed in a script"
  | .opcodeInWitness => "opcodes are not allowed in a witness"

/-- A word that could not be used, and where it stands. -/
structure SourceError where
  word : String
  position : Position
  fault : Fault
  deriving DecidableEq, Repr

def SourceError.message (e : SourceError) : String :=
  e.position.toText ++ ": " ++ e.fault.message ++ ": '" ++ e.word ++ "'"

inductive Meaning where
  | opcode (op : Opcode)
  | bytes (data : Bytes)
  | empty
  | group (values : List Bytes)
  | signature (id : String)
  deriving DecidableEq, Repr

structure Token where
  text : String
  position : Position
  meaning : Meaning
  deriving DecidableEq, Repr

/-- The error of using a token where it has no place. -/
def Token.reject (t : Token) (fault : Fault) : SourceError := ⟨t.text, t.position, fault⟩

/-- Whether a word that is not hexadecimal was meant as a mnemonic: it starts with `OP_` in any
letter case, or it is written in capitals, digits and underscores with some capital past F. -/
def looksLikeMnemonic (word : List Char) : Bool :=
  let startsWithOp :=
    match word with
    | a :: b :: c :: _ => (a == 'O' || a == 'o') && (b == 'P' || b == 'p') && c == '_'
    | _ => false
  startsWithOp
    || (word.all (fun c => c.isUpper || c.isDigit || c == '_')
      && word.any fun c => c.isUpper && !Hex.isDigit c)

def readBytes (word : List Char) : Except Fault Bytes :=
  if word.all Hex.isDigit then
    match Hex.ofDigits? word with
    | some bytes => .ok bytes
    | none => .error .oddLengthHex
  else .error (if looksLikeMnemonic word then .unknownOpcode else .invalidHex)

def readGroupValue (part : List Char) : Except Fault Bytes :=
  match readBytes part with
  | .ok bytes => .ok bytes
  | .error e => .error (.malformedGroup ("'" ++ String.ofList part ++ "': " ++ e.message))

/-- The text between an opening character and a closing one at the very end. -/
def untilLast? (close : Char) (cs : List Char) : Option (List Char) :=
  if cs.getLast? = some close then some cs.dropLast else none

/-- The values of a group whose opening bracket is already read. Every comma counts, so a group may
hold empty values. -/
def readGroup (afterOpen : List Char) : Except Fault (List Bytes) :=
  match untilLast? ')' afterOpen with
  | none => .error (.malformedGroup "missing closing ')'")
  | some inner => (Text.splitOn ',' inner).mapM readGroupValue

/-- The identifier in `<sig:ID>`. -/
def readPlaceholder (word : List Char) : Except Fault String :=
  let id? :=
    match word with
    | '<' :: 's' :: 'i' :: 'g' :: ':' :: rest => untilLast? '>' rest
    | _ => none
  match id? with
  | some id =>
    if id.isEmpty || id.any (fun c => c == '<' || c == '>') then .error .malformedPlaceholder
    else .ok (String.ofList id)
  | none => .error .malformedPlaceholder

/-- What a word stands for. -/
def classify (word : List Char) : Except Fault Meaning :=
  match Opcode.ofName? (String.ofList word) with
  | some op => .ok (.opcode op)
  | none =>
    match word with
    | ['<', '>'] => .ok .empty
    | '<' :: _ => (readPlaceholder word).map .signature
    | '(' :: rest => (readGroup rest).map .group
    | _ => (readBytes word).map .bytes

def Token.ofWord (w : Word) : Except SourceError Token :=
  match classify w.text with
  | .ok meaning => .ok ⟨String.ofList w.text, w.position, meaning⟩
  | .error fault => .error ⟨String.ofList w.text, w.position, fault⟩

/-- The tokens of a text, or the error of its first word that is none. -/
def tokenize (text : String) : Except SourceError (List Token) :=
  (words text.toList).mapM Token.ofWord

/-- The value of a group: the digests of its members in a row. -/
def groupValue (values : List Bytes) : Bytes := values.flatMap Hash.sha256

end TaprootLab.Assembly
