import TaprootLab.Assembly.Token
import TaprootLab.Script.Instruction

/-!
# Script text

Assembling gives the bytes of a script: an opcode is its byte, bytes are pushed behind the shortest
length field. A value is never turned into an opcode that would push the same, so a script that is
not minimal can be written as it is meant. Disassembling gives one word an instruction.
-/

namespace TaprootLab.Assembly

def Token.scriptBytes (t : Token) : Except SourceError Bytes :=
  match t.meaning with
  | .opcode op => .ok [op.byte]
  | .empty => .ok [0x00]
  | .bytes data => .ok (Script.push data)
  | .group _ | .signature _ => .error (t.reject .notAllowedInScript)

/-- The bytes of a script text. Words that are no token are reported before tokens out of place. -/
def assemble (text : String) : Except SourceError Bytes := do
  let parts ← (← tokenize text).mapM Token.scriptBytes
  return parts.flatten

/-- The word of one instruction: an opcode by its mnemonic, pushed data in hexadecimal. -/
def instructionWord (i : Instruction) : String :=
  match i.data with
  | none => i.opcode.name
  | some data =>
    if i.opcode.byte == 0 then i.opcode.name
    else if i.truncated then "[truncated:" ++ Hex.encode data ++ "]"
    else Hex.encode data

def disassemble (script : Bytes) : List String := (Script.decode script).map instructionWord

/-- The text of a script on one line. -/
def scriptText (script : Bytes) : String := " ".intercalate (disassemble script)

end TaprootLab.Assembly
