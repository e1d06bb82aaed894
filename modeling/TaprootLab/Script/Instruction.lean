import TaprootLab.Bytes
import TaprootLab.Script.Opcode

/-!
# Instructions of a script

A script is read from left to right: an opcode, the length of its data if the opcode asks for one,
and the data. A script that ends too early gives a last instruction with what was left of it.

* `decodeFirst_length_pos`: every instruction takes up at least one byte.

-/

namespace TaprootLab

/-- One instruction and where it stands in its script. -/
structure Instruction where
  opcode : Opcode
  /-- What is pushed, for an opcode that pushes data that stands in the script. -/
  data : Option Bytes
  offset : Nat
  /-- Opcode, length field and data together. -/
  length : Nat
  /-- Whether the script ended before the data did. -/
  truncated : Bool
  deriving DecidableEq, Repr

namespace Script

/-- The instruction of an opcode whose length field takes `header` bytes and announces `size` bytes
of data, `body` being all that follows the length field. -/
def withData (opcode : Opcode) (offset header size : Nat) (body : Bytes) : Instruction :=
  let data := body.take size
  { opcode, data := some data, offset, length := 1 + header + data.length
    truncated := data.length < size }

/-- The instruction at the front of `opcode :: rest`. -/
def decodeFirst (offset : Nat) (opcode : Opcode) (rest : Bytes) : Instruction :=
  match opcode.operand with
  | .absent => { opcode, data := none, offset, length := 1, truncated := false }
  | .fixed size => withData opcode offset 0 size rest
  | .counted width =>
    let field := rest.take width
    if field.length < width then
      { opcode, data := some [], offset, length := 1 + field.length, truncated := true }
    else withData opcode offset width (Bytes.toNatLE field) (rest.drop width)

theorem decodeFirst_length_pos (offset : Nat) (opcode : Opcode) (rest : Bytes) :
    0 < (decodeFirst offset opcode rest).length := by
  unfold decodeFirst
  split
  · exact Nat.one_pos
  · simp only [withData]; omega
  · dsimp only
    split
    · dsimp only; omega
    · simp only [withData]; omega

/-- The instructions of the bytes that start at `offset` in a script. -/
def decodeFrom (offset : Nat) : Bytes → List Instruction
  | [] => []
  | b :: rest =>
    let first := decodeFirst offset ⟨b⟩ rest
    have : (rest.drop (first.length - 1)).length < (b :: rest).length := by
      simp only [List.length_drop, List.length_cons]
      omega
    first :: decodeFrom (offset + first.length) (rest.drop (first.length - 1))
termination_by bytes => bytes.length

def decode (script : Bytes) : List Instruction := decodeFrom 0 script

/-- The shortest length field for data of `size` bytes. -/
def pushHeader (size : Nat) : Bytes :=
  if size < 0x4c then [UInt8.ofNat size]
  else if size ≤ 0xff then 0x4c :: Bytes.ofNatLE 1 size
  else if size ≤ 0xffff then 0x4d :: Bytes.ofNatLE 2 size
  else 0x4e :: Bytes.ofNatLE 4 size

/-- A push of `data` behind the shortest length field. -/
def push (data : Bytes) : Bytes := pushHeader data.length ++ data

end Script

end TaprootLab
