/-!
# Opcodes

An opcode is a byte. Every byte has a mnemonic: pushes and small numbers carry their number in it, a
byte without an assigned meaning is named by its value.
-/

namespace TaprootLab

structure Opcode where
  byte : UInt8
  deriving DecidableEq, Repr

namespace Opcode

/-- The mnemonics that follow no rule. -/
def assigned : List (UInt8 × String) := [
  (0x00, "OP_0"), (0x4c, "OP_PUSHDATA1"), (0x4d, "OP_PUSHDATA2"), (0x4e, "OP_PUSHDATA4"),
  (0x4f, "OP_1NEGATE"), (0x50, "OP_RESERVED"), (0x61, "OP_NOP"), (0x62, "OP_VER"), (0x63, "OP_IF"),
  (0x64, "OP_NOTIF"), (0x65, "OP_VERIF"), (0x66, "OP_VERNOTIF"), (0x67, "OP_ELSE"),
  (0x68, "OP_ENDIF"), (0x69, "OP_VERIFY"), (0x6a, "OP_RETURN"), (0x6b, "OP_TOALTSTACK"),
  (0x6c, "OP_FROMALTSTACK"), (0x6d, "OP_2DROP"), (0x6e, "OP_2DUP"), (0x6f, "OP_3DUP"),
  (0x70, "OP_2OVER"), (0x71, "OP_2ROT"), (0x72, "OP_2SWAP"), (0x73, "OP_IFDUP"),
  (0x74, "OP_DEPTH"), (0x75, "OP_DROP"), (0x76, "OP_DUP"), (0x77, "OP_NIP"), (0x78, "OP_OVER"),
  (0x79, "OP_PICK"), (0x7a, "OP_ROLL"), (0x7b, "OP_ROT"), (0x7c, "OP_SWAP"), (0x7d, "OP_TUCK"),
  (0x7e, "OP_CAT"), (0x7f, "OP_SUBSTR"), (0x80, "OP_LEFT"), (0x81, "OP_RIGHT"), (0x82, "OP_SIZE"),
  (0x83, "OP_INVERT"), (0x84, "OP_AND"), (0x85, "OP_OR"), (0x86, "OP_XOR"), (0x87, "OP_EQUAL"),
  (0x88, "OP_EQUALVERIFY"), (0x89, "OP_RESERVED1"), (0x8a, "OP_RESERVED2"), (0x8b, "OP_1ADD"),
  (0x8c, "OP_1SUB"), (0x8d, "OP_2MUL"), (0x8e, "OP_2DIV"), (0x8f, "OP_NEGATE"), (0x90, "OP_ABS"),
  (0x91, "OP_NOT"), (0x92, "OP_0NOTEQUAL"), (0x93, "OP_ADD"), (0x94, "OP_SUB"), (0x95, "OP_MUL"),
  (0x96, "OP_DIV"), (0x97, "OP_MOD"), (0x98, "OP_LSHIFT"), (0x99, "OP_RSHIFT"),
  (0x9a, "OP_BOOLAND"), (0x9b, "OP_BOOLOR"), (0x9c, "OP_NUMEQUAL"), (0x9d, "OP_NUMEQUALVERIFY"),
  (0x9e, "OP_NUMNOTEQUAL"), (0x9f, "OP_LESSTHAN"), (0xa0, "OP_GREATERTHAN"),
  (0xa1, "OP_LESSTHANOREQUAL"), (0xa2, "OP_GREATERTHANOREQUAL"), (0xa3, "OP_MIN"),
  (0xa4, "OP_MAX"), (0xa5, "OP_WITHIN"), (0xa6, "OP_RIPEMD160"), (0xa7, "OP_SHA1"),
  (0xa8, "OP_SHA256"), (0xa9, "OP_HASH160"), (0xaa, "OP_HASH256"), (0xab, "OP_CODESEPARATOR"),
  (0xac, "OP_CHECKSIG"), (0xad, "OP_CHECKSIGVERIFY"), (0xae, "OP_CHECKMULTISIG"),
  (0xaf, "OP_CHECKMULTISIGVERIFY"), (0xb0, "OP_NOP1"), (0xb1, "OP_CHECKLOCKTIMEVERIFY"),
  (0xb2, "OP_CHECKSEQUENCEVERIFY"), (0xb3, "OP_NOP4"), (0xb4, "OP_NOP5"), (0xb5, "OP_NOP6"),
  (0xb6, "OP_NOP7"), (0xb7, "OP_NOP8"), (0xb8, "OP_NOP9"), (0xb9, "OP_NOP10"),
  (0xba, "OP_CHECKSIGADD"), (0xff, "OP_INVALIDOPCODE")]

/-- Second spellings. -/
def aliases : List (String × UInt8) :=
  [("OP_FALSE", 0x00), ("OP_TRUE", 0x51), ("OP_NOP2", 0xb1), ("OP_NOP3", 0xb2)]

/-- Whether the byte pushes as many of the following bytes as its value says. -/
def isDirectPush (op : Opcode) : Bool := 1 ≤ op.byte && op.byte ≤ 75

/-- Whether the byte stands for one of the numbers from 1 to 16. -/
def isSmallNumber (op : Opcode) : Bool := 0x51 ≤ op.byte && op.byte ≤ 0x60

def name (op : Opcode) : String :=
  if op.isDirectPush then s!"OP_DATA_{op.byte}"
  else if op.isSmallNumber then s!"OP_{op.byte.toNat - 0x50}"
  else (assigned.lookup op.byte).getD s!"OP_UNKNOWN{op.byte}"

/-- All 256 opcodes, by byte. -/
def all : List Opcode := (List.range 256).map fun b => ⟨UInt8.ofNat b⟩

/-- Every accepted spelling with its opcode. -/
def mnemonics : List (String × Opcode) :=
  aliases.map (fun (s, b) => (s, ⟨b⟩)) ++ all.map fun op => (op.name, op)

/-- The opcode of a mnemonic. Letter case counts. -/
def ofName? (s : String) : Option Opcode := mnemonics.lookup s

def isPush (op : Opcode) : Bool := op.isDirectPush || (0x4c ≤ op.byte && op.byte ≤ 0x4e)

/-- What follows an opcode in a script: nothing that belongs to it, a fixed number of data bytes, or
a little-endian length of `width` bytes and that many data bytes. -/
inductive Operand where
  | absent
  | fixed (size : Nat)
  | counted (width : Nat)
  deriving DecidableEq, Repr

def operand (op : Opcode) : Operand :=
  if op.byte == 0 then .fixed 0
  else if op.isDirectPush then .fixed op.byte.toNat
  else if op.byte == 0x4c then .counted 1
  else if op.byte == 0x4d then .counted 2
  else if op.byte == 0x4e then .counted 4
  else .absent

end Opcode

end TaprootLab
