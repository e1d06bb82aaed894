import TaprootLab.Hash.Ripemd160
import TaprootLab.Hash.Sha1
import TaprootLab.Script.Number
import TaprootLab.Script.Opcode

/-!
# What opcodes do

The meaning of an opcode byte under the tapscript rules, sorted into families that share their way
of taking operands: opcodes that move stack items, functions of one and of two numbers, digests,
signature checks and control flow.
-/

namespace TaprootLab

/-- Opcodes that only move or copy stack items. -/
inductive StackOp where
  | toAlt
  | fromAlt
  | drop2
  | dup2
  | dup3
  | over2
  | rot2
  | swap2
  | ifDup
  | depth
  | drop
  | dup
  | nip
  | over
  | pick
  | roll
  | rot
  | swap
  | tuck
  | size
  deriving DecidableEq, Repr

inductive UnaryOp where
  | increment
  | decrement
  | negate
  | abs
  | not
  | notZero
  deriving DecidableEq, Repr

inductive BinaryOp where
  | add
  | sub
  | boolAnd
  | boolOr
  | numEqual
  | numNotEqual
  | less
  | greater
  | lessOrEqual
  | greaterOrEqual
  | min
  | max
  deriving DecidableEq, Repr

inductive DigestOp where
  | ripemd160
  | sha1
  | sha256
  | hash160
  | hash256
  deriving DecidableEq, Repr

/-- What is done with the outcome of a signature check. -/
inductive SignatureUse where
  | push
  | verify
  | add
  deriving DecidableEq, Repr

def truthNumber (b : Bool) : Int := if b then 1 else 0

def UnaryOp.eval (op : UnaryOp) (n : Int) : Int :=
  match op with
  | .increment => n + 1
  | .decrement => n - 1
  | .negate => -n
  | .abs => (n.natAbs : Int)
  | .not => truthNumber (n == 0)
  | .notZero => truthNumber (n != 0)

def BinaryOp.eval (op : BinaryOp) (a b : Int) : Int :=
  match op with
  | .add => a + b
  | .sub => a - b
  | .boolAnd => truthNumber (a != 0 && b != 0)
  | .boolOr => truthNumber (a != 0 || b != 0)
  | .numEqual => truthNumber (a == b)
  | .numNotEqual => truthNumber (a != b)
  | .less => truthNumber (a < b)
  | .greater => truthNumber (b < a)
  | .lessOrEqual => truthNumber (a ≤ b)
  | .greaterOrEqual => truthNumber (b ≤ a)
  | .min => if a ≤ b then a else b
  | .max => if a ≤ b then b else a

def DigestOp.eval (op : DigestOp) (item : Bytes) : Bytes :=
  match op with
  | .ripemd160 => Hash.ripemd160 item
  | .sha1 => Hash.sha1 item
  | .sha256 => Hash.sha256 item
  | .hash160 => Hash.hash160 item
  | .hash256 => Hash.hash256 item

/-- The meaning of an opcode without data of its own. -/
inductive Operation where
  | number (n : Int)
  | nop
  /-- Does nothing today and is refused, because it may get a meaning. -/
  | upgradableNop
  | lockTimeVerify
  | sequenceVerify
  /-- Opens a conditional; `negated` runs the first branch on a false argument. -/
  | openBranch (negated : Bool)
  | elseBranch
  | closeBranch
  | verify
  | giveUp
  | stack (op : StackOp)
  | equal
  | equalVerify
  | unary (op : UnaryOp)
  | binary (op : BinaryOp)
  | numEqualVerify
  | within
  | digest (op : DigestOp)
  | codeSeparator
  | checkSig (use : SignatureUse)
  /-- Refused even where it is skipped. -/
  | checkMultiSig
  /-- Conditionals on the version, refused even where they are skipped. -/
  | versionBranch
  | invalid
  deriving DecidableEq, Repr

/-- Whether the operation is looked at in a branch that is skipped. -/
def Operation.isConditional : Operation → Bool
  | .openBranch _ | .elseBranch | .closeBranch => true
  | _ => false

namespace Opcode

/-- What an opcode does if it pushes no data of its own. -/
def operation (op : Opcode) : Operation :=
  if op.isSmallNumber then .number (op.byte.toNat - 0x50 : Nat)
  else
    match op.byte with
    | 0x4f => .number (-1)
    | 0x61 => .nop
    | 0x63 => .openBranch false
    | 0x64 => .openBranch true
    | 0x65 => .versionBranch
    | 0x66 => .versionBranch
    | 0x67 => .elseBranch
    | 0x68 => .closeBranch
    | 0x69 => .verify
    | 0x6a => .giveUp
    | 0x6b => .stack .toAlt
    | 0x6c => .stack .fromAlt
    | 0x6d => .stack .drop2
    | 0x6e => .stack .dup2
    | 0x6f => .stack .dup3
    | 0x70 => .stack .over2
    | 0x71 => .stack .rot2
    | 0x72 => .stack .swap2
    | 0x73 => .stack .ifDup
    | 0x74 => .stack .depth
    | 0x75 => .stack .drop
    | 0x76 => .stack .dup
    | 0x77 => .stack .nip
    | 0x78 => .stack .over
    | 0x79 => .stack .pick
    | 0x7a => .stack .roll
    | 0x7b => .stack .rot
    | 0x7c => .stack .swap
    | 0x7d => .stack .tuck
    | 0x82 => .stack .size
    | 0x87 => .equal
    | 0x88 => .equalVerify
    | 0x8b => .unary .increment
    | 0x8c => .unary .decrement
    | 0x8f => .unary .negate
    | 0x90 => .unary .abs
    | 0x91 => .unary .not
    | 0x92 => .unary .notZero
    | 0x93 => .binary .add
    | 0x94 => .binary .sub
    | 0x9a => .binary .boolAnd
    | 0x9b => .binary .boolOr
    | 0x9c => .binary .numEqual
    | 0x9d => .numEqualVerify
    | 0x9e => .binary .numNotEqual
    | 0x9f => .binary .less
    | 0xa0 => .binary .greater
    | 0xa1 => .binary .lessOrEqual
    | 0xa2 => .binary .greaterOrEqual
    | 0xa3 => .binary .min
    | 0xa4 => .binary .max
    | 0xa5 => .within
    | 0xa6 => .digest .ripemd160
    | 0xa7 => .digest .sha1
    | 0xa8 => .digest .sha256
    | 0xa9 => .digest .hash160
    | 0xaa => .digest .hash256
    | 0xab => .codeSeparator
    | 0xac => .checkSig .push
    | 0xad => .checkSig .verify
    | 0xae => .checkMultiSig
    | 0xaf => .checkMultiSig
    | 0xb0 => .upgradableNop
    | 0xb1 => .lockTimeVerify
    | 0xb2 => .sequenceVerify
    | 0xb3 => .upgradableNop
    | 0xb4 => .upgradableNop
    | 0xb5 => .upgradableNop
    | 0xb6 => .upgradableNop
    | 0xb7 => .upgradableNop
    | 0xb8 => .upgradableNop
    | 0xb9 => .upgradableNop
    | 0xba => .checkSig .add
    | _ => .invalid

/-- Whether the byte makes a tapscript that contains it valid whatever else it holds. -/
def isSuccess (op : Opcode) : Bool :=
  let b := op.byte
  b == 0x50 || b == 0x62 || (0x7e ≤ b && b ≤ 0x81) || (0x83 ≤ b && b ≤ 0x86)
    || (0x89 ≤ b && b ≤ 0x8a) || (0x8d ≤ b && b ≤ 0x8e) || (0x95 ≤ b && b ≤ 0x99)
    || (0xbb ≤ b && b ≤ 0xfe)

/-- The bytes are those that BIP-342 lists. -/
theorem isSuccess_iff (op : Opcode) :
    op.isSuccess = true ↔ op.byte.toNat = 80 ∨ op.byte.toNat = 98 ∨
      126 ≤ op.byte.toNat ∧ op.byte.toNat ≤ 129 ∨ 131 ≤ op.byte.toNat ∧ op.byte.toNat ≤ 134 ∨
      137 ≤ op.byte.toNat ∧ op.byte.toNat ≤ 138 ∨ 141 ≤ op.byte.toNat ∧ op.byte.toNat ≤ 142 ∨
      149 ≤ op.byte.toNat ∧ op.byte.toNat ≤ 153 ∨ 187 ≤ op.byte.toNat ∧ op.byte.toNat ≤ 254 := by
  simp only [isSuccess, Bool.or_eq_true, Bool.and_eq_true, decide_eq_true_eq, beq_iff_eq,
    UInt8.le_iff_toNat_le, ← UInt8.toNat_inj, or_assoc]
  rfl

/-- Whether an opcode pushes data in the shortest way there is for it. -/
def pushesMinimally (op : Opcode) (data : Bytes) : Bool :=
  match data with
  | [] => op.byte == 0x00
  | [n] =>
    if 1 ≤ n ∧ n ≤ 16 then op.byte == 0x50 + n
    else if n = 0x81 then op.byte == 0x4f
    else op.byte == 1
  | _ =>
    if data.length ≤ 75 then op.byte.toNat == data.length
    else if data.length ≤ 255 then op.byte == 0x4c
    else if data.length ≤ 65535 then op.byte == 0x4d
    else true

end Opcode

end TaprootLab
