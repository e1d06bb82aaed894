import TaprootLab.Bytes

/-!
# Words of a hashed message

SHA-256, SHA-1 and RIPEMD-160 share one frame: the message is padded to whole blocks of 64 bytes,
each block is read as sixteen words of 32 bits, and a state is carried from block to block. They
differ in the byte order of the words.
-/

namespace TaprootLab.Hash

/-- The order of the bytes in a word and in the message length. -/
inductive ByteOrder where
  | big
  | little
  deriving DecidableEq, Repr

/-- The low `width` bytes of `n` in the given order. -/
def ByteOrder.write (order : ByteOrder) (width n : Nat) : Bytes :=
  match order with
  | .big => Bytes.ofNatBE width n
  | .little => Bytes.ofNatLE width n

def ByteOrder.word (order : ByteOrder) (a b c d : UInt8) : UInt32 :=
  match order with
  | .big => a.toUInt32 <<< 24 ||| b.toUInt32 <<< 16 ||| c.toUInt32 <<< 8 ||| d.toUInt32
  | .little => d.toUInt32 <<< 24 ||| c.toUInt32 <<< 16 ||| b.toUInt32 <<< 8 ||| a.toUInt32

/-- Reads four bytes a word and drops what is left. -/
def ByteOrder.words (order : ByteOrder) : Bytes → List UInt32
  | a :: b :: c :: d :: rest => order.word a b c d :: order.words rest
  | _ => []

/-- The four bytes of each word. -/
def ByteOrder.unwords (order : ByteOrder) (words : List UInt32) : Bytes :=
  words.flatMap fun w => order.write 4 w.toNat

@[simp] theorem ByteOrder.length_write (order : ByteOrder) (width n : Nat) :
    (order.write width n).length = width := by
  cases order <;> simp [ByteOrder.write]

@[simp] theorem ByteOrder.length_unwords (order : ByteOrder) (words : List UInt32) :
    (order.unwords words).length = 4 * words.length := by
  induction words with
  | nil => rfl
  | cons w rest ih =>
    have : (List.flatMap (fun w => order.write 4 w.toNat) rest).length = 4 * rest.length := ih
    simp [ByteOrder.unwords, this]
    omega

/-- The message, a set bit, zeros up to 56 bytes past a block boundary, and the bit length. -/
def pad (order : ByteOrder) (message : Bytes) : Bytes :=
  let zeros := (119 - message.length % 64) % 64
  message ++ 0x80 :: List.replicate zeros 0 ++ order.write 8 (8 * message.length)

/-- The sixteen-word blocks of the padded message. -/
def blocks (order : ByteOrder) (message : Bytes) : List (Array UInt32) :=
  (Bytes.chunks 16 (order.words (pad order message))).map List.toArray

def rotateLeft (x n : UInt32) : UInt32 := x <<< n ||| x >>> (32 - n)

def rotateRight (x n : UInt32) : UInt32 := x >>> n ||| x <<< (32 - n)

end TaprootLab.Hash
