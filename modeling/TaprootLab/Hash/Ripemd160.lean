import TaprootLab.Hash.Sha256

/-!
# RIPEMD-160

Two lines of eighty steps run over the same block with different word orders, shifts and constants;
their results are added crosswise to the state.

* `length_ripemd160`, `length_hash160`: a digest has 20 bytes.
-/

namespace TaprootLab.Hash

namespace Ripemd160

structure State where
  a : UInt32
  b : UInt32
  c : UInt32
  d : UInt32
  e : UInt32

def start : State where
  a := 0x67452301
  b := 0xefcdab89
  c := 0x98badcfe
  d := 0x10325476
  e := 0xc3d2e1f0

/-- What one line of steps uses: which word, how far it is rotated, and the constant of each sixteen
steps. `reversed` runs the five mixing functions from last to first. -/
structure Line where
  words : Array Nat
  shifts : Array UInt32
  constants : Array UInt32
  reversed : Bool

def left : Line where
  words := #[
    0, 1, 2, 3, 4, 5, 6, 7, 8, 9, 10, 11, 12, 13, 14, 15,
    7, 4, 13, 1, 10, 6, 15, 3, 12, 0, 9, 5, 2, 14, 11, 8,
    3, 10, 14, 4, 9, 15, 8, 1, 2, 7, 0, 6, 13, 11, 5, 12,
    1, 9, 11, 10, 0, 8, 12, 4, 13, 3, 7, 15, 14, 5, 6, 2,
    4, 0, 5, 9, 7, 12, 2, 10, 14, 1, 3, 8, 11, 6, 15, 13]
  shifts := #[
    11, 14, 15, 12, 5, 8, 7, 9, 11, 13, 14, 15, 6, 7, 9, 8,
    7, 6, 8, 13, 11, 9, 7, 15, 7, 12, 15, 9, 11, 7, 13, 12,
    11, 13, 6, 7, 14, 9, 13, 15, 14, 8, 13, 6, 5, 12, 7, 5,
    11, 12, 14, 15, 14, 15, 9, 8, 9, 14, 5, 6, 8, 6, 5, 12,
    9, 15, 5, 11, 6, 8, 13, 12, 5, 12, 13, 14, 11, 8, 5, 6]
  constants := #[0x00000000, 0x5a827999, 0x6ed9eba1, 0x8f1bbcdc, 0xa953fd4e]
  reversed := false

def right : Line where
  words := #[
    5, 14, 7, 0, 9, 2, 11, 4, 13, 6, 15, 8, 1, 10, 3, 12,
    6, 11, 3, 7, 0, 13, 5, 10, 14, 15, 8, 12, 4, 9, 1, 2,
    15, 5, 1, 3, 7, 14, 6, 9, 11, 8, 12, 2, 10, 0, 4, 13,
    8, 6, 4, 1, 3, 11, 15, 0, 5, 12, 2, 13, 9, 7, 10, 14,
    12, 15, 10, 4, 1, 5, 8, 7, 6, 2, 13, 14, 0, 3, 9, 11]
  shifts := #[
    8, 9, 9, 11, 13, 15, 15, 5, 7, 7, 8, 11, 14, 14, 12, 6,
    9, 13, 15, 7, 12, 8, 9, 11, 7, 7, 12, 7, 6, 15, 13, 11,
    9, 7, 15, 11, 8, 6, 6, 14, 12, 13, 5, 14, 13, 13, 7, 5,
    15, 5, 8, 11, 14, 14, 6, 14, 6, 9, 12, 9, 12, 5, 15, 8,
    8, 5, 12, 9, 12, 5, 14, 6, 8, 13, 6, 5, 15, 13, 11, 11]
  constants := #[0x50a28be6, 0x5c4dd124, 0x6d703ef3, 0x7a6d76e9, 0x00000000]
  reversed := true

/-- The five mixing functions. -/
def mix (group : Nat) (x y z : UInt32) : UInt32 :=
  match group with
  | 0 => x ^^^ y ^^^ z
  | 1 => (x &&& y) ||| (~~~x &&& z)
  | 2 => (x ||| ~~~y) ^^^ z
  | 3 => (x &&& z) ||| (y &&& ~~~z)
  | _ => x ^^^ (y ||| ~~~z)

def Line.step (line : Line) (block : Array UInt32) (s : State) (i : Nat) : State :=
  let group := i / 16
  let f := mix (if line.reversed then 4 - group else group) s.b s.c s.d
  let x := block.getD (line.words.getD i 0) 0
  let t := rotateLeft (s.a + f + x + line.constants.getD group 0) (line.shifts.getD i 0) + s.e
  { a := s.e, b := t, c := s.b, d := rotateLeft s.c 10, e := s.d }

def compress (s : State) (block : Array UInt32) : State :=
  let l := (List.range 80).foldl (left.step block) s
  let r := (List.range 80).foldl (right.step block) s
  { a := s.b + l.c + r.d
    b := s.c + l.d + r.e
    c := s.d + l.e + r.a
    d := s.e + l.a + r.b
    e := s.a + l.b + r.c }

end Ripemd160

def ripemd160 (message : Bytes) : Bytes :=
  let s := (blocks .little message).foldl Ripemd160.compress Ripemd160.start
  ByteOrder.little.unwords [s.a, s.b, s.c, s.d, s.e]

@[simp] theorem length_ripemd160 (message : Bytes) : (ripemd160 message).length = 20 := by
  simp [ripemd160]

/-- RIPEMD-160 of SHA-256. -/
def hash160 (message : Bytes) : Bytes := ripemd160 (sha256 message)

@[simp] theorem length_hash160 (message : Bytes) : (hash160 message).length = 20 := by
  simp [hash160]

end TaprootLab.Hash
