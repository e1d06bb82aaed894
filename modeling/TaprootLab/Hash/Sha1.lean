import TaprootLab.Hash.Words

/-!
# SHA-1

* `length_sha1`: a digest has 20 bytes.
-/

namespace TaprootLab.Hash

namespace Sha1

structure State where
  a : UInt32
  b : UInt32
  c : UInt32
  d : UInt32
  e : UInt32

def start : State where
  a := 0x67452301
  b := 0xefcdab89
  c := 0x98badcfe
  d := 0x10325476
  e := 0xc3d2e1f0

/-- A block's sixteen words extended to the 80 that the rounds use. -/
def schedule (block : Array UInt32) : Array UInt32 :=
  (List.range 64).foldl (fun w i =>
    let x := w.getD (i + 13) 0 ^^^ w.getD (i + 8) 0 ^^^ w.getD (i + 2) 0 ^^^ w.getD i 0
    w.push (rotateLeft x 1)) block

/-- The function and the constant of round `i`; they change every twenty rounds. -/
def mix (i : Nat) (b c d : UInt32) : UInt32 × UInt32 :=
  if i < 20 then ((b &&& c) ||| (~~~b &&& d), 0x5a827999)
  else if i < 40 then (b ^^^ c ^^^ d, 0x6ed9eba1)
  else if i < 60 then ((b &&& c) ||| (b &&& d) ||| (c &&& d), 0x8f1bbcdc)
  else (b ^^^ c ^^^ d, 0xca62c1d6)

def round (i : Nat) (s : State) (w : UInt32) : State :=
  let (f, k) := mix i s.b s.c s.d
  { a := rotateLeft s.a 5 + f + s.e + k + w
    b := s.a, c := rotateLeft s.b 30, d := s.c, e := s.d }

def compress (s : State) (block : Array UInt32) : State :=
  let w := schedule block
  let t := (List.range 80).foldl (fun t i => round i t (w.getD i 0)) s
  { a := s.a + t.a, b := s.b + t.b, c := s.c + t.c, d := s.d + t.d, e := s.e + t.e }

end Sha1

def sha1 (message : Bytes) : Bytes :=
  let s := (blocks .big message).foldl Sha1.compress Sha1.start
  ByteOrder.big.unwords [s.a, s.b, s.c, s.d, s.e]

@[simp] theorem length_sha1 (message : Bytes) : (sha1 message).length = 20 := by
  simp [sha1]

end TaprootLab.Hash
