import TaprootLab.Bytes

/-!
# Keys on an elliptic curve

What the rest of the library needs to know of a curve: which byte strings are keys, how a key is
tweaked, and how signatures are made and checked. The operations come as one record, so everything
that is built on them can be run with `Secp256k1.curve` and reasoned about for any curve with stated
laws.
-/

namespace TaprootLab

/-- The 32-byte x coordinate of a curve point; the point meant is the one whose y coordinate is
even. -/
structure XOnlyKey where
  bytes : Bytes
  deriving DecidableEq, Repr

/-- A secret scalar with its public key. -/
structure KeyPair where
  secret : Bytes
  xOnly : XOnlyKey
  deriving DecidableEq, Repr

structure Curve where
  /-- Whether 32 bytes are the x coordinate of a point. -/
  isKey : Bytes → Bool
  /-- The key plus the tweak times the generator, and whether its y coordinate is odd. Nothing if
  the tweak is no scalar or the sum is the point at infinity. -/
  addTweak : XOnlyKey → Bytes → Option (XOnlyKey × Bool)
  /-- The key pair of 32 bytes that are a scalar other than zero. -/
  keyPair? : Bytes → Option KeyPair
  /-- A key pair drawn from 32 random bytes, whatever they are. -/
  keyPairOfSeed : Bytes → KeyPair
  /-- A 64-byte signature over a 32-byte digest, always the same for the same key and digest. -/
  sign : KeyPair → (digest : Bytes) → Bytes
  /-- Whether 64 bytes are a signature over the digest by the key. -/
  verify : XOnlyKey → (digest signature : Bytes) → Bool

namespace Curve

def key? (curve : Curve) (bytes : Bytes) : Option XOnlyKey :=
  if curve.isKey bytes then some ⟨bytes⟩ else none

theorem key?_eq_some_iff {curve : Curve} {bytes : Bytes} {key : XOnlyKey} :
    curve.key? bytes = some key ↔ curve.isKey bytes = true ∧ key = ⟨bytes⟩ := by
  unfold key?
  split
  case isTrue h => simp [h, eq_comm]
  case isFalse h => simp [h]

/-- Whether tweaking `key` gives the point with x coordinate `output` and the stated parity. -/
def checkTweak (curve : Curve) (key : XOnlyKey) (tweak : Bytes) (output : XOnlyKey)
    (odd : Bool) : Bool :=
  curve.addTweak key tweak == some (output, odd)

end Curve

end TaprootLab
