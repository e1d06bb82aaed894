import TaprootLab.Curve
import TaprootLab.Hash.Sha256

/-!
# The curve secp256k1 and BIP-340 signatures

Points satisfy y² = x³ + 7 over the integers modulo `p`; the generator has order `n`. Coordinates
are Jacobian, (x, y, z) standing for (x / z², y / z³), so only the step back to x and y divides.
-/

namespace TaprootLab.Secp256k1

/-- The field's prime. -/
def p : Nat := 0xfffffffffffffffffffffffffffffffffffffffffffffffffffffffefffffc2f

/-- The order of the generator. -/
def n : Nat := 0xfffffffffffffffffffffffffffffffebaaedce6af48a03bbfd25e8cd0364141

/-! ## The field -/

def add (a b : Nat) : Nat := (a + b) % p

def sub (a b : Nat) : Nat := (a + (p - b % p)) % p

def mul (a b : Nat) : Nat := a * b % p

/-- `base ^ exponent` modulo `p` by repeated squaring, looking at the low `bits` bits of the
exponent. -/
def powBits : (bits : Nat) → (base exponent acc : Nat) → Nat
  | 0, _, _, acc => acc
  | bits + 1, base, exponent, acc =>
    powBits bits (mul base base) (exponent / 2) (if exponent % 2 = 1 then mul acc base else acc)

def pow (base exponent : Nat) : Nat := powBits 256 base exponent 1

/-- The inverse, by Fermat's little theorem. -/
def inv (a : Nat) : Nat := pow a (p - 2)

/-- The only candidate for a square root that is itself a square: `p` is 3 modulo 4. -/
def sqrtCandidate (a : Nat) : Nat := pow a ((p + 1) / 4)

/-! ## The group -/

/-- A point in Jacobian coordinates; the point at infinity has `z = 0`. -/
structure Point where
  x : Nat
  y : Nat
  z : Nat

def Point.infinity : Point := ⟨1, 1, 0⟩

def Point.isInfinity (a : Point) : Bool := a.z == 0

def generator : Point where
  x := 0x79be667ef9dcbbac55a06295ce870b07029bfcdb2dce28d959f2815b16f81798
  y := 0x483ada7726a3c4655da4fbfc0e1108a8fd17b448a68554199c47d08ffb10d4b8
  z := 1

def Point.double (a : Point) : Point :=
  if a.isInfinity || a.y == 0 then .infinity
  else
    let yy := mul a.y a.y
    let s := mul 4 (mul a.x yy)
    let m := mul 3 (mul a.x a.x)
    let x := sub (mul m m) (mul 2 s)
    ⟨x, sub (mul m (sub s x)) (mul 8 (mul yy yy)), mul 2 (mul a.y a.z)⟩

def Point.add (a b : Point) : Point :=
  if a.isInfinity then b
  else if b.isInfinity then a
  else
    let azz := mul a.z a.z
    let bzz := mul b.z b.z
    let u := mul a.x bzz
    let s := mul a.y (mul bzz b.z)
    let h := sub (mul b.x azz) u
    let r := sub (mul b.y (mul azz a.z)) s
    if h == 0 then
      if r == 0 then a.double else .infinity
    else
      let hh := mul h h
      let hhh := mul h hh
      let v := mul u hh
      let x := sub (sub (mul r r) hhh) (mul 2 v)
      ⟨x, sub (mul r (sub v x)) (mul s hhh), mul h (mul a.z b.z)⟩

/-- Adds the multiple of `a` that the low `bits` bits of `k` give. -/
def Point.timesBits : (bits : Nat) → (k : Nat) → (a acc : Point) → Point
  | 0, _, _, acc => acc
  | bits + 1, k, a, acc =>
    Point.timesBits bits (k / 2) a.double (if k % 2 = 1 then acc.add a else acc)

def Point.times (k : Nat) (a : Point) : Point := Point.timesBits 256 k a .infinity

/-- The two coordinates, or nothing at infinity. -/
def Point.affine? (a : Point) : Option (Nat × Nat) :=
  if a.isInfinity then none
  else
    let i := inv a.z
    let ii := mul i i
    some (mul a.x ii, mul a.y (mul i ii))

/-- The point with the given x coordinate whose y coordinate is even. -/
def liftX? (x : Nat) : Option Point :=
  if p ≤ x then none
  else
    let square := add (mul x (mul x x)) 7
    let y := sqrtCandidate square
    if mul y y == square then some ⟨x, if y % 2 = 0 then y else p - y, 1⟩ else none

/-! ## Keys -/

/-- A number below 2^256 as 32 bytes. -/
def toBytes (a : Nat) : Bytes := Bytes.ofNatBE 32 a

def pointOfKey? (bytes : Bytes) : Option Point :=
  if bytes.length = 32 then liftX? (Bytes.toNatBE bytes) else none

/-- A secret as a scalar between 1 and `n - 1`. -/
def scalar? (secret : Bytes) : Option Nat :=
  let d := Bytes.toNatBE secret
  if secret.length = 32 ∧ 0 < d ∧ d < n then some d else none

def addTweak (key : XOnlyKey) (tweak : Bytes) : Option (XOnlyKey × Bool) := do
  let point ← pointOfKey? key.bytes
  let t := Bytes.toNatBE tweak
  if n ≤ t then none
  else
    let (x, y) ← (point.add (generator.times t)).affine?
    some (⟨toBytes x⟩, y % 2 == 1)

def keyPairOfScalar (d : Nat) : KeyPair :=
  let x := ((generator.times d).affine?.map (·.1)).getD 0
  ⟨toBytes d, ⟨toBytes x⟩⟩

def keyPair? (secret : Bytes) : Option KeyPair := (scalar? secret).map keyPairOfScalar

/-- Random bytes become a scalar between 1 and `n - 1`. -/
def keyPairOfSeed (seed : Bytes) : KeyPair :=
  keyPairOfScalar (1 + Bytes.toNatBE seed % (n - 1))

/-! ## BIP-340 signatures -/

def challenge (r key digest : Bytes) : Nat :=
  Bytes.toNatBE (Hash.tagged "BIP0340/challenge" (r ++ key ++ digest)) % n

/-- The scalar with the given x-only point: `d` itself if d times the generator has an even y
coordinate, else its negative. -/
def evenScalar (d : Nat) : Nat × Bytes :=
  match (generator.times d).affine? with
  | none => (d, toBytes 0)
  | some (x, y) => (if y % 2 = 0 then d else n - d, toBytes x)

/-- The secret masked with the hash of 32 zero bytes, the place of auxiliary randomness. -/
def maskedSecret (d : Nat) : Bytes :=
  List.zipWith (· ^^^ ·) (toBytes d) (Hash.tagged "BIP0340/aux" (List.replicate 32 0))

def sign (pair : KeyPair) (digest : Bytes) : Bytes :=
  let (d, key) := evenScalar (Bytes.toNatBE pair.secret)
  let seed := Hash.tagged "BIP0340/nonce" (maskedSecret d ++ key ++ digest)
  let (k, r) := evenScalar (Bytes.toNatBE seed % n)
  r ++ toBytes ((k + challenge r key digest * d) % n)

def verify (key : XOnlyKey) (digest signature : Bytes) : Bool :=
  let r := signature.take 32
  let s := Bytes.toNatBE (signature.drop 32)
  match pointOfKey? key.bytes with
  | none => false
  | some point =>
    if signature.length ≠ 64 ∨ p ≤ Bytes.toNatBE r ∨ n ≤ s then false
    else
      let e := challenge r key.bytes digest
      match ((generator.times s).add (point.times (n - e))).affine? with
      | none => false
      | some (x, y) => y % 2 == 0 && x == Bytes.toNatBE r

/-- The operations of secp256k1. -/
def curve : Curve where
  isKey bytes := (pointOfKey? bytes).isSome
  addTweak := addTweak
  keyPair? := keyPair?
  keyPairOfSeed := keyPairOfSeed
  sign := sign
  verify := verify

end TaprootLab.Secp256k1
