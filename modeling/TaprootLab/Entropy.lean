import TaprootLab.Hash.Sha256

/-!
# A source of random bytes

A seed stretched by hashing it with a counter. Whoever holds the seed can draw the same bytes again,
so everything that draws from it is a function.
-/

namespace TaprootLab

structure Entropy where
  seed : Bytes
  drawn : Nat
  deriving Repr

def Entropy.ofSeed (seed : Bytes) : Entropy := ⟨seed, 0⟩

/-- The next 32 bytes. -/
def Entropy.draw (e : Entropy) : Bytes × Entropy :=
  (Hash.sha256 (e.seed ++ Bytes.ofNatLE 8 e.drawn), { e with drawn := e.drawn + 1 })

end TaprootLab
