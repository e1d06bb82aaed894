import TaprootLab.Hex
import TaprootLab.Taproot.Leaf

/-!
# Tweaking a key twice

The internal key is first tweaked with the digest of a script's leaf hash and any further
commitment, then with the leaf hash alone. The result is the output key of a tree of that one script
whose internal key carries the commitment.
-/

namespace TaprootLab.Taproot

structure TwoStageTweak where
  internalKey : XOnlyKey
  /-- The root of the tree that holds the script alone. -/
  scriptRoot : Bytes
  merkleRoot : Bytes
  /-- The digest of both roots. -/
  commitment : Bytes
  tweakedKey : XOnlyKey
  outputKey : XOnlyKey
  /-- Whether the output key's y coordinate is odd. -/
  odd : Bool
  deriving DecidableEq, Repr

namespace TwoStageTweak

/-- Both tweaks, or nothing if one of them is no scalar or ends at infinity. -/
def compute (curve : Curve) (script merkleRoot : Bytes) (key : XOnlyKey) :
    Option TwoStageTweak := do
  let scriptRoot := leafHash tapscriptVersion script
  let commitment := Hash.sha256 (scriptRoot ++ merkleRoot)
  let (tweaked, _) ← commit curve key commitment
  let (output, odd) ← commit curve tweaked scriptRoot
  return ⟨key, scriptRoot, merkleRoot, commitment, tweaked, output, odd⟩

/-- One line a value. -/
def lines (t : TwoStageTweak) : List String := [
  "inner internal key: " ++ Hex.encode t.internalKey.bytes,
  "taproot: " ++ Hex.encode t.scriptRoot,
  "merkle root: " ++ Hex.encode t.merkleRoot,
  "commitment (taproot:merkle): " ++ Hex.encode t.commitment,
  "tweaked key: " ++ Hex.encode t.tweakedKey.bytes,
  "taproot output key: " ++ Hex.encode t.outputKey.bytes]

def toText (t : TwoStageTweak) : String := "\n".intercalate t.lines

end TwoStageTweak

end TaprootLab.Taproot
