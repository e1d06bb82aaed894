import TaprootLab.Curve
import TaprootLab.Transaction.Codec

/-!
# Taproot outputs and the scripts they commit to

An output key commits to a tree of scripts by being the internal key tweaked with the tree's root. A
control block shows how one script leads to the root.
-/

namespace TaprootLab.Taproot

/-- The leaf version of scripts that run under the tapscript rules. -/
def tapscriptVersion : UInt8 := 0xc0

/-- The first byte of an annex. No leaf version may be equal to it. -/
def annexTag : UInt8 := 0x50

def leafHash (version : UInt8) (script : Bytes) : Bytes :=
  Hash.tagged "TapLeaf" (version :: sized script)

/-- The hash of an inner node. The smaller child stands first, so no side needs to be known. -/
def branchHash (a b : Bytes) : Bytes :=
  Hash.tagged "TapBranch" (if a < b then a ++ b else b ++ a)

/-- What the internal key is tweaked with to commit to a root. -/
def tweakHash (key : XOnlyKey) (root : Bytes) : Bytes := Hash.tagged "TapTweak" (key.bytes ++ root)

/-- The script of an output that pays to a key. -/
def outputScript (key : XOnlyKey) : Bytes := 0x51 :: 0x20 :: key.bytes

def isOutputScript (script : Bytes) : Bool := script.length == 34 && script.take 2 == [0x51, 0x20]

/-- The internal key tweaked with a root, and whether its y coordinate is odd. -/
def commit (curve : Curve) (key : XOnlyKey) (root : Bytes) : Option (XOnlyKey × Bool) :=
  curve.addTweak key (tweakHash key root)

/-- The proof that a script belongs to an output. -/
structure ControlBlock where
  leafVersion : UInt8
  /-- Whether the output key's y coordinate is odd. -/
  odd : Bool
  internalKey : XOnlyKey
  /-- The hashes beside the way from the leaf to the root, the leaf's sibling first. -/
  path : List Bytes
  deriving DecidableEq, Repr

namespace ControlBlock

/-- The longest way from a leaf to the root. -/
def maxDepth : Nat := 128

/-- The version and the parity share a byte. -/
def firstByte (c : ControlBlock) : UInt8 := c.leafVersion ||| if c.odd then 1 else 0

def toBytes (c : ControlBlock) : Bytes := c.firstByte :: c.internalKey.bytes ++ c.path.flatten

/-- Reads a control block whose internal key is a key of the curve. -/
def ofBytes? (curve : Curve) : Bytes → Option ControlBlock
  | [] => none
  | first :: rest =>
    let path := rest.drop 32
    let version := first &&& 0xfe
    if rest.length < 32 ∨ path.length % 32 ≠ 0 ∨ maxDepth < path.length / 32 then none
    else if version = annexTag then none
    else
      (curve.key? (rest.take 32)).map fun key =>
        ⟨version, first &&& 1 == 1, key, Bytes.chunks 32 path⟩

/-- The root that the path leads to from a script. -/
def root (c : ControlBlock) (script : Bytes) : Bytes :=
  c.path.foldl branchHash (leafHash c.leafVersion script)

/-- Whether an output key commits to the script. -/
def proves (curve : Curve) (c : ControlBlock) (output : XOnlyKey) (script : Bytes) : Bool :=
  curve.checkTweak c.internalKey (tweakHash c.internalKey (c.root script)) output c.odd

end ControlBlock

end TaprootLab.Taproot
