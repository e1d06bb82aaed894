import TaprootLab.Assembly.Token

/-!
# Commitment trees

A complete binary tree of SHA-256 digests over a list of values whose number is a power of two.
Values are written like witness elements; each is hashed into a leaf, and neighbours are hashed
together level by level up to one root.

* `length_pairUp`: a level has half as many hashes as the one below it.
-/

namespace TaprootLab

/-- The levels of a tree, the root's first. -/
structure CommitmentTree where
  levels : List (List Bytes)
  deriving DecidableEq, Repr

namespace CommitmentTree

open Assembly (SourceError Position Token tokenize groupValue)

/-- Why a text gives no tree. -/
inductive Error where
  | source (e : SourceError)
  | notAValue (word : String) (position : Position)
  | noLeaves
  | leafCount (count : Nat)
  deriving DecidableEq, Repr

def Error.message : Error → String
  | .source e => e.message
  | .notAValue word position => "'" ++ word ++ "' at " ++ position.toText ++ " is not a leaf value"
  | .noLeaves => "no leaves given"
  | .leafCount count => s!"invalid number of leaves: {count} is not a power of two"

/-- The value that a token commits to. -/
def leafValue (t : Token) : Except Error Bytes :=
  match t.meaning with
  | .bytes data => .ok data
  | .empty => .ok []
  | .group values => .ok (groupValue values)
  | .opcode _ | .signature _ => .error (.notAValue t.text t.position)

/-- The level above: each two neighbours hashed together. -/
def pairUp : List Bytes → List Bytes
  | a :: b :: rest => Hash.sha256 (a ++ b) :: pairUp rest
  | _ => []

theorem length_pairUp (level : List Bytes) : (pairUp level).length = level.length / 2 := by
  fun_induction pairUp level with
  | case1 a b rest ih => simp only [List.length_cons, ih]; omega
  | case2 level h =>
    match level, h with
    | [], _ => rfl
    | [_], _ => simp
    | a :: b :: rest, h => exact absurd rfl (h a b rest)

/-- The levels from the given one up to the root, in front of those below. -/
def raise (level : List Bytes) (below : List (List Bytes)) : List (List Bytes) :=
  if h : level.length ≤ 1 then level :: below
  else
    have : (pairUp level).length < level.length := by
      rw [length_pairUp]
      omega
    raise (pairUp level) (level :: below)
termination_by level.length

def isPowerOfTwo (n : Nat) : Bool := n != 0 && n &&& (n - 1) == 0

def ofValues (values : List Bytes) : Except Error CommitmentTree :=
  if values.isEmpty then .error .noLeaves
  else if !isPowerOfTwo values.length then .error (.leafCount values.length)
  else .ok ⟨raise (values.map Hash.sha256) []⟩

def ofText (text : String) : Except Error CommitmentTree := do
  let tokens ← (tokenize text).mapError .source
  ofValues (← tokens.mapM leafValue)

def root (tree : CommitmentTree) : Bytes := (tree.levels.headD []).headD []

/-- The hashes of the values, in order. -/
def leaves (tree : CommitmentTree) : List Bytes := tree.levels.getLastD []

/-- One line a level, the root's first. -/
def toText (tree : CommitmentTree) : String :=
  "\n".intercalate (tree.levels.map fun level => " ".intercalate (level.map Hex.encode))

end CommitmentTree

end TaprootLab
