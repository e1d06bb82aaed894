import TaprootLab.Taproot.Leaf

/-!
# Trees of leaf scripts

Scripts are merged two at a time, the lightest nodes first and among equals the one with the largest
hash, until one node is left. A node remembers the way from each of its scripts to itself.

* `length_takeFirst`: choosing a node leaves one node fewer.
-/

namespace TaprootLab.Taproot

/-- A tree of scripts, seen from its root. -/
structure Node where
  weight : Nat
  hash : Bytes
  /-- Every script below with the hashes beside its way up to this node. -/
  leaves : List (Bytes × List Bytes)
  deriving Repr

namespace Node

def leaf (script : Bytes) : Node := ⟨1, leafHash tapscriptVersion script, [(script, [])]⟩

/-- Two nodes under a common parent. -/
def join (a b : Node) : Node where
  weight := a.weight + b.weight
  hash := branchHash a.hash b.hash
  leaves :=
    a.leaves.map (fun (script, path) => (script, path ++ [b.hash]))
      ++ b.leaves.map fun (script, path) => (script, path ++ [a.hash])

/-- Whether `a` is merged before `b`. -/
def precedes (a b : Node) : Bool :=
  a.weight < b.weight || (a.weight == b.weight && decide (b.hash < a.hash))

/-- The node that is merged first, and the others. -/
def takeFirst : Node → List Node → Node × List Node
  | first, [] => (first, [])
  | first, node :: rest =>
    if node.precedes first then
      let (best, others) := takeFirst node rest
      (best, first :: others)
    else
      let (best, others) := takeFirst first rest
      (best, node :: others)

theorem length_takeFirst (first : Node) (nodes : List Node) :
    (takeFirst first nodes).2.length = nodes.length := by
  induction nodes generalizing first with
  | nil => rfl
  | cons node rest ih =>
    unfold takeFirst
    split <;> simp [ih]

def merge (node : Node) (others : List Node) : Node :=
  match h : takeFirst node others with
  | (a, []) => a
  | (a, next :: rest) =>
    have : (takeFirst next rest).2.length < others.length := by
      have := length_takeFirst node others
      simp only [h, List.length_cons] at this
      rw [length_takeFirst]
      omega
    merge (a.join (takeFirst next rest).1) (takeFirst next rest).2
termination_by others.length

/-- The tree over scripts, the first of which is given apart. -/
def ofScripts (first : Bytes) (others : List Bytes) : Node :=
  merge (leaf first) (others.map leaf)

/-- The better of two ways: the shorter, of equally long ones the smaller. -/
def shorterPath (a b : List Bytes) : List Bytes :=
  if b.length < a.length ∨ (b.length = a.length ∧ b < a) then b else a

/-- The best way up from a script, which may stand in the tree more than once. -/
def path? (node : Node) (script : Bytes) : Option (List Bytes) :=
  match node.leaves.filterMap fun (s, path) => if s = script then some path else none with
  | [] => none
  | path :: paths => some (paths.foldl shorterPath path)

end Node

end TaprootLab.Taproot
