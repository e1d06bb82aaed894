import TaprootLab.Entropy
import TaprootLab.Spend
import TaprootLab.Taproot.Tree

/-!
# Spends made up around scripts

A tree of scripts is committed to by an output key, and a transaction is made up that spends outputs
paying to that key. One script is the one to be run: it and its control block are the end of the
witness.
-/

namespace TaprootLab

open Taproot

/-- A made-up spend of one script out of a tree. -/
structure GeneratedSpend where
  spend : Spend
  /-- The script that is revealed. -/
  script : Bytes
  control : ControlBlock
  internalKey : XOnlyKey
  outputKey : XOnlyKey
  root : Bytes

/-- Random bytes for the keys that are not given. -/
structure Seeds where
  internalKey : Bytes
  payment : Bytes

def Seeds.draw (e : Entropy) : Seeds × Entropy :=
  let (a, e) := e.draw
  let (b, e) := e.draw
  (⟨a, b⟩, e)

namespace GeneratedSpend

/-- The last two elements of the witness. -/
def trailer (g : GeneratedSpend) : List Bytes := [g.script, g.control.toBytes]

/-- A transaction with `count` blank inputs. -/
def transaction (count : Nat) (payments : List Payment) : Transaction where
  version := 2
  inputs := List.replicate count .blank
  outputs := payments.map Payment.toTxOut
  lockTime := 0

/-- The spend of the input at `index` of a transaction whose inputs, `index + 1` of them, all spend
one coin paid to `outputKey`. -/
def spendOf (outputKey : XOnlyKey) (payments : List Payment) (index : Nat) (leafHash : Bytes) :
    Spend where
  tx := transaction (index + 1) payments
  prevouts := List.replicate (index + 1) ⟨Payment.oneCoin, outputScript outputKey⟩
  index := index
  leafHash := some leafHash
  prevouts_length := by simp [transaction]
  index_lt := by simp [transaction]

/-- Commits to `scripts` and spends the one at `scriptIndex`. A key that is not given is drawn from
its seed; with no payments, one coin is paid to a key drawn likewise. -/
def build (curve : Curve) (seeds : Seeds) (scripts : List Bytes) (scriptIndex inputIndex : Nat)
    (internalKey : Option XOnlyKey) (payments : List Payment) : Except SpendError GeneratedSpend :=
  match scripts, scripts[scriptIndex]? with
  | first :: others, some script =>
    let key := match internalKey with
      | some key => key
      | none => (curve.keyPairOfSeed seeds.internalKey).xOnly
    let payments := match payments with
      | [] => [⟨(curve.keyPairOfSeed seeds.payment).xOnly, Payment.oneCoin⟩]
      | _ => payments
    let tree := Node.ofScripts first others
    match tree.path? script, commit curve key tree.hash with
    | some path, some (outputKey, odd) =>
      .ok {
        spend := spendOf outputKey payments inputIndex (leafHash tapscriptVersion script)
        script
        control := ⟨tapscriptVersion, odd, key, path⟩
        internalKey := key
        outputKey
        root := tree.hash }
    | _, _ => .error .untweakable
  | _, _ => .error (.scriptIndex scriptIndex scripts.length)

end GeneratedSpend

end TaprootLab
