import TaprootLab.Bytes

/-!
# Transactions

The parts of a transaction that a taproot spend commits to or carries. A transaction is kept as its
fields; its serialized forms are in `Transaction.Codec`.
-/

namespace TaprootLab

/-- An output of an earlier transaction. The transaction id is in the order it is hashed in. -/
structure OutPoint where
  txid : Bytes
  index : UInt32
  deriving DecidableEq, Repr

/-- The outpoint that names no output. -/
def OutPoint.null : OutPoint := ⟨List.replicate 32 0, 0xffffffff⟩

structure TxIn where
  previous : OutPoint
  scriptSig : Bytes
  sequence : UInt32
  witness : List Bytes
  deriving DecidableEq, Repr

/-- An input that spends nothing in particular and sets no lock. -/
def TxIn.blank : TxIn := ⟨.null, [], 0xffffffff, []⟩

structure TxOut where
  value : UInt64
  scriptPubKey : Bytes
  deriving DecidableEq, Repr

structure Transaction where
  version : UInt32
  inputs : List TxIn
  outputs : List TxOut
  lockTime : UInt32
  deriving DecidableEq, Repr

/-- The version as the signed number that it is compared as. -/
def Transaction.signedVersion (tx : Transaction) : Int := tx.version.toInt32.toInt

end TaprootLab
