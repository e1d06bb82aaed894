import TaprootLab.Numeral
import TaprootLab.Taproot.Sighash
import TaprootLab.Text

/-!
# Spends

A spend is one input of a transaction together with the outputs that all inputs spend. It is
complete before anything is signed or run; only the input's witness is put in later.
-/

namespace TaprootLab

open Taproot

/-- What was being read when reading failed. -/
inductive Source where
  | transaction
  | prevout
  | output
  | publicKey
  deriving DecidableEq, Repr

def Source.name : Source → String
  | .transaction => "transaction"
  | .prevout => "prevout"
  | .output => "output"
  | .publicKey => "public key"

/-- Why it could not be read. -/
inductive ReadFault where
  | hex (e : Hex.Error)
  | codec (e : CodecError)
  | notAKey
  /-- A payment without a colon between key and value. -/
  | noValue (text : String)
  | value (text : String) (e : Numeral.Error)
  deriving DecidableEq, Repr

def ReadFault.message : ReadFault → String
  | .hex e => e.message
  | .codec e => e.message
  | .notAKey => "malformed public key"
  | .noValue text => "expected '<pubkey>:<value>', got '" ++ text ++ "'"
  | .value text e => "value '" ++ text ++ "': " ++ e.message

inductive SpendError where
  | prevoutCount (prevouts inputs : Nat)
  | inputIndex (index inputs : Nat)
  | scriptIndex (index scripts : Nat)
  /-- The internal key cannot be tweaked with the root of the tree. -/
  | untweakable
  | read (source : Source) (fault : ReadFault)
  | sighash (e : SighashError)
  deriving DecidableEq, Repr

def SpendError.message : SpendError → String
  | .prevoutCount prevouts inputs =>
    s!"number of prevouts ({prevouts}) does not match number of inputs ({inputs})"
  | .inputIndex index inputs => s!"input index {index} out of range ({inputs} inputs)"
  | .scriptIndex index scripts => s!"script index {index} out of range ({scripts} scripts)"
  | .untweakable => "taproot tree: the internal key cannot be tweaked"
  | .read source fault => "decoding " ++ source.name ++ ": " ++ fault.message
  | .sighash e => "sighash: " ++ e.message

/-! ## Keys and payments as text -/

/-- A key in hexadecimal. -/
def Curve.readKey (curve : Curve) (text : String) : Except SpendError XOnlyKey :=
  match Hex.decode text with
  | .error e => .error (.read .publicKey (.hex e))
  | .ok bytes =>
    match curve.key? bytes with
    | some key => .ok key
    | none => .error (.read .publicKey .notAKey)

structure Payment where
  key : XOnlyKey
  value : UInt64
  deriving DecidableEq, Repr

namespace Payment

/-- The value of one coin in the smallest unit. -/
def oneCoin : UInt64 := 100000000

def toTxOut (p : Payment) : TxOut := ⟨p.value, outputScript p.key⟩

/-- A payment written as key and value with a colon between them. -/
def ofText (curve : Curve) (text : String) : Except SpendError Payment :=
  match Text.splitOnce? ':' text.toList with
  | none => .error (.read .output (.noValue text))
  | some (key, value) => do
    let key ← curve.readKey (String.ofList key)
    match Numeral.parseUnsigned Numeral.maxWord64 value with
    | .ok n => .ok ⟨key, UInt64.ofNat n⟩
    | .error e => .error (.read .output (.value (String.ofList value) e))

end Payment

/-! ## Spends -/

/-- An input to be authorized. Every input has its spent output, and the index names one of them. -/
structure Spend where
  tx : Transaction
  /-- The outputs that the inputs spend, in the order of the inputs. -/
  prevouts : List TxOut
  index : Nat
  /-- The leaf that script-path signatures commit to, if it is known. -/
  leafHash : Option Bytes
  prevouts_length : prevouts.length = tx.inputs.length
  index_lt : index < tx.inputs.length

namespace Spend

/-- A spend of the input at `index`. -/
def of (tx : Transaction) (prevouts : List TxOut) (index : Nat) : Except SpendError Spend :=
  if hp : prevouts.length = tx.inputs.length then
    if hi : index < tx.inputs.length then .ok ⟨tx, prevouts, index, none, hp, hi⟩
    else .error (.inputIndex index tx.inputs.length)
  else .error (.prevoutCount prevouts.length tx.inputs.length)

/-- A value that fills all the bytes written in hexadecimal, blanks around them aside. -/
def readCoded {α : Type} (source : Source) (read : Reader α) (text : String) :
    Except SpendError α :=
  match Hex.decode (String.ofList (Text.trim text.toList)) with
  | .error e => .error (.read source (.hex e))
  | .ok bytes =>
    match Reader.complete read bytes with
    | .error e => .error (.read source (.codec e))
    | .ok value => .ok value

/-- An input of an existing transaction; the transaction is read before the spent outputs. -/
def ofHex (tx : String) (prevouts : List String) (index : Nat) : Except SpendError Spend := do
  let tx ← readCoded .transaction Reader.transaction tx
  let prevouts ← prevouts.mapM (readCoded .prevout Reader.txOut)
  of tx prevouts index

def withLeaf (spend : Spend) (leafHash : Bytes) : Spend := { spend with leafHash := some leafHash }

/-- The input to be authorized. -/
def input (spend : Spend) : TxIn := spend.tx.inputs.get ⟨spend.index, spend.index_lt⟩

/-- The output that the input spends. -/
def prevout (spend : Spend) : TxOut :=
  spend.prevouts.get ⟨spend.index, spend.prevouts_length ▸ spend.index_lt⟩

def withWitness (spend : Spend) (witness : List Bytes) : Spend where
  tx := { spend.tx with
    inputs := spend.tx.inputs.set spend.index { spend.input with witness := witness } }
  prevouts := spend.prevouts
  index := spend.index
  leafHash := spend.leafHash
  prevouts_length := by simpa using spend.prevouts_length
  index_lt := by simpa using spend.index_lt

def sighash (spend : Spend) (annex : Option Bytes) (leaf : Option LeafPosition)
    (type : SighashType) :
    Except SpendError Bytes :=
  match sighashMessage spend.tx spend.prevouts spend.index spend.input spend.prevout annex
    leaf type with
  | .ok message => .ok (Hash.tagged "TapSighash" message)
  | .error e => .error (.sighash e)

/-- The digest of a signature by the output key. -/
def keySighash (spend : Spend) (type : SighashType) : Except SpendError Bytes :=
  spend.sighash none none type

/-- The digest of a signature in a script in which no code separator was executed. -/
def scriptSighash (spend : Spend) (leafHash : Bytes) (type : SighashType) :
    Except SpendError Bytes :=
  spend.sighash none (some ⟨leafHash, noSeparator⟩) type

end Spend

end TaprootLab
