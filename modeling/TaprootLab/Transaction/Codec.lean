import TaprootLab.Transaction
import TaprootLab.Hash.Sha256

/-!
# Serialized transactions

Counts and lengths are compact sizes: one byte below 253, else a marker byte and two, four or eight
bytes, the fewest that hold the number. Reading is strict: every number in its shortest form, and no
bytes left over.
-/

namespace TaprootLab

/-- A count in its shortest form. -/
def compactSize (n : Nat) : Bytes :=
  if n < 0xfd then [UInt8.ofNat n]
  else if n < 0x10000 then 0xfd :: Bytes.ofNatLE 2 n
  else if n < 0x100000000 then 0xfe :: Bytes.ofNatLE 4 n
  else 0xff :: Bytes.ofNatLE 8 n

/-- Bytes with their length before them. -/
def sized (bytes : Bytes) : Bytes := compactSize bytes.length ++ bytes

/-- A witness: how many elements, then each with its length. -/
def serializeWitness (witness : List Bytes) : Bytes :=
  compactSize witness.length ++ witness.flatMap sized

def OutPoint.serialize (o : OutPoint) : Bytes := o.txid ++ Bytes.ofNatLE 4 o.index.toNat

def TxIn.serialize (i : TxIn) : Bytes :=
  i.previous.serialize ++ sized i.scriptSig ++ Bytes.ofNatLE 4 i.sequence.toNat

def TxOut.serialize (o : TxOut) : Bytes := Bytes.ofNatLE 8 o.value.toNat ++ sized o.scriptPubKey

namespace Transaction

/-- Inputs and outputs, each list with its count before it. -/
def serializeBody (tx : Transaction) : Bytes :=
  compactSize tx.inputs.length ++ tx.inputs.flatMap TxIn.serialize
    ++ compactSize tx.outputs.length ++ tx.outputs.flatMap TxOut.serialize

/-- The form without witnesses, which the transaction id hashes. -/
def serializeStripped (tx : Transaction) : Bytes :=
  Bytes.ofNatLE 4 tx.version.toNat ++ tx.serializeBody ++ Bytes.ofNatLE 4 tx.lockTime.toNat

def hasWitness (tx : Transaction) : Bool := tx.inputs.any fun i => !i.witness.isEmpty

/-- The whole transaction. With a witness, a zero count and a flag stand before the inputs. -/
def serialize (tx : Transaction) : Bytes :=
  if tx.hasWitness then
    Bytes.ofNatLE 4 tx.version.toNat ++ [0, 1] ++ tx.serializeBody
      ++ tx.inputs.flatMap (fun i => serializeWitness i.witness) ++
        Bytes.ofNatLE 4 tx.lockTime.toNat
  else tx.serializeStripped

/-- The transaction id, in the order it is hashed in. -/
def txid (tx : Transaction) : Bytes := Hash.hash256 tx.serializeStripped

end Transaction

/-! ## Reading -/

/-- Why bytes are no transaction or output. -/
inductive CodecError where
  | endOfInput
  | nonMinimalSize
  | oversized (requested : Nat)
  | unknownSegwitFlag (flag : UInt8)
  | emptyWitnesses
  | trailingBytes
  deriving DecidableEq, Repr

/-- The largest size that can be written. -/
def maxSize : Nat := 0xffffffffffffffff

/-- The most bytes that one witness, or one list in a transaction, may ask room for. -/
def maxAllocation : Nat := 4000000

def CodecError.message : CodecError → String
  | .endOfInput => "IO error"
  | .nonMinimalSize => "non-minimal varint"
  | .oversized requested =>
    s!"allocation of oversized vector: requested {requested}, maximum {maxAllocation}"
  | .unknownSegwitFlag flag => s!"unsupported segwit version: {flag}"
  | .emptyWitnesses => "parse failed: witness flag set but no witnesses present"
  | .trailingBytes => "parse failed: data not consumed entirely when explicitly deserializing"

/-- Reads a value off the front of the bytes. -/
abbrev Reader (α : Type) := StateT Bytes (Except CodecError) α

namespace Reader

def take (n : Nat) : Reader Bytes := fun bytes =>
  let front := bytes.take n
  if front.length < n then .error .endOfInput else .ok (front, bytes.drop n)

/-- A little-endian number of `width` bytes. -/
def number (width : Nat) : Reader Nat := return Bytes.toNatLE (← take width)

def byte : Reader UInt8 := return UInt8.ofNat (← number 1)

/-- A number of `width` bytes that no shorter form would hold. -/
def atLeast (least width : Nat) : Reader Nat := do
  let n ← number width
  if n < least then throw .nonMinimalSize else return n

def compactSize : Reader Nat := do
  match ← number 1 with
  | 0xfd => atLeast 0xfd 2
  | 0xfe => atLeast 0x10000 4
  | 0xff => atLeast 0x100000000 8
  | n => return n

def sized : Reader Bytes := do take (← compactSize)

/-- `count` values in a row, in front of those in `done`, the last read first. -/
def repeatOnto {α : Type} (read : Reader α) : (count : Nat) → (done : List α) → Reader (List α)
  | 0, done => fun bytes => .ok (done.reverse, bytes)
  | count + 1, done => fun bytes =>
    match read bytes with
    | .error e => .error e
    | .ok (a, rest) => repeatOnto read count (a :: done) rest

/-- A count and that many values. -/
def list {α : Type} (read : Reader α) : Reader (List α) := do repeatOnto read (← compactSize) []

def outPoint : Reader OutPoint := do
  let txid ← take 32
  return ⟨txid, UInt32.ofNat (← number 4)⟩

/-- An input; its witness comes later, if at all. -/
def txIn : Reader TxIn := do
  let previous ← outPoint
  let scriptSig ← sized
  return ⟨previous, scriptSig, UInt32.ofNat (← number 4), []⟩

def txOut : Reader TxOut := do
  let value ← number 8
  return ⟨UInt64.ofNat value, ← sized⟩

/-- The elements of a witness of `total` elements of which `count` are to come. `room` is the number
of bytes that the index and the elements read so far take; an element that would take the whole past
its bound is refused before any of its bytes is read. -/
def witnessElements (total : Nat) :
    (count room : Nat) → (done : List Bytes) → Reader (List Bytes)
  | 0, _, done => fun bytes => .ok (done.reverse, bytes)
  | count + 1, room, done => fun bytes =>
    match compactSize bytes with
    | .error e => .error e
    | .ok (size, rest) =>
      let required := room + size + (TaprootLab.compactSize size).length
      if maxSize < required then .error (.oversized maxSize)
      else if maxAllocation + 4 * total < required then .error (.oversized required)
      else
        match take size rest with
        | .error e => .error e
        | .ok (element, rest) => witnessElements total count required (element :: done) rest

def witness : Reader (List Bytes) := do
  let total ← compactSize
  if maxAllocation < total then throw (.oversized total)
  else witnessElements total total (4 * total) []

/-- A witness for every input, in order. -/
def witnesses : (inputs done : List TxIn) → Reader (List TxIn)
  | [], done => fun bytes => .ok (done.reverse, bytes)
  | input :: inputs, done => fun bytes =>
    match witness bytes with
    | .error e => .error e
    | .ok (w, rest) => witnesses inputs ({ input with witness := w } :: done) rest

/-- What follows the version: inputs, outputs and witnesses. No inputs where the inputs are expected
means that a flag follows, which has to announce witnesses. -/
def transactionBody : Reader (List TxIn × List TxOut) := do
  let inputs ← list txIn
  if inputs.isEmpty then
    let flag ← byte
    if flag ≠ 1 then throw (.unknownSegwitFlag flag)
    let inputs ← list txIn
    let outputs ← list txOut
    let inputs ← witnesses inputs []
    if !inputs.isEmpty && inputs.all (·.witness.isEmpty) then throw .emptyWitnesses
    return (inputs, outputs)
  else
    return (inputs, ← list txOut)

def transaction : Reader Transaction := do
  let version ← number 4
  let (inputs, outputs) ← transactionBody
  return ⟨UInt32.ofNat version, inputs, outputs, UInt32.ofNat (← number 4)⟩

/-- The value that all of the bytes make up. -/
def complete {α : Type} (read : Reader α) (bytes : Bytes) : Except CodecError α :=
  match read bytes with
  | .error e => .error e
  | .ok (a, rest) => if rest.isEmpty then .ok a else .error .trailingBytes

end Reader

end TaprootLab
