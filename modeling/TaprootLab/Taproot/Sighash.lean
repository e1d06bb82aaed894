import TaprootLab.Hex
import TaprootLab.Taproot.Leaf

/-!
# The digest that a taproot signature signs

BIP-341 and BIP-342: a tagged hash over the parts of the transaction that the sighash type selects,
the spent outputs, the annex if there is one and, in a script spend, the leaf and the position of
the last executed code separator.
-/

namespace TaprootLab.Taproot

/-- Which outputs a signature commits to. -/
inductive OutputScope where
  | all
  | none
  | single
  deriving DecidableEq, Repr

/-- What a signature commits to. The default type means all outputs and leaves no byte behind. -/
inductive SighashType where
  | default
  | select (outputs : OutputScope) (anyoneCanPay : Bool)
  deriving DecidableEq, Repr

namespace SighashType

def outputs : SighashType → OutputScope
  | .default => .all
  | .select scope _ => scope

/-- Whether the signature leaves the other inputs open. -/
def anyoneCanPay : SighashType → Bool
  | .default => false
  | .select _ open_ => open_

def ofByte? : UInt8 → Option SighashType
  | 0x00 => some .default
  | 0x01 => some (.select .all false)
  | 0x02 => some (.select .none false)
  | 0x03 => some (.select .single false)
  | 0x81 => some (.select .all true)
  | 0x82 => some (.select .none true)
  | 0x83 => some (.select .single true)
  | _ => none

def byte : SighashType → UInt8
  | .default => 0x00
  | .select scope open_ =>
    let base := match scope with
      | .all => 0x01
      | .none => 0x02
      | .single => 0x03
    if open_ then base ||| 0x80 else base

theorem ofByte?_byte (t : SighashType) : ofByte? t.byte = some t := by
  match t with
  | .default => rfl
  | .select .all b | .select .none b | .select .single b => cases b <;> rfl

end SighashType

/-- Why there is nothing to sign. -/
inductive SighashError where
  /-- The type selects the output beside the input, and there is none. -/
  | singleWithoutOutput
  | emptyAnnex
  | annexTag (first : UInt8)
  deriving DecidableEq, Repr

def SighashError.message : SighashError → String
  | .singleWithoutOutput => "sighash single"
  | .emptyAnnex => "the annex is empty"
  | .annexTag first =>
    "incorrect prefix byte in the annex " ++ Hex.encode [first] ++ ", expecting 0x50"

/-- The leaf that a script spend commits to, and the position of the last executed code
separator. -/
structure LeafPosition where
  leafHash : Bytes
  separator : UInt32
  deriving DecidableEq, Repr

/-- The position that stands for no code separator. -/
def noSeparator : UInt32 := 0xffffffff

/-- An annex is refused unless it starts with its tag. -/
def checkAnnex : Option Bytes → Except SighashError Unit
  | none => .ok ()
  | some [] => .error .emptyAnnex
  | some (first :: _) => if first = annexTag then .ok () else .error (.annexTag first)

def allInputs (tx : Transaction) (prevouts : List TxOut) : Bytes :=
  Hash.sha256 (tx.inputs.flatMap fun i => i.previous.serialize)
    ++ Hash.sha256 (prevouts.flatMap fun o => Bytes.ofNatLE 8 o.value.toNat)
    ++ Hash.sha256 (prevouts.flatMap fun o => sized o.scriptPubKey)
    ++ Hash.sha256 (tx.inputs.flatMap fun i => Bytes.ofNatLE 4 i.sequence.toNat)

/-- The digested message. `input` and `prevout` are what stands at `index`. -/
def sighashMessage (tx : Transaction) (prevouts : List TxOut) (index : Nat) (input : TxIn)
    (prevout : TxOut) (annex : Option Bytes) (leaf : Option LeafPosition) (type : SighashType) :
    Except SighashError Bytes := do
  checkAnnex annex
  let single ←
    if type.outputs = .single then
      match tx.outputs[index]? with
      | some output => pure (Hash.sha256 output.serialize)
      | none => throw .singleWithoutOutput
    else pure []
  let spendType : UInt8 := (if leaf.isSome then 2 else 0) + if annex.isSome then 1 else 0
  let whole :=
    [0x00, type.byte] ++ Bytes.ofNatLE 4 tx.version.toNat ++ Bytes.ofNatLE 4 tx.lockTime.toNat
      ++ (if type.anyoneCanPay then [] else allInputs tx prevouts)
      ++ if type.outputs = .all then Hash.sha256 (tx.outputs.flatMap TxOut.serialize) else []
  let own :=
    if type.anyoneCanPay then
      input.previous.serialize ++ prevout.serialize ++ Bytes.ofNatLE 4 input.sequence.toNat
    else Bytes.ofNatLE 4 index
  let annexDigest := match annex with
    | some bytes => Hash.sha256 (sized bytes)
    | none => []
  let leafPart := match leaf with
    | some l => l.leafHash ++ 0x00 :: Bytes.ofNatLE 4 l.separator.toNat
    | none => []
  return whole ++ spendType :: own ++ annexDigest ++ single ++ leafPart

end TaprootLab.Taproot
