import TaprootLab.Engine.Machine
import TaprootLab.Spend

/-!
# Running a taproot spend

The script in the input has to be empty and the output's script to name a key. The witness then
holds either one signature by that key, or a script with the proof that the key commits to it and
the items that the script runs on. Policy is that of a node that relays nothing with undefined
meaning.
-/

namespace TaprootLab

open Taproot

/-! ## Signatures -/

/-- What every signature check of a script is made against. -/
structure SignatureScope where
  curve : Curve
  spend : Spend
  annex : Option Bytes
  /-- The hash of the leaf that is run, nothing outside of a leaf. -/
  leafHash : Option Bytes

/-- What one check of a signature that is not empty takes from the budget. -/
def weightPerSignature : Int := 50

/-- The type that a signature of the right size carries. -/
def signatureType (signature : Bytes) : Except ScriptError SighashType :=
  match signature.drop 64 with
  | [] => if signature.length = 64 then .ok .default else .error .schnorrSigSize
  | [0] => .error .schnorrSigHashType
  | [b] =>
    match SighashType.ofByte? b with
    | some type => .ok type
    | none => .error .schnorrSigHashType
  | _ => .error .schnorrSigSize

/-- The budget after a check; only leaves have one. -/
def SignatureScope.charge (scope : SignatureScope) (budget : Int) : Except ScriptError Int :=
  if scope.leafHash.isNone then .ok budget
  else if budget < weightPerSignature then .error .tapscriptValidationWeight
  else .ok (budget - weightPerSignature)

/-- Checks a signature. The empty signature is a no that costs nothing; any other has to be
valid. -/
def SignatureScope.check (scope : SignatureScope) : SignatureCheck :=
  fun budget separator signature key => do
    if signature.isEmpty then return (false, budget)
    let budget ← scope.charge budget
    if key.length ≠ 32 then throw .discourageUpgradablePubkeyType
    let type ← signatureType signature
    let leaf := scope.leafHash.map fun hash =>
      LeafPosition.mk hash ((separator.map UInt32.ofNat).getD noSeparator)
    match scope.spend.sighash scope.annex leaf type with
    | .error _ => throw .schnorrSigHashType
    | .ok digest =>
      match scope.curve.key? key with
      | none => throw .schnorrSig
      | some key =>
        if scope.curve.verify key digest (signature.take 64) then return (true, budget)
        else throw .schnorrSig

/-- The environment of the scripts of a spend. -/
def SignatureScope.env (scope : SignatureScope) : Env where
  signedVersion := scope.spend.tx.signedVersion
  lockTime := scope.spend.tx.lockTime
  sequence := scope.spend.input.sequence
  checkSignature := scope.check

/-! ## The witness -/

/-- A witness without its annex, and the annex: the last of at least two elements, if it starts with
the tag. -/
def splitAnnex (witness : List Bytes) : List Bytes × Option Bytes :=
  match witness.reverse with
  | last :: before :: rest =>
    if last.head? = some annexTag then ((before :: rest).reverse, some last) else (witness, none)
  | _ => (witness, none)

/-- A script that the witness reveals, ready to be run. -/
structure LeafRun where
  script : Bytes
  /-- The items that the script finds, listed from the top. -/
  stack : List Bytes
  annex : Option Bytes
  budget : Int
  deriving DecidableEq, Repr

/-- The budget that a witness pays for. -/
def signatureBudget (witness : List Bytes) : Int := (serializeWitness witness).length + 50

/-- The first instruction that keeps a leaf from being run: one that is cut short, or one that would
make the leaf valid whatever it holds. -/
def unrunnable? : (pc : Nat) → List Instruction → Option (ScriptError × Nat)
  | _, [] => none
  | pc, i :: rest =>
    if i.truncated then some (.badOpcode, pc)
    else if i.opcode.isSuccess then some (.discourageOpSuccess, pc)
    else unrunnable? (pc + 1) rest

/-- The error of a witness that does not fit its output, reported at the end of the output's
script. -/
def programError (e : ScriptError) : RunError := .script e .scriptPubKey 2

/-- Checks the one signature of a key spend. -/
def authorizeKey (scope : SignatureScope) (output : XOnlyKey) (signature : Bytes) :
    Except RunError Unit :=
  match scope.check 0 none signature output.bytes with
  | .ok (true, _) => .ok ()
  | .ok (false, _) => .error (programError .schnorrSig)
  | .error e => .error (programError e)

/-- Checks that the output commits to the script and that the script may be run. -/
def authorizeScript (curve : Curve) (output : XOnlyKey) (control script : Bytes)
    (stack : List Bytes) : Except RunError Unit := do
  match ControlBlock.ofBytes? curve control with
  | none => throw (programError .taprootWrongControlSize)
  | some block =>
    if !block.proves curve output script then throw (programError .witnessProgramMismatch)
    if block.leafVersion ≠ tapscriptVersion then
      throw (programError .discourageUpgradableTaprootVersion)
  match unrunnable? 0 (Script.decode script) with
  | some (e, pc) => throw (.script e .witnessScript pc)
  | none =>
    if stack.any fun item => maxItemSize < item.length then
      throw (.script .pushSize .witnessScript 0)

/-- Reads a witness against the output that it spends: nothing more to do for a key spend, or the
leaf to be run. -/
def authorize (curve : Curve) (spend : Spend) (witness : List Bytes) :
    Except RunError (Option LeafRun) := do
  match curve.key? (spend.prevout.scriptPubKey.drop 2) with
  | none => throw (programError .witnessProgramMismatch)
  | some output =>
    let (elements, annex) := splitAnnex witness
    match elements.reverse with
    | [] => throw (programError .witnessProgramWitnessEmpty)
    | [signature] =>
      authorizeKey ⟨curve, spend, annex, none⟩ output signature
      return none
    | control :: script :: stack =>
      authorizeScript curve output control script stack
      return some ⟨script, stack, annex, signatureBudget witness⟩

/-! ## The run -/

/-- The end of a leaf: exactly one item, and a true one. -/
def verdict (script : Bytes) (m : Machine) : Run Unit :=
  let stop := (Script.decode script).length
  match m.stack with
  | [] => failAt 2 stop .evalFalse
  | [top] => if ScriptNumber.truthy top then .done (.ok ()) else failAt 2 stop .evalFalse
  | _ => failAt 2 stop .cleanStack

def LeafRun.run (leaf : LeafRun) (curve : Curve) (spend : Spend) : Run Unit :=
  let scope : SignatureScope :=
    ⟨curve, spend, leaf.annex, some (leafHash tapscriptVersion leaf.script)⟩
  ((Machine.start leaf.stack leaf.budget).run scope.env 2 leaf.script).bind (verdict leaf.script)

/-- Runs the spend of a taproot output with the given witness in its input. The first two scripts
run on stacks of their own. -/
def runTaproot (curve : Curve) (spend : Spend) (witness : List Bytes) : Run Unit :=
  let spend := spend.withWitness witness
  let env := SignatureScope.env ⟨curve, spend, none, none⟩
  let scriptSig := spend.input.scriptSig
  ((Machine.start [] 0).run env 0 scriptSig).bind fun _ =>
    if !scriptSig.isEmpty then failAt 0 0 .witnessMalleated
    else
      ((Machine.start [] 0).run env 1 spend.prevout.scriptPubKey).bind fun _ =>
        match authorize curve spend witness with
        | .error e => .fail e
        | .ok none => .done (.ok ())
        | .ok (some leaf) => leaf.run curve spend

/-- Something that runs spends, or refuses to start. -/
structure Interpreter where
  start : Spend → (witness : List Bytes) → Except RunError (Run Unit)

def taprootInterpreter (curve : Curve) : Interpreter where
  start spend witness :=
    if isOutputScript spend.prevout.scriptPubKey then .ok (runTaproot curve spend witness)
    else .error (.setup s!"prevout {spend.index} is not a taproot output")

end TaprootLab
