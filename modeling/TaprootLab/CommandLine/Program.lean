import TaprootLab.CommandLine.Command
import TaprootLab.CommitmentTree
import TaprootLab.Curve.Secp256k1
import TaprootLab.Session
import TaprootLab.Taproot.TwoStageTweak

/-!
# Carrying out a command

A command reads files, writes text, and ends with an exit code. How files are read is left open, so
the program is the same over real files and over a made-up directory. A session with a terminal is
handed back to the caller, who has the terminal.
-/

namespace TaprootLab.CommandLine

variable {m : Type → Type} [Monad m]

/-- How the program reaches what is outside of it. -/
structure Host (m : Type → Type) where
  /-- The bytes of a file, or the reason why it cannot be read. -/
  readFile : String → m (Except FileError Bytes)
  /-- Whether a user sits at a terminal. -/
  terminal : Bool
  /-- Whether labels are coloured. -/
  coloured : Bool

structure Report where
  code : Nat
  out : String
  err : String
  deriving DecidableEq, Repr

/-- A command at work: it has written some text and may fail with a message. -/
abbrev Job (m : Type → Type) := ExceptT String (StateT String m)

/-! ## Text -/

def bold (host : Host m) (colour : Nat) (text : String) : String :=
  if host.coloured then s!"\x1b[1;{colour}m" ++ text ++ "\x1b[0m" else text

def green : Nat := 32

def yellow : Nat := 33

def red : Nat := 31

/-- A label on the left of what it announces. -/
def labelled (host : Host m) (colour : Nat) (label content : String) : String :=
  bold host colour (String.ofList (Text.padLeft 12 label.toList)) ++ "  " ++ content ++ "\n"

/-- What the program says of a command line that it cannot read. -/
def usage : String :=
  "usage: parse FILE|TEXT\n"
    ++ "       execute (--script FILE|TEXT | --scripts FILE,... | --tx HEX) [options]\n"
    ++ "       merkle --leaves TEXT\n"
    ++ "       keys [--num N]\n"
    ++ "       tweak [--key HEX] --script FILE|TEXT --merkle FILE|HEX\n"
    ++ "       scriptnum (VALUE | --from HEX)\n"

namespace Job

def write (text : String) : Job m Unit := modify (· ++ text)

def announce (host : Host m) (label content : String) : Job m Unit :=
  write (labelled host green label content)

/-- The value of a computation whose errors have a message. -/
def orFail {α ε : Type} (message : ε → String) : Except ε α → Job m α
  | .ok a => pure a
  | .error e => throw (message e)

def source (host : Host m) (argument : String) : Job m String := do
  let content ← host.readFile argument
  return Assembly.sourceOf argument content.toOption

end Job

open Job

/-- The curve that the program works on. -/
def curve : Curve := Secp256k1.curve

def scriptBytes (host : Host m) (argument : String) : Job m Bytes := do
  orFail Assembly.SourceError.message (Assembly.assemble (← source host argument))

/-! ## Commands -/

def parse (host : Host m) (argument : String) : Job m Unit := do
  announce host "Parsed" (Hex.encode (← scriptBytes host argument))

def merkle (leaves : String) : Job m Unit := do
  let tree ← orFail CommitmentTree.Error.message (CommitmentTree.ofText leaves)
  write (tree.toText ++ "\n")

/-- Draws `count` key pairs and writes each on a line. -/
def writeKeys : (count : Nat) → Entropy → Job m Unit
  | 0, _ => pure ()
  | count + 1, entropy => do
    let (seed, entropy) := entropy.draw
    let pair := curve.keyPairOfSeed seed
    write (Hex.encode pair.secret ++ "," ++ Hex.encode pair.xOnly.bytes ++ "\n")
    writeKeys count entropy

def keys (entropy : Entropy) (count : Nat) : Job m Unit := do
  if count = 0 then throw "number of keys must be positive"
  writeKeys count entropy

/-- The key of an option, or a drawn one. -/
def keyOr (entropy : Entropy) : Option String → Job m XOnlyKey
  | some text => orFail SpendError.message (curve.readKey text)
  | none => pure (curve.keyPairOfSeed entropy.draw.1).xOnly

def tweak (host : Host m) (entropy : Entropy) (key : Option String) (script merkle : String) :
    Job m Unit := do
  let script ← scriptBytes host script
  let root := String.ofList (Text.trim (← source host merkle).toList)
  let root ← orFail (fun (e : Hex.Error) => "merkle root: " ++ e.message) (Hex.decode root)
  let key ← keyOr entropy key
  match Taproot.TwoStageTweak.compute curve script root key with
  | some t => write (t.toText ++ "\n")
  | none => throw SpendError.untweakable.message

def encodeNumber (value : String) : Job m Unit := do
  let item ← orFail ScriptNumber.Error.message (ScriptNumber.ofText value)
  write (Hex.encode item ++ "\n")

def decodeNumber (hex : String) : Job m Unit := do
  let n ← orFail ScriptNumber.Error.message (ScriptNumber.ofHex hex)
  write (s!"{n}" ++ "\n")

/-! ## Executing a spend -/

def existingPlan (host : Host m) (e : Execute) (tx : String) : Job m Plan := do
  let spend ← orFail SpendError.message (Spend.ofHex tx e.prevouts e.inputIndex)
  let txid := Hex.encode spend.tx.txid.reverse
  announce host "Executing" (s!"input #{e.inputIndex} of " ++ txid)
  return .ofSpend spend

def readPayments : Payments → Job m (List Payment)
  | .toKey key => do
    return [⟨← orFail SpendError.message (curve.readKey key), Payment.oneCoin⟩]
  | .listed payments => payments.mapM fun p => orFail SpendError.message (Payment.ofText curve p)

/-- The plan of a made-up spend of one of the scripts. -/
def generatedPlan (host : Host m) (seeds : Seeds) (e : Execute) (arguments : List String) :
    Job m Plan := do
  let sources ← arguments.mapM (source host)
  let scripts ← sources.mapM fun text =>
      orFail Assembly.SourceError.message (Assembly.assemble text)
  let witness ← source host e.witness
  let parts ← orFail Assembly.SourceError.message (Assembly.readWitness witness)
  let internalKey ← e.internalKey.mapM fun key => orFail SpendError.message (curve.readKey key)
  let payments ← readPayments e.payments
  if let some script := scripts[e.scriptIndex]? then
    announce host "Script" (Assembly.scriptText script)
  announce host "Witness" (Assembly.witnessText parts)
  let g ← orFail SpendError.message
    (GeneratedSpend.build curve seeds scripts e.scriptIndex e.inputIndex internalKey payments)
  announce host "Internal key" (Hex.encode g.internalKey.bytes)
  announce host "Output key" (Hex.encode g.outputKey.bytes)
  announce host "Merkle root" (Hex.encode g.root)
  return .ofGenerated g parts

def planOf (host : Host m) (seeds : Seeds) (e : Execute) : Job m Plan :=
  match e.source with
  | .tx hex => existingPlan host e hex
  | .script argument => generatedPlan host seeds e [argument]
  | .scripts arguments => generatedPlan host seeds e arguments

structure Ready where
  style : TableStyle
  options : SessionOptions
  stepper : Stepper Entropy KeyPair

/-- Everything up to the first step. Label file and keys are read before the spend is made. -/
def prepare (host : Host m) (entropy : Entropy) (e : Execute) : Job m Ready := do
  let labels ← match e.labelFile with
    | some path => do orFail LabelError.message (Labels.ofFile path (← host.readFile path))
    | none => pure Labels.empty
  let table ← orFail SigningError.message (SecretTable.ofText e.secrets)
  let (seeds, entropy) := Seeds.draw entropy
  let plan ← planOf host seeds e
  let ring := KeyRing.of (schnorrSigner curve) entropy table
  return {
    style := ⟨e.columnWidth, e.maxRows, labels⟩
    options := ⟨!e.nonInteractive, e.noStep, e.skip⟩
    stepper := .of (taprootInterpreter curve) ring plan }

/-! ## The whole program -/

def failure (host : Host m) (out message : String) : Report :=
  ⟨1, out, bold host red "error" ++ ": " ++ message ++ "\n"⟩

def sessionReport (host : Host m) (out : String) : Except SessionError Ending → Report
  | .ok .verified => ⟨0, out ++ labelled host green "ok" "script execution verified", ""⟩
  | .ok (.failed e) => failure host out e.message
  | .ok .cancelled => ⟨130, out, labelled host yellow "cancelled" "execution aborted"⟩
  | .error e => failure host out e.message

/-- How far the program gets on its own: to its end, or to a session that needs its terminal. -/
inductive Progress where
  | finished (report : Report)
  | interactive (out : String) (ready : Ready)

/-- Runs a job that writes everything it has to say. -/
def conclude (host : Host m) (job : Job m Unit) : m Progress := do
  match ← job.run.run "" with
  | (.ok (), out) => return .finished ⟨0, out, ""⟩
  | (.error message, out) => return .finished (failure host out message)

/-- Executes a spend. A session that waits for keys is refused without a terminal. -/
def execute (host : Host m) (entropy : Entropy) (e : Execute) : m Progress := do
  match ← (prepare host entropy e).run.run "" with
  | (.error message, out) => return .finished (failure host out message)
  | (.ok ready, out) =>
    if ready.options.interactive && !ready.options.noStep then
      if host.terminal then return .interactive out ready
      else
        return .finished
          (failure host out "interactive stepping needs a terminal, use --non-interactive")
    else
      let report := Session.run ready.style ready.options none [] ready.stepper
      return .finished (sessionReport host (out ++ report.written) report.result)

def run (host : Host m) (entropy : Entropy) (arguments : List String) : m Progress :=
  match Command.ofArguments? arguments with
  | none => return .finished ⟨2, "", usage⟩
  | some (.parse argument) => conclude host (parse host argument)
  | some (.execute e) => execute host entropy e
  | some (.merkle leaves) => conclude host (merkle leaves)
  | some (.keys count) => conclude host (keys entropy count)
  | some (.tweak key script root) => conclude host (tweak host entropy key script root)
  | some (.encodeNumber value) => conclude host (encodeNumber value)
  | some (.decodeNumber hex) => conclude host (decodeNumber hex)

end TaprootLab.CommandLine
