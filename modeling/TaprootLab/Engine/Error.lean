/-!
# How a run can fail

A script fails with a cause, in one of the scripts of the spend, at an instruction. A run can also
be stopped from outside, or not start at all.
-/

namespace TaprootLab

/-- Which script of a spend is run. -/
inductive Phase where
  /-- The script in the input, empty for a witness spend. -/
  | scriptSig
  /-- The script of the spent output. -/
  | scriptPubKey
  /-- The leaf that the witness reveals. -/
  | witnessScript
  | other (index : Nat)
  deriving DecidableEq, Repr

namespace Phase

def ofIndex : Nat → Phase
  | 0 => .scriptSig
  | 1 => .scriptPubKey
  | 2 => .witnessScript
  | n => .other n

def index : Phase → Nat
  | .scriptSig => 0
  | .scriptPubKey => 1
  | .witnessScript => 2
  | .other n => n

theorem index_ofIndex (n : Nat) : (ofIndex n).index = n := by
  match n with
  | 0 | 1 | 2 | _ + 3 => rfl

def name : Phase → String
  | .scriptSig => "scriptSig"
  | .scriptPubKey => "scriptPubKey"
  | .witnessScript => "witness script"
  | .other n => s!"script #{n}"

end Phase

inductive ScriptError where
  | evalFalse
  | opReturn
  | pushSize
  | stackSize
  | verify
  | equalVerify
  | checkSigVerify
  | numEqualVerify
  | badOpcode
  | invalidStackOperation
  | invalidAltstackOperation
  | unbalancedConditional
  | negativeLocktime
  | unsatisfiedLocktime
  | minimalData
  | cleanStack
  | discourageUpgradableNops
  | discourageUpgradableTaprootVersion
  | discourageOpSuccess
  | discourageUpgradablePubkeyType
  | witnessProgramWitnessEmpty
  | witnessProgramMismatch
  | witnessMalleated
  | schnorrSigSize
  | schnorrSigHashType
  | schnorrSig
  | taprootWrongControlSize
  | tapscriptValidationWeight
  | tapscriptCheckMultiSig
  | tapscriptMinimalIf
  | tapscriptEmptyPubkey
  | numOverflow
  deriving DecidableEq, Repr

def ScriptError.message : ScriptError → String
  | .evalFalse => "false stack entry at end of script execution"
  | .opReturn => "script returned early"
  | .pushSize => "element exceeds the 520-byte push limit"
  | .stackSize => "combined stack size exceeds 1000 elements"
  | .verify => "OP_VERIFY failed"
  | .equalVerify => "OP_EQUALVERIFY failed"
  | .checkSigVerify => "OP_CHECKSIGVERIFY failed"
  | .numEqualVerify => "OP_NUMEQUALVERIFY failed"
  | .badOpcode => "attempt to execute an invalid or truncated opcode"
  | .invalidStackOperation => "not enough items on the stack"
  | .invalidAltstackOperation => "not enough items on the alt stack"
  | .unbalancedConditional => "conditional without matching OP_IF/OP_ENDIF"
  | .negativeLocktime => "negative lock time"
  | .unsatisfiedLocktime => "lock time requirement not met"
  | .minimalData => "data push or number not minimally encoded"
  | .cleanStack => "stack must hold exactly one element after execution"
  | .discourageUpgradableNops => "upgradable NOP executed"
  | .discourageUpgradableTaprootVersion => "unknown taproot leaf version"
  | .discourageOpSuccess => "OP_SUCCESSx present in tapscript"
  | .discourageUpgradablePubkeyType => "unknown public key type"
  | .witnessProgramWitnessEmpty => "witness program spent with an empty witness"
  | .witnessProgramMismatch => "witness program does not commit to the revealed script"
  | .witnessMalleated => "native witness spend with a non-empty scriptSig"
  | .schnorrSigSize => "schnorr signature is not 64 or 65 bytes"
  | .schnorrSigHashType => "unknown sighash type on schnorr signature"
  | .schnorrSig => "schnorr signature verification failed"
  | .taprootWrongControlSize => "control block has an invalid length"
  | .tapscriptValidationWeight => "signature operations exceed the validation weight budget"
  | .tapscriptCheckMultiSig => "OP_CHECKMULTISIG is disabled in tapscript"
  | .tapscriptMinimalIf => "OP_IF argument must be empty or 0x01"
  | .tapscriptEmptyPubkey => "zero-length public key"
  | .numOverflow => "number operand longer than 4 bytes"

inductive RunError where
  /-- The observer asked for it. -/
  | aborted
  /-- The run could not be started. -/
  | setup (reason : String)
  | script (error : ScriptError) (phase : Phase) (pc : Nat)
  deriving DecidableEq, Repr

def RunError.message : RunError → String
  | .aborted => "execution aborted"
  | .setup reason => "interpreter setup: " ++ reason
  | .script error phase pc => phase.name ++ s!" failed at opcode {pc}: " ++ error.message

end TaprootLab
