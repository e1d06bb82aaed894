import TaprootLab.Assembly.Script
import TaprootLab.Assembly.Source
import TaprootLab.Assembly.Token
import TaprootLab.Assembly.Witness
import TaprootLab.Bytes
import TaprootLab.CommandLine.Arguments
import TaprootLab.CommandLine.Command
import TaprootLab.CommandLine.Program
import TaprootLab.CommitmentTree
import TaprootLab.Curve
import TaprootLab.Curve.Secp256k1
import TaprootLab.Display.Labels
import TaprootLab.Display.Table
import TaprootLab.Engine.Error
import TaprootLab.Engine.Machine
import TaprootLab.Engine.Operation
import TaprootLab.Engine.Run
import TaprootLab.Engine.Taproot
import TaprootLab.Entropy
import TaprootLab.FileTree
import TaprootLab.Hash.Ripemd160
import TaprootLab.Hash.Sha1
import TaprootLab.Hash.Sha256
import TaprootLab.Hash.Words
import TaprootLab.Hex
import TaprootLab.Main
import TaprootLab.Numeral
import TaprootLab.Script.Instruction
import TaprootLab.Script.Number
import TaprootLab.Script.Opcode
import TaprootLab.Session
import TaprootLab.Session.Keys
import TaprootLab.Signing.KeyRing
import TaprootLab.Signing.SecretTable
import TaprootLab.Spend
import TaprootLab.Spend.Generated
import TaprootLab.Stepper
import TaprootLab.Stepper.Playback
import TaprootLab.Stepper.Snapshot
import TaprootLab.Taproot.Leaf
import TaprootLab.Taproot.Sighash
import TaprootLab.Taproot.Tree
import TaprootLab.Taproot.TwoStageTweak
import TaprootLab.Text
import TaprootLab.Transaction
import TaprootLab.Transaction.Codec
import TaprootLab.Proofs.Engine.Reel
import TaprootLab.Proofs.Stepper.Film
import TaprootLab.Proofs.Stepper.Cursor
import TaprootLab.Proofs.Engine.Execution
import TaprootLab.Proofs.Engine.Phases
import TaprootLab.Proofs.Engine.Acceptance
import TaprootLab.Proofs.Engine.StackLimit
import TaprootLab.Proofs.Engine.Budget
import TaprootLab.Proofs.Engine.Skipping
import TaprootLab.Proofs.Engine.Itinerary
import TaprootLab.Proofs.Engine.Separators
import TaprootLab.Proofs.Engine.SignaturePolicy
import TaprootLab.Proofs.Engine.Conditionals
import TaprootLab.Proofs.Signing.GeneratedSignatures
import TaprootLab.Proofs.Script.Mnemonics
import TaprootLab.Proofs.Script.Tiling
import TaprootLab.Proofs.Assembly.Words
import TaprootLab.Proofs.Assembly.Recompilation
import TaprootLab.Proofs.Stepper.Visibility
import TaprootLab.Proofs.Stepper.Moves
import TaprootLab.Proofs.Stepper.FailedCompletion
import TaprootLab.Proofs.Stepper.Worker
import TaprootLab.Proofs.Stepper.Protocol
import TaprootLab.Proofs.Stepper.Simulation
import TaprootLab.Proofs.Stepper.Accounts
import TaprootLab.Proofs.Stepper.Interleavings
import TaprootLab.Proofs.Script.Number
import TaprootLab.Proofs.Script.NumberWord
import TaprootLab.Proofs.Engine.Framing
import TaprootLab.Proofs.Signing.Determinism
import TaprootLab.Proofs.Stepper.Imported
import TaprootLab.Proofs.Taproot.Tree
import TaprootLab.Proofs.Taproot.ControlBlock
import TaprootLab.Proofs.Engine.Failures
import TaprootLab.Proofs.Taproot.GeneratedCommitments
import TaprootLab.Proofs.Script.Encoding
import TaprootLab.Proofs.Assembly.Layout
import TaprootLab.Proofs.Assembly.Correspondence
import TaprootLab.Proofs.Engine.Pushing
import TaprootLab.Proofs.Engine.Annex
import TaprootLab.Proofs.Session.Walk
import TaprootLab.Proofs.Signing.Histories
import TaprootLab.Proofs.Assembly.Places
import TaprootLab.Proofs.Assembly.Grammar
import TaprootLab.Proofs.Session.Verdict
import TaprootLab.Proofs.Assembly.Printing
import TaprootLab.Proofs.Script.Coverage
import TaprootLab.Proofs.Engine.LockTimes
import TaprootLab.Proofs.Engine.ValidationWeight
import TaprootLab.Proofs.Engine.Operands
import TaprootLab.Proofs.Engine.Exchanges
import TaprootLab.Proofs.Engine.ItemArray
import TaprootLab.Proofs.Engine.Arithmetic
import TaprootLab.Proofs.Engine.ArithmeticWords
import TaprootLab.Proofs.Engine.ItemSizes
import TaprootLab.Proofs.CommitmentTree.Building
import TaprootLab.Proofs.CommitmentTree.Binding
import TaprootLab.Proofs.Taproot.TwoStageTweak
import TaprootLab.Proofs.Display.Rows
import TaprootLab.Proofs.Signing.InOrder
import TaprootLab.Proofs.Display.Window
import TaprootLab.Proofs.Display.Alignment
import TaprootLab.Proofs.Session.Noise
import TaprootLab.Proofs.Numeral
import TaprootLab.Proofs.Hex
import TaprootLab.Proofs.Script.NumberText
import TaprootLab.Proofs.Signing.SecretText
import TaprootLab.Proofs.Session.Screen
import TaprootLab.Proofs.Session.Redrawing
