import TaprootLab.Assembly.Token

/-!
# Witness text

A witness is written as a list of parts. All but the signatures are known as soon as they are read;
a signature waits until the transaction that it signs is there.
-/

namespace TaprootLab

/-- One element of a witness, as far as it is known before signing. -/
inductive WitnessPart where
  | literal (data : Bytes)
  | empty
  /-- A signature by the key with the given identifier. -/
  | signature (id : String)
  deriving DecidableEq, Repr

def WitnessPart.toText : WitnessPart → String
  | .literal data => Hex.encode data
  | .empty => "<>"
  | .signature id => "<sig:" ++ id ++ ">"

namespace Assembly

def Token.witnessPart (t : Token) : Except SourceError WitnessPart :=
  match t.meaning with
  | .empty => .ok .empty
  | .bytes data => .ok (.literal data)
  | .group values => .ok (.literal (groupValue values))
  | .signature id => .ok (.signature id)
  | .opcode _ => .error (t.reject .opcodeInWitness)

def readWitness (text : String) : Except SourceError (List WitnessPart) := do
  (← tokenize text).mapM Token.witnessPart

/-- The parts as text, with a space between them. -/
def witnessText (parts : List WitnessPart) : String :=
  " ".intercalate (parts.map WitnessPart.toText)

end Assembly

end TaprootLab
