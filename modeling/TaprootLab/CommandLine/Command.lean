import TaprootLab.CommandLine.Arguments
import TaprootLab.Display.Table

/-!
# Commands

What a command line asks for. A command line that does not fit any command is refused before
anything is done.
-/

namespace TaprootLab.CommandLine

inductive SpendSource where
  | script (source : String)
  | scripts (sources : List String)
  | tx (hex : String)
  deriving DecidableEq, Repr

inductive Payments where
  | toKey (key : String)
  | listed (payments : List String)
  deriving DecidableEq, Repr

structure Execute where
  source : SpendSource
  scriptIndex : Nat
  prevouts : List String
  inputIndex : Nat
  witness : String
  secrets : String
  internalKey : Option String
  payments : Payments
  labelFile : Option String
  columnWidth : Nat
  maxRows : Nat
  skip : Nat
  nonInteractive : Bool
  noStep : Bool
  deriving DecidableEq, Repr

inductive Command where
  /-- Print a script's bytes. -/
  | parse (source : String)
  | execute (options : Execute)
  /-- Print a commitment tree. -/
  | merkle (leaves : String)
  /-- Print new key pairs. -/
  | keys (count : Nat)
  /-- Print both tweaks of a key. -/
  | tweak (key : Option String) (script merkle : String)
  /-- Write an integer as a script number. -/
  | encodeNumber (value : String)
  /-- Read a script number. -/
  | decodeNumber (hex : String)
  deriving DecidableEq, Repr

namespace Command

def parseGrammar : Grammar := ⟨[], 1, false⟩

def merkleGrammar : Grammar := ⟨[{ OptionSpec.single "leaves" with short := some 'l' }], 0, false⟩

def keysGrammar : Grammar := ⟨[{ OptionSpec.single "num" with short := some 'n' }], 0, false⟩

def tweakGrammar : Grammar :=
  ⟨[{ OptionSpec.single "key" with short := some 'k' }, .single "script", .single "merkle"],
    0, false⟩

def numberGrammar : Grammar := ⟨[.single "from"], 1, true⟩

def executeGrammar : Grammar where
  options := [
    .single "script", .many "scripts", .single "script-index", .single "tx", .many "prevouts",
    .single "input-index", .single "witness", .single "privkeys", .single "inputkey",
    .single "outputkey", .many "outputs", .path "tagfile", .single "colwidth", .single "rows",
    .single "skip", { OptionSpec.flag "non-interactive" with alternative := some "ni" },
    { OptionSpec.flag "no-step" with alternative := some "ns" }]
  positionals := 0
  hyphens := false

/-- The one source of the spend; none or several are refused. -/
def spendSource? (given : Given) : Option SpendSource :=
  match given.single? "script", given.has "scripts", given.single? "tx" with
  | some source, false, none => some (.script source)
  | none, true, none => some (.scripts (given.many "scripts"))
  | none, false, some hex => some (.tx hex)
  | _, _, _ => none

def payments? (given : Given) : Option Payments :=
  match given.single? "outputkey", given.has "outputs" with
  | some _, true => none
  | some key, false => some (.toKey key)
  | none, _ => some (.listed (given.many "outputs"))

def execute? (given : Given) : Option Execute := do
  if given.has "inputkey" && given.has "tx" then none
  return {
    source := ← spendSource? given
    scriptIndex := ← given.number? "script-index" 0
    prevouts := given.many "prevouts"
    inputIndex := ← given.number? "input-index" 0
    witness := given.text "witness" ""
    secrets := given.text "privkeys" ""
    internalKey := given.single? "inputkey"
    payments := ← payments? given
    labelFile := given.single? "tagfile"
    columnWidth := ← given.number? "colwidth" Table.defaultColumnWidth
    maxRows := ← given.number? "rows" Table.defaultMaxRows
    skip := ← given.number? "skip" 0
    nonInteractive := given.has "non-interactive"
    noStep := given.has "no-step" }

/-- An integer to be written, or a script number to be read, but not both. -/
def number? (given : Given) : Option Command :=
  match given.positionals, given.single? "from" with
  | [value], none => some (.encodeNumber value)
  | [], some hex => some (.decodeNumber hex)
  | _, _ => none

def ofArguments? : List String → Option Command
  | [] => none
  | name :: args =>
    match name with
    | "parse" => do
      let given ← parseGrammar.read? .empty args
      given.positionals.head?.map .parse
    | "execute" => do
      let given ← executeGrammar.read? .empty args
      (execute? given).map .execute
    | "merkle" => do
      let given ← merkleGrammar.read? .empty args
      (given.single? "leaves").map .merkle
    | "keys" => do
      let given ← keysGrammar.read? .empty args
      (given.number? "num" 1).map .keys
    | "tweak" => do
      let given ← tweakGrammar.read? .empty args
      return .tweak (given.single? "key") (← given.single? "script") (← given.single? "merkle")
    | "scriptnum" => do
      let given ← numberGrammar.read? .empty args
      number? given
    | _ => none

end Command

end TaprootLab.CommandLine
