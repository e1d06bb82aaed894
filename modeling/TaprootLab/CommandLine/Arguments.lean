import TaprootLab.Numeral
import TaprootLab.Text

/-!
# Command-line arguments

Options with one value, with many values separated by commas, or without a value, each given as two
hyphens and a name or one hyphen and a letter, mixed with positional arguments. An argument that
starts with a hyphen is taken for an option, unless the command says that its positional argument
may look like that; after a lone pair of hyphens everything is positional.
-/

namespace TaprootLab.CommandLine

inductive OptionKind where
  | flag
  | single
  /-- One value, which is not empty. -/
  | path
  | many
  deriving DecidableEq, Repr

structure OptionSpec where
  name : String
  kind : OptionKind
  short : Option Char
  /-- A second long name. -/
  alternative : Option String
  deriving DecidableEq, Repr

def OptionSpec.flag (name : String) : OptionSpec := ⟨name, .flag, none, none⟩

def OptionSpec.single (name : String) : OptionSpec := ⟨name, .single, none, none⟩

def OptionSpec.path (name : String) : OptionSpec := ⟨name, .path, none, none⟩

def OptionSpec.many (name : String) : OptionSpec := ⟨name, .many, none, none⟩

/-- The arguments that a command takes. -/
structure Grammar where
  options : List OptionSpec
  /-- The most positional arguments. -/
  positionals : Nat
  /-- Whether a positional argument may start with a hyphen. -/
  hyphens : Bool

structure Given where
  /-- Each value under the name of its option; a flag has an empty one. -/
  values : List (String × String)
  positionals : List String
  deriving DecidableEq, Repr

inductive Argument where
  | separator
  | long (name : String) (value : Option String)
  | short (letter : Char) (rest : List Char)
  | plain
  deriving DecidableEq, Repr

/-- What an argument looks like. A lone hyphen is a plain argument. -/
def Argument.of (arg : String) : Argument :=
  match arg.toList with
  | ['-', '-'] => .separator
  | '-' :: '-' :: cs =>
    match Text.splitOnce? '=' cs with
    | some (name, value) => .long (String.ofList name) (some (String.ofList value))
    | none => .long (String.ofList cs) none
  | '-' :: c :: rest => .short c rest
  | _ => .plain

namespace Grammar

def long? (g : Grammar) (name : String) : Option OptionSpec :=
  g.options.find? fun o => o.name == name || o.alternative == some name

def short? (g : Grammar) (letter : Char) : Option OptionSpec :=
  g.options.find? fun o => o.short == some letter

def option? (g : Grammar) (arg : String) : Option OptionSpec :=
  match Argument.of arg with
  | .long name _ => g.long? name
  | .short letter _ => g.short? letter
  | .separator | .plain => none

/-- Whether an argument is a value and no option. -/
def isValue (g : Grammar) (given : Given) (arg : String) : Bool :=
  match Argument.of arg with
  | .plain => true
  | .separator => false
  | .long _ _ | .short _ _ =>
    g.hyphens && given.positionals.length < g.positionals && (g.option? arg).isNone

/-- Takes the value of an option that may come once. -/
def putOnce? (given : Given) (o : OptionSpec) (value : String) : Option Given :=
  if given.values.any (·.1 == o.name) then none
  else some { given with values := given.values ++ [(o.name, value)] }

/-- Takes one value of an option. Only an option with many values may come again. -/
def put? (given : Given) (o : OptionSpec) (value : String) : Option Given :=
  match o.kind with
  | .many =>
    let pieces := (Text.splitOn ',' value.toList).map fun p => (o.name, String.ofList p)
    some { given with values := given.values ++ pieces }
  | .path => if value.isEmpty then none else putOnce? given o value
  | .flag | .single => putOnce? given o value

def putPositional? (g : Grammar) (given : Given) (arg : String) : Option Given :=
  if given.positionals.length < g.positionals then
    some { given with positionals := given.positionals ++ [arg] }
  else none

/-- The value that is joined to a short option: what follows its letter, an equals sign aside. -/
def joined? : List Char → Option String
  | [] => none
  | '=' :: rest => some (String.ofList rest)
  | rest => some (String.ofList rest)

/-- The value that an argument carries for the option that it names. -/
def ownValue? (arg : String) : Option String :=
  match Argument.of arg with
  | .long _ value => value
  | .short _ rest => joined? rest
  | .separator | .plain => none

/-- Reads arguments from left to right. -/
def read? (g : Grammar) (given : Given) : List String → Option Given
  | [] => some given
  | arg :: rest =>
    if g.isValue given arg then
      match g.putPositional? given arg with
      | some given => read? g given rest
      | none => none
    else
      match Argument.of arg, g.option? arg with
      | .separator, _ => rest.foldlM (fun given arg => g.putPositional? given arg) given
      | _, none => none
      | _, some o =>
        match o.kind, ownValue? arg with
        | .flag, some _ => none
        | .flag, none =>
          match put? given o "" with
          | some given => read? g given rest
          | none => none
        | _, some value =>
          match put? given o value with
          | some given => read? g given rest
          | none => none
        | _, none =>
          match rest with
          | [] => none
          | value :: rest =>
            if g.isValue given value then
              match put? given o value with
              | some given => read? g given rest
              | none => none
            else none

end Grammar

namespace Given

def empty : Given := ⟨[], []⟩

def has (given : Given) (name : String) : Bool := given.values.any (·.1 == name)

def single? (given : Given) (name : String) : Option String := given.values.lookup name

def text (given : Given) (name default : String) : String := (given.single? name).getD default

def many (given : Given) (name : String) : List String :=
  given.values.filterMap fun (n, value) => if n == name then some value else none

/-- A number, or nothing if what was given is none. -/
def number? (given : Given) (name : String) (default : Nat) : Option Nat :=
  match given.single? name with
  | none => some default
  | some text => (Numeral.parseUnsigned Numeral.maxWord64 text.toList).toOption

end Given

end TaprootLab.CommandLine
