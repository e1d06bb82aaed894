import TaprootLab.CommandLine.Program

/-!
# The program

Files, the terminal and random bytes; all decisions are made by `CommandLine.run` and by the
session.
-/

namespace TaprootLab.CommandLine

/-- Why a file cannot be read. The number of a cause comes as it is or negated. -/
def reasonOf (e : IO.Error) : FileError :=
  match e with
  | .noFileOrDirectory .. => .missing
  | .permissionDenied .. => .refused
  | .inappropriateType _ number _ | .invalidArgument _ number _ =>
    match (min number (0 - number)).toNat with
    | 20 => .notFolder
    | 21 => .isFolder
    | 36 => .nameTooLong
    | _ => .other (toString e)
  | _ => .other (toString e)

def readFile (path : String) : IO (Except FileError Bytes) := do
  try
    let content ← IO.FS.readBinFile path
    return .ok content.toList
  catch e => return .error (reasonOf e)

/-- The next key that the user presses, or nothing at the end of the input. `pending` is what has
been read and is no key yet. -/
partial def nextKey (input : IO.FS.Stream) (pending : Bytes) : IO (Option Key) := do
  match readKey pending with
  | some (key, _) => return some key
  | none =>
    let more ← input.read 1
    if more.isEmpty then return none else nextKey input (pending ++ more.toList)

/-- A session with the user: each key is answered before the next one is read. -/
partial def converse {σ κ : Type} (input output : IO.FS.Stream) (style : TableStyle) :
    Session.Progress σ κ → IO (Except SessionError Ending)
  | .over result _ => return result
  | .waiting w => do
    let (text, progress) ←
      try
        match ← nextKey input [] with
        | some key => pure (w.press style key)
        | none => pure w.giveUp
      catch e => pure ("", .over (.error (.input (toString e))) w.stepper)
    output.putStr text
    output.flush
    converse input output style progress

def finish (report : Report) : IO UInt32 := do
  IO.print report.out
  IO.eprint report.err
  return UInt32.ofNat report.code

end TaprootLab.CommandLine

open TaprootLab TaprootLab.CommandLine in
/-- Runs the command line; the answer is the exit code. -/
def main (arguments : List String) : IO UInt32 := do
  let input ← IO.getStdin
  let output ← IO.getStdout
  let coloured ← output.isTty
  let host : Host IO := ⟨readFile, coloured && (← input.isTty), coloured⟩
  let entropy := Entropy.ofSeed (← IO.getRandomBytes 32).toList
  match ← run host entropy arguments with
  | .finished report => finish report
  | .interactive out ready =>
    let (text, progress) := Session.begin ready.style ready.options ready.stepper
    output.putStr (out ++ text)
    output.flush
    finish (sessionReport host "" (← converse input output ready.style progress))
