import TaprootLab.Bytes
import TaprootLab.Text

/-!
# Files and paths

A tree of folders and files, and what reading along a path finds in it. A path is followed one part
at a time, so a part is looked for only in a folder that is there: `gone/../notes` fails although
`notes` exists, and `notes/` fails because the empty part after the slash asks for a folder.
-/

namespace TaprootLab

inductive FileError where
  /-- Some part of the path does not exist. -/
  | missing
  | refused
  /-- The path goes on after a file. -/
  | notFolder
  /-- The path ends at a folder. -/
  | isFolder
  | nameTooLong
  /-- A file that is to hold text has bytes that encode none. -/
  | notText
  | other (reason : String)
  deriving DecidableEq, Repr

/-- The wording of the operating system, with its number for the cause. -/
def FileError.message : FileError → String
  | .missing => "No such file or directory (os error 2)"
  | .refused => "Permission denied (os error 13)"
  | .notFolder => "Not a directory (os error 20)"
  | .isFolder => "Is a directory (os error 21)"
  | .nameTooLong => "File name too long (os error 36)"
  | .notText => "stream did not contain valid UTF-8"
  | .other reason => reason

/-- A place in a tree: the names that lead to it from the root. -/
abbrev Place := List String

/-- Files under one root. A folder is there if it is listed or if something is below it. -/
structure FileTree where
  files : List (Place × Bytes)
  folders : List Place
  /-- Where a path starts that does not start at the root. -/
  current : Place
  deriving DecidableEq, Repr

namespace FileTree

inductive Node where
  | file (content : Bytes)
  | folder
  deriving DecidableEq, Repr

def maxName : Nat := 255

def maxPath : Nat := 4095

def isFolder (t : FileTree) (place : Place) : Bool :=
  place.isEmpty || place.isPrefixOf t.current || t.folders.any (place.isPrefixOf ·)
    || t.files.any fun (file, _) => place.isPrefixOf file

/-- A file is found before a folder of the same name. -/
def node? (t : FileTree) (place : Place) : Option Node :=
  match t.files.lookup place with
  | some content => some (.file content)
  | none => if t.isFolder place then some .folder else none

/-- Follows one part of a path. The folder above the root is the root. -/
def follow (t : FileTree) (place : Place) (part : String) : Except FileError Place :=
  match t.node? place with
  | none => .error .missing
  | some (.file _) => .error .notFolder
  | some .folder =>
    if part = "" || part = "." then .ok place
    else if part = ".." then .ok place.dropLast
    else if maxName < part.utf8ByteSize then .error .nameTooLong
    else if (t.node? (place ++ [part])).isNone then .error .missing
    else .ok (place ++ [part])

def partsOf (path : String) : List String :=
  (Text.splitOn '/' path.toList).map String.ofList

/-- The bytes of the file that a path leads to. -/
def read (t : FileTree) (path : String) : Except FileError Bytes :=
  if path.isEmpty then .error .missing
  else if maxPath < path.utf8ByteSize then .error .nameTooLong
  else do
    let start := if path.toList.head? = some '/' then [] else t.current
    let place ← (partsOf path).foldlM t.follow start
    match t.node? place with
    | some (.file content) => .ok content
    | some .folder => .error .isFolder
    | none => .error .missing

/-- A file stops every path that goes on after it, even by a slash alone. -/
theorem follow_eq_notFolder {t : FileTree} {place : Place} {content : Bytes}
    (h : t.node? place = some (.file content)) (part : String) :
    t.follow place part = .error .notFolder := by
  rw [follow, h]

end FileTree

end TaprootLab
