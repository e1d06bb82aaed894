import TaprootLab.Text

/-!
# Words of a source text

Source text is cut into lines, a line ends at its first `#`, and what is left is cut into words at
blanks. Every word keeps its place: line and column count from one, columns in characters.
-/

namespace TaprootLab.Assembly

structure Position where
  line : Nat
  column : Nat
  deriving DecidableEq, Repr

def Position.toText (p : Position) : String := s!"{p.line}:{p.column}"

/-- A run of characters without blanks, with the place of its first character. -/
structure Word where
  text : List Char
  position : Position
  deriving DecidableEq, Repr

/-- The words of a line whose first character stands in the given column. -/
def wordsOfLine (line column : Nat) : List Char → List Word
  | [] => []
  | c :: cs =>
    if Text.isBlank c then wordsOfLine line (column + 1) cs
    else
      let more := cs.takeWhile (!Text.isBlank ·)
      ⟨c :: more, ⟨line, column⟩⟩
        :: wordsOfLine line (column + 1 + more.length) (cs.dropWhile (!Text.isBlank ·))
termination_by cs => cs.length
decreasing_by
  · exact Nat.lt_succ_self _
  · exact Nat.lt_succ_of_le (Text.length_dropWhile_le _ _)

/-- A line up to its comment. -/
def code (line : List Char) : List Char := line.takeWhile (· != '#')

/-- The source text that an argument stands for: the text of the file of that name, or the argument
itself if no such file holds text. -/
def sourceOf (argument : String) (file : Option (List UInt8)) : String :=
  ((file.bind Text.ofUtf8?)).getD argument

def words (text : List Char) : List Word :=
  (Text.splitOn '\n' text).zipIdx.flatMap fun (line, i) => wordsOfLine (i + 1) 1 (code line)

end TaprootLab.Assembly
