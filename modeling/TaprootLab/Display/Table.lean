import TaprootLab.Assembly.Script
import TaprootLab.Display.Labels
import TaprootLab.Script.Number
import TaprootLab.Stepper.Snapshot

/-!
# The table of a step

Four columns of equal width: the script with a mark at the next instruction, the stack, the alt
stack and the witness, the stacks from the top. What does not fit a column is cut in the middle.
-/

namespace TaprootLab

structure TableStyle where
  columnWidth : Nat
  maxRows : Nat
  labels : Labels
  deriving Repr

namespace Table

def defaultColumnWidth : Nat := 40

def defaultMaxRows : Nat := 25

def ellipsis : List Char := ['.', '.', '.']

def keptTail : Nat := 4

/-- Text cut to `width` characters. Unless there is no room for more than an ellipsis and the kept
end, both ends stay readable. -/
def cut (width : Nat) (cs : List Char) : List Char :=
  if cs.length ≤ width then cs
  else if width ≤ ellipsis.length + keptTail then cs.take width
  else cs.take (width - ellipsis.length - keptTail) ++ ellipsis ++ cs.drop (cs.length - keptTail)

/-- A value by its label, cut to fit. -/
def cell (labels : Labels) (width : Nat) (value : String) : List Char :=
  cut width (labels.textOf value).toList

def itemColumn (labels : Labels) (width : Nat) (items : List Bytes) : List (List Char) :=
  items.map fun item => cell labels width (ScriptNumber.display item)

/-- The rows of the script column from the first one shown on. An empty row below the script is
marked once the script has come to its end; rows are left out at the top until the mark is among the
first `maxRows`. -/
def scriptColumn (labels : Labels) (width maxRows pc : Nat) (words : List String) :
    List (List Char) :=
  let texts := words.map labels.textOf
  let texts := if texts.length ≤ pc then texts ++ [""] else texts
  let marked := min pc (texts.length - 1)
  let first := marked + 1 - maxRows
  (texts.zipIdx.drop first).map fun (text, i) =>
    (if i = marked then '>' else ' ') :: ' ' :: cut (width - 2) text.toList

/-- Four cells next to each other, without the blanks at the end. -/
def row (width : Nat) (cells : List (List Char)) : List Char :=
  Text.trimEnd ([' ', '|', ' '].intercalate (cells.map (Text.padRight width)))

/-- The line above the first step of a script that the output commits to. -/
def verifiedLine : List Char := "witness program verified OK".toList

def headings : List (List Char) := ["script", "stack", "alt stack", "witness"].map String.toList

/-- The narrowest column: room for one character, an ellipsis and the kept end. -/
def minColumnWidth : Nat := ellipsis.length + keptTail + 1

def columns (style : TableStyle) (width maxRows : Nat) (s : Snapshot) : List (List (List Char)) := [
  scriptColumn style.labels width maxRows s.pc (Assembly.disassemble s.script),
  itemColumn style.labels width s.stack,
  itemColumn style.labels width s.altStack,
  itemColumn style.labels width (s.witness.getD []).reverse]

def lines (style : TableStyle) (s : Snapshot) : List (List Char) :=
  let width := max style.columnWidth minColumnWidth
  let maxRows := max style.maxRows 1
  let columns := columns style width maxRows s
  let rows := min (columns.foldl (fun n column => max n column.length) 0) maxRows
  (if s.verified then [verifiedLine] else [])
    ++ row width headings
    :: List.replicate (4 * width + 9) '-'
    :: (List.range rows).map fun r => row width (columns.map fun column => column.getD r [])

def render (style : TableStyle) (s : Snapshot) : String :=
  String.ofList (['\n'].intercalate (lines style s))

end Table

end TaprootLab
