/-!
# Text as characters

Source text, key tables and option values are cut up character by character. Blanks are the
characters with the Unicode property `White_Space`, so text pasted with unusual spacing splits the
way it looks.

* `splitOn_ne_nil`: splitting always gives at least one piece, an empty one for empty text.
-/

namespace TaprootLab.Text

/-- The Unicode property `White_Space`. -/
def isBlank (c : Char) : Bool :=
  let n := c.toNat
  (0x09 ≤ n && n ≤ 0x0d) || n == 0x20 || n == 0x85 || n == 0xa0 || n == 0x1680
    || (0x2000 ≤ n && n ≤ 0x200a) || n == 0x2028 || n == 0x2029 || n == 0x202f || n == 0x205f
    || n == 0x3000

def trimEnd (cs : List Char) : List Char := (cs.reverse.dropWhile isBlank).reverse

/-- The text without the blanks at either end. -/
def trim (cs : List Char) : List Char := trimEnd (cs.dropWhile isBlank)

theorem length_dropWhile_le {α : Type} (keep : α → Bool) (xs : List α) :
    (xs.dropWhile keep).length ≤ xs.length :=
  (List.dropWhile_sublist keep).length_le

/-- The pieces between the separators, empty ones included. -/
def splitOn (sep : Char) (cs : List Char) : List (List Char) :=
  let piece := cs.takeWhile (· != sep)
  match h : cs.dropWhile (· != sep) with
  | [] => [piece]
  | _ :: rest =>
    have : rest.length < cs.length := by
      have := length_dropWhile_le (· != sep) cs
      simp only [h, List.length_cons] at this
      omega
    piece :: splitOn sep rest
termination_by cs.length

theorem splitOn_ne_nil (sep : Char) (cs : List Char) : splitOn sep cs ≠ [] := by
  unfold splitOn
  split <;> simp

/-- The text before and after the first separator, or nothing if there is none. -/
def splitOnce? (sep : Char) (cs : List Char) : Option (List Char × List Char) :=
  match cs.dropWhile (· != sep) with
  | [] => none
  | _ :: rest => some (cs.takeWhile (· != sep), rest)

/-- Text `cs` filled with spaces on the right up to `width` characters. -/
def padRight (width : Nat) (cs : List Char) : List Char :=
  cs ++ List.replicate (width - cs.length) ' '

/-- Text `cs` filled with spaces on the left up to `width` characters. -/
def padLeft (width : Nat) (cs : List Char) : List Char :=
  List.replicate (width - cs.length) ' ' ++ cs

/-- The text that bytes encode in UTF-8. -/
def ofUtf8? (bytes : List UInt8) : Option String := String.fromUTF8? ⟨bytes.toArray⟩

end TaprootLab.Text
