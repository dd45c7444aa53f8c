import ImportAtlas.Text.Blank
import ImportAtlas.Text.Pieces

/-!
# Layout of reports

Text is filled to a width: the words of a line are put on rows, as many as fit,
with one space between them. The indentation of a line stays on its first row.
An empty line gives an empty row, and a line of blanks gives none. A word that
does not fit an empty row is split.
-/

namespace ImportAtlas.Layout

/-- Rows that are done, and the row that is being filled. -/
structure Filling where
  rows : Array (List Char)
  row : Array Char
  /-- Whether the row holds a word, and not only indentation. -/
  hasWord : Bool

namespace Filling

/-- Ends the present row. -/
def endRow (filling : Filling) : Filling :=
  ⟨filling.rows.push filling.row.toList, #[], false⟩

/-- Puts text on the present row, after a space if a word is there. -/
def put (filling : Filling) (word : List Char) : Filling :=
  { filling with
    row := (if filling.hasWord then filling.row.push ' ' else filling.row) ++ word
    hasWord := true }

/-- How long the row gets by putting a word on it. -/
def sizeWith (filling : Filling) (word : List Char) : Nat :=
  filling.row.size + (word.length + if filling.hasWord then 1 else 0)

/-- Characters of an unsplit word that go on the row; at least one does, or it would never end. -/
def room (filling : Filling) (width : Nat) : Nat :=
  max (width - filling.row.size) 1

end Filling

/--
Puts a word on the rows. If it does not fit, the row ends before it; if the row
holds no word to end after, as much of the word as fits goes on it.
-/
def fillWord (width : Nat) (filling : Filling) (word : List Char) : Filling :=
  if word = [] then filling
  else if filling.sizeWith word ≤ width then filling.put word
  else if filling.hasWord then fillWord width filling.endRow word
  else
    let room := filling.room width
    fillWord width (filling.put (word.take room)).endRow (word.drop room)
termination_by (word.length, filling.hasWord.toNat)
decreasing_by
  · simp_all [Filling.endRow, Prod.lex_def]
  · have hpos : 0 < word.length := List.length_pos_iff.2 ‹_›
    have hroom : 1 ≤ filling.room width := Nat.le_max_right _ _
    simp only [Prod.lex_def, List.length_drop]
    omega

/-- The rows of one line. -/
def fillLine (width : Nat) (line : List Char) : List (List Char) :=
  let start : Filling := ⟨#[], (Text.indentation line).toArray, false⟩
  let filling := (Text.words line).foldl (fillWord (max width 1)) start
  (if filling.hasWord then filling.endRow else filling).rows.toList

/-- The rows of a text. -/
def fill (width : Nat) (text : List Char) : List (List Char) :=
  (Text.pieces '\n' text).flatMap fun line =>
    if line.isEmpty then [[]] else fillLine width line

/-- A text filled to a width. -/
def wrap (text : String) (width : Nat) : String :=
  String.ofList (Text.joinPieces '\n' (fill width text.toList))

/-- A heading between two rules. -/
def heading (text : String) (rule : Char) (width : Nat) : String :=
  let line := String.ofList (List.replicate width rule)
  line ++ "\n" ++ text ++ "\n" ++ line

/-- Items between quotes, with commas between them. -/
def quotedList (items : List String) (quote : Char) : String :=
  ", ".intercalate (items.map fun item =>
    String.singleton quote ++ item ++ String.singleton quote)

/-- Blocks of text, each filled to a width, one below the other. -/
def blocks (blocks : List String) (width : Nat) : String :=
  "\n".intercalate (blocks.map (wrap · width))

end ImportAtlas.Layout
