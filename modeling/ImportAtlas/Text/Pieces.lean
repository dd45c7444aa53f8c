/-!
# Pieces between separators

Cutting a list at every separator, and the physical lines of a text: pieces
that end in a line feed, of which a carriage return right before the line feed
is not part. The definitions are generic, so that the lines of a text and the
lines of its bytes are the same notion.
-/

namespace ImportAtlas.Text

variable {α : Type}

/-- Cuts at `separator`; `part` is the pending piece, back to front. -/
def piecesFrom [BEq α] (separator : α) (done : Array (List α)) (part : List α) :
    List α → Array (List α)
  | [] => done.push part.reverse
  | item :: rest =>
    if item == separator then piecesFrom separator (done.push part.reverse) [] rest
    else piecesFrom separator done (item :: part) rest

/-- The parts of `items` between separators: one more than there are separators. -/
def pieces [BEq α] (separator : α) (items : List α) : List (List α) :=
  (piecesFrom separator #[] [] items).toList

/-- The parts with the separator between each two. -/
def joinPieces (separator : α) (parts : List (List α)) : List α :=
  List.flatten (parts.intersperse [separator])

/-- Drops one `mark` from the end. -/
def chomp [BEq α] (mark : α) (items : List α) : List α :=
  if items.getLast? == some mark then items.dropLast else items

/--
The physical lines of `items`. A line ends in `feed`, with one `mark` right
before it dropped; what follows the last `feed` is a line unless it is empty.
-/
def physicalLines [BEq α] (feed mark : α) (items : List α) : List (List α) :=
  let parts := pieces feed items
  parts.dropLast.map (chomp mark) ++ (parts.getLast?.toList.filter fun part => !part.isEmpty)

/-- The physical lines of a text. -/
def lines (text : String) : List String :=
  (physicalLines '\n' '\r' text.toList).map String.ofList

end ImportAtlas.Text
