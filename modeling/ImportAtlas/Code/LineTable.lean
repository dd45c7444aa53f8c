import ImportAtlas.Code.Unit

/-!
# Line tables

A compressed line table is a run of byte pairs: by how much the offset moves,
and by how much the line moves with it. Decoding gives the offsets at which the
line changes; the line of an offset is that of the last start at or before it.
-/

namespace ImportAtlas

/-- A line begins at an offset of the instruction buffer. -/
structure LineStart where
  offset : Nat
  line : UInt32
  deriving DecidableEq, Repr

/-- The decoded line table of one unit. -/
structure LineTable where
  firstLine : UInt32
  /-- In order of offset. -/
  starts : List LineStart
  deriving DecidableEq, Repr

namespace LineTable

/-- The largest line number. -/
def lastLine : Nat := 0xffffffff

/-- Moves a line down, at most to the largest line number. -/
def advance (line : UInt32) (delta : UInt8) : UInt32 :=
  UInt32.ofNat (min lastLine (line.toNat + delta.toNat))

theorem toNat_advance (line : UInt32) (delta : UInt8) :
    (advance line delta).toNat = min lastLine (line.toNat + delta.toNat) := by
  have hle : min lastLine (line.toNat + delta.toNat) ≤ 0xffffffff := Nat.min_le_left _ _
  rw [advance, UInt32.toNat_ofNat']
  exact Nat.mod_eq_of_lt (by omega)

/--
The line starts of the pairs ahead. `offset` and `line` are the sums so far and
`shown` is the line of the last start. A line is started late: when the offset
is about to move away, or at the end.
-/
def startsFrom (shown : Option UInt32) (offset : Nat) (line : UInt32) : Bytes → List LineStart
  | bytes :: lines :: rest =>
    if bytes = 0 then startsFrom shown offset (advance line lines) rest
    else if shown = some line then
      startsFrom shown (offset + bytes.toNat) (advance line lines) rest
    else
      ⟨offset, line⟩ :: startsFrom (some line) (offset + bytes.toNat) (advance line lines) rest
  | _ => if shown = some line then [] else [⟨offset, line⟩]

/-- Decodes the table of a unit that starts on `firstLine`; a last odd byte is ignored. -/
def decode (table : Bytes) (firstLine : UInt32) : LineTable :=
  ⟨firstLine, startsFrom none 0 firstLine table⟩

/-- The line of the instruction at `offset`. -/
def lineAt (table : LineTable) (offset : Nat) : UInt32 :=
  match (table.starts.takeWhile (·.offset ≤ offset)).getLast? with
  | some start => start.line
  | none => table.firstLine

end LineTable

/-- The line table of a unit. -/
def CodeUnit.lineTable (unit : CodeUnit) : LineTable :=
  LineTable.decode unit.lnotab unit.firstLine

end ImportAtlas
