import ImportAtlas.Text.Pieces
import ImportAtlas.Text.Utf8

/-!
# Source text

The text of a source file, cut into lines once so that records can carry the
line they come from. A file is read as UTF-8, lossily and without a leading byte
order mark.
-/

namespace ImportAtlas

/-- A source text by its lines. -/
structure SourceText where
  lines : Array String
  deriving DecidableEq, Repr

namespace SourceText

def ofString (text : String) : SourceText :=
  ⟨(Text.lines text).toArray⟩

/-- The line with this index, from zero. -/
def get? (source : SourceText) (index : Nat) : Option String :=
  source.lines[index]?

/-- The line with this number, from one. -/
def line? (source : SourceText) (number : UInt32) : Option String :=
  match number.toNat with
  | 0 => none
  | index + 1 => source.get? index

def size (source : SourceText) : Nat :=
  source.lines.size

def isEmpty (source : SourceText) : Bool :=
  source.lines.isEmpty

/-- The text of a source file: ill-formed parts are replaced, a byte order mark is dropped. -/
def read (content : Bytes) : String :=
  match (Utf8.decodeLossy content).toList with
  | '﻿' :: rest => String.ofList rest
  | chars => String.ofList chars

end SourceText

end ImportAtlas
