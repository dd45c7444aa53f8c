import ImportAtlas.Code.Walk

/-!
# Import records

One import found in a unit, and the name under which a dotted module name is
grouped.
-/

namespace ImportAtlas

/-- The characters of a top-level name: all leading dots, and then the characters up to a dot. -/
def topLevelChars (chars : List Char) : List Char :=
  chars.takeWhile (· == '.') ++ (chars.dropWhile (· == '.')).takeWhile (· != '.')

/-- The first component of a dotted name, with the leading dots of a relative one. -/
def topLevelName (dotted : String) : String :=
  String.ofList (topLevelChars dotted.toList)

/-- One import. -/
structure ImportRecord where
  lineNumber : UInt32
  /-- Text of that line, if the source was at hand. -/
  sourceLine : Option String
  /-- Dotted name; a relative import keeps its leading dots. -/
  module : String
  /-- Names taken from the module, without the wildcard; none for a plain import. -/
  fromlist : Option (List String)
  style : ImportStyle
  deriving DecidableEq, Repr

/-- The name under which the import is grouped. -/
def ImportRecord.topLevel (record : ImportRecord) : String :=
  topLevelName record.module

end ImportAtlas
