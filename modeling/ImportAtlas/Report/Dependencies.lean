import ImportAtlas.Index.Basic
import ImportAtlas.Text.Layout

/-!
# Requirements and imports

The packages a project declares against those it imports. A relative import
points inside the project and is no dependency.
-/

namespace ImportAtlas

structure Dependencies where
  /-- Required and imported, in order of declaration. -/
  requiredImported : List String
  /-- Required and never imported, in order of names. -/
  requiredMissing : List String
  /-- Imported and not required, in order of names. -/
  importedExtra : List String
  deriving DecidableEq, Repr

/-- The names in order, each once. -/
def sortedNames (names : List String) : List String :=
  (names.foldl (fun seen name => seen.alter name fun _ => ())
    (Keyed.Map.empty : Keyed.Map compare Unit)).keys

/-- The names in order of their first occurrence, each once. -/
def distinctNames (names : List String) : List String :=
  (names.foldl (fun seen name => if seen.contains name then seen else name :: seen) []).reverse

namespace ImportIndex

/-- The required names that are never imported, in order of names. -/
def missing (index : ImportIndex) (required : List String) : List String :=
  sortedNames (required.filter fun name => !index.contains name)

/-- Compares the required names with the imported ones. -/
def dependencies (index : ImportIndex) (required : List String) : Dependencies where
  requiredImported := distinctNames (required.filter index.contains)
  requiredMissing := (sortedNames required).filter fun name => !index.contains name
  importedExtra := index.names.filter fun name =>
    name.toList.head? != some '.' && !required.contains name

end ImportIndex

namespace Report

/-- The occurrences of a required package. -/
def requiredSection (index : ImportIndex) (width : Nat) (package : String) : List String :=
  Layout.heading ("'" ++ package ++ "' is a required package with following import data:") '-' width
    :: ((index.files? package).getD .empty).entries.flatMap fun (path, occurrences) =>
      occurrences.flatMap fun occurrence =>
        ["line " ++ toString occurrence.lineNumber.toNat ++ " in " ++ path.text ++ ":",
          occurrence.sourceLine.getD "", ""]

/-- A list of names under a heading; nothing if there are none. -/
def nameSection (title : String) (width : Nat) (names : List String) : List String :=
  if names.isEmpty then []
  else [Layout.heading title '-' width, Layout.quotedList names '\'']

/-- The names that are required and missing, under a heading. -/
def missingSection (width : Nat) (names : List String) : List String :=
  nameSection "Following packages are required but never imported:" width names

/-- The comparison as text, with every occurrence of a required package. -/
def dependencies (index : ImportIndex) (dependencies : Dependencies) (width : Nat) : String :=
  Layout.blocks
    (["\n\nDependency Report"]
      ++ dependencies.requiredImported.flatMap (requiredSection index width)
      ++ missingSection width dependencies.requiredMissing
      ++ [""]
      ++ nameSection "Following are imported but are not in required:" width
        dependencies.importedExtra)
    width

end Report

end ImportAtlas
