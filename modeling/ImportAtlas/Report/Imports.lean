import ImportAtlas.Report.Dependencies

/-!
# Import reports

Each module with the files that import it and the lines that do, for all
modules or for one.
-/

namespace ImportAtlas.Report

/-- Stands for a line whose text is not at hand. -/
def noSource : String := "<source unavailable>"

/-- Says whether a module is required; nothing if the project declares nothing. -/
def requiredNote (required : List String) (module : String) : String :=
  if required.isEmpty then ""
  else if required.contains module then "\nIn Required: Yes"
  else "\nIn Required: No"

/-- The occurrences in one file. -/
def fileSection (path : Path) (occurrences : List Occurrence) : List String :=
  ("\"" ++ path.text ++ "\"") :: occurrences.map fun occurrence =>
    "line " ++ toString occurrence.lineNumber.toNat ++ ":\n" ++ occurrence.sourceLine.getD noSource

/-- The section of one module. -/
def moduleSection (index : ImportIndex) (required : List String) (width : Nat) (module : String) :
    List String :=
  match index.files? module with
  | none => ["No data found for module '" ++ module ++ "'"]
  | some files =>
    Layout.heading ("Module Name: '" ++ module ++ "'" ++ requiredNote required module) '-' width
      :: files.entries.flatMap fun (path, occurrences) => fileSection path occurrences

/-- All modules, and the required packages that are never imported. -/
def imports (index : ImportIndex) (required : List String) (width : Nat) : String :=
  Layout.blocks
    (["\n\nImport Report"]
      ++ index.names.flatMap (moduleSection index required width)
      ++ missingSection width (index.missing required))
    width

/-- One module. -/
def module (index : ImportIndex) (required : List String) (width : Nat) (module : String) :
    String :=
  Layout.blocks
    (("\n\nImport Report for '" ++ module ++ "'") :: moduleSection index required width module)
    width

end ImportAtlas.Report
