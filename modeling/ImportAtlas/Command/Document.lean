import ImportAtlas.Command.Request
import ImportAtlas.Json.Value
import ImportAtlas.Release
import ImportAtlas.Report.Dependencies
import ImportAtlas.Report.Rank

/-!
# Documents

The results of the commands as JSON values for other programs. Members have a
fixed order, and those that do not apply are left out.
-/

namespace ImportAtlas.Command.Document

open Json (Value)

def schemaVersion : String × Value := ("schema_version", .nat Release.schemaVersion)

def path (path : Path) : Value := .string path.text

def error (error : Error) : Value :=
  .object [("code", .string error.code), ("message", .string error.message)]

/-- The program and its version. -/
def version : Value :=
  .object [("name", .string Release.programName), schemaVersion,
    ("version", .string Release.version)]

/-- A command that could not start because of its settings. -/
def refusal (cause : Error) : Value :=
  .object [("error", error cause), ("ok", .bool false)]

/-! ## Scans -/

def styleMembers : ImportStyle → List (String × Value)
  | .implicit => [("style", .string "normal")]
  | .absolute => [("style", .string "absolute")]
  | .relative level => [("style", .string "relative"), ("level", .nat level.toNat)]

def record (record : ImportRecord) : Value :=
  .object ([("line_number", .nat record.lineNumber.toNat),
    ("source_line", .optional .string record.sourceLine),
    ("module", .string record.module),
    ("fromlist", .optional .strings record.fromlist)] ++ styleMembers record.style)

def unitFailure (failure : UnitFailure) : Value :=
  .object [("unit", .string failure.unit), ("first_line", .nat failure.firstLine.toNat),
    ("code", .string failure.error.code), ("message", .string failure.error.message)]

/-- The scan of one file; `digest` is that of its content, if it could be read. -/
def scan (file : Path) (format : Format) (compiler : Compiler) (digest : Option String)
    (result : ScanResult) (cause : Option Error) : Value :=
  .object ([schemaVersion, ("ok", .bool (cause.isNone && result.isComplete)), ("path", path file),
      ("format", .string format.name), ("compiler", .string compiler.name)]
    ++ Value.member? "blake3" .string digest
    ++ [("imports", .array (result.records.map record)),
      ("failures", .array (result.failures.map unitFailure))]
    ++ Value.member? "error" error cause)

/-! ## Reports -/

def occurrence (occurrence : Occurrence) : Value :=
  .object [("line", .nat occurrence.lineNumber.toNat),
    ("source", .optional .string occurrence.sourceLine)]

/-- The files of a module, in order of the texts of their paths. -/
def files (files : FileOccurrences) : Value :=
  .object ((files.entries.map fun (path, occurrences) =>
      (path.text, Value.array (occurrences.map occurrence))).mergeSort
    fun a b => (compare a.1 b.1).isLE)

def fileFailure (failure : FileFailure) : Value :=
  .object ([("path", path failure.path), ("code", .string failure.error.code),
    ("message", .string failure.error.message)] ++ Value.member? "unit" .string failure.unit)

def rank (entries : List RankEntry) : Value :=
  .array (entries.map fun entry =>
    .object [("module", .string entry.module), ("count", .nat entry.count)])

def dependencies (dependencies : Dependencies) : Value :=
  .object [("required_imported", .strings dependencies.requiredImported),
    ("required_missing", .strings dependencies.requiredMissing),
    ("imported_extra", .strings dependencies.importedExtra)]

/-- Whether a kind of report shows a module. -/
def shows (kind : ReportKind) (module : String) : Bool :=
  match kind with
  | .module wanted => module == wanted
  | _ => true

/-- What a kind of report adds to the modules. -/
def kindMembers (index : ImportIndex) (required : List String) : ReportKind → List (String × Value)
  | .rank => [("rank", rank index.rank)]
  | .dependencies => [("dependencies", dependencies (index.dependencies required))]
  | _ => []

def report (root : Path) (index : ImportIndex) (required : List String) (kind : ReportKind) :
    Value :=
  .object ([schemaVersion, ("ok", .bool index.failures.isEmpty), ("root", path root),
      ("files_scanned", .nat index.filesScanned),
      ("modules", .object ((index.modules.entries.filter fun (module, _) => shows kind module).map
        fun (module, occurrences) => (module, files occurrences)))]
    ++ kindMembers index required kind
    ++ [("failures", .array (index.failures.map fileFailure))])

/-- A report that could not be made. -/
def reportFailure (root : Path) (cause : Error) : Value :=
  .object [("error", error cause), ("ok", .bool false), ("root", path root), schemaVersion]

/-! ## Compiled files -/

/-- A compiled file; `written` holds its size and digest. -/
def compiled (file output : Path) (format : Format) (written : Except Error (Nat × String)) :
    Value :=
  .object ([schemaVersion, ("ok", .bool written.toBool), ("path", path file),
      ("output", path output), ("format", .string format.name)]
    ++ match written with
      | .ok (size, digest) => [("bytes", .nat size), ("blake3", .string digest)]
      | .error cause => [("error", error cause)])

end ImportAtlas.Command.Document
