import ImportAtlas.Compile
import ImportAtlas.File.Discovery
import ImportAtlas.File.Order
import ImportAtlas.Index.Keyed

/-!
# The import index

All imports of a project by top-level name, then by file. Files are scanned on
their own and merged in the order given, so the index does not depend on how the
scanning is spread over threads.
-/

namespace ImportAtlas

/-- One place where a module is imported. -/
structure Occurrence where
  lineNumber : UInt32
  sourceLine : Option String
  deriving DecidableEq, Repr

/-- A file that could not be scanned, or only in part. -/
structure FileFailure where
  path : Path
  error : Error
  /-- The unit that failed, if the rest of the file was scanned. -/
  unit : Option String := none
  deriving DecidableEq, Repr

/-- Occurrences of one module by file. -/
abbrev FileOccurrences := Keyed.Map Path.compare (List Occurrence)

/-- Files by top-level name. -/
abbrev ModuleFiles := Keyed.Map (α := String) compare FileOccurrences

structure ImportIndex where
  modules : ModuleFiles := .empty
  failures : List FileFailure := []
  /-- How many files were tried. -/
  filesScanned : Nat := 0
  deriving DecidableEq, Repr

/-- The occurrence a record stands for. -/
def ImportRecord.occurrence (record : ImportRecord) : Occurrence :=
  ⟨record.lineNumber, record.sourceLine⟩

namespace ImportIndex

def empty : ImportIndex := {}

/-- The names in the index, in order. -/
def names (index : ImportIndex) : List String :=
  index.modules.keys

/-- The files that import a module. -/
def files? (index : ImportIndex) (module : String) : Option FileOccurrences :=
  index.modules.get? module

def contains (index : ImportIndex) (module : String) : Bool :=
  (index.files? module).isSome

/-- How often files import a module. -/
def countIn (files : FileOccurrences) : Nat :=
  files.entries.foldr (fun file count => file.2.length + count) 0

/-- How often a module is imported. -/
def count (index : ImportIndex) (module : String) : Nat :=
  ((index.files? module).map countIn).getD 0

def isEmpty (index : ImportIndex) : Bool :=
  index.modules.entries.isEmpty

/-- Adds a record of the file at `path`, unless its module is ignored. -/
def addRecord (ignore : List String) (path : Path) (modules : ModuleFiles)
    (record : ImportRecord) : ModuleFiles :=
  if ignore.contains record.topLevel then modules
  else
    modules.alter record.topLevel fun files =>
      (files.getD .empty).alter path fun occurrences =>
        occurrences.getD [] ++ [record.occurrence]

/-- Adds what came out of one file. -/
def merge (ignore : List String) (index : ImportIndex) (path : Path)
    (outcome : Except Error ScanResult) : ImportIndex :=
  match outcome with
  | .error error =>
    { index with
      failures := index.failures ++ [{ path, error }]
      filesScanned := index.filesScanned + 1 }
  | .ok result =>
    { modules := result.records.foldl (addRecord ignore path) index.modules
      failures := index.failures ++ result.failures.map fun failure =>
        { path, error := failure.error, unit := some failure.unit }
      filesScanned := index.filesScanned + 1 }

/-- The index of the outcomes of some files, merged in order. -/
def ofOutcomes (ignore : List String) (outcomes : List (Path × Except Error ScanResult)) :
    ImportIndex :=
  outcomes.foldl (fun index (path, outcome) => index.merge ignore path outcome) empty

/-- Adds files that were found but could not be looked at. -/
def addUnreadable (index : ImportIndex) (unreadable : List (Path × Error)) : ImportIndex :=
  { index with failures := index.failures ++ unreadable.map fun (path, error) => { path, error } }

end ImportIndex

/-! ## Scanning -/

/-- How files are spread over threads. -/
inductive Parallelism where
  | sequential
  /-- As many threads as the machine is good for. -/
  | automatic
  | threads (count : Nat)
  deriving DecidableEq, Repr

/-- The meaning of a number of jobs: none is automatic, one is sequential. -/
def Parallelism.ofJobs : Option Nat → Parallelism
  | none => .automatic
  | some 0 => .automatic
  | some 1 => .sequential
  | some count => .threads count

/-- How the files of a project are scanned. -/
structure Scanner where
  compiler : Compiler
  format : Format
  /-- Top-level names that are left out. -/
  ignore : List String := []

namespace Scanner

/-- Scans files into an index. -/
def scanFiles (scanner : Scanner) (tree : FileTree) (files : List Path) : ImportIndex :=
  ImportIndex.ofOutcomes scanner.ignore
    (files.map fun path => (path, scanFile tree scanner.compiler scanner.format path))

/-- Scans the sources below a root; only a root that cannot be read is an error. -/
def scanRoot (scanner : Scanner) (tree : FileTree) (root : Path) : Except Error ImportIndex := do
  let sources ← tree.sourceFiles root
  return (scanner.scanFiles tree sources.files).addUnreadable sources.unreadable

end Scanner

end ImportAtlas
