import ImportAtlas.Command.Document
import ImportAtlas.Digest.Blake3
import ImportAtlas.File.Replace
import ImportAtlas.Report.Imports

/-!
# Running commands

A command is a function of the file tree: it gives what is written to the two
output streams, the exit status, and the tree afterwards.
-/

namespace ImportAtlas.Command

/-- What a command leaves behind. -/
structure Outcome where
  status : Nat := 0
  output : String := ""
  /-- Lines about warnings and errors. -/
  notes : List String := []
  tree : FileTree

/-- Something could not be scanned, or not in full. -/
def partialStatus : Nat := 1

/-- The command line is not good. -/
def usageStatus : Nat := 2

/-- What a command is given besides its request. -/
structure Context where
  tree : FileTree
  pid : Nat
  settings : Settings

namespace Context

/-- A path as seen from the working directory. -/
def resolve (context : Context) (path : Path) : Path :=
  if path.isAbsolute then path else context.settings.cwd.join path

/-- The outcome of printing a document, or a line about an error. -/
def complain (context : Context) (status : Nat) (document : Json.Value) (cause : Error) : Outcome :=
  if context.settings.json then
    { status, output := document.text ++ "\n", tree := context.tree }
  else { status, notes := ["error: " ++ cause.message], tree := context.tree }

/-- Goes on with the format in the settings, if there is one of that name. -/
def withFormat (context : Context) (body : Format → Outcome) : Outcome :=
  match Format.named context.settings.format with
  | .ok format => body format
  | .error cause => context.complain usageStatus (Document.refusal cause) cause

/-- The interpreter in the settings. -/
def program (context : Context) : Path :=
  context.settings.python.getD Compiler.defaultProgram

/-- The compiler a command uses. -/
def compiler (context : Context) (sibling : Bool) : Compiler :=
  if sibling then .sibling else .host context.program

end Context

/-! ## Version -/

def runVersion (context : Context) : Outcome :=
  { output := (if context.settings.json then Document.version.text else Release.title) ++ "\n"
    tree := context.tree }

/-! ## Scan -/

/-- A number on the right of a field of the given width. -/
def alignRight (width : Nat) (number : Nat) : String :=
  let digits := toString number
  String.ofList (List.replicate (width - digits.length) ' ') ++ digits

/-- The names an import takes from its module. -/
def describeNames : Option (List String) → String
  | none => ""
  | some [] => " (*)"
  | some names => " (" ++ ", ".intercalate names ++ ")"

def describeStyle : ImportStyle → String
  | .implicit => ""
  | .absolute => " [absolute]"
  | .relative level => " [relative, level " ++ toString level.toNat ++ "]"

/-- The line for one import. -/
def describeRecord (record : ImportRecord) : String :=
  "  " ++ alignRight 5 record.lineNumber.toNat ++ "  " ++ record.module
    ++ describeNames record.fromlist ++ describeStyle record.style

def describeFailure (failure : UnitFailure) : String :=
  "warning: unit '" ++ failure.unit ++ "' at line " ++ toString failure.firstLine.toNat
    ++ " skipped: " ++ failure.error.message

/-- Lines of text, each with its end. -/
def unlines (lines : List String) : String :=
  String.join (lines.map (· ++ "\n"))

def runScan (context : Context) (request : ScanRequest) : Outcome :=
  context.withFormat fun format =>
    let path := context.resolve request.file
    let compiler := context.compiler request.sibling
    let digest := (context.tree.read path).toOption.map Blake3.hexDigest
    let (result, cause) : ScanResult × Option Error :=
      match scanFile context.tree compiler format path with
      | .ok result => (result, none)
      | .error cause => ({}, some cause)
    let status := if cause.isNone && result.isComplete then 0 else partialStatus
    if context.settings.json then
      { status
        output := (Document.scan path format compiler digest result cause).text ++ "\n"
        tree := context.tree }
    else
      { status
        output := unlines (path.text :: result.records.map describeRecord)
        notes := result.failures.map describeFailure
          ++ (cause.map fun cause => "error: " ++ cause.message).toList
        tree := context.tree }

/-! ## Report -/

/-- How many files failures are about. The failures of one file stand together. -/
def countFiles : List FileFailure → Nat
  | [] => 0
  | [_] => 1
  | first :: second :: rest =>
    (if first.path.same second.path then 0 else 1) + countFiles (second :: rest)

/-- The lines about failures; none if there are none. -/
def warnings (index : ImportIndex) : List String :=
  if index.failures.isEmpty then []
  else
    ("warning: " ++ toString (countFiles index.failures) ++ " of " ++ toString index.filesScanned
        ++ " files could not be fully scanned")
      :: index.failures.map fun failure =>
        "  " ++ failure.path.text ++ ": " ++ failure.error.message

/-- The text of a report. -/
def reportText (index : ImportIndex) (required : List String) (width : Nat) : ReportKind → String
  | .imports => Report.imports index required width
  | .module name => Report.module index required width name
  | .rank => Report.rank index.rank width
  | .dependencies => Report.dependencies index (index.dependencies required) width

/-- Prints a report on an index, or writes it to a file. -/
def deliverReport (context : Context) (request : ReportRequest) (root : Path)
    (required : List String) (index : ImportIndex) : Outcome :=
  let json := context.settings.json
  let text :=
    (if json then (Document.report root index required request.kind).text
      else reportText index required context.settings.width request.kind) ++ "\n"
  let status := if index.failures.isEmpty then 0 else partialStatus
  let notes := if json then [] else warnings index
  match request.output with
  | none => { status, output := text, notes, tree := context.tree }
  | some output =>
    match context.tree.replace .sound context.pid (context.resolve output) (Utf8.encode text) with
    | (.ok (), tree) => { status, notes, tree }
    | (.error _, tree) => { status := partialStatus, notes := ["Error"], tree }

def runReport (context : Context) (request : ReportRequest) : Outcome :=
  let root := context.resolve (request.root.getD context.settings.cwd)
  let fail (cause : Error) : Outcome :=
    context.complain partialStatus (Document.reportFailure root cause) cause
  match ProjectSettings.find context.tree root with
  | .error cause => fail cause
  | .ok project =>
    let context := { context with settings := context.settings.withProject project }
    context.withFormat fun format =>
      let scanner : Scanner := {
        compiler := context.compiler request.sibling
        format
        ignore := project.ignore ++ request.ignore }
      let required := if request.required.isEmpty then project.required else request.required
      match scanner.scanRoot context.tree root with
      | .error cause => fail cause
      | .ok index => deliverReport context request root required index

/-! ## Compile -/

/-- The time of a source as a container keeps it: 32 bits, and zero before the epoch. -/
def stamp (tree : FileTree) (path : Path) : UInt32 :=
  match tree.findFile path with
  | .ok file => UInt32.ofNat file.modified.toNat
  | .error _ => 0

/-- The container that compiling the source at `path` gives. -/
def compileBytes (tree : FileTree) (program : Path) (format : Format) (path : Path) :
    Except Error Bytes := do
  let source ← readSource tree path
  let unit ← (Compiler.host program).compile tree format path source
  Container.dump unit (stamp tree path)

/-- Compiles the source at `path` and keeps the container at `output`. -/
def compileTo (tree : FileTree) (pid : Nat) (program : Path) (format : Format)
    (path output : Path) : Except Error Bytes × FileTree :=
  match compileBytes tree program format path with
  | .error cause => (.error cause, tree)
  | .ok bytes =>
    match tree.replace .sound pid output bytes with
    | (.ok (), tree) => (.ok bytes, tree)
    | (.error cause, tree) => (.error (.system cause), tree)

def runCompile (context : Context) (request : CompileRequest) : Outcome :=
  context.withFormat fun format =>
    let path := context.resolve request.file
    let output := context.resolve request.emit
    let (result, tree) := compileTo context.tree context.pid context.program format path output
    let context := { context with tree }
    let written := result.map fun bytes => (bytes.length, Blake3.hexDigest bytes)
    let document := Document.compiled path output format written
    match result with
    | .error cause => context.complain partialStatus document cause
    | .ok bytes =>
      { output :=
          (if context.settings.json then document.text
            else "wrote " ++ output.text ++ " (" ++ toString bytes.length ++ " bytes)") ++ "\n"
        tree }

/-! ## Command lines -/

/-- The settings a request starts with. -/
def Request.flags : Request → Flags
  | .version => {}
  | .scan request => request.flags
  | .report request => request.flags
  | .compile request => request.flags

/-- Runs a command line; relative paths start at `home` unless it names another directory. -/
def run (tree : FileTree) (pid : Nat) (home : Path) (line : CommandLine) : Outcome :=
  let settings := { Settings.ofFlags (line.cwd.getD home) line.request.flags with
    json := line.json
    verbosity := line.verbosity }
  let context : Context := { tree, pid, settings }
  match line.request with
  | .version => runVersion context
  | .scan request => runScan context request
  | .report request => runReport context request
  | .compile request => runCompile context request

/-- What comes of the words of a command line. -/
inductive Reply where
  /-- They are not a command line. -/
  | usage
  | done (outcome : Outcome)

/-- A summary of the command line. -/
def helpText : String :=
  unlines [
    "Import reports for CPython 2 code bases",
    "",
    "Usage: compage [OPTIONS] [COMMAND]",
    "",
    "Commands:",
    "  version  Print version information",
    "  scan     List the imports of one source file",
    "  report   Aggregate imports over a directory and print a report",
    "  compile  Compile a source file with the host interpreter and save the .pyc"]

/-- Reads and runs a command line. -/
def respond (tree : FileTree) (pid : Nat) (home : Path) (words : List String) : Reply :=
  match CommandLine.read words with
  | .error .usage => .usage
  | .error .help => .done { output := helpText, tree }
  | .error .title => .done { output := Release.title ++ "\n", tree }
  | .ok line => .done (run tree pid home line)

end ImportAtlas.Command
