import ImportAtlas.Container.Basic
import ImportAtlas.File.Tree
import ImportAtlas.Import.Scan
import ImportAtlas.Text.Blank

/-!
# Compiling a source file

Compilation belongs to an interpreter. Either the compiled sibling it left
beside the source is loaded, or the interpreter is started with the source as
its input and what it writes is loaded.
-/

namespace ImportAtlas

/-- Where the code of a source file comes from. -/
inductive Compiler where
  /-- The compiled file beside the source. -/
  | sibling
  /-- An interpreter that is started for each source. -/
  | host (program : Path)
  deriving DecidableEq, Repr

/-- The compiled file that belongs to a source file. -/
def compiledPath (path : Path) : Path :=
  path.withExtension "pyc"

namespace Compiler

def name : Compiler → String
  | .sibling => "pyc"
  | .host _ => "host"

/-- The interpreter that is started if none is named. -/
def defaultProgram : Path := ⟨"python2"⟩

/-- The last line of a report that holds more than blanks, without blanks around it. -/
def lastWords? (report : Bytes) : Option String :=
  ((Text.lines (Utf8.decodeLossy report)).map fun line =>
    String.ofList (Text.trimChars line.toList)).reverse.find? (!·.isEmpty)

/-- What an interpreter does: it compiles its input and writes the container. -/
def script : String :=
  "\n".intercalate [
    "",
    "import sys, marshal, imp",
    "try:",
    "    import msvcrt, os",
    "    msvcrt.setmode(sys.stdout.fileno(), os.O_BINARY)",
    "except ImportError:",
    "    pass",
    "src = sys.stdin.read()",
    "code = compile(src + '\\n', sys.argv[1], 'exec')",
    "sys.stdout.write(imp.get_magic() + '\\0\\0\\0\\0' + marshal.dumps(code))",
    "sys.stdout.flush()",
    ""]

/-- What an interpreter is given to compile the source text read from `path`. -/
def invocation (path : Path) (source : String) : Invocation where
  arguments := ["-c", script, path.text]
  input := Utf8.encode source

/-- What a program wrote if it succeeded, or what it had to say. -/
def outcome (path : Path) (program : Path) (run : ProgramRun) : Except Error Bytes :=
  if run.status = .exited 0 then .ok run.output
  else .error (.notCompiled path
    (match lastWords? run.report with
      | some report => .rejected report
      | none => .silent program run.status))

/-- The compiled form of the source text read from `path`. -/
def container (tree : FileTree) (compiler : Compiler) (path : Path) (source : String) :
    Except Error Bytes :=
  match compiler with
  | .sibling =>
    match tree.read (compiledPath path) with
    | .ok bytes => .ok bytes
    | .error cause => .error (.notCompiled path (.noCompiled (compiledPath path) cause))
  | .host name =>
    match tree.findProgram name with
    | .ok program => outcome path name (program (invocation path source))
    | .error cause => .error (.noCompiler name cause)

/-- The code unit of the source text read from `path`. -/
def compile (tree : FileTree) (compiler : Compiler) (format : Format) (path : Path)
    (source : String) : Except Error CodeUnit := do
  Container.load (← compiler.container tree path source) format

end Compiler

/-- The text of the source at `path`. -/
def readSource (tree : FileTree) (path : Path) : Except Error String :=
  match tree.read path with
  | .ok bytes => .ok (SourceText.read bytes)
  | .error cause => .error (.unreadable path cause)

/-- Reads, compiles and scans one source file. -/
def scanFile (tree : FileTree) (compiler : Compiler) (format : Format) (path : Path) :
    Except Error ScanResult := do
  let source ← readSource tree path
  let unit ← compiler.compile tree format path source
  scan format (some (SourceText.ofString source)) unit

end ImportAtlas
