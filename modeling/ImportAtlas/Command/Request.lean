import ImportAtlas.Command.Words

/-!
# Requests

What a command line asks for, once its words have been read.
-/

namespace ImportAtlas.Command

/-- Lists the imports of one source file. -/
structure ScanRequest where
  file : Path
  flags : Flags
  /-- Reads the compiled sibling and starts no interpreter. -/
  sibling : Bool
  deriving DecidableEq, Repr

inductive ReportKind where
  | imports
  | module (name : String)
  | rank
  | dependencies
  deriving DecidableEq, Repr

/-- Reports on the imports below a root. -/
structure ReportRequest where
  /-- The working directory if absent. -/
  root : Option Path
  /-- Takes the place of the project's list unless empty. -/
  required : List String
  /-- Comes on top of the project's list. -/
  ignore : List String
  kind : ReportKind
  flags : Flags
  sibling : Bool
  /-- Where the report is written, if not to the standard output. -/
  output : Option Path
  deriving DecidableEq, Repr

/-- Compiles a source file and keeps the result. -/
structure CompileRequest where
  file : Path
  emit : Path
  flags : Flags
  deriving DecidableEq, Repr

inductive Request where
  | version
  | scan (request : ScanRequest)
  | report (request : ReportRequest)
  | compile (request : CompileRequest)
  deriving DecidableEq, Repr

/-- A command line. -/
structure CommandLine where
  json : Bool
  verbosity : Nat
  cwd : Option Path
  request : Request
  deriving DecidableEq, Repr

namespace Given

/-- The options that set something. -/
def flags (given : Given) : Flags where
  width := given.number? .width
  format := given.value? .format
  python := given.path? .python
  jobs := given.number? .jobs

/-- The first operand. -/
def operand? (given : Given) : Option Path :=
  given.operands.head?.map Path.mk

/-- The kind of report; at most one may be asked for. -/
def reportKind (given : Given) : Except Stop ReportKind :=
  match given.value? .module, given.has .rank, given.has .dependencies with
  | none, false, false => .ok .imports
  | some name, false, false => .ok (.module name)
  | none, true, false => .ok .rank
  | none, false, true => .ok .dependencies
  | _, _, _ => .error .usage

/-- The request for a command. -/
def request (given : Given) : Verb → Except Stop Request
  | .version => .ok .version
  | .scan =>
    match given.operand? with
    | some file => .ok (.scan { file, flags := given.flags, sibling := given.has .sibling })
    | none => .error .usage
  | .report => do
    return .report {
      root := given.operand?
      required := given.names .required
      ignore := given.names .ignore
      kind := ← given.reportKind
      flags := given.flags
      sibling := given.has .sibling
      output := given.path? .output }
  | .compile =>
    match given.operand?, given.path? .emit with
    | some file, some emit => .ok (.compile { file, emit, flags := given.flags })
    | _, _ => .error .usage

end Given

namespace CommandLine

/-- Puts together what was given before a command and behind it; what comes later wins. -/
def ofGiven (outer inner : Given) (request : Request) : CommandLine where
  json := outer.has .json || inner.has .json
  verbosity := (if inner.has .verbose then inner else outer).switches.count .verbose
  cwd := inner.path? .cwd <|> outer.path? .cwd
  request

/-- Reads a command line. Without a command it asks for the version. -/
def read (words : List String) : Except Stop CommandLine := do
  match ← readWords none {} words with
  | (outer, none) => return ofGiven outer {} .version
  | (outer, some (verb, rest)) =>
    let (inner, _) ← readWords (some verb) {} rest
    return ofGiven outer inner (← inner.request verb)

end CommandLine

end ImportAtlas.Command
