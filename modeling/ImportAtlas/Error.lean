import ImportAtlas.Code.Format
import ImportAtlas.Code.Unit
import ImportAtlas.File.Path
import ImportAtlas.File.SystemError
import ImportAtlas.Text.Quoted

/-!
# Errors

Every way in which an operation can fail, as a cause with its data. A cause has
a stable code, for programs, and a message, for people; both are derived here
and nowhere else.
-/

namespace ImportAtlas

/-- Why a bytecode format is not usable. -/
inductive FormatProblem where
  | unknownName (name : String)
  | mismatch (expected : Format) (marker : UInt16)
  deriving DecidableEq, Repr

/-- The table an operand points into. -/
inductive Table where
  | constants
  | names
  deriving DecidableEq, Repr

/-- Why a constant does not fit its use in an import. -/
inductive ConstantProblem where
  | levelOutOfRange (level : Int64)
  | negativeLevel (level : Int64)
  | levelKind (kind : Kind)
  | fromlistKind (kind : Kind)
  | fromlistEntryKind (kind : Kind)
  deriving DecidableEq, Repr

/-- Why bytes are no container, or a unit cannot be stored in one. -/
inductive ContainerProblem where
  | headerTooShort
  | missingLineEnd
  | endOfData (wanted : Nat)
  | negativeLength (length : Int32)
  | invalidFloat
  | expectedString (code : UInt8)
  | unknownCode (code : UInt8)
  | nullObject
  | unknownReference (index : Nat)
  | tooDeep
  | expectedConstants (found : Kind)
  | expectedNames (found : Kind)
  | expectedName (found : Kind)
  | negativeFirstLine (line : Int32)
  | expectedCode (found : Kind)
  | lengthTooLarge (length : Nat)
  | longTooLarge
  | firstLineTooLarge
  deriving DecidableEq, Repr

/-- How a process ended. -/
inductive ExitStatus where
  | exited (code : Nat)
  | signalled (number : Nat)
  deriving DecidableEq, Repr

/-- Why a source file has no code unit. -/
inductive CompileProblem where
  /-- The compiled sibling cannot be read. -/
  | noCompiled (compiled : Path) (cause : SystemError)
  /-- The interpreter failed; `report` is the last line it wrote about it. -/
  | rejected (report : String)
  /-- The interpreter failed without a word. -/
  | silent (program : Path) (status : ExitStatus)
  deriving DecidableEq, Repr

inductive Error where
  | system (cause : SystemError)
  | unreadable (path : Path) (cause : SystemError)
  | notCompiled (path : Path) (problem : CompileProblem)
  | noCompiler (program : Path) (cause : SystemError)
  | unsupportedFormat (problem : FormatProblem)
  | truncatedInstruction (offset length : Nat)
  | operandOutside (offset index : Nat) (table : Table)
  | unexpectedConstant (offset : Nat) (problem : ConstantProblem)
  | malformed (position : Nat) (problem : ContainerProblem)
  | settingsUnreadable (path : Path) (cause : SystemError)
  | settingsMalformed (path : Path)
  deriving DecidableEq, Repr

/-! ## Codes -/

def Error.code : Error → String
  | .system _ => "IO_ERROR"
  | .unreadable _ _ => "FILE_READ_ERROR"
  | .notCompiled _ _ => "COMPILE_ERROR"
  | .noCompiler _ _ => "COMPILER_UNAVAILABLE"
  | .unsupportedFormat _ => "UNSUPPORTED_BYTECODE_FORMAT"
  | .truncatedInstruction _ _ => "TRUNCATED_INSTRUCTION"
  | .operandOutside _ _ _ => "INVALID_OPERAND"
  | .unexpectedConstant _ _ => "INVALID_CONSTANT"
  | .malformed _ _ => "MARSHAL_ERROR"
  | .settingsUnreadable _ _ => "CONFIG_READ_ERROR"
  | .settingsMalformed _ => "CONFIG_PARSE_ERROR"

/-! ## Messages -/

/-- A format with its magic, as far as the magic is known. -/
def describeMarker (marker : UInt16) : String :=
  match Format.ofMagic? marker with
  | some format => format.name ++ " (magic " ++ toString marker.toNat ++ ")"
  | none => "magic " ++ toString marker.toNat

def FormatProblem.message : FormatProblem → String
  | .unknownName name =>
    "unknown format '" ++ name ++ "' (supported: "
      ++ ", ".intercalate (Format.supported.map (·.name)) ++ ")"
  | .mismatch expected marker =>
    "expected " ++ expected.name ++ " (magic " ++ toString expected.magic.toNat ++ "), found "
      ++ describeMarker marker

def Table.name : Table → String
  | .constants => "constants"
  | .names => "names"

def ConstantProblem.message : ConstantProblem → String
  | .levelOutOfRange level => "import level " ++ toString level.toInt ++ " out of range"
  | .negativeLevel level => "import level " ++ toString level.toInt
  | .levelKind kind => "import level of kind " ++ kind.name
  | .fromlistKind kind => "fromlist of kind " ++ kind.name
  | .fromlistEntryKind kind => "fromlist entry of kind " ++ kind.name

def ContainerProblem.message : ContainerProblem → String
  | .headerTooShort => "container shorter than 8-byte header"
  | .missingLineEnd => "missing \\r\\n after magic"
  | .endOfData wanted => "unexpected end of data reading " ++ toString wanted ++ " bytes"
  | .negativeLength length => "negative length " ++ toString length.toInt
  | .invalidFloat => "invalid float literal"
  | .expectedString code => "expected a string, found type " ++ Text.quotedByte code
  | .unknownCode code => "unknown type code " ++ Text.quotedByte code
  | .nullObject => "unexpected NULL object"
  | .unknownReference index => "string reference " ++ toString index ++ " out of range"
  | .tooDeep => "nesting deeper than 2000"
  | .expectedConstants found => "expected constants tuple, found " ++ found.name
  | .expectedNames found => "expected a tuple of names, found " ++ found.name
  | .expectedName found => "expected a name, found " ++ found.name
  | .negativeFirstLine line => "negative first line " ++ toString line.toInt
  | .expectedCode found => "expected a code object, found " ++ found.name
  | .lengthTooLarge length => "length " ++ toString length ++ " too large"
  | .longTooLarge => "long too large"
  | .firstLineTooLarge => "first line too large"

/-- The names of the signals, from number 1 on. -/
def signalNames : List String :=
  ["SIGHUP", "SIGINT", "SIGQUIT", "SIGILL", "SIGTRAP", "SIGABRT", "SIGBUS", "SIGFPE", "SIGKILL",
    "SIGUSR1", "SIGSEGV", "SIGUSR2", "SIGPIPE", "SIGALRM", "SIGTERM", "SIGSTKFLT", "SIGCHLD",
    "SIGCONT", "SIGSTOP", "SIGTSTP", "SIGTTIN", "SIGTTOU", "SIGURG", "SIGXCPU", "SIGXFSZ",
    "SIGVTALRM", "SIGPROF", "SIGWINCH", "SIGIO", "SIGPWR", "SIGSYS"]

def ExitStatus.message : ExitStatus → String
  | .exited code => "exit status: " ++ toString code
  | .signalled number =>
    "signal: " ++ toString number ++ match signalNames[number - 1]? with
      | some name => " (" ++ name ++ ")"
      | none => ""

def CompileProblem.message : CompileProblem → String
  | .noCompiled compiled cause =>
    "no compiled module at " ++ compiled.text ++ ": " ++ cause.message
  | .rejected report => report
  | .silent program status => program.text ++ " exited with " ++ status.message

def Error.message : Error → String
  | .system cause => "IO error: " ++ cause.message
  | .unreadable path cause => "Failed to read " ++ path.text ++ ": " ++ cause.message
  | .notCompiled path problem => "Failed to compile " ++ path.text ++ ": " ++ problem.message
  | .noCompiler program cause =>
    "Compiler '" ++ program.text ++ "' could not be started: " ++ cause.message
  | .unsupportedFormat problem => "Unsupported bytecode format: " ++ problem.message
  | .truncatedInstruction offset length =>
    "Truncated instruction at offset " ++ toString offset ++ " (buffer length "
      ++ toString length ++ ")"
  | .operandOutside offset index table =>
    "Operand " ++ toString index ++ " at offset " ++ toString offset ++ " is outside the "
      ++ table.name ++ " table"
  | .unexpectedConstant offset problem =>
    "Unexpected constant at offset " ++ toString offset ++ ": " ++ problem.message
  | .malformed position problem =>
    "Malformed marshal data at byte " ++ toString position ++ ": " ++ problem.message
  | .settingsUnreadable path cause =>
    "Failed to read config at " ++ path.text ++ ": " ++ cause.message
  | .settingsMalformed path => "Failed to parse config at " ++ path.text

namespace Format

/-- The format with this name. -/
def named (name : String) : Except Error Format :=
  match ofName? name with
  | some format => .ok format
  | none => .error (.unsupportedFormat (.unknownName name))

/-- Accepts only units that carry this format's magic. -/
def check (format : Format) (marker : UInt16) : Except Error Unit :=
  if marker = format.magic then .ok ()
  else .error (.unsupportedFormat (.mismatch format marker))

end Format

end ImportAtlas
