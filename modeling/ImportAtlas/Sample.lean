import ImportAtlas.Code.Assembler

/-!
# Sample modules

Modules of any size for measurements and tests: a fixed cycle of statements, one
per line, with a function after every tenth of them. The source text has the
same number of lines, and an import on each line where the module has one.
-/

namespace ImportAtlas.Sample

/-- The modules that are imported in turn. -/
def modules : List String :=
  ["os", "sys", "json", "re", "os.path", "collections", "logging"]

def filename : String := "bench.py"

/-- The module imported by the statement with this number. -/
def target (index : Nat) : String :=
  modules.getD (index % modules.length) ""

/-- The statement with this number. -/
def statement (index : Nat) : Assembler.Step :=
  match index % 4 with
  | 0 => .importModule (target index) none
  | 1 => .importFrom (target index) ["a", "b"] (-1)
  | 2 => .importFrom "" ["sibling"] 1
  | _ => .assignNone "value"

/-- Whether a function follows the statement with this number. -/
def endsBlock (index : Nat) : Bool :=
  index % 10 == 9

/-- The function after the statement with this number, defined on `line`. -/
def function (index : Nat) (line : UInt32) : CodeUnit :=
  (((Assembler.function ("f" ++ toString index) filename line).line (line + 1)).importModule
    (target index) none).finish

/-- Adds the statement with this number on `line`, and what follows it; gives the next free line. -/
def addStatement (state : Assembler × UInt32) (index : Nat) : Assembler × UInt32 :=
  let (asm, line) := state
  let asm := (asm.line line).step (statement index)
  let line := line + 1
  if endsBlock index then ((asm.line line).functionDef (function index line), line + 2)
  else (asm, line)

/-- A module with the given number of statements. -/
def module (statements : Nat) : CodeUnit :=
  ((List.range statements).foldl addStatement (Assembler.module filename, 1)).1.finish

/-- Source text for a module with the given number of statements. -/
def source (statements : Nat) : String :=
  String.join ((List.range statements).map fun index =>
    "import x\n" ++ if endsBlock index then "def f():\n    import y\n" else "")

end ImportAtlas.Sample
