import ImportAtlas.Code.Format
import ImportAtlas.Code.LineTable
import ImportAtlas.Text.Pieces

/-!
# Assembling code units

An assembler collects the instructions that import statements, function
definitions and simple assignments compile to, with the tables they refer to
and a line table that matches. Its units are meant to be decoded, not run: the
stack depth is left at zero.
-/

namespace ImportAtlas

/-- What kind of block is assembled. -/
inductive Scope where
  | module
  | function
  deriving DecidableEq, Repr

/-- A unit under construction. -/
structure Assembler where
  format : Format
  scope : Scope
  name : String
  filename : String
  firstLine : UInt32
  code : Array UInt8 := #[]
  consts : Array Constant := #[]
  names : Array String := #[]
  varnames : Array String := #[]
  lnotab : Array UInt8 := #[]
  /-- The line the table has reached. -/
  lastLine : UInt32
  /-- The offset the table has reached. -/
  lastOffset : Nat := 0

namespace Assembler

/-- The body of a module, which starts on line 1. -/
def module (filename : String) : Assembler where
  format := .v27
  scope := .module
  name := "<module>"
  filename := filename
  firstLine := 1
  lastLine := 1

/-- The body of a function defined on `firstLine`; its first constant is the missing docstring. -/
def function (name filename : String) (firstLine : UInt32) : Assembler where
  format := .v27
  scope := .function
  name := name
  filename := filename
  firstLine := firstLine
  consts := #[.none]
  lastLine := firstLine

/-- Emits opcodes of `format` from here on, and marks the unit with it. -/
def withFormat (asm : Assembler) (format : Format) : Assembler :=
  { asm with format }

/-- Length of the instruction buffer so far. -/
def offset (asm : Assembler) : Nat :=
  asm.code.size

/-- The position of the first entry like `entry`, which is added if there is none. -/
@[specialize] def tableIndex {α : Type} (like : α → α → Bool) (table : Array α) (entry : α) :
    Nat × Array α :=
  match table.findIdx? (like · entry) with
  | some index => (index, table)
  | none => (table.size, table.push entry)

/-- A table index as an operand; an index that does not fit becomes the largest operand. -/
def operandOf (index : Nat) : UInt16 :=
  UInt16.ofNat (min index 0xffff)

/-- The operand for a constant. -/
def constant (asm : Assembler) (value : Constant) : UInt16 × Assembler :=
  let (index, consts) := tableIndex Constant.numEq asm.consts value
  (operandOf index, { asm with consts })

/-- The operand for a name. -/
def nameOperand (asm : Assembler) (name : String) : UInt16 × Assembler :=
  let (index, names) := tableIndex (· == ·) asm.names name
  (operandOf index, { asm with names })

/-- The operand for a local variable. -/
def variableOperand (asm : Assembler) (name : String) : UInt16 × Assembler :=
  let (index, varnames) := tableIndex (· == ·) asm.varnames name
  (operandOf index, { asm with varnames })

/-- Emits an instruction without an operand. -/
def op (asm : Assembler) (opcode : UInt8) : Assembler :=
  { asm with code := asm.code.push opcode }

/-- Emits an instruction with an operand. -/
def opArg (asm : Assembler) (opcode : UInt8) (operand : UInt16) : Assembler :=
  { asm with code := asm.code.push opcode ++ Word.encode 2 operand.toNat }

/-! ## Lines -/

/-- The byte for a delta; one that does not fit becomes the largest. -/
def deltaByte (delta : Nat) : UInt8 :=
  UInt8.ofNat (min delta 255)

/-- Pairs that move the offset while it does not fit a pair, and what is left of it. -/
def pushOffsets (table : Array UInt8) (bytes : Nat) : Array UInt8 × Nat :=
  if 255 < bytes then pushOffsets ((table.push 255).push 0) (bytes - 255) else (table, bytes)
termination_by bytes
decreasing_by omega

/-- Pairs that move the line; the first of them moves the offset too. -/
def pushLines (table : Array UInt8) (bytes lines : Nat) : Array UInt8 :=
  if 255 < lines then pushLines ((table.push (deltaByte bytes)).push 255) 0 (lines - 255)
  else (table.push (deltaByte bytes)).push (deltaByte lines)
termination_by lines
decreasing_by omega

/--
Starts a source line at the present offset. The table can only move forward, so
a line that does not is ignored.
-/
def line (asm : Assembler) (line : UInt32) : Assembler :=
  if line ≤ asm.lastLine then asm
  else
    let (table, bytes) := pushOffsets asm.lnotab (asm.code.size - asm.lastOffset)
    { asm with
      lnotab := pushLines table bytes (line.toNat - asm.lastLine.toNat)
      lastLine := line
      lastOffset := asm.code.size }

/-! ## Statements -/

/-- Binds the value on top of the stack to `name`. -/
def store (asm : Assembler) (name : String) : Assembler :=
  match asm.scope with
  | .module =>
    let (index, asm) := asm.nameOperand name
    asm.opArg asm.format.storeName index
  | .function =>
    let (index, asm) := asm.variableOperand name
    asm.opArg asm.format.storeFast index

/-- Loads a constant. -/
def load (asm : Assembler) (value : Constant) : Assembler :=
  let (index, asm) := asm.constant value
  asm.opArg asm.format.loadConst index

/-- `name = None` -/
def assignNone (asm : Assembler) (name : String) : Assembler :=
  (asm.load .none).store name

/-- The three instructions of an import. Their operands are entered before any is emitted. -/
def importTriple (asm : Assembler) (level : Int64) (fromlist : Constant) (module : String) :
    Assembler :=
  let (level, asm) := asm.constant (.int level)
  let (fromlist, asm) := asm.constant fromlist
  let (module, asm) := asm.nameOperand module
  ((asm.opArg asm.format.loadConst level).opArg asm.format.loadConst fromlist).opArg
    asm.format.importName module

/-- The parts of a dotted name. -/
def dottedParts (dotted : String) : List String :=
  (Text.pieces '.' dotted.toList).map String.ofList

/-- Emits an instruction whose operand is a name. -/
def opName (asm : Assembler) (opcode : UInt8) (name : String) : Assembler :=
  let (index, asm) := asm.nameOperand name
  asm.opArg opcode index

/--
`import dotted` binds the first part of the name; `import dotted as bound`
loads the part that is meant and binds that.
-/
def importModule (asm : Assembler) (dotted : String) (boundAs : Option String) : Assembler :=
  let asm := asm.importTriple (-1) .none dotted
  match boundAs with
  | none => asm.store ((dottedParts dotted).headD dotted)
  | some name =>
    ((dottedParts dotted).tail.foldl (fun asm part => asm.opName asm.format.loadAttr part)
      asm).store name

/--
`from module import names`. The level is -1 for the implicit style, 0 for the
absolute one, and else the number of dots.
-/
def importFrom (asm : Assembler) (module : String) (names : List String) (level : Int64) :
    Assembler :=
  let asm := asm.importTriple level (.tuple (names.map .str)) module
  let asm := names.foldl
    (fun asm name => (asm.opName asm.format.importFrom name).store name) asm
  asm.op asm.format.popTop

/-- `from module import *` -/
def importStar (asm : Assembler) (module : String) (level : Int64) : Assembler :=
  let asm := asm.importTriple level (.tuple [.str "*"]) module
  asm.op asm.format.importStar

/-- `def name(): ...` for the finished unit of the function. -/
def functionDef (asm : Assembler) (body : CodeUnit) : Assembler :=
  let asm := asm.load (.code body)
  (asm.opArg asm.format.makeFunction 0).store body.name

/-- The flags of a block without free variables; a function has fast local variables besides. -/
def flags : Scope → Int32
  | .module => 0x40
  | .function => 0x43

/-- The unit of the code and the tables as they stand. -/
def unit (asm : Assembler) : CodeUnit where
  marker := asm.format.magic
  nlocals := Int32.ofNat (min asm.varnames.size 0x7fffffff)
  flags := flags asm.scope
  code := asm.code.toList
  consts := asm.consts.toList
  names := asm.names.toList
  varnames := asm.varnames.toList
  filename := asm.filename
  name := asm.name
  firstLine := asm.firstLine
  lnotab := asm.lnotab.toList

/-- Appends the implicit `return None`. -/
def ended (asm : Assembler) : Assembler :=
  let asm := asm.load .none
  asm.op asm.format.returnValue

/-- Appends the implicit `return None` and gives the unit. -/
def finish (asm : Assembler) : CodeUnit :=
  asm.ended.unit

/-! ## Programs -/

/-- One step of assembling. -/
inductive Step where
  | format (format : Format)
  | line (line : UInt32)
  | constant (value : Constant)
  | name (name : String)
  | op (opcode : UInt8)
  | opArg (opcode : UInt8) (operand : UInt16)
  | store (name : String)
  | assignNone (name : String)
  | importModule (dotted : String) (boundAs : Option String)
  | importFrom (module : String) (names : List String) (level : Int64)
  | importStar (module : String) (level : Int64)
  | functionDef (body : CodeUnit)

/-- Takes a step. -/
def step (asm : Assembler) : Step → Assembler
  | .format format => asm.withFormat format
  | .line line => asm.line line
  | .constant value => (asm.constant value).2
  | .name name => (asm.nameOperand name).2
  | .op opcode => asm.op opcode
  | .opArg opcode operand => asm.opArg opcode operand
  | .store name => asm.store name
  | .assignNone name => asm.assignNone name
  | .importModule dotted boundAs => asm.importModule dotted boundAs
  | .importFrom module names level => asm.importFrom module names level
  | .importStar module level => asm.importStar module level
  | .functionDef body => asm.functionDef body

/-- The operand a step is about, if it enters a constant or a name. -/
def stepOperand? (asm : Assembler) : Step → Option UInt16
  | .constant value => some (asm.constant value).1
  | .name name => some (asm.nameOperand name).1
  | _ => none

/-- Takes all steps in order. -/
def run (asm : Assembler) (steps : List Step) : Assembler :=
  steps.foldl step asm

end Assembler

end ImportAtlas
