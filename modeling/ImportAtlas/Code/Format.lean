/-!
# Bytecode formats

The two supported generations of bytecode. They share most opcodes; the import
and attribute instructions moved by one between them.
-/

namespace ImportAtlas

/-- Opcodes and container magic of one generation of bytecode. -/
structure Format where
  name : String
  /-- First word of a container, and the marker its code units carry. -/
  magic : UInt16
  popTop : UInt8
  returnValue : UInt8
  importStar : UInt8
  /-- Instructions from this opcode on have a two-byte operand. -/
  haveArgument : UInt8
  storeName : UInt8
  storeGlobal : UInt8
  loadConst : UInt8
  loadAttr : UInt8
  importName : UInt8
  importFrom : UInt8
  storeFast : UInt8
  makeFunction : UInt8
  extendedArg : UInt8
  deriving DecidableEq, Repr, Inhabited

namespace Format

def v26 : Format where
  name := "2.6"
  magic := 62161
  popTop := 1
  returnValue := 83
  importStar := 84
  haveArgument := 90
  storeName := 90
  storeGlobal := 97
  loadConst := 100
  loadAttr := 105
  importName := 107
  importFrom := 108
  storeFast := 125
  makeFunction := 132
  extendedArg := 143

def v27 : Format :=
  { v26 with
    name := "2.7"
    magic := 62211
    loadAttr := 106
    importName := 108
    importFrom := 109
    extendedArg := 145 }

/-- Every supported format, oldest first. -/
def supported : List Format := [v26, v27]

def ofName? (name : String) : Option Format :=
  supported.find? (·.name == name)

def ofMagic? (magic : UInt16) : Option Format :=
  supported.find? (·.magic == magic)

/-- Whether an operand follows `opcode`. -/
def hasArgument (format : Format) (opcode : UInt8) : Bool :=
  format.haveArgument ≤ opcode

end Format

end ImportAtlas
