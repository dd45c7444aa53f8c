import ImportAtlas.Bytes.Word
import ImportAtlas.Number.Binary64

/-!
# Constants and code units

A code unit is the compiled form of a module, class body or function. Its
constant table holds literals, among them the units of the functions and
classes defined inside it, so that the units of a module form a finite tree.
-/

namespace ImportAtlas

mutual

/-- A literal in a constant table. -/
inductive Constant where
  | none
  | bool (value : Bool)
  | ellipsis
  | stopIteration
  | int (value : Int64)
  /-- An integer of any size by its 15-bit digits, least significant first. -/
  | long (negative : Bool) (digits : List UInt16)
  | float (value : Binary64)
  | complex (real imaginary : Binary64)
  /-- A byte string, as the text it was read to. -/
  | str (text : String)
  | unicode (text : String)
  | tuple (items : List Constant)
  | list (items : List Constant)
  | dict (entries : List (Constant × Constant))
  | set (items : List Constant)
  | frozenset (items : List Constant)
  | code (unit : CodeUnit)

/-- A compiled block of source. -/
structure CodeUnit where
  /-- Magic of the format the unit was compiled for. -/
  marker : UInt16
  argcount : Int32 := 0
  nlocals : Int32 := 0
  stacksize : Int32 := 0
  flags : Int32 := 0
  /-- The instruction buffer. -/
  code : Bytes := []
  consts : List Constant := []
  names : List String := []
  varnames : List String := []
  freevars : List String := []
  cellvars : List String := []
  filename : String := ""
  name : String := ""
  firstLine : UInt32 := 0
  /-- The compressed line table. -/
  lnotab : Bytes := []

end

instance : Inhabited Constant := ⟨.none⟩

instance : Inhabited CodeUnit := ⟨{ marker := 0 }⟩

/-- The kind of a constant, by which messages call it. -/
inductive Kind where
  | none | bool | ellipsis | stopIteration | int | long | float | complex | str | unicode
  | tuple | list | dict | set | frozenset | code
  deriving DecidableEq, Repr

def Kind.name : Kind → String
  | .none => "None"
  | .bool => "bool"
  | .ellipsis => "Ellipsis"
  | .stopIteration => "StopIteration"
  | .int => "int"
  | .long => "long"
  | .float => "float"
  | .complex => "complex"
  | .str => "str"
  | .unicode => "unicode"
  | .tuple => "tuple"
  | .list => "list"
  | .dict => "dict"
  | .set => "set"
  | .frozenset => "frozenset"
  | .code => "code"

namespace Constant

def kind : Constant → Kind
  | .none => .none
  | .bool _ => .bool
  | .ellipsis => .ellipsis
  | .stopIteration => .stopIteration
  | .int _ => .int
  | .long _ _ => .long
  | .float _ => .float
  | .complex _ _ => .complex
  | .str _ => .str
  | .unicode _ => .unicode
  | .tuple _ => .tuple
  | .list _ => .list
  | .dict _ => .dict
  | .set _ => .set
  | .frozenset _ => .frozenset
  | .code _ => .code

/-- The value of a small integer; a truth value counts as one. -/
def int? : Constant → Option Int64
  | .int value => some value
  | .bool value => some (if value then 1 else 0)
  | _ => Option.none

/-- The text of a string of either kind. -/
def text? : Constant → Option String
  | .str text => some text
  | .unicode text => some text
  | _ => Option.none

def code? : Constant → Option CodeUnit
  | .code unit => some unit
  | _ => Option.none

end Constant

/-- The units held directly by the constant table, in its order. -/
def CodeUnit.nested (unit : CodeUnit) : List CodeUnit :=
  unit.consts.filterMap Constant.code?

/-! ## Numerical equality

Two constants are equal in the sense of the assembler's tables when they agree
in everything but floating-point values, which are compared as numbers.
-/

mutual

def Constant.numEq : Constant → Constant → Bool
  | .none, .none => true
  | .bool a, .bool b => a == b
  | .ellipsis, .ellipsis => true
  | .stopIteration, .stopIteration => true
  | .int a, .int b => a == b
  | .long s a, .long t b => s == t && a == b
  | .float a, .float b => a.numEq b
  | .complex a c, .complex b d => a.numEq b && c.numEq d
  | .str a, .str b => a == b
  | .unicode a, .unicode b => a == b
  | .tuple a, .tuple b => Constant.numEqItems a b
  | .list a, .list b => Constant.numEqItems a b
  | .dict a, .dict b => Constant.numEqEntries a b
  | .set a, .set b => Constant.numEqItems a b
  | .frozenset a, .frozenset b => Constant.numEqItems a b
  | .code a, .code b => CodeUnit.numEq a b
  | _, _ => false
termination_by structural a => a

def Constant.numEqItems : List Constant → List Constant → Bool
  | [], [] => true
  | a :: as, b :: bs => Constant.numEq a b && Constant.numEqItems as bs
  | _, _ => false
termination_by structural as => as

def Constant.numEqEntries : List (Constant × Constant) → List (Constant × Constant) → Bool
  | [], [] => true
  | (k, v) :: as, (l, w) :: bs =>
    Constant.numEq k l && Constant.numEq v w && Constant.numEqEntries as bs
  | _, _ => false
termination_by structural as => as

def CodeUnit.numEq : CodeUnit → CodeUnit → Bool
  | ⟨marker, argcount, nlocals, stacksize, flags, code, consts, names, varnames, freevars,
      cellvars, filename, name, firstLine, lnotab⟩, other =>
    marker == other.marker && argcount == other.argcount && nlocals == other.nlocals
      && stacksize == other.stacksize && flags == other.flags && code == other.code
      && Constant.numEqItems consts other.consts && names == other.names
      && varnames == other.varnames && freevars == other.freevars
      && cellvars == other.cellvars && filename == other.filename && name == other.name
      && firstLine == other.firstLine && lnotab == other.lnotab
termination_by structural a => a

end

end ImportAtlas
