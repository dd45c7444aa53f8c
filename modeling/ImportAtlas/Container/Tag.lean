import ImportAtlas.Code.Unit

/-!
# Type codes

Every object in a container starts with a one-byte type code. A byte string
has three codes, for its three ways of being stored, and a sequence has one for
each kind of sequence.
-/

namespace ImportAtlas.Container

/-- How a byte string is stored. -/
inductive StringForm where
  /-- Written out. -/
  | inline
  /-- Written out and entered into the reference table. -/
  | interned
  /-- A number in the reference table. -/
  | reference
  deriving DecidableEq, Repr

/-- The containers that are stored as a count and their members. -/
inductive SequenceKind where
  | tuple | list | set | frozenset
  deriving DecidableEq, Repr

/-- The constant with the given members. -/
def SequenceKind.build : SequenceKind → List Constant → Constant
  | .tuple => .tuple
  | .list => .list
  | .set => .set
  | .frozenset => .frozenset

inductive Tag where
  | null | none | false | true | stopIteration | ellipsis | int | int64 | textFloat | float
  | textComplex | complex | long | dict | code | unicode
  | string (form : StringForm)
  | sequence (kind : SequenceKind)
  deriving DecidableEq, Repr

namespace Tag

def toByte : Tag → UInt8
  | .null => 0x30
  | .none => 0x4e
  | .false => 0x46
  | .true => 0x54
  | .stopIteration => 0x53
  | .ellipsis => 0x2e
  | .int => 0x69
  | .int64 => 0x49
  | .textFloat => 0x66
  | .float => 0x67
  | .textComplex => 0x78
  | .complex => 0x79
  | .long => 0x6c
  | .dict => 0x7b
  | .code => 0x63
  | .unicode => 0x75
  | .string .inline => 0x73
  | .string .interned => 0x74
  | .string .reference => 0x52
  | .sequence .tuple => 0x28
  | .sequence .list => 0x5b
  | .sequence .set => 0x3c
  | .sequence .frozenset => 0x3e

/-- Every type code. -/
def all : List Tag :=
  [.null, .none, .false, .true, .stopIteration, .ellipsis, .int, .int64, .textFloat, .float,
    .textComplex, .complex, .long, .dict, .code, .unicode, .string .inline, .string .interned,
    .string .reference, .sequence .tuple, .sequence .list, .sequence .set, .sequence .frozenset]

def ofByte? (byte : UInt8) : Option Tag :=
  all.find? (·.toByte == byte)

@[simp] theorem ofByte?_toByte (tag : Tag) : ofByte? tag.toByte = some tag := by
  cases tag with
  | string form => cases form <;> rfl
  | sequence kind => cases kind <;> rfl
  | _ => rfl

end Tag

end ImportAtlas.Container
