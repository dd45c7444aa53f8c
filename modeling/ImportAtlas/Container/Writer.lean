import ImportAtlas.Container.Tag
import ImportAtlas.Error
import ImportAtlas.Text.Utf8

/-!
# Writing to a container

Objects are appended to the bytes written so far. Every string is written out,
so the reference table is never used, and integers take the short form when
they fit. A unit that is too large for the format's signed 32-bit counts fails
at the number of bytes written before the count.
-/

namespace ImportAtlas.Container.Writer

/-- Counts and line numbers must be below this. -/
def countLimit : Nat := 0x80000000

abbrev Output := Array UInt8

def putTag (tag : Tag) (out : Output) : Output :=
  out.push tag.toByte

def putBytes (bytes : Bytes) (out : Output) : Output :=
  out ++ bytes

/-- A count of bytes or members. -/
def putLength (count : Nat) (out : Output) : Except Error Output :=
  if count < countLimit then .ok (putBytes (Word.encode 4 count) out)
  else .error (.malformed out.size (.lengthTooLarge count))

/-- A byte string, written out. -/
def putString (raw : Bytes) (out : Output) : Except Error Output := do
  return putBytes raw (← putLength raw.length (putTag (.string .inline) out))

/-- The strings of a table of names, after the count. -/
def putNameEntries : List String → Output → Except Error Output
  | [], out => .ok out
  | name :: names, out => do putNameEntries names (← putString (Utf8.encode name) out)

/-- A table of names. -/
def putNames (names : List String) (out : Output) : Except Error Output := do
  putNameEntries names (← putLength names.length (putTag (.sequence .tuple) out))

/-- An integer, in the short form if it fits. -/
def putInt (value : Int64) (out : Output) : Output :=
  if value.toInt32.toInt64 = value then putBytes (Word.ofInt32 value.toInt32) (putTag .int out)
  else putBytes (Word.ofInt64 value) (putTag .int64 out)

/-- An integer of any size; the sign is the sign of the digit count. -/
def putLong (negative : Bool) (digits : List UInt16) (out : Output) : Except Error Output :=
  let out := putTag .long out
  if digits.length < countLimit then
    let count := Int32.ofNat digits.length
    let signed := if negative then -count else count
    .ok (putBytes (digits.flatMap fun digit => Word.encode 2 digit.toNat)
      (putBytes (Word.ofInt32 signed) out))
  else .error (.malformed out.size .longTooLarge)

/-- The bit pattern of a floating-point value. -/
def putBinary64 (value : Binary64) (out : Output) : Output :=
  putBytes (Word.encode 8 value.bits.toNat) out

/-- The line a unit starts on, in the field of a signed number. -/
def putFirstLine (line : UInt32) (out : Output) : Except Error Output :=
  if line.toNat < countLimit then .ok (putBytes (Word.encode 4 line.toNat) out)
  else .error (.malformed out.size .firstLineTooLarge)

mutual

def putConstant : Constant → Output → Except Error Output
  | .none, out => .ok (putTag .none out)
  | .bool value, out => .ok (putTag (if value then .true else .false) out)
  | .stopIteration, out => .ok (putTag .stopIteration out)
  | .ellipsis, out => .ok (putTag .ellipsis out)
  | .int value, out => .ok (putInt value out)
  | .long negative digits, out => putLong negative digits out
  | .float value, out => .ok (putBinary64 value (putTag .float out))
  | .complex real imaginary, out =>
    .ok (putBinary64 imaginary (putBinary64 real (putTag .complex out)))
  | .str text, out => putString (Utf8.encode text) out
  | .unicode text, out => do
    let raw := Utf8.encode text
    return putBytes raw (← putLength raw.length (putTag .unicode out))
  | .tuple items, out => do
    putItems items (← putLength items.length (putTag (.sequence .tuple) out))
  | .list items, out => do
    putItems items (← putLength items.length (putTag (.sequence .list) out))
  | .set items, out => do
    putItems items (← putLength items.length (putTag (.sequence .set) out))
  | .frozenset items, out => do
    putItems items (← putLength items.length (putTag (.sequence .frozenset) out))
  | .dict entries, out => do
    return putTag .null (← putEntries entries (putTag .dict out))
  | .code unit, out => putUnit unit out

def putItems : List Constant → Output → Except Error Output
  | [], out => .ok out
  | item :: items, out => do putItems items (← putConstant item out)

def putEntries : List (Constant × Constant) → Output → Except Error Output
  | [], out => .ok out
  | (key, value) :: entries, out => do
    putEntries entries (← putConstant value (← putConstant key out))

/-- A code object: four numbers, the code, five tables, two names, the first line and the table of
lines. -/
def putUnit : CodeUnit → Output → Except Error Output
  | ⟨_, argcount, nlocals, stacksize, flags, code, consts, names, varnames, freevars, cellvars,
      filename, name, firstLine, lnotab⟩, out => do
    let out := putBytes ([argcount, nlocals, stacksize, flags].flatMap Word.ofInt32)
      (putTag .code out)
    let out ← putString code out
    let out ← putLength consts.length (putTag (.sequence .tuple) out)
    let out ← putItems consts out
    let out ← putNames names out
    let out ← putNames varnames out
    let out ← putNames freevars out
    let out ← putNames cellvars out
    let out ← putString (Utf8.encode filename) out
    let out ← putString (Utf8.encode name) out
    let out ← putFirstLine firstLine out
    putString lnotab out

end

end ImportAtlas.Container.Writer
