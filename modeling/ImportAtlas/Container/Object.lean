import ImportAtlas.Container.Reader

/-!
# Decoding objects

Objects nest, and a hostile container may nest them as deep as it is long.
Decoding therefore keeps the containers it is inside of on a stack of its own,
of limited height: each turn opens one object, and a finished object is handed
to the container below it, which may be finished by that in turn.
-/

namespace ImportAtlas.Container

/-- An object may stand inside at most this many containers less one. -/
def maxDepth : Nat := 2000

/-- The fixed part of a code object, which comes before its tables. -/
structure CodeHead where
  argcount : Int32
  nlocals : Int32
  stacksize : Int32
  flags : Int32
  code : Bytes

/-- A container whose members are still being read. -/
inductive Frame where
  /-- `missing` members are still to come. -/
  | sequence (kind : SequenceKind) (missing : Nat) (items : Array Constant)
  /-- A key that waits for its value stands apart. -/
  | dict (entries : Array (Constant × Constant)) (key : Option Constant)
  /-- The five tables of a code object, as far as they have been read. -/
  | code (head : CodeHead) (tables : List Constant)

/-- What opening an object gives. -/
inductive Opened where
  | value (constant : Constant)
  | frame (frame : Frame)

/-- Where a turn of decoding ends. -/
inductive Progress where
  | finished (value : Constant)
  | pending (stack : List Frame)

namespace Reader

/-- A member of a table of names. -/
def nameEntry (item : Constant) : Reader String :=
  match item.text? with
  | some name => return name
  | none => fail (.expectedName item.kind)

/-- The table of constants, which is a tuple. -/
def constantTable : Constant → Reader (List Constant)
  | .tuple items => return items
  | other => fail (.expectedConstants other.kind)

/-- A table of names, which is a tuple of strings of either kind. -/
def nameTable : Constant → Reader (List String)
  | .tuple items => items.mapM nameEntry
  | other => fail (.expectedNames other.kind)

/-- The first line of a code object, which is stored signed but may not be negative. -/
def firstLine : Reader UInt32 := do
  let line ← int32
  if line < 0 then fail (.negativeFirstLine line) else return line.toUInt32

/-- The rest of a code object whose tables have been read. -/
def codeTail (marker : UInt16) (head : CodeHead)
    (consts names varnames freevars cellvars : Constant) :
    Reader CodeUnit := do
  let consts ← constantTable consts
  let names ← nameTable names
  let varnames ← nameTable varnames
  let freevars ← nameTable freevars
  let cellvars ← nameTable cellvars
  let filename ← string
  let name ← string
  let firstLine ← firstLine
  let lnotab ← rawString
  return {
    marker, argcount := head.argcount, nlocals := head.nlocals, stacksize := head.stacksize,
    flags := head.flags, code := head.code, consts, names, varnames, freevars, cellvars,
    filename, name, firstLine, lnotab }

/-- An integer of any size: a signed digit count, then the digits. -/
def long : Reader Constant := do
  let count ← int32
  let raw ← take (2 * count.toInt.natAbs)
  return .long (count < 0) (Word.pairs raw)

def codeHead : Reader CodeHead := do
  let argcount ← int32
  let nlocals ← int32
  let stacksize ← int32
  let flags ← int32
  let code ← rawString
  return { argcount, nlocals, stacksize, flags, code }

/-- The object behind a type code: a whole value, or a container that is now open. -/
def openTagged : Tag → Reader Opened
  | .null => fail .nullObject
  | .none => return .value .none
  | .false => return .value (.bool false)
  | .true => return .value (.bool true)
  | .stopIteration => return .value .stopIteration
  | .ellipsis => return .value .ellipsis
  | .int => return .value (.int (← int32).toInt64)
  | .int64 => return .value (.int (← int64))
  | .textFloat => return .value (.float (← textFloat))
  | .float => return .value (.float (← binary64))
  | .textComplex => do
    let real ← textFloat
    return .value (.complex real (← textFloat))
  | .complex => do
    let real ← binary64
    return .value (.complex real (← binary64))
  | .long => return .value (← long)
  | .string form => return .value (.str (Utf8.decodeLossy (← stringBody form)))
  | .unicode => do
    let count ← length
    return .value (.unicode (Utf8.decodeLossy (← take count)))
  | .sequence kind => return .frame (.sequence kind (← length) #[])
  | .dict => return .frame (.dict #[] none)
  | .code => return .frame (.code (← codeHead) [])

/-- The next object. -/
def openObject : Reader Opened := do
  let code ← byte
  match Tag.ofByte? code with
  | some tag => openTagged tag
  | none => fail (.unknownCode code)

end Reader

namespace Frame

/-- Takes in a finished member. -/
def accept : Frame → Constant → Frame
  | .sequence kind missing items, member => .sequence kind (missing - 1) (items.push member)
  | .dict entries none, key => .dict entries (some key)
  | .dict entries (some key), value => .dict (entries.push (key, value)) none
  | .code head tables, table => .code head (tables ++ [table])

/--
The finished container, or nothing while it expects more members. A dictionary
ends where a null stands in the place of a key.
-/
def close (marker : UInt16) : Frame → Reader (Option Constant)
  | .sequence kind missing items =>
    return if missing = 0 then some (kind.build items.toList) else none
  | .dict _ (some _) => return none
  | .dict entries none => do
    return if ← Reader.skip? Tag.null.toByte then some (.dict entries.toList) else none
  | .code head [consts, names, varnames, freevars, cellvars] => do
    return some (.code (← Reader.codeTail marker head consts names varnames freevars cellvars))
  | .code _ _ => return none

end Frame

namespace Reader

/-- Closes the open container `frame`, and those below that are finished by it. -/
def settle (marker : UInt16) : Frame → List Frame → Reader Progress
  | frame, [] => do
    match ← frame.close marker with
    | some value => return .finished value
    | none => return .pending [frame]
  | frame, below :: stack => do
    match ← frame.close marker with
    | some value => settle marker (below.accept value) stack
    | none => return .pending (frame :: below :: stack)

/-- Hands a finished value to the container it stands in. -/
def deliver (marker : UInt16) (value : Constant) : List Frame → Reader Progress
  | [] => return .finished value
  | frame :: stack => settle marker (frame.accept value) stack

/-- One turn: opens an object inside the containers on `stack`. -/
def turn (marker : UInt16) (stack : List Frame) : Reader Progress := do
  match ← openObject with
  | .value value => deliver marker value stack
  | .frame frame => settle marker frame stack

/-! ## What a turn leaves ahead -/

theorem shrinks_nameEntry (item : Constant) : Shrinks (nameEntry item) := by
  unfold nameEntry
  split
  · exact shrinks_pure _
  · exact shrinks_fail _

theorem shrinks_constantTable (table : Constant) : Shrinks (constantTable table) := by
  unfold constantTable
  split
  · exact shrinks_pure _
  · exact shrinks_fail _

theorem shrinks_nameTable (table : Constant) : Shrinks (nameTable table) := by
  unfold nameTable
  split
  · exact shrinks_mapM shrinks_nameEntry _
  · exact shrinks_fail _

theorem shrinks_firstLine : Shrinks firstLine := by
  refine shrinks_int32.bind fun line => ?_
  split
  · exact shrinks_fail _
  · exact shrinks_pure _

theorem shrinks_codeTail (marker : UInt16) (head : CodeHead)
    (consts names varnames freevars cellvars : Constant) :
    Shrinks (codeTail marker head consts names varnames freevars cellvars) :=
  (shrinks_constantTable _).bind fun _ => (shrinks_nameTable _).bind fun _ =>
    (shrinks_nameTable _).bind fun _ => (shrinks_nameTable _).bind fun _ =>
    (shrinks_nameTable _).bind fun _ => shrinks_string.bind fun _ => shrinks_string.bind fun _ =>
    shrinks_firstLine.bind fun _ => shrinks_rawString.map _

theorem shrinks_long : Shrinks long :=
  shrinks_int32.bind fun _ => (shrinks_take _).map _

theorem shrinks_codeHead : Shrinks codeHead :=
  shrinks_int32.bind fun _ => shrinks_int32.bind fun _ => shrinks_int32.bind fun _ =>
    shrinks_int32.bind fun _ => shrinks_rawString.map _

theorem shrinks_openTagged (tag : Tag) : Shrinks (openTagged tag) := by
  cases tag with
  | null => exact shrinks_fail _
  | none | «false» | «true» | stopIteration | ellipsis | dict => exact shrinks_pure _
  | int => exact shrinks_int32.map _
  | int64 => exact shrinks_int64.map _
  | textFloat => exact shrinks_textFloat.map _
  | float => exact shrinks_binary64.map _
  | textComplex => exact shrinks_textFloat.bind fun _ => shrinks_textFloat.map _
  | complex => exact shrinks_binary64.bind fun _ => shrinks_binary64.map _
  | long => exact shrinks_long.map _
  | string form => exact (shrinks_stringBody form).map _
  | unicode => exact shrinks_length.bind fun _ => (shrinks_take _).map _
  | sequence kind => exact shrinks_length.map _
  | code => exact shrinks_codeHead.map _

/-- Opening an object consumes its type code at least. -/
theorem length_of_openObject {stream next : Stream} {opened : Opened}
    (h : openObject stream = .ok (opened, next)) : next.rest.length < stream.rest.length := by
  simp only [openObject, Bind.bind, StateT.bind, Except.bind] at h
  split at h
  · cases h
  · rename_i middle hbyte
    obtain ⟨code, after⟩ := middle
    have hlength := length_of_byte hbyte
    have hrest : next.rest.length ≤ after.rest.length := by
      cases htag : Tag.ofByte? code with
      | none =>
        rw [htag] at h
        exact shrinks_fail _ _ _ _ h
      | some tag =>
        rw [htag] at h
        exact shrinks_openTagged _ _ _ _ h
    omega

theorem shrinks_close (marker : UInt16) (frame : Frame) : Shrinks (frame.close marker) := by
  unfold Frame.close
  split
  · exact shrinks_pure _
  · exact shrinks_pure _
  · exact (shrinks_skip? _).map _
  · exact (shrinks_codeTail _ _ _ _ _ _ _).map _
  · exact shrinks_pure _

theorem shrinks_settle (marker : UInt16) (frame : Frame) (stack : List Frame) :
    Shrinks (settle marker frame stack) := by
  induction stack generalizing frame with
  | nil =>
    refine (shrinks_close marker frame).bind fun closed => ?_
    cases closed <;> exact shrinks_pure _
  | cons below stack ih =>
    refine (shrinks_close marker frame).bind fun closed => ?_
    cases closed
    · exact shrinks_pure _
    · exact ih _

theorem shrinks_deliver (marker : UInt16) (value : Constant) (stack : List Frame) :
    Shrinks (deliver marker value stack) := by
  cases stack with
  | nil => exact shrinks_pure _
  | cons frame stack => exact shrinks_settle _ _ _

/-- A turn consumes at least one byte. -/
theorem length_of_turn {marker : UInt16} {stack : List Frame} {stream next : Stream}
    {progress : Progress} (h : turn marker stack stream = .ok (progress, next)) :
    next.rest.length < stream.rest.length := by
  simp only [turn, Bind.bind, StateT.bind, Except.bind] at h
  split at h
  · cases h
  · rename_i middle hopen
    obtain ⟨opened, after⟩ := middle
    have hlength := length_of_openObject hopen
    have hrest : next.rest.length ≤ after.rest.length := by
      cases opened with
      | value value => exact shrinks_deliver _ _ _ _ _ _ h
      | frame frame => exact shrinks_settle _ _ _ _ _ _ h
    omega

/-- Takes turns until the object below all containers is finished. -/
def run (marker : UInt16) (stack : List Frame) (stream : Stream) :
    Except Error (Constant × Stream) :=
  if maxDepth ≤ stack.length then .error (.malformed stream.position .tooDeep)
  else
    match _h : turn marker stack stream with
    | .error error => .error error
    | .ok (.finished value, next) => .ok (value, next)
    | .ok (.pending stack, next) => run marker stack next
termination_by stream.rest.length
decreasing_by exact length_of_turn _h

/-- One whole object. -/
def object (marker : UInt16) : Reader Constant :=
  run marker []

end Reader

end ImportAtlas.Container
