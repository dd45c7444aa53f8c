import ImportAtlas.Error

/-!
# Walking an instruction buffer

A walk goes over the instructions of a unit from the first byte on and stops at
two shapes: a store to a module-level or global name, and the three
instructions every import statement compiles to, which load a level, load a
list of names and import a module. All else is stepped over by its width. The
walk ends at the end of the buffer, or with one error at an instruction that is
cut short or has an operand outside its table.
-/

namespace ImportAtlas

/-- How an import finds its module. -/
inductive ImportStyle where
  /-- Beside the importing module first, then from the top. -/
  | implicit
  /-- From the top only. -/
  | absolute
  /-- From the package so many levels up. -/
  | relative (level : UInt32)
  deriving DecidableEq, Repr

/-- A shape found at an offset; the other numbers are table indices. -/
inductive Event where
  | store (offset name : Nat)
  | importing (offset : Nat) (style : ImportStyle) (fromlist module : Nat)
  deriving DecidableEq, Repr

def Event.offset : Event → Nat
  | .store offset _ => offset
  | .importing offset _ _ _ => offset

/-- A walk in progress. -/
structure Walker where
  format : Format
  /-- Length of the whole buffer. -/
  length : Nat
  constants : Array Constant
  /-- Size of the table of names. -/
  nameCount : Nat
  cursor : Nat
  /-- The buffer from the cursor on. -/
  rest : Bytes
  /-- Set by an error. -/
  stopped : Bool

namespace Walker

/-- At the first instruction of a unit. -/
def start (format : Format) (unit : CodeUnit) : Walker where
  format := format
  length := unit.code.length
  constants := unit.consts.toArray
  nameCount := unit.names.length
  cursor := 0
  rest := unit.code
  stopped := false

/-- Width of an instruction with an operand. -/
def argumentWidth : Nat := 3

/-- Width of the instructions of an import. -/
def importWidth : Nat := 9

/-- The operand of the instruction at `offset`, whose opcode `tail` follows. -/
def operand (walker : Walker) (offset : Nat) (tail : Bytes) : Except Error Nat :=
  match tail with
  | low :: high :: _ => .ok (Word.decode [low, high])
  | _ => .error (.truncatedInstruction offset walker.length)

/-- An operand that points into the table of names. -/
def nameIndex (walker : Walker) (offset : Nat) (tail : Bytes) : Except Error Nat := do
  let index ← walker.operand offset tail
  if index < walker.nameCount then .ok index else .error (.operandOutside offset index .names)

/-- An operand that points into the table of constants. -/
def constantIndex (walker : Walker) (offset : Nat) (tail : Bytes) : Except Error Nat := do
  let index ← walker.operand offset tail
  if index < walker.constants.size then .ok index
  else .error (.operandOutside offset index .constants)

/-- The style that the level of an import stands for. -/
def styleOf (offset : Nat) (level : Constant) : Except Error ImportStyle :=
  match level, level.int? with
  | .none, _ => .ok .implicit
  | _, none => .error (.unexpectedConstant offset (.levelKind level.kind))
  | _, some value =>
    if value = -1 then .ok .implicit
    else if value = 0 then .ok .absolute
    else if value < 0 then .error (.unexpectedConstant offset (.negativeLevel value))
    else if value.toInt < 0x100000000 then .ok (.relative (UInt32.ofNat value.toNatClampNeg))
    else .error (.unexpectedConstant offset (.levelOutOfRange value))

/-- Whether `opcode` and `tail` start the three instructions of an import. -/
def startsImport (walker : Walker) (opcode : UInt8) (tail : Bytes) : Bool :=
  opcode == walker.format.loadConst && tail[2]? == some walker.format.loadConst
    && tail[5]? == some walker.format.importName

/-- The store at `offset`. -/
def storeEvent (walker : Walker) (offset : Nat) (tail : Bytes) : Except Error Event := do
  return .store offset (← walker.nameIndex offset tail)

/-- The import at `offset`. Its operands are checked in order, then its level. -/
def importEvent (walker : Walker) (offset : Nat) (tail : Bytes) : Except Error Event := do
  let level ← walker.constantIndex offset tail
  let fromlist ← walker.constantIndex (offset + 3) (tail.drop 3)
  let module ← walker.nameIndex (offset + 6) (tail.drop 6)
  let style ← styleOf offset (walker.constants.getD level .none)
  return .importing offset style fromlist module

/-- The walker behind `width` bytes of `rest`, which starts at `cursor`. -/
def moveTo (walker : Walker) (cursor width : Nat) (rest : Bytes) : Walker :=
  { walker with cursor := cursor + width, rest := rest.drop width }

/-- The walker that ended at `cursor` by an error. -/
def stopAt (walker : Walker) (cursor : Nat) (rest : Bytes) : Walker :=
  { walker with cursor, rest, stopped := true }

/-- The first event from `cursor` on, and the walker behind it. -/
def look (walker : Walker) : (cursor : Nat) → Bytes → Option (Except Error Event) × Walker
  | cursor, [] => (none, walker.moveTo cursor 0 [])
  | cursor, opcode :: tail =>
    if opcode = walker.format.storeName ∨ opcode = walker.format.storeGlobal then
      match walker.storeEvent cursor tail with
      | .ok event => (some (.ok event), walker.moveTo cursor argumentWidth (opcode :: tail))
      | .error error => (some (.error error), walker.stopAt cursor (opcode :: tail))
    else if walker.startsImport opcode tail then
      match walker.importEvent cursor tail with
      | .ok event => (some (.ok event), walker.moveTo cursor importWidth (opcode :: tail))
      | .error error => (some (.error error), walker.stopAt cursor (opcode :: tail))
    else if walker.format.hasArgument opcode then
      match tail with
      | _ :: _ :: rest => look walker (cursor + argumentWidth) rest
      | _ => (some (.error (.truncatedInstruction cursor walker.length)),
          walker.stopAt cursor (opcode :: tail))
    else look walker (cursor + 1) tail

/-- The next event, and the walker behind it; none at the end and after an error. -/
def next (walker : Walker) : Option (Except Error Event) × Walker :=
  if walker.stopped then (none, walker) else walker.look walker.cursor walker.rest

theorem length_of_look {walker next : Walker} {cursor : Nat} {rest : Bytes} {event : Event}
    (h : walker.look cursor rest = (some (.ok event), next)) :
    next.rest.length < rest.length := by
  fun_induction look walker cursor rest with
  | case1 => simp at h
  | case2 | case4 =>
    simp only [Prod.mk.injEq] at h
    rw [← h.2]
    simp only [moveTo, argumentWidth, importWidth, List.length_drop, List.length_cons]
    omega
  | case3 | case5 => simp at h
  | case6 _ _ _ _ _ _ _ _ ih =>
    have := ih h
    simp only [List.length_cons]
    omega
  | case7 => simp at h
  | case8 _ _ _ _ _ _ ih =>
    have := ih h
    simp only [List.length_cons]
    omega

theorem length_of_next {walker next : Walker} {event : Event}
    (h : walker.next = (some (.ok event), next)) : next.rest.length < walker.rest.length := by
  unfold Walker.next at h
  split at h
  · simp at h
  · exact length_of_look h

/-- One result of a walk, and the cursor after it. -/
structure Item where
  result : Except Error Event
  cursor : Nat

/-- All results still ahead, in order, and the walker at the end. -/
def run (walker : Walker) : List Item × Walker :=
  match _h : walker.next with
  | (none, final) => ([], final)
  | (some (.error error), final) => ([⟨.error error, final.cursor⟩], final)
  | (some (.ok event), next) =>
    let (items, final) := run next
    (⟨.ok event, next.cursor⟩ :: items, final)
termination_by walker.rest.length
decreasing_by exact length_of_next _h

end Walker

end ImportAtlas
