import ImportAtlas.Container.Object
import ImportAtlas.Container.Writer

/-!
# Spellings of byte strings

A byte string is stored written out, written out and entered into the reference
table, or as a number in that table. The bytes of an object are therefore a list
of pieces: bytes that are fixed, and strings that are spelled in one of these
ways. `Encoding` is the grammar of objects over such lists. It leaves every
spelling open, and says nothing of how objects are read.
-/

namespace ImportAtlas.Container

open Writer (countLimit)

/-- A byte string and how it is stored. A reference carries the string it is meant for. -/
inductive Spelling where
  | inline (raw : Bytes)
  | interned (raw : Bytes)
  | reference (index : Nat) (raw : Bytes)
  deriving DecidableEq, Repr

namespace Spelling

def raw : Spelling → Bytes
  | .inline raw | .interned raw | .reference _ raw => raw

def form : Spelling → StringForm
  | .inline _ => .inline
  | .interned _ => .interned
  | .reference _ _ => .reference

def body : Spelling → Bytes
  | .inline raw | .interned raw => Word.encode 4 raw.length ++ raw
  | .reference index _ => Word.encode 4 index

def bytes (spelling : Spelling) : Bytes :=
  [(Tag.string spelling.form).toByte] ++ spelling.body

/-- Every number that is stored fits its field, and so would the length. -/
def Fits : Spelling → Prop
  | .inline raw | .interned raw => raw.length < countLimit
  | .reference index raw => raw.length < countLimit ∧ index < countLimit

instance : (spelling : Spelling) → Decidable spelling.Fits
  | .inline raw | .interned raw => inferInstanceAs (Decidable (raw.length < countLimit))
  | .reference index raw =>
    inferInstanceAs (Decidable (raw.length < countLimit ∧ index < countLimit))

def enter (table : Array Bytes) : Spelling → Array Bytes
  | .interned raw => table.push raw
  | .inline _ | .reference _ _ => table

/-- A reference is the number of an earlier string with the same bytes. -/
def Resolves (table : Array Bytes) : Spelling → Prop
  | .reference index raw => table[index]? = some raw
  | .inline _ | .interned _ => True

/-- The string is a reference by `index`, which is not below the number of earlier strings. -/
def Dangles (index : Nat) (table : Array Bytes) : Spelling → Prop
  | .reference number _ => number = index ∧ table.size ≤ index
  | .inline _ | .interned _ => False

theorem length_raw_lt {spelling : Spelling} (h : spelling.Fits) :
    spelling.raw.length < countLimit := by
  cases spelling with
  | inline raw | interned raw => exact h
  | reference index raw => exact h.1

end Spelling

/-! ## Strings in the order of the stream -/

def enterAll (table : Array Bytes) (spellings : List Spelling) : Array Bytes :=
  spellings.foldl Spelling.enter table

def AllResolve : Array Bytes → List Spelling → Prop
  | _, [] => True
  | table, spelling :: rest => spelling.Resolves table ∧ AllResolve (spelling.enter table) rest

/-- The first reference that does not resolve is by `index`, which has not been given yet. -/
def FirstDangles (index : Nat) : Array Bytes → List Spelling → Prop
  | _, [] => False
  | table, spelling :: rest =>
    spelling.Dangles index table ∨
      spelling.Resolves table ∧ FirstDangles index (spelling.enter table) rest

theorem enterAll_append (table : Array Bytes) (front back : List Spelling) :
    enterAll table (front ++ back) = enterAll (enterAll table front) back :=
  List.foldl_append

theorem allResolve_append {table : Array Bytes} {front back : List Spelling} :
    AllResolve table (front ++ back) ↔
      AllResolve table front ∧ AllResolve (enterAll table front) back := by
  induction front generalizing table with
  | nil => exact ⟨fun h => ⟨trivial, h⟩, fun h => h.2⟩
  | cons spelling front ih =>
    rw [List.cons_append, AllResolve, AllResolve, ih, and_assoc]
    rfl

theorem firstDangles_append {index : Nat} {table : Array Bytes} {front back : List Spelling} :
    FirstDangles index table (front ++ back) ↔
      FirstDangles index table front ∨
        AllResolve table front ∧ FirstDangles index (enterAll table front) back := by
  induction front generalizing table with
  | nil => exact ⟨fun h => .inr ⟨trivial, h⟩, fun h => h.elim (fun h => nomatch h) (·.2)⟩
  | cons spelling front ih =>
    rw [List.cons_append, FirstDangles, FirstDangles, AllResolve, ih, and_or_left, or_assoc,
      and_assoc]
    rfl

/-! ## Pieces -/

inductive Piece where
  | fixed (bytes : Bytes)
  | string (spelling : Spelling)
  deriving DecidableEq, Repr

namespace Piece

def bytes : Piece → Bytes
  | .fixed bytes => bytes
  | .string spelling => spelling.bytes

def inlined : Piece → Piece
  | .fixed bytes => .fixed bytes
  | .string spelling => .string (.inline spelling.raw)

def spellings : Piece → List Spelling
  | .fixed _ => []
  | .string spelling => [spelling]

end Piece

def write (pieces : List Piece) : Bytes :=
  pieces.flatMap Piece.bytes

def inlined (pieces : List Piece) : List Piece :=
  pieces.map Piece.inlined

def spellings (pieces : List Piece) : List Spelling :=
  pieces.flatMap Piece.spellings

@[simp] theorem write_append (front back : List Piece) :
    write (front ++ back) = write front ++ write back :=
  List.flatMap_append

@[simp] theorem inlined_append (front back : List Piece) :
    inlined (front ++ back) = inlined front ++ inlined back :=
  List.map_append

@[simp] theorem spellings_append (front back : List Piece) :
    spellings (front ++ back) = spellings front ++ spellings back :=
  List.flatMap_append

/-! ## The grammar of objects -/

def shortNumeral (numeral : Bytes) : Bytes :=
  UInt8.ofNat numeral.length :: numeral

/-- What may follow the type code of an object that is no byte string and has no members. -/
inductive Payload : Tag → Bytes → Prop where
  | none : Payload .none []
  | false : Payload .false []
  | true : Payload .true []
  | stopIteration : Payload .stopIteration []
  | ellipsis : Payload .ellipsis []
  | int (value : Int32) : Payload .int (Word.ofInt32 value)
  | int64 (value : Int64) : Payload .int64 (Word.ofInt64 value)
  | textFloat {numeral : Bytes} (hnumeral : numeral.length < 256) :
      Payload .textFloat (shortNumeral numeral)
  | float (value : Binary64) : Payload .float (Word.encode 8 value.bits.toNat)
  | textComplex {real imaginary : Bytes} (hreal : real.length < 256)
      (himaginary : imaginary.length < 256) :
      Payload .textComplex (shortNumeral real ++ shortNumeral imaginary)
  | complex (real imaginary : Binary64) :
      Payload .complex (Word.encode 8 real.bits.toNat ++ Word.encode 8 imaginary.bits.toNat)
  /-- The sign of the count is the sign of the number. -/
  | long {count : Int32} {digits : Bytes} (hdigits : digits.length = 2 * count.toInt.natAbs) :
      Payload .long (Word.ofInt32 count ++ digits)
  | unicode {raw : Bytes} (hraw : raw.length < countLimit) :
      Payload .unicode (Word.encode 4 raw.length ++ raw)

def sequencePieces (kind : SequenceKind) (items : List (List Piece)) : List Piece :=
  .fixed [(Tag.sequence kind).toByte] :: .fixed (Word.encode 4 items.length) :: items.flatten

def entryPieces (entries : List (List Piece × List Piece)) : List Piece :=
  entries.flatMap (fun entry => entry.1 ++ entry.2) ++ [.fixed [Tag.null.toByte]]

structure CodeParts where
  argcount : Int32 := 0
  nlocals : Int32 := 0
  stacksize : Int32 := 0
  flags : Int32 := 0
  code : Spelling
  consts : List Piece
  names : List Piece
  varnames : List Piece
  freevars : List Piece
  cellvars : List Piece
  filename : Spelling
  name : Spelling
  firstLine : Int32
  lnotab : Spelling

namespace CodeParts

def strings (parts : CodeParts) : List Spelling :=
  [parts.code, parts.filename, parts.name, parts.lnotab]

def tables (parts : CodeParts) : List (List Piece) :=
  [parts.consts, parts.names, parts.varnames, parts.freevars, parts.cellvars]

def head (parts : CodeParts) : List Piece :=
  [.fixed (Word.ofInt32 parts.argcount), .fixed (Word.ofInt32 parts.nlocals),
    .fixed (Word.ofInt32 parts.stacksize), .fixed (Word.ofInt32 parts.flags), .string parts.code]

def tail (parts : CodeParts) : List Piece :=
  [.string parts.filename, .string parts.name, .fixed (Word.ofInt32 parts.firstLine),
    .string parts.lnotab]

def pieces (parts : CodeParts) : List Piece :=
  parts.head ++ (parts.consts ++ (parts.names ++ (parts.varnames ++ (parts.freevars ++
    (parts.cellvars ++ parts.tail)))))

end CodeParts

/-- The pieces of one object, with its strings in any spelling. -/
inductive Encoding : List Piece → Prop where
  | plain {tag : Tag} {payload : Bytes} (hpayload : Payload tag payload) :
      Encoding [.fixed [tag.toByte], .fixed payload]
  | string {spelling : Spelling} (hfits : spelling.Fits) : Encoding [.string spelling]
  | sequence (kind : SequenceKind) {items : List (List Piece)} (hcount : items.length < countLimit)
      (hitems : ∀ item ∈ items, Encoding item) : Encoding (sequencePieces kind items)
  | dict {entries : List (List Piece × List Piece)}
      (hkeys : ∀ entry ∈ entries, Encoding entry.1)
      (hvalues : ∀ entry ∈ entries, Encoding entry.2) :
      Encoding (.fixed [Tag.dict.toByte] :: entryPieces entries)
  | code {parts : CodeParts} (hstrings : ∀ spelling ∈ parts.strings, spelling.Fits)
      (htables : ∀ table ∈ parts.tables, Encoding table) :
      Encoding (.fixed [Tag.code.toByte] :: parts.pieces)

/-! ## How an object starts -/

def StartsObject (bytes : Bytes) : Prop :=
  ∃ first rest, bytes = first :: rest ∧ first ≠ Tag.null.toByte

theorem toByte_ne_null {tag : Tag} (h : tag ≠ .null) : tag.toByte ≠ Tag.null.toByte := by
  intro heq
  have hsome : some tag = some Tag.null := by
    rw [← Tag.ofByte?_toByte, heq, Tag.ofByte?_toByte]
  exact h (Option.some.inj hsome)

theorem Payload.ne_null {tag : Tag} {payload : Bytes} (h : Payload tag payload) :
    tag ≠ .null := by
  rintro rfl
  cases h

theorem startsObject_of_tag (tag : Tag) (h : tag ≠ .null) (rest : List Piece) :
    StartsObject (write (.fixed [tag.toByte] :: rest)) ∧
      StartsObject (write (inlined (.fixed [tag.toByte] :: rest))) :=
  ⟨⟨_, _, rfl, toByte_ne_null h⟩, ⟨_, _, rfl, toByte_ne_null h⟩⟩

theorem Encoding.starts {pieces : List Piece} (h : Encoding pieces) :
    StartsObject (write pieces) ∧ StartsObject (write (inlined pieces)) := by
  cases h with
  | plain hpayload => exact startsObject_of_tag _ hpayload.ne_null _
  | string hfits =>
    exact ⟨⟨_, _, rfl, toByte_ne_null nofun⟩, ⟨_, _, rfl, toByte_ne_null nofun⟩⟩
  | sequence kind hcount hitems => exact startsObject_of_tag (.sequence kind) nofun _
  | dict hkeys hvalues => exact startsObject_of_tag .dict nofun _
  | code hstrings htables => exact startsObject_of_tag .code nofun _

end ImportAtlas.Container
