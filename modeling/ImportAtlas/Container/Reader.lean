import ImportAtlas.Container.Tag
import ImportAtlas.Error
import ImportAtlas.Number.Decimal
import ImportAtlas.Text.Blank
import ImportAtlas.Text.Utf8

/-!
# Reading from a container

The state of a read is the bytes still ahead, their position and the strings
interned so far. A read that lacks bytes fails at its own position and consumes
nothing; every other failure is reported where the read stands. Reads never
lengthen what is ahead, which is what makes decoding terminate.
-/

namespace ImportAtlas.Container

/-- Where a read stands. -/
structure Stream where
  /-- The bytes ahead. -/
  rest : Bytes
  /-- Position of the next byte in the container. -/
  position : Nat
  /-- The reference table, in the order of appearance. -/
  interned : Array Bytes := #[]

/-- A read yields a value and the stream behind it, or fails. -/
abbrev Reader := StateT Stream (Except Error)

namespace Reader

variable {α β : Type}

/-- Fails at the present position. -/
def fail (problem : ContainerProblem) : Reader α :=
  fun stream => .error (.malformed stream.position problem)

/-- The next `count` bytes. -/
def take (count : Nat) : Reader Bytes := fun stream =>
  let (front, rest) := stream.rest.splitAt count
  if front.length = count then
    .ok (front, { stream with rest, position := stream.position + count })
  else .error (.malformed stream.position (.endOfData count))

def byte : Reader UInt8 := fun stream =>
  match stream.rest with
  | [] => .error (.malformed stream.position (.endOfData 1))
  | next :: rest => .ok (next, { stream with rest, position := stream.position + 1 })

/-- Steps over the next byte if it is `expected`. -/
def skip? (expected : UInt8) : Reader Bool := fun stream =>
  match stream.rest with
  | [] => .ok (false, stream)
  | next :: rest =>
    if next = expected then .ok (true, { stream with rest, position := stream.position + 1 })
    else .ok (false, stream)

def int32 : Reader Int32 := do
  return Word.toInt32 (← take 4)

def int64 : Reader Int64 := do
  return Word.toInt64 (← take 8)

/-- A floating-point value by its bit pattern. -/
def binary64 : Reader Binary64 := do
  return ⟨UInt64.ofNat (Word.decode (← take 8))⟩

/-- A count of bytes or members, which is stored signed but may not be negative. -/
def length : Reader Nat := do
  let count ← int32
  if count < 0 then fail (.negativeLength count) else return count.toNatClampNeg

/-- A floating-point value as a short numeral. -/
def textFloat : Reader Binary64 := do
  let count ← byte
  let raw ← take count.toNat
  match Utf8.decode? raw with
  | none => fail .invalidFloat
  | some text =>
    match Decimal.read? (Text.trimChars text.toList) with
    | some value => return value
    | none => fail .invalidFloat

/-- Enters a string into the reference table. -/
def intern (raw : Bytes) : Reader Unit := fun stream =>
  .ok ((), { stream with interned := stream.interned.push raw })

/-- The string with this number in the reference table. -/
def lookup (index : Nat) : Reader Bytes := fun stream =>
  match stream.interned[index]? with
  | some raw => .ok (raw, stream)
  | none => .error (.malformed stream.position (.unknownReference index))

/-- A byte string behind its type code. -/
def stringBody (form : StringForm) : Reader Bytes := do
  let count ← length
  match form with
  | .inline => take count
  | .interned =>
    let raw ← take count
    intern raw
    return raw
  | .reference => lookup count

/-- A byte string with its type code. -/
def rawString : Reader Bytes := do
  let code ← byte
  match Tag.ofByte? code with
  | some (.string form) => stringBody form
  | _ => fail (.expectedString code)

/-- A byte string as text. -/
def string : Reader String := do
  return Utf8.decodeLossy (← rawString)

/-! ## What a read leaves ahead -/

/-- A successful run leaves at most as many bytes ahead as it found. -/
def Shrinks (reader : Reader α) : Prop :=
  ∀ stream value next, reader stream = .ok (value, next) → next.rest.length ≤ stream.rest.length

theorem shrinks_pure (value : α) : Shrinks (pure value : Reader α) := by
  intro stream v next h
  cases h
  exact Nat.le_refl _

theorem Shrinks.bind {reader : Reader α} {continuation : α → Reader β} (hreader : Shrinks reader)
    (hcontinuation : ∀ value, Shrinks (continuation value)) :
    Shrinks (reader >>= continuation) := by
  intro stream value next h
  simp only [Bind.bind, StateT.bind, Except.bind] at h
  split at h
  · cases h
  · rename_i middle heq
    obtain ⟨v, s⟩ := middle
    exact Nat.le_trans (hcontinuation v s value next h) (hreader stream v s heq)

theorem Shrinks.map {reader : Reader α} (hreader : Shrinks reader) (f : α → β) :
    Shrinks (do return f (← reader)) :=
  hreader.bind fun _ => shrinks_pure _

theorem shrinks_mapM {f : α → Reader β} (hf : ∀ item, Shrinks (f item)) (items : List α) :
    Shrinks (items.mapM f) := by
  induction items with
  | nil =>
    rw [List.mapM_nil]
    exact shrinks_pure _
  | cons item items ih =>
    rw [List.mapM_cons]
    exact (hf item).bind fun _ => ih.bind fun _ => shrinks_pure _

theorem shrinks_fail (problem : ContainerProblem) : Shrinks (fail problem : Reader α) := by
  intro stream value next h
  cases h

theorem shrinks_take (count : Nat) : Shrinks (take count) := by
  intro stream value next h
  simp only [take, List.splitAt_eq] at h
  split at h
  · cases h
    simp
  · cases h

/-- Reading a byte leaves one byte less. -/
theorem length_of_byte {stream next : Stream} {value : UInt8}
    (h : byte stream = .ok (value, next)) : next.rest.length + 1 = stream.rest.length := by
  simp only [byte] at h
  split at h
  · cases h
  · rename_i hrest
    cases h
    simp [hrest]

theorem shrinks_byte : Shrinks byte := by
  intro stream value next h
  have := length_of_byte h
  omega

theorem shrinks_skip? (expected : UInt8) : Shrinks (skip? expected) := by
  intro stream value next h
  simp only [skip?] at h
  split at h
  · cases h
    exact Nat.le_refl _
  · rename_i hrest
    split at h <;> cases h
    · simp [hrest]
    · exact Nat.le_refl _

theorem shrinks_int32 : Shrinks int32 :=
  (shrinks_take 4).map _

theorem shrinks_int64 : Shrinks int64 :=
  (shrinks_take 8).map _

theorem shrinks_binary64 : Shrinks binary64 :=
  (shrinks_take 8).map _

theorem shrinks_length : Shrinks length := by
  refine shrinks_int32.bind fun count => ?_
  split
  · exact shrinks_fail _
  · exact shrinks_pure _

theorem shrinks_textFloat : Shrinks textFloat := by
  refine shrinks_byte.bind fun count => (shrinks_take _).bind fun raw => ?_
  split
  · exact shrinks_fail _
  · split
    · exact shrinks_pure _
    · exact shrinks_fail _

theorem shrinks_intern (raw : Bytes) : Shrinks (intern raw) := by
  intro stream value next h
  cases h
  exact Nat.le_refl _

theorem shrinks_lookup (index : Nat) : Shrinks (lookup index) := by
  intro stream value next h
  simp only [lookup] at h
  split at h <;> cases h
  exact Nat.le_refl _

theorem shrinks_stringBody (form : StringForm) : Shrinks (stringBody form) := by
  refine shrinks_length.bind fun count => ?_
  cases form with
  | inline => exact shrinks_take _
  | interned =>
    exact (shrinks_take _).bind fun raw => (shrinks_intern raw).bind fun _ => shrinks_pure _
  | reference => exact shrinks_lookup _

theorem shrinks_rawString : Shrinks rawString := by
  refine shrinks_byte.bind fun code => ?_
  split
  · exact shrinks_stringBody _
  · exact shrinks_fail _

theorem shrinks_string : Shrinks string :=
  shrinks_rawString.map _

end Reader

end ImportAtlas.Container
