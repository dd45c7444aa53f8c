import ImportAtlas.Container.Object
import ImportAtlas.Container.Writer

/-!
# Compiled modules

A compiled module is a container: the format's magic, a line end, the time of
modification of the source, and one code object. The magic is checked before
anything else is decoded, and bytes behind the code object are ignored.
-/

namespace ImportAtlas.Container

/-- Size of the header. -/
def headerSize : Nat := 8

structure Header where
  magic : UInt16
  mtime : UInt32
  deriving DecidableEq, Repr

/-- The header at the start of a container. -/
def Header.parse (bytes : Bytes) : Except Error Header :=
  match bytes with
  | a :: b :: c :: d :: e :: f :: g :: h :: _ =>
    if c = 0x0d ∧ d = 0x0a then
      .ok ⟨UInt16.ofNat (Word.decode [a, b]), UInt32.ofNat (Word.decode [e, f, g, h])⟩
    else .error (.malformed 2 .missingLineEnd)
  | _ => .error (.malformed bytes.length .headerTooShort)

/-- The bytes of a header. -/
def Header.render (header : Header) : Bytes :=
  Word.encode 2 header.magic.toNat ++ [0x0d, 0x0a] ++ Word.encode 4 header.mtime.toNat

/-- The unit in a container of the given format. -/
def load (bytes : Bytes) (format : Format) : Except Error CodeUnit := do
  let header ← Header.parse bytes
  format.check header.magic
  let stream : Stream := { rest := bytes.drop headerSize, position := headerSize }
  let (value, _) ← Reader.object header.magic stream
  match value with
  | .code unit => .ok unit
  | other => .error (.malformed headerSize (.expectedCode other.kind))

/-- The container of a unit, stamped with the time of modification of its source. -/
def dump (unit : CodeUnit) (mtime : UInt32) : Except Error Bytes := do
  let header : Header := ⟨unit.marker, mtime⟩
  return (← Writer.putUnit unit (Writer.putBytes header.render #[])).toList

end ImportAtlas.Container
