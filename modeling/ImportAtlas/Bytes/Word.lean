/-!
# Little-endian words

Fixed-width numbers as a container stores them, least significant byte first.
Everything here speaks of byte lists and natural numbers; signed readings are
taken by the callers that need them.
-/

namespace ImportAtlas

/-- A run of bytes. -/
abbrev Bytes := List UInt8

namespace Word

/-- The `width` low bytes of `value`, least significant first. -/
def encode : (width value : Nat) → Bytes
  | 0, _ => []
  | width + 1, value => UInt8.ofNat value :: encode width (value / 256)

/-- The number whose bytes, least significant first, are given. -/
def decode : Bytes → Nat
  | [] => 0
  | low :: rest => low.toNat + 256 * decode rest

@[simp] theorem length_encode (width value : Nat) :
    (encode width value).length = width := by
  induction width generalizing value with
  | zero => rfl
  | succ width ih => simp [encode, ih]

/-- How many numbers there are of `width` bytes. -/
def bound : (width : Nat) → Nat
  | 0 => 1
  | width + 1 => 256 * bound width

/-- Reading what was written gives the value back, cut to the width. -/
theorem decode_encode (width value : Nat) :
    decode (encode width value) = value % bound width := by
  induction width generalizing value with
  | zero => simp [encode, decode, bound, Nat.mod_one]
  | succ width ih =>
    rw [bound, Nat.mod_mul]
    simp [encode, decode, ih]

theorem decode_encode_of_lt {width value : Nat} (h : value < bound width) :
    decode (encode width value) = value := by
  rw [decode_encode, Nat.mod_eq_of_lt h]

/-- The bytes of a whole word, as a signed 32-bit number. -/
def toInt32 (bytes : Bytes) : Int32 :=
  (UInt32.ofNat (decode bytes)).toInt32

/-- The four bytes of a signed 32-bit number in two's complement. -/
def ofInt32 (value : Int32) : Bytes :=
  encode 4 value.toUInt32.toNat

/-- The bytes of a whole word, as a signed 64-bit number. -/
def toInt64 (bytes : Bytes) : Int64 :=
  (UInt64.ofNat (decode bytes)).toInt64

/-- The eight bytes of a signed 64-bit number in two's complement. -/
def ofInt64 (value : Int64) : Bytes :=
  encode 8 value.toUInt64.toNat

/-- Consecutive two-byte words; a last odd byte is left out. -/
def pairs : Bytes → List UInt16
  | low :: high :: rest => UInt16.ofNat (decode [low, high]) :: pairs rest
  | _ => []

end Word

end ImportAtlas
