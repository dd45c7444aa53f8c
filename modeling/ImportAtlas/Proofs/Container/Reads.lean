import ImportAtlas.Container.Writer
import ImportAtlas.Proofs.Container.Bind
import ImportAtlas.Proofs.Text.Utf8

/-!
# Reads that take exactly given bytes

`Reads reader bytes value` says that a read which stands before `bytes` yields
`value` and stops right behind them, whatever follows, wherever it stands and
whatever has been interned. Sequences of such reads take the bytes of their parts
one after another, so the reading side of a round trip is put together like the
writing side: from words to strings to whole objects.
-/

namespace ImportAtlas

namespace Word

theorem toInt32_ofInt32 (value : Int32) : toInt32 (ofInt32 value) = value := by
  rw [toInt32, ofInt32, decode_encode_of_lt value.toUInt32.toNat_lt]
  simp

theorem toInt64_ofInt64 (value : Int64) : toInt64 (ofInt64 value) = value := by
  rw [toInt64, ofInt64, decode_encode_of_lt value.toUInt64.toNat_lt]
  simp

theorem toInt32_encode {count : Nat} (h : count < 0x80000000) :
    toInt32 (encode 4 count) = Int32.ofNat count := by
  have hbound : count < bound 4 := Nat.lt_trans h (by decide)
  rw [toInt32, decode_encode_of_lt hbound]
  rfl

@[simp] theorem length_ofInt32 (value : Int32) : (ofInt32 value).length = 4 :=
  length_encode 4 _

@[simp] theorem length_ofInt64 (value : Int64) : (ofInt64 value).length = 8 :=
  length_encode 8 _

theorem pairs_flatMap (digits : List UInt16) :
    pairs (digits.flatMap fun digit => encode 2 digit.toNat) = digits := by
  induction digits with
  | nil => rfl
  | cons digit digits ih =>
    have hdigit : UInt16.ofNat (decode (encode 2 digit.toNat)) = digit := by
      rw [decode_encode_of_lt digit.toNat_lt]
      simp
    simp only [encode] at hdigit ih
    simp only [List.flatMap_cons, encode, List.cons_append, List.nil_append, pairs, hdigit, ih]

theorem length_pairs (bytes : Bytes) : (pairs bytes).length = bytes.length / 2 := by
  fun_induction pairs bytes with
  | case1 low high rest ih =>
    simp only [List.length_cons, ih]
    omega
  | case2 bytes hshort =>
    match bytes, hshort with
    | [], _ => rfl
    | [_], _ => simp
    | low :: high :: rest, hshort => exact absurd rfl (hshort low high rest)

end Word

namespace Container

/-- Standing before `bytes`, the read yields `value` and stops right behind them. -/
def Reads {α : Type} (reader : Reader α) (bytes : Bytes) (value : α) : Prop :=
  ∀ tail position interned, reader ⟨bytes ++ tail, position, interned⟩ =
    .ok (value, ⟨tail, position + bytes.length, interned⟩)

namespace Reads

open Reader

variable {α β : Type}

theorem pure (value : α) : Reads (Pure.pure value : Reader α) [] value := by
  intro tail position interned
  rfl

theorem bind {first : Reader α} {second : α → Reader β} {front back : Bytes} {value : α}
    {result : β} (hfirst : Reads first front value) (hsecond : Reads (second value) back result) :
    Reads (first >>= second) (front ++ back) result := by
  intro tail position interned
  rw [List.append_assoc, bind_of_ok (hfirst _ _ _), hsecond, List.length_append, Nat.add_assoc]

theorem map {reader : Reader α} {bytes : Bytes} {value : α} (h : Reads reader bytes value)
    (f : α → β) : Reads (do return f (← reader)) bytes (f value) := by
  have hmapped : Reads (reader >>= fun read => Pure.pure (f read)) (bytes ++ []) (f value) :=
    h.bind (Reads.pure (f value))
  rwa [List.append_nil] at hmapped

theorem take {bytes : Bytes} {count : Nat} (hcount : bytes.length = count) :
    Reads (Reader.take count) bytes bytes := by
  intro tail position interned
  subst hcount
  simp [Reader.take, List.splitAt_eq]

theorem byte (value : UInt8) : Reads Reader.byte [value] value := by
  intro tail position interned
  rfl

theorem int32 (value : Int32) : Reads Reader.int32 (Word.ofInt32 value) value := by
  have h := (take (Word.length_ofInt32 value)).map Word.toInt32
  rwa [Word.toInt32_ofInt32] at h

theorem int64 (value : Int64) : Reads Reader.int64 (Word.ofInt64 value) value := by
  have h := (take (Word.length_ofInt64 value)).map Word.toInt64
  rwa [Word.toInt64_ofInt64] at h

theorem binary64 (value : Binary64) :
    Reads Reader.binary64 (Word.encode 8 value.bits.toNat) value := by
  have h := (take (Word.length_encode 8 value.bits.toNat)).map
    fun raw => (⟨UInt64.ofNat (Word.decode raw)⟩ : Binary64)
  rw [Word.decode_encode_of_lt value.bits.toNat_lt, UInt64.ofNat_toNat] at h
  exact h

theorem int32_encode {count : Nat} (hcount : count < Writer.countLimit) :
    Reads Reader.int32 (Word.encode 4 count) (Int32.ofNat count) := by
  have h := (take (Word.length_encode 4 count)).map Word.toInt32
  rwa [Word.toInt32_encode hcount] at h

theorem toInt_ofNat {count : Nat} (hcount : count < Writer.countLimit) :
    (Int32.ofNat count).toInt = count :=
  Int32.toInt_ofNat_of_lt hcount

theorem not_ofNat_neg {count : Nat} (hcount : count < Writer.countLimit) :
    ¬ Int32.ofNat count < 0 := by
  rw [Int32.lt_iff_toInt_lt, toInt_ofNat hcount]
  simp

theorem length {count : Nat} (hcount : count < Writer.countLimit) :
    Reads Reader.length (Word.encode 4 count) count := by
  have hclamp : (Int32.ofNat count).toNatClampNeg = count := by
    rw [Int32.toNatClampNeg, toInt_ofNat hcount, Int.toNat_natCast]
  have h : Reads Reader.length (Word.encode 4 count ++ []) count := by
    refine (int32_encode hcount).bind ?_
    rw [if_neg (not_ofNat_neg hcount), hclamp]
    exact Reads.pure count
  rwa [List.append_nil] at h

theorem firstLine {line : UInt32} (hline : line.toNat < Writer.countLimit) :
    Reads Reader.firstLine (Word.encode 4 line.toNat) line := by
  have hline' : (Int32.ofNat line.toNat).toUInt32 = line := by
    change (UInt32.ofNat line.toNat).toInt32.toUInt32 = line
    simp
  have h : Reads Reader.firstLine (Word.encode 4 line.toNat ++ []) line := by
    refine (int32_encode hline).bind ?_
    rw [if_neg (not_ofNat_neg hline), hline']
    exact Reads.pure line
  rwa [List.append_nil] at h

theorem stringBody {raw : Bytes} (hraw : raw.length < Writer.countLimit) :
    Reads (Reader.stringBody .inline) (Word.encode 4 raw.length ++ raw) raw :=
  (length hraw).bind (take rfl)

theorem rawString {raw : Bytes} (hraw : raw.length < Writer.countLimit) :
    Reads Reader.rawString
      ([(Tag.string .inline).toByte] ++ (Word.encode 4 raw.length ++ raw)) raw := by
  refine (byte _).bind ?_
  rw [Tag.ofByte?_toByte]
  exact stringBody hraw

end Reads

end Container

end ImportAtlas
