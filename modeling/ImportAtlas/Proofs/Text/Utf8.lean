import ImportAtlas.Text.Utf8

/-!
# Reading back written text

The bytes of a text are well-formed throughout, and reading them gives the text
back. The argument is per character: the bytes of one character are cut off as
one well-formed sequence, whatever follows. Bytes enter the lemmas through their
numbers, so that the ranges of lead and continuation bytes are arithmetic.
-/

namespace ImportAtlas.Utf8

theorem toNat_valid (c : Char) : c.toNat < 0xd800 ∨ 0xdfff < c.toNat ∧ c.toNat < 0x110000 :=
  c.valid

theorem toNat_ofNat_of_lt {value : Nat} (h : value < 256) : (UInt8.ofNat value).toNat = value := by
  rw [UInt8.toNat_ofNat']
  exact Nat.mod_eq_of_lt h

theorem isContinuation_of_toNat {b : UInt8} {value : Nat} (hb : b.toNat = value % 64 + 0x80) :
    isContinuation b = true := by
  simp only [isContinuation, Bool.and_eq_true, decide_eq_true_eq, UInt8.le_iff_toNat_le, hb]
  exact ⟨by simp, by simp; omega⟩

theorem low6_of_toNat {b : UInt8} {value : Nat} (hb : b.toNat = value % 64 + 0x80) :
    low6 b = value % 64 := by
  rw [low6, hb]
  omega

theorem not_ascii_of_toNat {a : UInt8} (ha : 0x80 ≤ a.toNat) : ¬ a < 0x80 := by
  rw [UInt8.lt_iff_toNat_lt]
  simpa using ha

theorem between_iff_toNat {low a high : UInt8} :
    (low ≤ a && a ≤ high) = true ↔ low.toNat ≤ a.toNat ∧ a.toNat ≤ high.toNat := by
  simp only [Bool.and_eq_true, decide_eq_true_eq, UInt8.le_iff_toNat_le]

/-! ## One character -/

theorem scalarsFrom_one (done : Array (Option Char)) {c : Char} {a : UInt8} (rest : Bytes)
    (hc : c.toNat ≤ 0x7f) (ha : a.toNat = c.toNat) :
    scalarsFrom done (a :: rest) = scalarsFrom (done.push (some c)) rest := by
  have hascii : a < 0x80 := by
    rw [UInt8.lt_iff_toNat_lt, ha]
    simp
    omega
  rw [scalarsFrom.eq_def]
  simp only [if_pos hascii, ha, Char.ofNat_toNat]

theorem scalarsFrom_two (done : Array (Option Char)) {c : Char} {a b : UInt8} (rest : Bytes)
    (hlow : 0x7f < c.toNat) (hhigh : c.toNat ≤ 0x7ff)
    (ha : a.toNat = c.toNat / 64 + 0xc0) (hb : b.toNat = c.toNat % 64 + 0x80) :
    scalarsFrom done (a :: b :: rest) = scalarsFrom (done.push (some c)) rest := by
  have hascii : ¬ a < 0x80 := not_ascii_of_toNat (by omega)
  have htwo : (0xc2 ≤ a && a ≤ 0xdf) = true := by
    rw [between_iff_toNat, ha]
    exact ⟨by simp; omega, by simp; omega⟩
  have hvalue : (c.toNat / 64 + 0xc0) % 32 * 64 + c.toNat % 64 = c.toNat := by omega
  rw [scalarsFrom.eq_def]
  simp only [if_neg hascii, if_pos htwo, if_pos (isContinuation_of_toNat hb), ha, low6_of_toNat hb,
    hvalue, Char.ofNat_toNat]

theorem isSecondOfThree_of_toNat {c : Char} {a b : UInt8} (hlow : 0x7ff < c.toNat)
    (hhigh : c.toNat ≤ 0xffff) (ha : a.toNat = c.toNat / 4096 + 0xe0)
    (hb : b.toNat = c.toNat / 64 % 64 + 0x80) : isSecondOfThree a b = true := by
  have hvalid := toNat_valid c
  unfold isSecondOfThree
  split
  · rename_i hlead
    have hlead' : a.toNat = 0xe0 := congrArg UInt8.toNat (eq_of_beq hlead)
    rw [between_iff_toNat, hb]
    exact ⟨by simp; omega, by simp; omega⟩
  · split
    · rename_i hlead
      -- Behind this lead byte the upper half of the range would be surrogates.
      have hlead' : a.toNat = 0xed := congrArg UInt8.toNat (eq_of_beq hlead)
      rw [between_iff_toNat, hb]
      exact ⟨by simp, by simp; omega⟩
    · exact isContinuation_of_toNat hb

theorem scalarsFrom_three (done : Array (Option Char)) {c : Char} {a b d : UInt8} (rest : Bytes)
    (hlow : 0x7ff < c.toNat) (hhigh : c.toNat ≤ 0xffff)
    (ha : a.toNat = c.toNat / 4096 + 0xe0) (hb : b.toNat = c.toNat / 64 % 64 + 0x80)
    (hd : d.toNat = c.toNat % 64 + 0x80) :
    scalarsFrom done (a :: b :: d :: rest) = scalarsFrom (done.push (some c)) rest := by
  have hascii : ¬ a < 0x80 := not_ascii_of_toNat (by omega)
  have htwo : ¬ (0xc2 ≤ a && a ≤ 0xdf) = true := by
    rw [between_iff_toNat, ha]
    simp
  have hthree : (0xe0 ≤ a && a ≤ 0xef) = true := by
    rw [between_iff_toNat, ha]
    exact ⟨by simp, by simp; omega⟩
  have hvalue : ((c.toNat / 4096 + 0xe0) % 16 * 64 + c.toNat / 64 % 64) * 64 + c.toNat % 64
      = c.toNat := by omega
  rw [scalarsFrom.eq_def]
  simp only [if_neg hascii, if_neg htwo, if_pos hthree,
    if_pos (isSecondOfThree_of_toNat hlow hhigh ha hb), if_pos (isContinuation_of_toNat hd), ha,
    low6_of_toNat hb, low6_of_toNat hd, hvalue, Char.ofNat_toNat]

theorem isSecondOfFour_of_toNat {c : Char} {a b : UInt8} (hlow : 0xffff < c.toNat)
    (ha : a.toNat = c.toNat / 262144 + 0xf0) (hb : b.toNat = c.toNat / 4096 % 64 + 0x80) :
    isSecondOfFour a b = true := by
  have hvalid := toNat_valid c
  unfold isSecondOfFour
  split
  · rename_i hlead
    have hlead' : a.toNat = 0xf0 := congrArg UInt8.toNat (eq_of_beq hlead)
    rw [between_iff_toNat, hb]
    exact ⟨by simp; omega, by simp; omega⟩
  · split
    · rename_i hlead
      -- Behind this lead byte all but the first sixteenth is beyond the last character.
      have hlead' : a.toNat = 0xf4 := congrArg UInt8.toNat (eq_of_beq hlead)
      rw [between_iff_toNat, hb]
      exact ⟨by simp, by simp; omega⟩
    · exact isContinuation_of_toNat hb

theorem scalarsFrom_four (done : Array (Option Char)) {c : Char} {a b d e : UInt8} (rest : Bytes)
    (hlow : 0xffff < c.toNat)
    (ha : a.toNat = c.toNat / 262144 + 0xf0) (hb : b.toNat = c.toNat / 4096 % 64 + 0x80)
    (hd : d.toNat = c.toNat / 64 % 64 + 0x80) (he : e.toNat = c.toNat % 64 + 0x80) :
    scalarsFrom done (a :: b :: d :: e :: rest) = scalarsFrom (done.push (some c)) rest := by
  have hvalid := toNat_valid c
  have hascii : ¬ a < 0x80 := not_ascii_of_toNat (by omega)
  have htwo : ¬ (0xc2 ≤ a && a ≤ 0xdf) = true := by
    rw [between_iff_toNat, ha]
    simp
  have hthree : ¬ (0xe0 ≤ a && a ≤ 0xef) = true := by
    rw [between_iff_toNat, ha]
    simp
  have hfour : (0xf0 ≤ a && a ≤ 0xf4) = true := by
    rw [between_iff_toNat, ha]
    exact ⟨by simp, by simp; omega⟩
  have hvalue : (((c.toNat / 262144 + 0xf0) % 8 * 64 + c.toNat / 4096 % 64) * 64
      + c.toNat / 64 % 64) * 64 + c.toNat % 64 = c.toNat := by omega
  rw [scalarsFrom.eq_def]
  simp only [if_neg hascii, if_neg htwo, if_neg hthree, if_pos hfour,
    if_pos (isSecondOfFour_of_toNat hlow ha hb), if_pos (isContinuation_of_toNat hd),
    if_pos (isContinuation_of_toNat he), ha, low6_of_toNat hb, low6_of_toNat hd, low6_of_toNat he,
    hvalue, Char.ofNat_toNat]

theorem scalarsFrom_encodeChar (done : Array (Option Char)) (c : Char) (rest : Bytes) :
    scalarsFrom done (String.utf8EncodeChar c ++ rest) = scalarsFrom (done.push (some c)) rest := by
  have hvalid := toNat_valid c
  have htoNat : c.val.toNat = c.toNat := rfl
  unfold String.utf8EncodeChar
  simp only [htoNat]
  split
  · exact scalarsFrom_one done rest (by omega) (toNat_ofNat_of_lt (by omega))
  · split
    · refine scalarsFrom_two done rest (by omega) (by omega) ?_ ?_
      · rw [toNat_ofNat_of_lt (by omega)]
        omega
      · exact toNat_ofNat_of_lt (by omega)
    · split
      · refine scalarsFrom_three done rest (by omega) (by omega) ?_ ?_ ?_
        · rw [toNat_ofNat_of_lt (by omega)]
          omega
        · exact toNat_ofNat_of_lt (by omega)
        · exact toNat_ofNat_of_lt (by omega)
      · refine scalarsFrom_four done rest (by omega) ?_ ?_ ?_ ?_
        · rw [toNat_ofNat_of_lt (by omega)]
          omega
        · exact toNat_ofNat_of_lt (by omega)
        · exact toNat_ofNat_of_lt (by omega)
        · exact toNat_ofNat_of_lt (by omega)

/-! ## A whole text -/

theorem scalarsFrom_flatMap (done : Array (Option Char)) (chars : List Char) :
    scalarsFrom done (chars.flatMap String.utf8EncodeChar) = done ++ chars.map some := by
  induction chars generalizing done with
  | nil => simp [scalarsFrom]
  | cons c chars ih =>
    rw [List.flatMap_cons, scalarsFrom_encodeChar, ih]
    simp

theorem scalars_encode (text : String) : scalars (encode text) = text.toList.map some := by
  rw [scalars, encode, scalarsFrom_flatMap]
  simp

/-- Reading the bytes of a text gives the text back. -/
@[simp] theorem decodeLossy_encode (text : String) : decodeLossy (encode text) = text := by
  rw [decodeLossy, scalars_encode, List.map_map]
  have hid : ((·.getD replacement) ∘ some : Char → Char) = id := rfl
  rw [hid, List.map_id, String.ofList_toList]

end ImportAtlas.Utf8
