import ImportAtlas.Proofs.Text.Utf8

/-!
# What lossy reading replaces

The lossy reading of bytes is said without the decoder: a character is taken
where the bytes of one stand, and elsewhere the longest start of a character, or
one byte if there is none, is replaced. The decoder works by ranges of bytes, so
the ranges are first shown to be those of the characters' own bytes.

* `wellFormed_encodeChar`, `exists_encodeChar`: the sequences that the ranges
  allow are the bytes of characters.
* `cuts_cons`: what the decoder takes off the front is a character or an
  ill-formed part.
* `lossy_iff`: the decoder gives the lossy reading, and there is only one.
-/

namespace ImportAtlas.Utf8

/-! ## Ranges as numbers -/

/-- How many bytes the sequence has that starts with `lead`; zero if none does. -/
def sequenceLength (lead : UInt8) : Nat :=
  if lead < 0x80 then 1
  else if 0xc2 ≤ lead && lead ≤ 0xdf then 2
  else if 0xe0 ≤ lead && lead ≤ 0xef then 3
  else if 0xf0 ≤ lead && lead ≤ 0xf4 then 4
  else 0

theorem sequenceLength_eq (a : UInt8) :
    sequenceLength a =
      if a.toNat ≤ 0x7f then 1
      else if 0xc2 ≤ a.toNat ∧ a.toNat ≤ 0xdf then 2
      else if 0xe0 ≤ a.toNat ∧ a.toNat ≤ 0xef then 3
      else if 0xf0 ≤ a.toNat ∧ a.toNat ≤ 0xf4 then 4
      else 0 := by
  have hascii : a < 0x80 ↔ a.toNat ≤ 0x7f := by
    rw [UInt8.lt_iff_toNat_lt]
    simp
    omega
  simp only [sequenceLength, hascii, between_iff_toNat]
  rfl

theorem isContinuation_iff {b : UInt8} :
    isContinuation b = true ↔ 0x80 ≤ b.toNat ∧ b.toNat ≤ 0xbf :=
  between_iff_toNat

theorem beq_iff_toNat {a b : UInt8} : (a == b) = true ↔ a.toNat = b.toNat := by
  rw [beq_iff_eq, UInt8.toNat_inj]

theorem isSecondOfThree_iff {a b : UInt8} :
    isSecondOfThree a b = true ↔ 0x80 ≤ b.toNat ∧ b.toNat ≤ 0xbf ∧
      (a.toNat = 0xe0 → 0xa0 ≤ b.toNat) ∧ (a.toNat = 0xed → b.toNat ≤ 0x9f) := by
  simp only [isSecondOfThree, beq_iff_toNat]
  split
  · rw [between_iff_toNat]
    simp_all
    omega
  · split
    · rw [between_iff_toNat]
      simp_all
      omega
    · rw [isContinuation_iff]
      simp_all

theorem isSecondOfFour_iff {a b : UInt8} :
    isSecondOfFour a b = true ↔ 0x80 ≤ b.toNat ∧ b.toNat ≤ 0xbf ∧
      (a.toNat = 0xf0 → 0x90 ≤ b.toNat) ∧ (a.toNat = 0xf4 → b.toNat ≤ 0x8f) := by
  simp only [isSecondOfFour, beq_iff_toNat]
  split
  · rw [between_iff_toNat]
    simp_all
    omega
  · split
    · rw [between_iff_toNat]
      simp_all
      omega
    · rw [isContinuation_iff]
      simp_all

/-! ## Sequences and characters -/

/-- The sequences that the decoder's ranges allow. -/
inductive WellFormed : Bytes → Prop where
  | one {a : UInt8} (ha : sequenceLength a = 1) : WellFormed [a]
  | two {a b : UInt8} (ha : sequenceLength a = 2) (hb : isContinuation b = true) :
      WellFormed [a, b]
  | three {a b c : UInt8} (ha : sequenceLength a = 3) (hb : isSecondOfThree a b = true)
      (hc : isContinuation c = true) : WellFormed [a, b, c]
  | four {a b c d : UInt8} (ha : sequenceLength a = 4) (hb : isSecondOfFour a b = true)
      (hc : isContinuation c = true) (hd : isContinuation d = true) : WellFormed [a, b, c, d]

theorem WellFormed.length_eq {lead : UInt8} {tail : Bytes} (h : WellFormed (lead :: tail)) :
    tail.length + 1 = sequenceLength lead := by
  cases h <;> simp_all

theorem wellFormed_encodeChar (c : Char) : WellFormed (String.utf8EncodeChar c) := by
  have hvalid := toNat_valid c
  have htoNat : c.val.toNat = c.toNat := rfl
  unfold String.utf8EncodeChar
  simp only [htoNat]
  split
  · apply WellFormed.one
    rw [sequenceLength_eq, toNat_ofNat_of_lt (by omega)]
    grind
  · split
    · apply WellFormed.two
      · rw [sequenceLength_eq, toNat_ofNat_of_lt (by omega)]
        grind
      · rw [isContinuation_iff, toNat_ofNat_of_lt (by omega)]
        omega
    · split
      · apply WellFormed.three
        · rw [sequenceLength_eq, toNat_ofNat_of_lt (by omega)]
          grind
        · rw [isSecondOfThree_iff, toNat_ofNat_of_lt (by omega), toNat_ofNat_of_lt (by omega)]
          omega
        · rw [isContinuation_iff, toNat_ofNat_of_lt (by omega)]
          omega
      · apply WellFormed.four
        · rw [sequenceLength_eq, toNat_ofNat_of_lt (by omega)]
          grind
        · rw [isSecondOfFour_iff, toNat_ofNat_of_lt (by omega), toNat_ofNat_of_lt (by omega)]
          omega
        · rw [isContinuation_iff, toNat_ofNat_of_lt (by omega)]
          omega
        · rw [isContinuation_iff, toNat_ofNat_of_lt (by omega)]
          omega

theorem exists_char {value : Nat} (h : value < 0xd800 ∨ 0xdfff < value ∧ value < 0x110000) :
    ∃ c : Char, c.val.toNat = value :=
  ⟨Char.ofNatAux value h, rfl⟩

theorem ofNat_of_toNat_eq {value : Nat} {a : UInt8} (h : a.toNat = value) :
    UInt8.ofNat value = a := by
  rw [← h, UInt8.ofNat_toNat]

theorem exists_encodeChar {bytes : Bytes} (h : WellFormed bytes) :
    ∃ c, String.utf8EncodeChar c = bytes := by
  cases h with
  | @one a ha =>
    have ha : a.toNat ≤ 0x7f := by
      rw [sequenceLength_eq] at ha
      grind
    obtain ⟨c, hc⟩ := @exists_char a.toNat (by omega)
    refine ⟨c, ?_⟩
    simp only [String.utf8EncodeChar, hc]
    rw [if_pos ha, UInt8.ofNat_toNat]
  | @two a b ha hb =>
    rw [isContinuation_iff] at hb
    have ha : 0xc2 ≤ a.toNat ∧ a.toNat ≤ 0xdf := by
      rw [sequenceLength_eq] at ha
      grind
    obtain ⟨c, hc⟩ := @exists_char (a.toNat % 32 * 64 + b.toNat % 64) (by omega)
    refine ⟨c, ?_⟩
    simp only [String.utf8EncodeChar, hc]
    rw [if_neg (by omega), if_pos (by omega), @ofNat_of_toNat_eq _ a (by omega),
      @ofNat_of_toNat_eq _ b (by omega)]
  | @three a b d ha hb hd =>
    rw [isSecondOfThree_iff] at hb
    rw [isContinuation_iff] at hd
    have ha : 0xe0 ≤ a.toNat ∧ a.toNat ≤ 0xef := by
      rw [sequenceLength_eq] at ha
      grind
    obtain ⟨c, hc⟩ :=
      @exists_char ((a.toNat % 16 * 64 + b.toNat % 64) * 64 + d.toNat % 64) (by omega)
    refine ⟨c, ?_⟩
    simp only [String.utf8EncodeChar, hc]
    rw [if_neg (by omega), if_neg (by omega), if_pos (by omega),
      @ofNat_of_toNat_eq _ a (by omega), @ofNat_of_toNat_eq _ b (by omega),
      @ofNat_of_toNat_eq _ d (by omega)]
  | @four a b d e ha hb hd he =>
    rw [isSecondOfFour_iff] at hb
    rw [isContinuation_iff] at hd he
    have ha : 0xf0 ≤ a.toNat ∧ a.toNat ≤ 0xf4 := by
      rw [sequenceLength_eq] at ha
      grind
    obtain ⟨c, hc⟩ :=
      @exists_char (((a.toNat % 8 * 64 + b.toNat % 64) * 64 + d.toNat % 64) * 64 + e.toNat % 64)
        (by omega)
    refine ⟨c, ?_⟩
    simp only [String.utf8EncodeChar, hc]
    rw [if_neg (by omega), if_neg (by omega), if_neg (by omega),
      @ofNat_of_toNat_eq _ a (by omega), @ofNat_of_toNat_eq _ b (by omega),
      @ofNat_of_toNat_eq _ d (by omega), @ofNat_of_toNat_eq _ e (by omega)]

theorem encodeChar_ne_nil (c : Char) : String.utf8EncodeChar c ≠ [] := by
  intro hnil
  have hwell := wellFormed_encodeChar c
  rw [hnil] at hwell
  nomatch hwell

/-! ## Ill-formed parts -/

def StartsChar (part : Bytes) : Prop :=
  ∃ c, part <+: String.utf8EncodeChar c

/-- In front of `rest`, `part` is one ill-formed part: no character can be read there, and `part` is
the longest start of one or, where there is none, a single byte. -/
structure IllFormed (part rest : Bytes) : Prop where
  ne_nil : part ≠ []
  size : part.length = 1 ∨ StartsChar part
  unreadable : ∀ c, ¬ String.utf8EncodeChar c <+: part ++ rest
  maximal : ∀ longer, longer <+: part ++ rest → StartsChar longer → longer.length ≤ part.length

/-- The lossy reading of bytes. -/
inductive Lossy : Bytes → List Char → Prop where
  | nil : Lossy [] []
  | char (c : Char) {rest : Bytes} {chars : List Char} (h : Lossy rest chars) :
      Lossy (String.utf8EncodeChar c ++ rest) (c :: chars)
  | illFormed {part rest : Bytes} {chars : List Char} (hpart : IllFormed part rest)
      (h : Lossy rest chars) : Lossy (part ++ rest) (replacement :: chars)

theorem IllFormed.length_le {part rest other more : Bytes} (h : IllFormed part rest)
    (hother : IllFormed other more) (hbytes : part ++ rest = other ++ more) :
    part.length ≤ other.length := by
  rcases h.size with hone | hstarts
  · have := List.length_pos_iff.2 hother.ne_nil
    omega
  · apply hother.maximal part _ hstarts
    rw [← hbytes]
    exact List.prefix_append part rest

theorem IllFormed.unique {part rest other more : Bytes} (h : IllFormed part rest)
    (hother : IllFormed other more) (hbytes : part ++ rest = other ++ more) :
    part = other ∧ rest = more :=
  List.append_inj hbytes
    (Nat.le_antisymm (h.length_le hother hbytes) (hother.length_le h hbytes.symm))

theorem startsChar_iff {part : Bytes} :
    StartsChar part ↔ ∃ bytes, WellFormed bytes ∧ part <+: bytes := by
  constructor
  · rintro ⟨c, hc⟩
    exact ⟨_, wellFormed_encodeChar c, hc⟩
  · rintro ⟨bytes, hbytes, hpart⟩
    obtain ⟨c, rfl⟩ := exists_encodeChar hbytes
    exact ⟨c, hpart⟩

theorem startsChar_second {a b : UInt8} {tail : Bytes} (h : StartsChar (a :: b :: tail)) :
    sequenceLength a = 2 ∧ isContinuation b = true ∨
    sequenceLength a = 3 ∧ isSecondOfThree a b = true ∨
    sequenceLength a = 4 ∧ isSecondOfFour a b = true := by
  obtain ⟨bytes, hbytes, more, rfl⟩ := startsChar_iff.1 h
  generalize hwhole : a :: b :: tail ++ more = bytes at hbytes
  cases hbytes <;> simp_all

theorem startsChar_later {a b next : UInt8} {tail : Bytes}
    (h : StartsChar (a :: b :: tail ++ [next])) : isContinuation next = true := by
  obtain ⟨bytes, hbytes, more, rfl⟩ := startsChar_iff.1 h
  generalize hwhole : a :: b :: tail ++ [next] ++ more = bytes at hbytes
  cases hbytes with
  | one ha => simp at hwhole
  | two ha hb => simp at hwhole
  | three ha hb hc =>
    cases tail with
    | nil => simp_all
    | cons c tail => simp at hwhole
  | four ha hb hc hd =>
    rcases tail with _ | ⟨c, _ | ⟨d, tail⟩⟩
    · simp_all
    · simp_all
    · simp at hwhole

/-- A start is an ill-formed part if it falls short of the length its lead byte asks for, and the
next byte cannot come after it. -/
theorem IllFormed.of_stuck {lead : UInt8} {tail rest : Bytes}
    (hshort : sequenceLength lead = 0 ∨ tail.length + 1 < sequenceLength lead)
    (hsize : tail = [] ∨ StartsChar (lead :: tail))
    (hstuck : ∀ next ∈ rest.head?, ¬ StartsChar (lead :: tail ++ [next])) :
    IllFormed (lead :: tail) rest := by
  have hmaximal : ∀ longer, longer <+: lead :: tail ++ rest → StartsChar longer →
      longer.length ≤ (lead :: tail).length := by
    intro longer hlonger hstarts
    refine Nat.le_of_not_lt fun hlength => ?_
    cases rest with
    | nil =>
      rw [List.append_nil] at hlonger
      exact Nat.not_lt_of_le hlonger.length_le hlength
    | cons next rest =>
      have hpart : lead :: tail ++ [next] <+: lead :: tail ++ next :: rest := ⟨rest, by simp⟩
      have hbegins : lead :: tail ++ [next] <+: longer := by
        apply List.prefix_of_prefix_length_le hpart hlonger
        rwa [List.length_append, List.length_singleton]
      obtain ⟨c, hc⟩ := hstarts
      exact hstuck next rfl ⟨c, hbegins.trans hc⟩
  refine ⟨by simp, by simpa using hsize, ?_, hmaximal⟩
  intro c hc
  have hlength := hmaximal _ hc ⟨c, List.prefix_rfl⟩
  have hwell := wellFormed_encodeChar c
  cases hbytes : String.utf8EncodeChar c with
  | nil => exact encodeChar_ne_nil c hbytes
  | cons first others =>
    rw [hbytes] at hwell hc hlength
    obtain rfl : first = lead := (List.cons_prefix_cons.1 hc).1
    have hwhole := hwell.length_eq
    rw [List.length_cons, List.length_cons] at hlength
    omega

/-! ## The cut that reading makes -/

/-- Reading takes a character or an ill-formed part off the front of these bytes. -/
inductive Cuts : Bytes → Prop where
  | char (c : Char) (rest : Bytes) : Cuts (String.utf8EncodeChar c ++ rest)
  | illFormed {part rest : Bytes} (h : IllFormed part rest)
      (hread : ∀ done, scalarsFrom done (part ++ rest) = scalarsFrom (done.push none) rest) :
      Cuts (part ++ rest)

namespace Cuts

theorem of_wellFormed {bytes : Bytes} (h : WellFormed bytes) (rest : Bytes) :
    Cuts (bytes ++ rest) := by
  obtain ⟨c, rfl⟩ := exists_encodeChar h
  exact .char c rest

theorem of_lead {a : UInt8} {rest : Bytes} (ha : sequenceLength a ≠ 1)
    (hnext : ∀ b ∈ rest.head?, ¬ StartsChar [a, b])
    (hread : ∀ done, scalarsFrom done (a :: rest) = scalarsFrom (done.push none) rest) :
    Cuts (a :: rest) := by
  have hshort : sequenceLength a = 0 ∨ 1 < sequenceLength a := by omega
  exact .illFormed (.of_stuck hshort (.inl rfl) hnext) hread

theorem of_start {a b : UInt8} {tail rest : Bytes} (hstarts : StartsChar (a :: b :: tail))
    (ha : tail.length + 2 < sequenceLength a)
    (hnext : ∀ next ∈ rest.head?, ¬ isContinuation next = true)
    (hread : ∀ done,
      scalarsFrom done (a :: b :: tail ++ rest) = scalarsFrom (done.push none) rest) :
    Cuts (a :: b :: tail ++ rest) := by
  have hshort : (b :: tail).length + 1 < sequenceLength a := by simpa using ha
  refine .illFormed (.of_stuck (.inr hshort) (.inr hstarts) ?_) hread
  intro next hmem hlonger
  exact hnext next hmem (startsChar_later hlonger)

end Cuts

theorem head_cases (allowed : UInt8 → Bool) (rest : Bytes) :
    (∃ b more, rest = b :: more ∧ allowed b = true) ∨ ∀ b ∈ rest.head?, ¬ allowed b = true := by
  cases rest with
  | nil => simp
  | cons b more => cases hb : allowed b <;> simp [hb]

theorem cuts_of_none {a : UInt8} (ha : sequenceLength a = 0) (rest : Bytes) : Cuts (a :: rest) := by
  apply Cuts.of_lead (by omega)
  · intro b _ hstarts
    have := startsChar_second hstarts
    omega
  · intro done
    unfold sequenceLength at ha
    rw [scalarsFrom.eq_def]
    grind

theorem cuts_of_two {a : UInt8} (ha : sequenceLength a = 2) (rest : Bytes) : Cuts (a :: rest) := by
  have hlead : ¬ a < 0x80 ∧ (0xc2 ≤ a && a ≤ 0xdf) = true := by
    unfold sequenceLength at ha
    grind
  rcases head_cases isContinuation rest with ⟨b, rest, rfl, hb⟩ | hstuck
  · exact .of_wellFormed (.two ha hb) rest
  · apply Cuts.of_lead (by omega)
    · intro b hmem hstarts
      have := startsChar_second hstarts
      exact hstuck b hmem (by simp_all)
    · intro done
      rw [scalarsFrom.eq_def]
      simp only [if_neg hlead.1, if_pos hlead.2]
      cases rest with
      | nil => rfl
      | cons b rest => exact if_neg (hstuck b rfl)

theorem cuts_of_three {a : UInt8} (ha : sequenceLength a = 3) (rest : Bytes) :
    Cuts (a :: rest) := by
  have hlead : ¬ a < 0x80 ∧ ¬ (0xc2 ≤ a && a ≤ 0xdf) = true ∧ (0xe0 ≤ a && a ≤ 0xef) = true := by
    unfold sequenceLength at ha
    grind
  rcases head_cases (isSecondOfThree a) rest with ⟨b, rest, rfl, hb⟩ | hstuck
  · rcases head_cases isContinuation rest with ⟨c, rest, rfl, hc⟩ | hstuck
    · exact .of_wellFormed (.three ha hb hc) rest
    · have hstarts : StartsChar [a, b] :=
        startsChar_iff.2 ⟨_, .three ha hb (by decide : isContinuation 0x80 = true), [0x80], rfl⟩
      apply Cuts.of_start hstarts (by simp [ha]) hstuck
      intro done
      show scalarsFrom done (a :: b :: rest) = _
      rw [scalarsFrom.eq_def]
      simp only [if_neg hlead.1, if_neg hlead.2.1, if_pos hlead.2.2, if_pos hb]
      cases rest with
      | nil => rfl
      | cons c rest => exact if_neg (hstuck c rfl)
  · apply Cuts.of_lead (by omega)
    · intro b hmem hstarts
      have := startsChar_second hstarts
      exact hstuck b hmem (by simp_all)
    · intro done
      rw [scalarsFrom.eq_def]
      simp only [if_neg hlead.1, if_neg hlead.2.1, if_pos hlead.2.2]
      cases rest with
      | nil => rfl
      | cons b rest => exact if_neg (hstuck b rfl)

theorem cuts_of_four {a : UInt8} (ha : sequenceLength a = 4) (rest : Bytes) :
    Cuts (a :: rest) := by
  have hlead : ¬ a < 0x80 ∧ ¬ (0xc2 ≤ a && a ≤ 0xdf) = true ∧ ¬ (0xe0 ≤ a && a ≤ 0xef) = true ∧
      (0xf0 ≤ a && a ≤ 0xf4) = true := by
    unfold sequenceLength at ha
    grind
  have hlast : isContinuation 0x80 = true := by decide
  rcases head_cases (isSecondOfFour a) rest with ⟨b, rest, rfl, hb⟩ | hstuck
  · rcases head_cases isContinuation rest with ⟨c, rest, rfl, hc⟩ | hstuck
    · rcases head_cases isContinuation rest with ⟨d, rest, rfl, hd⟩ | hstuck
      · exact .of_wellFormed (.four ha hb hc hd) rest
      · have hstarts : StartsChar [a, b, c] :=
          startsChar_iff.2 ⟨_, .four ha hb hc hlast, [0x80], rfl⟩
        apply Cuts.of_start hstarts (by simp [ha]) hstuck
        intro done
        show scalarsFrom done (a :: b :: c :: rest) = _
        rw [scalarsFrom.eq_def]
        simp only [if_neg hlead.1, if_neg hlead.2.1, if_neg hlead.2.2.1, if_pos hlead.2.2.2,
          if_pos hb, if_pos hc]
        cases rest with
        | nil => rfl
        | cons d rest => exact if_neg (hstuck d rfl)
    · have hstarts : StartsChar [a, b] :=
        startsChar_iff.2 ⟨_, .four ha hb hlast hlast, [0x80, 0x80], rfl⟩
      apply Cuts.of_start hstarts (by simp [ha]) hstuck
      intro done
      show scalarsFrom done (a :: b :: rest) = _
      rw [scalarsFrom.eq_def]
      simp only [if_neg hlead.1, if_neg hlead.2.1, if_neg hlead.2.2.1, if_pos hlead.2.2.2,
        if_pos hb]
      cases rest with
      | nil => rfl
      | cons c rest => exact if_neg (hstuck c rfl)
  · apply Cuts.of_lead (by omega)
    · intro b hmem hstarts
      have := startsChar_second hstarts
      exact hstuck b hmem (by simp_all)
    · intro done
      rw [scalarsFrom.eq_def]
      simp only [if_neg hlead.1, if_neg hlead.2.1, if_neg hlead.2.2.1, if_pos hlead.2.2.2]
      cases rest with
      | nil => rfl
      | cons b rest => exact if_neg (hstuck b rfl)

theorem sequenceLength_le (a : UInt8) : sequenceLength a ≤ 4 := by
  unfold sequenceLength
  grind

theorem cuts_cons (a : UInt8) (rest : Bytes) : Cuts (a :: rest) := by
  have hlength := sequenceLength_le a
  match ha : sequenceLength a with
  | 0 => exact cuts_of_none ha rest
  | 1 => exact .of_wellFormed (.one ha) rest
  | 2 => exact cuts_of_two ha rest
  | 3 => exact cuts_of_three ha rest
  | 4 => exact cuts_of_four ha rest
  | _ + 5 => omega

theorem IllFormed.scalarsFrom_append {part rest : Bytes} (h : IllFormed part rest)
    (done : Array (Option Char)) :
    scalarsFrom done (part ++ rest) = scalarsFrom (done.push none) rest := by
  obtain ⟨a, tail, rfl⟩ := List.exists_cons_of_ne_nil h.ne_nil
  have hcuts := cuts_cons a (tail ++ rest)
  generalize hbytes : a :: (tail ++ rest) = bytes at hcuts
  cases hcuts with
  | char c more => exact absurd ⟨more, hbytes.symm⟩ (h.unreadable c)
  | illFormed hother hread =>
    obtain ⟨rfl, rfl⟩ := h.unique hother hbytes
    exact hread done

/-- Bytes are taken apart from the front, a character or an ill-formed part at a time. -/
theorem cutInduction {motive : Bytes → Prop} (nil : motive [])
    (char : ∀ c rest, motive rest → motive (String.utf8EncodeChar c ++ rest))
    (illFormed : ∀ part rest, IllFormed part rest → motive rest → motive (part ++ rest))
    (bytes : Bytes) : motive bytes := by
  induction hlength : bytes.length using Nat.strongRecOn generalizing bytes with
  | ind length ih =>
    cases bytes with
    | nil => exact nil
    | cons a tail =>
      have hcuts := cuts_cons a tail
      generalize a :: tail = bytes at hcuts hlength
      cases hcuts with
      | char c rest =>
        have hpos := List.length_pos_iff.2 (encodeChar_ne_nil c)
        rw [List.length_append] at hlength
        exact char c rest (ih rest.length (by omega) rest rfl)
      | @illFormed part rest hpart _ =>
        have hpos := List.length_pos_iff.2 hpart.ne_nil
        rw [List.length_append] at hlength
        exact illFormed part rest hpart (ih rest.length (by omega) rest rfl)

/-! ## Lossy reading -/

theorem scalarsFrom_eq_append (done : Array (Option Char)) (bytes : Bytes) :
    scalarsFrom done bytes = done ++ scalars bytes := by
  induction bytes using cutInduction generalizing done with
  | nil => simp [scalars, scalarsFrom]
  | char c rest ih =>
    rw [scalars, scalarsFrom_encodeChar, scalarsFrom_encodeChar, ih, ih]
    simp
  | illFormed part rest hpart ih =>
    rw [scalars, hpart.scalarsFrom_append, hpart.scalarsFrom_append, ih, ih]
    simp

theorem toList_decodeLossy_encodeChar (c : Char) (rest : Bytes) :
    (decodeLossy (String.utf8EncodeChar c ++ rest)).toList = c :: (decodeLossy rest).toList := by
  rw [decodeLossy, scalars, scalarsFrom_encodeChar, scalarsFrom_eq_append]
  simp [decodeLossy]

theorem IllFormed.toList_decodeLossy {part rest : Bytes} (h : IllFormed part rest) :
    (decodeLossy (part ++ rest)).toList = replacement :: (decodeLossy rest).toList := by
  rw [decodeLossy, scalars, h.scalarsFrom_append, scalarsFrom_eq_append]
  simp [decodeLossy]

theorem lossy_decodeLossy (bytes : Bytes) : Lossy bytes (decodeLossy bytes).toList := by
  induction bytes using cutInduction with
  | nil => exact .nil
  | char c rest ih =>
    rw [toList_decodeLossy_encodeChar]
    exact .char c ih
  | illFormed part rest hpart ih =>
    rw [hpart.toList_decodeLossy]
    exact .illFormed hpart ih

/-- The decoder gives the lossy reading, and no other text is one. -/
theorem lossy_iff {bytes : Bytes} {chars : List Char} :
    Lossy bytes chars ↔ (decodeLossy bytes).toList = chars := by
  constructor
  · intro h
    induction h with
    | nil => rfl
    | char c _ ih => rw [toList_decodeLossy_encodeChar, ih]
    | illFormed hpart _ ih => rw [hpart.toList_decodeLossy, ih]
  · rintro rfl
    exact lossy_decodeLossy bytes

/-! ## Bytes that stand for themselves

A byte below `0x80` is no part of a longer sequence, so whatever stands before it
ends there, be it well-formed or not.
-/

theorem le_of_startsChar_concat {front : Bytes} {next : UInt8} (hne : front ≠ [])
    (h : StartsChar (front ++ [next])) : 0x80 ≤ next.toNat := by
  rcases front with _ | ⟨a, _ | ⟨b, tail⟩⟩
  · exact absurd rfl hne
  · rcases startsChar_second h with ⟨-, hnext⟩ | ⟨-, hnext⟩ | ⟨-, hnext⟩
    · exact (isContinuation_iff.1 hnext).1
    · exact (isSecondOfThree_iff.1 hnext).1
    · exact (isSecondOfFour_iff.1 hnext).1
  · exact (isContinuation_iff.1 (startsChar_later h)).1

theorem StartsChar.prefix_before {part front rest : Bytes} {next : UInt8} (h : StartsChar part)
    (hne : front ≠ []) (hnext : next.toNat < 0x80) (hpart : part <+: front ++ next :: rest) :
    part <+: front := by
  rcases Nat.lt_or_ge front.length part.length with hlonger | hlength
  · have hfront : front ++ [next] <+: part := by
      apply List.prefix_of_prefix_length_le ⟨rest, by simp⟩ hpart
      rwa [List.length_append, List.length_singleton]
    obtain ⟨c, hc⟩ := h
    have := le_of_startsChar_concat hne ⟨c, hfront.trans hc⟩
    omega
  · exact List.prefix_of_prefix_length_le hpart (List.prefix_append front _) hlength

theorem IllFormed.append {part rest : Bytes} {next : UInt8} (h : IllFormed part rest)
    (hnext : next.toNat < 0x80) (more : Bytes) : IllFormed part (rest ++ next :: more) := by
  have hne : part ++ rest ≠ [] := by simp [h.ne_nil]
  refine ⟨h.ne_nil, h.size, ?_, ?_⟩
  · intro c hc
    rw [← List.append_assoc] at hc
    exact h.unreadable c (StartsChar.prefix_before ⟨c, List.prefix_rfl⟩ hne hnext hc)
  · intro longer hlonger hstarts
    rw [← List.append_assoc] at hlonger
    exact h.maximal longer (hstarts.prefix_before hne hnext hlonger) hstarts

theorem Lossy.append {front rest : Bytes} {chars more : List Char} {c : Char} {next : UInt8}
    (hfront : Lossy front chars) (hc : String.utf8EncodeChar c = [next])
    (hnext : next.toNat < 0x80) (hrest : Lossy rest more) :
    Lossy (front ++ next :: rest) (chars ++ c :: more) := by
  induction hfront with
  | nil =>
    have h := Lossy.char c hrest
    rwa [hc] at h
  | char d _ ih =>
    rw [List.append_assoc]
    exact .char d ih
  | illFormed hpart _ ih =>
    rw [List.append_assoc]
    exact .illFormed (hpart.append hnext rest) ih

/-! ## Characters that are not replacements -/

theorem Lossy.infix_of_mem {bytes : Bytes} {chars : List Char} {c : Char}
    (h : Lossy bytes chars) (hc : c ≠ replacement) (hmem : c ∈ chars) :
    String.utf8EncodeChar c <:+: bytes := by
  induction h with
  | nil => cases hmem
  | @char d rest _ _ ih =>
    rcases List.mem_cons.1 hmem with rfl | hmem
    · exact (List.prefix_append _ rest).isInfix
    · exact (ih hmem).trans (List.suffix_append _ rest).isInfix
  | @illFormed part rest _ _ _ ih =>
    have hmem := (List.mem_cons.1 hmem).resolve_left hc
    exact (ih hmem).trans (List.suffix_append part rest).isInfix

theorem Lossy.suffix_of_getLast? {bytes : Bytes} {chars : List Char} {c : Char}
    (h : Lossy bytes chars) (hc : c ≠ replacement) (hlast : chars.getLast? = some c) :
    String.utf8EncodeChar c <:+ bytes := by
  induction h with
  | nil => cases hlast
  | char d h ih =>
    cases h with
    | nil =>
      obtain rfl : d = c := by simpa using hlast
      simp
    | char | illFormed => exact (ih hlast).trans (List.suffix_append _ _)
  | illFormed _ h ih =>
    cases h with
    | nil => exact absurd (by simpa using hlast.symm) hc
    | char | illFormed => exact (ih hlast).trans (List.suffix_append _ _)

theorem Lossy.prefix_of_cons {bytes : Bytes} {chars : List Char} {c : Char}
    (h : Lossy bytes (c :: chars)) (hc : c ≠ replacement) :
    String.utf8EncodeChar c <+: bytes := by
  cases h with
  | @char _ rest _ _ => exact List.prefix_append _ rest
  | illFormed => exact absurd rfl hc

end ImportAtlas.Utf8
