import ImportAtlas.Proofs.Text.Words
import ImportAtlas.Text.Layout
import Mathlib.Data.List.Chain
import Mathlib.Data.List.TakeWhile
import Mathlib.Logic.Relation

/-!
# Filling rows, step by step

Putting the words of a line on rows is a run of steps. A word that fits goes on
the row; if it does not, the row ends, with as much of the word as it has room
for when there is no other word on it. What is kept by each of these steps is
kept by the whole run.
-/

namespace ImportAtlas.Layout

open Text

namespace Filling

@[simp] theorem rows_endRow (filling : Filling) :
    filling.endRow.rows.toList = filling.rows.toList ++ [filling.row.toList] := by
  simp [endRow]

@[simp] theorem row_endRow (filling : Filling) : filling.endRow.row.toList = [] := rfl

@[simp] theorem hasWord_endRow (filling : Filling) : filling.endRow.hasWord = false := rfl

@[simp] theorem rows_put (filling : Filling) (word : List Char) :
    (filling.put word).rows = filling.rows := rfl

@[simp] theorem hasWord_put (filling : Filling) (word : List Char) :
    (filling.put word).hasWord = true := rfl

theorem row_put_of_hasWord {filling : Filling} (h : filling.hasWord = true) (word : List Char) :
    (filling.put word).row.toList = filling.row.toList ++ ' ' :: word := by
  simp [put, h]

theorem row_put_of_not_hasWord {filling : Filling} (h : filling.hasWord = false)
    (word : List Char) : (filling.put word).row.toList = filling.row.toList ++ word := by
  simp [put, h]

theorem sizeWith_eq (filling : Filling) (word : List Char) :
    filling.sizeWith word = (filling.put word).row.toList.length := by
  cases h : filling.hasWord <;> simp [sizeWith, put, h]

end Filling

/-! ## Steps -/

/-- A filling and the words that are still to come; the first may be what is left of a word. -/
structure State where
  filling : Filling
  words : List (List Char)

inductive Step (width : Nat) : State → State → Prop where
  | skip (filling : Filling) (words : List (List Char)) :
      Step width ⟨filling, [] :: words⟩ ⟨filling, words⟩
  | fits {filling : Filling} {word : List Char} (hword : word ≠ [])
      (hfits : filling.sizeWith word ≤ width) (words : List (List Char)) :
      Step width ⟨filling, word :: words⟩ ⟨filling.put word, words⟩
  | breaks {filling : Filling} {word : List Char} (hfull : width < filling.sizeWith word)
      (hhas : filling.hasWord = true) (words : List (List Char)) :
      Step width ⟨filling, word :: words⟩ ⟨filling.endRow, word :: words⟩
  | splits {filling : Filling} {word : List Char} (hword : word ≠ [])
      (hfull : width < filling.sizeWith word) (hhas : filling.hasWord = false)
      (words : List (List Char)) :
      Step width ⟨filling, word :: words⟩
        ⟨(filling.put (word.take (filling.room width))).endRow,
          word.drop (filling.room width) :: words⟩

theorem reaches_fillWord (width : Nat) (filling : Filling) (word : List Char)
    (words : List (List Char)) :
    Relation.ReflTransGen (Step width) ⟨filling, word :: words⟩
      ⟨fillWord width filling word, words⟩ := by
  fun_induction fillWord width filling word with
  | case1 filling => exact .single (.skip filling words)
  | case2 filling word hword hfits => exact .single (.fits hword hfits words)
  | case3 filling word hword hfull hhas ih =>
    exact .head (.breaks (Nat.lt_of_not_le hfull) hhas words) ih
  | case4 filling word hword hfull hhas room ih =>
    exact .head (.splits hword (Nat.lt_of_not_le hfull) (by simpa using hhas) words) ih

theorem reaches_foldl (width : Nat) (filling : Filling) (words : List (List Char)) :
    Relation.ReflTransGen (Step width) ⟨filling, words⟩
      ⟨words.foldl (fillWord width) filling, []⟩ := by
  induction words generalizing filling with
  | nil => exact .refl
  | cons word words ih => exact (reaches_fillWord width filling word words).trans (ih _)

/-- What steps keep, filling a line keeps. -/
theorem foldl_of_step {width : Nat} {kept : State → Prop}
    (hstep : ∀ state next, Step width state next → kept state → kept next) {filling : Filling}
    {words : List (List Char)} (h : kept ⟨filling, words⟩) :
    kept ⟨words.foldl (fillWord width) filling, []⟩ := by
  have hreaches := reaches_foldl width filling words
  generalize State.mk (words.foldl (fillWord width) filling) [] = final at hreaches ⊢
  induction hreaches with
  | refl => exact h
  | tail _ hnext ih => exact hstep _ _ hnext ih

/-! ## Rows -/

/-- A row of words with a space between each two, within the width. -/
structure Fitting (width : Nat) (indent row : List Char) : Prop where
  made : ∃ words, words ≠ [] ∧ (∀ word ∈ words, IsWord word) ∧ row = indent ++ joinPieces ' ' words
  fits : row.length ≤ width

/-- A row that filling ends: it fits, or its indentation alone is so wide that one character
follows it. -/
inductive IsRow (width : Nat) (indent : List Char) : List Char → Prop where
  | fitting {row : List Char} (h : Fitting width indent row) : IsRow width indent row
  | overwide {c : Char} (hc : isBlank c = false) (hwide : width ≤ indent.length) :
      IsRow width indent (indent ++ [c])

def Laid (width : Nat) (indent : List Char) : List (List Char) → Prop
  | [] => True
  | first :: others => IsRow width indent first ∧ ∀ row ∈ others, IsRow width [] row

def leadAfter (indent : List Char) (rows : List (List Char)) : List Char :=
  if rows.isEmpty then indent else []

theorem leadAfter_concat (indent : List Char) (rows : List (List Char)) (row : List Char) :
    leadAfter indent (rows ++ [row]) = [] := by
  simp [leadAfter]

theorem laid_concat {width : Nat} {indent row : List Char} {rows : List (List Char)} :
    Laid width indent (rows ++ [row]) ↔
      Laid width indent rows ∧ IsRow width (leadAfter indent rows) row := by
  cases rows with
  | nil => simp [Laid, leadAfter]
  | cons first others =>
    simp only [List.cons_append, Laid, List.forall_mem_append, List.forall_mem_singleton]
    exact and_assoc.symm

theorem Fitting.singleton {width : Nat} {indent word : List Char} (hword : IsWord word)
    (h : (indent ++ word).length ≤ width) : Fitting width indent (indent ++ word) :=
  ⟨⟨[word], by simp, by simpa using hword, by simp [joinPieces]⟩, h⟩

theorem Fitting.concat {width : Nat} {indent row word : List Char} (hrow : Fitting width indent row)
    (hword : IsWord word) (h : (row ++ ' ' :: word).length ≤ width) :
    Fitting width indent (row ++ ' ' :: word) := by
  obtain ⟨words, hne, hwords, rfl⟩ := hrow.made
  refine ⟨⟨words ++ [word], by simp, ?_, ?_⟩, h⟩
  · exact List.forall_mem_append.2 ⟨hwords, by simpa using hword⟩
  · rw [joinPieces_snoc hne, List.append_assoc]

theorem IsRow.split {width : Nat} {indent word : List Char} (hword : IsWord word) :
    IsRow width indent (indent ++ word.take (max (width - indent.length) 1)) := by
  by_cases hwide : width ≤ indent.length
  · have hone : max (width - indent.length) 1 = 1 := by omega
    obtain ⟨c, rest, rfl⟩ := List.exists_cons_of_ne_nil hword.ne_nil
    rw [hone]
    exact .overwide (hword.solid c List.mem_cons_self) hwide
  · have hroom : max (width - indent.length) 1 = width - indent.length := by omega
    rw [hroom]
    refine .fitting (.singleton ⟨?_, ?_⟩ ?_)
    · have := List.length_pos_iff.2 hword.ne_nil
      rw [← List.length_pos_iff, List.length_take]
      omega
    · exact fun c hc => hword.solid c (List.mem_of_mem_take hc)
    · rw [List.length_append, List.length_take]
      omega

/-! ## What every state of a filling satisfies -/

theorem filter_isSolid {word : List Char} (h : ∀ c ∈ word, isBlank c = false) :
    word.filter isSolid = word := by
  rw [List.filter_eq_self]
  intro c hc
  rw [isSolid, h c hc]
  rfl

/-- The rows and the present row are laid out, and with the words to come they hold the text. -/
structure Sound (width : Nat) (indent text : List Char) (state : State) : Prop where
  solid : ∀ word ∈ state.words, ∀ c ∈ word, isBlank c = false
  laid : Laid width indent state.filling.rows.toList
  waiting : state.filling.hasWord = false →
    state.filling.row.toList = leadAfter indent state.filling.rows.toList
  filled : state.filling.hasWord = true →
    Fitting width (leadAfter indent state.filling.rows.toList) state.filling.row.toList
  text_eq : (state.filling.rows.toList.flatten ++ state.filling.row.toList).filter isSolid
    ++ state.words.flatten = text

namespace Sound

variable {width : Nat} {indent text word : List Char} {words : List (List Char)}
  {filling : Filling}

theorem solid_head (h : Sound width indent text ⟨filling, word :: words⟩) :
    ∀ c ∈ word, isBlank c = false :=
  h.solid word List.mem_cons_self

theorem solid_tail (h : Sound width indent text ⟨filling, word :: words⟩) :
    ∀ word ∈ words, ∀ c ∈ word, isBlank c = false :=
  fun word hword => h.solid word (List.mem_cons_of_mem _ hword)

theorem skip (h : Sound width indent text ⟨filling, [] :: words⟩) :
    Sound width indent text ⟨filling, words⟩ :=
  ⟨h.solid_tail, h.laid, h.waiting, h.filled, h.text_eq⟩

theorem fits (h : Sound width indent text ⟨filling, word :: words⟩) (hword : word ≠ [])
    (hfits : filling.sizeWith word ≤ width) :
    Sound width indent text ⟨filling.put word, words⟩ := by
  have hsolid := h.solid_head
  have htext := h.text_eq
  rw [Filling.sizeWith_eq] at hfits
  refine ⟨h.solid_tail, h.laid, by simp, fun _ => ?_, ?_⟩
  · cases hhas : filling.hasWord with
    | false =>
      have hrow := Filling.row_put_of_not_hasWord hhas word
      rw [h.waiting hhas] at hrow
      rw [hrow] at hfits ⊢
      exact .singleton ⟨hword, hsolid⟩ hfits
    | true =>
      rw [Filling.row_put_of_hasWord hhas] at hfits ⊢
      exact (h.filled hhas).concat ⟨hword, hsolid⟩ hfits
  · cases hhas : filling.hasWord with
    | false =>
      rw [Filling.row_put_of_not_hasWord hhas]
      simpa [filter_isSolid hsolid] using htext
    | true =>
      have hspace : isSolid ' ' = false := by decide
      rw [Filling.row_put_of_hasWord hhas]
      simpa [filter_isSolid hsolid, hspace] using htext

theorem breaks (h : Sound width indent text ⟨filling, words⟩) (hhas : filling.hasWord = true) :
    Sound width indent text ⟨filling.endRow, words⟩ := by
  refine ⟨h.solid, ?_, ?_, by simp, ?_⟩
  · rw [Filling.rows_endRow, laid_concat]
    exact ⟨h.laid, .fitting (h.filled hhas)⟩
  · intro _
    rw [Filling.rows_endRow, leadAfter_concat, Filling.row_endRow]
  · simpa using h.text_eq

theorem splits (h : Sound width indent text ⟨filling, word :: words⟩) (hword : word ≠ [])
    (hhas : filling.hasWord = false) :
    Sound width indent text
      ⟨(filling.put (word.take (filling.room width))).endRow,
        word.drop (filling.room width) :: words⟩ := by
  have hsolid := h.solid_head
  have hrow := h.waiting hhas
  have hput := Filling.row_put_of_not_hasWord hhas (word.take (filling.room width))
  refine ⟨?_, ?_, ?_, by simp, ?_⟩
  · refine List.forall_mem_cons.2 ⟨?_, h.solid_tail⟩
    exact fun c hc => hsolid c (List.mem_of_mem_drop hc)
  · have hroom : filling.room width
        = max (width - (leadAfter indent filling.rows.toList).length) 1 := by
      rw [← hrow]
      rfl
    rw [Filling.rows_endRow, Filling.rows_put, hput, laid_concat, hrow, hroom]
    exact ⟨h.laid, .split ⟨hword, hsolid⟩⟩
  · intro _
    rw [Filling.rows_endRow, leadAfter_concat, Filling.row_endRow]
  · have htake : ∀ c ∈ word.take (filling.room width), isBlank c = false :=
      fun c hc => hsolid c (List.mem_of_mem_take hc)
    have hcut : word.take (filling.room width) ++ (word.drop (filling.room width) ++ words.flatten)
        = word ++ words.flatten := by
      rw [← List.append_assoc, List.take_append_drop]
    have htext := h.text_eq
    rw [Filling.rows_endRow, Filling.rows_put, hput, Filling.row_endRow]
    simpa [filter_isSolid htake, hcut] using htext

end Sound

/-! ## Rows end only where they have to -/

def firstWord (row : List Char) : List Char :=
  row.takeWhile (· != ' ')

theorem firstWord_append_space (row rest : List Char) :
    firstWord (row ++ ' ' :: rest) = firstWord row := by
  induction row with
  | nil => rfl
  | cons c row ih =>
    unfold firstWord at ih ⊢
    rw [List.cons_append, List.takeWhile_cons, List.takeWhile_cons, ih]

theorem firstWord_of_solid {word : List Char} (h : ∀ c ∈ word, isBlank c = false) :
    firstWord word = word := by
  unfold firstWord
  rw [List.takeWhile_eq_self_iff]
  intro c hc
  rw [bne_iff_ne]
  rintro rfl
  exact absurd (h ' ' hc) (by decide)

/-- The first word of the later row does not fit on the earlier one. -/
def Crowded (width : Nat) (earlier later : List Char) : Prop :=
  width < earlier.length + 1 + (firstWord later).length

/-- In a sound state, rows that have ended are crowded by what comes next: the next row, the present
one, or the next word if the present row has none yet. -/
structure Tight (width : Nat) (indent text : List Char) (state : State) : Prop
    extends Sound width indent text state where
  chain : state.filling.rows.toList.IsChain (Crowded width)
  crowds : state.filling.hasWord = true → ∀ last ∈ state.filling.rows.toList.getLast?,
    Crowded width last state.filling.row.toList
  overfills : state.filling.hasWord = false → ∀ last ∈ state.filling.rows.toList.getLast?,
    ∀ word ∈ state.words.head?, width < last.length + 1 + word.length

theorem isChain_concat {width : Nat} {rows : List (List Char)} {row : List Char}
    (hrows : rows.IsChain (Crowded width))
    (hlast : ∀ last ∈ rows.getLast?, Crowded width last row) :
    (rows ++ [row]).IsChain (Crowded width) := by
  rw [List.isChain_append]
  exact ⟨hrows, .singleton row, by simpa using hlast⟩

theorem leadAfter_of_getLast? {indent last : List Char} {rows : List (List Char)}
    (h : last ∈ rows.getLast?) : leadAfter indent rows = [] := by
  cases rows with
  | nil => cases h
  | cons => rfl

namespace Tight

variable {width : Nat} {indent text word : List Char} {words : List (List Char)}
  {filling : Filling}

theorem skip (h : Tight width indent text ⟨filling, [] :: words⟩) :
    Tight width indent text ⟨filling, words⟩ := by
  refine ⟨h.toSound.skip, h.chain, h.crowds, ?_⟩
  intro hhas last hlast word _
  have hfull := h.overfills hhas last hlast [] rfl
  rw [List.length_nil] at hfull
  omega

theorem fits (h : Tight width indent text ⟨filling, word :: words⟩) (hword : word ≠ [])
    (hfits : filling.sizeWith word ≤ width) :
    Tight width indent text ⟨filling.put word, words⟩ := by
  refine ⟨h.toSound.fits hword hfits, h.chain, fun _ last hlast => ?_, by simp⟩
  cases hhas : filling.hasWord with
  | false =>
    have hrow : filling.row.toList = [] := (h.waiting hhas).trans (leadAfter_of_getLast? hlast)
    rw [Crowded, Filling.row_put_of_not_hasWord hhas, hrow, List.nil_append,
      firstWord_of_solid h.solid_head]
    exact h.overfills hhas last hlast word rfl
  | true =>
    rw [Crowded, Filling.row_put_of_hasWord hhas, firstWord_append_space]
    exact h.crowds hhas last hlast

theorem breaks (h : Tight width indent text ⟨filling, word :: words⟩)
    (hfull : width < filling.sizeWith word) (hhas : filling.hasWord = true) :
    Tight width indent text ⟨filling.endRow, word :: words⟩ := by
  refine ⟨h.toSound.breaks hhas, ?_, by simp, ?_⟩
  · rw [Filling.rows_endRow]
    exact isChain_concat h.chain (h.crowds hhas)
  · intro _ last hlast next hnext
    obtain rfl : filling.row.toList = last := by simpa using hlast
    obtain rfl : word = next := by simpa using hnext
    rw [Filling.sizeWith_eq, Filling.row_put_of_hasWord hhas, List.length_append,
      List.length_cons] at hfull
    omega

theorem splits (h : Tight width indent text ⟨filling, word :: words⟩) (hword : word ≠ [])
    (hfull : width < filling.sizeWith word) (hhas : filling.hasWord = false) :
    Tight width indent text
      ⟨(filling.put (word.take (filling.room width))).endRow,
        word.drop (filling.room width) :: words⟩ := by
  have hpos := List.length_pos_iff.2 hword
  have hput := Filling.row_put_of_not_hasWord hhas (word.take (filling.room width))
  have hroom : filling.room width = max (width - filling.row.toList.length) 1 := rfl
  rw [Filling.sizeWith_eq, Filling.row_put_of_not_hasWord hhas, List.length_append] at hfull
  -- The part that goes on the row takes up all of its room, so the row is full.
  have hlength : (word.take (filling.room width)).length = filling.room width := by
    rw [List.length_take]
    omega
  refine ⟨h.toSound.splits hword hhas, ?_, by simp, ?_⟩
  · rw [Filling.rows_endRow, Filling.rows_put, hput]
    refine isChain_concat h.chain fun last hlast => ?_
    have hrow : filling.row.toList = [] := (h.waiting hhas).trans (leadAfter_of_getLast? hlast)
    have hsolid : ∀ c ∈ word.take (filling.room width), isBlank c = false :=
      fun c hc => h.solid_head c (List.mem_of_mem_take hc)
    rw [Crowded, hrow, List.nil_append, firstWord_of_solid hsolid, hlength, hroom, hrow,
      List.length_nil]
    omega
  · intro _ last hlast next _
    rw [Filling.rows_endRow, hput] at hlast
    obtain rfl : filling.row.toList ++ word.take (filling.room width) = last := by
      simpa using hlast
    rw [List.length_append, hlength]
    omega

theorem step {state next : State} (hstep : Step width state next)
    (h : Tight width indent text state) : Tight width indent text next := by
  cases hstep with
  | skip => exact h.skip
  | fits hword hfits => exact h.fits hword hfits
  | breaks hfull hhas => exact h.breaks hfull hhas
  | splits hword hfull hhas => exact h.splits hword hfull hhas

end Tight

end ImportAtlas.Layout
