import ImportAtlas.Proofs.Layout.Filling
import Mathlib.Data.List.Forall2

/-!
# Filled text

What filling to a width does to a text, line by line: the rows of a line hold its
text and keep within the width as far as the indentation leaves room. Every row
is a line that gives itself, so filling a filled text changes nothing. A row ends
only where the next word would not have fitted on it.
-/

namespace ImportAtlas.Layout

open Text

def lineRows (width : Nat) (line : List Char) : List (List Char) :=
  if line.isEmpty then [[]] else fillLine width line

theorem toList_wrap (text : String) (width : Nat) :
    (wrap text width).toList
      = joinPieces '\n' ((pieces '\n' text.toList).flatMap (lineRows width)) :=
  String.toList_ofList

/-! ## Filling one line -/

theorem isBlank_of_mem_indentation {line : List Char} {c : Char} (h : c ∈ indentation line) :
    isBlank c = true :=
  List.mem_takeWhile_imp h

theorem filter_isSolid_eq_nil {chars : List Char} :
    chars.filter isSolid = [] ↔ ∀ c ∈ chars, isBlank c = true := by
  rw [List.filter_eq_nil_iff]
  simp [isSolid]

theorem filter_indentation (line : List Char) : (indentation line).filter isSolid = [] :=
  filter_isSolid_eq_nil.2 fun _ hc => isBlank_of_mem_indentation hc

theorem tight_start (width : Nat) (line : List Char) :
    Tight width (indentation line) (line.filter isSolid)
      ⟨⟨#[], (indentation line).toArray, false⟩, words line⟩ := by
  have hsolid : ∀ word ∈ words line, ∀ c ∈ word, isBlank c = false :=
    fun word hword => (isWord_of_mem_words hword).solid
  have htext : (indentation line).filter isSolid ++ (words line).flatten
      = line.filter isSolid := by
    rw [filter_indentation, List.nil_append, flatten_words]
  exact ⟨⟨hsolid, trivial, fun _ => rfl, by simp, htext⟩, .nil, by simp, by simp⟩

theorem exists_filling (width : Nat) (line : List Char) :
    ∃ filling : Filling,
      Tight (max width 1) (indentation line) (line.filter isSolid) ⟨filling, []⟩ ∧
      fillLine width line = (if filling.hasWord then filling.endRow else filling).rows.toList :=
  ⟨_, foldl_of_step (fun _ _ => Tight.step) (tight_start (max width 1) line), rfl⟩

theorem laid_fillLine (width : Nat) (line : List Char) :
    Laid (max width 1) (indentation line) (fillLine width line) := by
  obtain ⟨filling, htight, heq⟩ := exists_filling width line
  rw [heq]
  cases hhas : filling.hasWord with
  | false => exact htight.laid
  | true => exact (htight.toSound.breaks hhas).laid

theorem filter_fillLine (width : Nat) (line : List Char) :
    (fillLine width line).flatten.filter isSolid = line.filter isSolid := by
  obtain ⟨filling, htight, heq⟩ := exists_filling width line
  rw [heq]
  cases hhas : filling.hasWord with
  | false =>
    have hrow : filling.row.toList.filter isSolid = [] := by
      rw [htight.waiting hhas]
      unfold leadAfter
      split
      · exact filter_indentation line
      · rfl
    simpa [hrow] using htight.text_eq
  | true => simpa using (htight.toSound.breaks hhas).text_eq

theorem isChain_fillLine (width : Nat) (line : List Char) :
    (fillLine width line).IsChain (Crowded (max width 1)) := by
  obtain ⟨filling, htight, heq⟩ := exists_filling width line
  rw [heq]
  cases hhas : filling.hasWord with
  | false => exact htight.chain
  | true =>
    rw [if_pos rfl, Filling.rows_endRow]
    exact isChain_concat htight.chain (htight.crowds hhas)

theorem fillLine_of_blank {line : List Char} (h : ∀ c ∈ line, isBlank c = true) (width : Nat) :
    fillLine width line = [] := by
  have hwords : words line = words [] := by
    simpa using words_indent h []
  rw [fillLine, hwords]
  rfl

/-! ## Rows -/

def IndentedBy (indent row : List Char) : Prop :=
  ∃ c rest, isBlank c = false ∧ row = indent ++ c :: rest

namespace IsRow

variable {width : Nat} {indent row : List Char}

theorem indentedBy (h : IsRow width indent row) : IndentedBy indent row := by
  cases h with
  | fitting h =>
    obtain ⟨words, hne, hwords, rfl⟩ := h.made
    obtain ⟨word, words, rfl⟩ := List.exists_cons_of_ne_nil hne
    have hword := hwords word List.mem_cons_self
    obtain ⟨c, rest, rfl⟩ := List.exists_cons_of_ne_nil hword.ne_nil
    have hc := hword.solid c List.mem_cons_self
    cases words with
    | nil => exact ⟨c, rest, hc, by simp [joinPieces]⟩
    | cons => exact ⟨c, _, hc, by rw [joinPieces_cons_cons, List.cons_append]⟩
  | @overwide c hc _ => exact ⟨c, [], hc, rfl⟩

theorem length_le (h : IsRow width indent row) (hindent : indent.length < width) :
    row.length ≤ width := by
  cases h with
  | fitting h => exact h.fits
  | overwide _ hwide => omega

theorem length_eq (h : IsRow width indent row) (hindent : width ≤ indent.length) :
    row.length = indent.length + 1 := by
  obtain ⟨c, rest, -, hrow⟩ := h.indentedBy
  cases h with
  | fitting h =>
    have hfits := h.fits
    rw [hrow, List.length_append, List.length_cons] at hfits
    omega
  | overwide => simp

theorem feed_notMem (h : IsRow width indent row) (hindent : '\n' ∉ indent) : '\n' ∉ row := by
  have hsolid : ∀ c, isBlank c = false → c ≠ '\n' := by
    rintro c hc rfl
    exact absurd hc (by decide)
  cases h with
  | fitting h =>
    obtain ⟨words, -, hwords, rfl⟩ := h.made
    rw [List.mem_append, not_or]
    refine ⟨hindent, fun hmem => ?_⟩
    rcases mem_joinPieces hmem with hspace | ⟨word, hword, hmem⟩
    · exact absurd hspace (by decide)
    · exact hsolid _ ((hwords word hword).solid _ hmem) rfl
  | overwide hc => simp [hindent, (hsolid _ hc).symm]

end IsRow

/-! ## A row is its own filling -/

theorem length_le_foldl_put (words : List (List Char)) (filling : Filling) :
    filling.row.toList.length ≤ (words.foldl Filling.put filling).row.toList.length := by
  induction words generalizing filling with
  | nil => exact Nat.le_refl _
  | cons word words ih =>
    refine Nat.le_trans ?_ (ih (filling.put word))
    rw [← Filling.sizeWith_eq]
    exact Nat.le_add_right _ _

theorem fillWord_of_fits {width : Nat} {filling : Filling} {word : List Char} (hword : word ≠ [])
    (hfits : filling.sizeWith word ≤ width) : fillWord width filling word = filling.put word := by
  rw [fillWord, if_neg hword, if_pos hfits]

theorem foldl_fillWord_of_fits {width : Nat} {words : List (List Char)} {filling : Filling}
    (hwords : ∀ word ∈ words, IsWord word)
    (hfits : (words.foldl Filling.put filling).row.toList.length ≤ width) :
    words.foldl (fillWord width) filling = words.foldl Filling.put filling := by
  induction words generalizing filling with
  | nil => rfl
  | cons word words ih =>
    obtain ⟨hword, hwords⟩ := List.forall_mem_cons.1 hwords
    have hput : filling.sizeWith word ≤ width := by
      rw [Filling.sizeWith_eq]
      exact Nat.le_trans (length_le_foldl_put words _) hfits
    rw [List.foldl_cons, List.foldl_cons, fillWord_of_fits hword.ne_nil hput]
    exact ih hwords hfits

theorem foldl_put {words : List (List Char)} (hne : words ≠ []) (indent : List Char) :
    words.foldl Filling.put ⟨#[], indent.toArray, false⟩
      = ⟨#[], (indent ++ joinPieces ' ' words).toArray, true⟩ := by
  induction words using List.reverseRecOn with
  | nil => exact absurd rfl hne
  | append_singleton front last ih =>
    by_cases hfront : front = []
    · simp [hfront, Filling.put, joinPieces]
    · rw [List.foldl_append, ih hfront, joinPieces_snoc hfront]
      simp [Filling.put]

theorem indentation_append {indent : List Char} (hindent : ∀ c ∈ indent, isBlank c = true)
    {c : Char} (hc : isBlank c = false) (rest : List Char) :
    indentation (indent ++ c :: rest) = indent := by
  rw [indentation, List.takeWhile_append_of_pos hindent, List.takeWhile_cons_of_neg (by simp [hc]),
    List.append_nil]

theorem IsRow.fillLine_eq {width : Nat} {indent row : List Char}
    (h : IsRow (max width 1) indent row) (hindent : ∀ c ∈ indent, isBlank c = true) :
    fillLine width row = [row] := by
  obtain ⟨c, rest, hc, hrow⟩ := h.indentedBy
  have hlead : indentation row = indent := by
    rw [hrow, indentation_append hindent hc]
  cases h with
  | fitting h =>
    obtain ⟨parts, hne, hparts, hmade⟩ := h.made
    have hwords : words row = parts := by
      rw [hmade, words_indent hindent, words_joinPieces hparts]
    have hput := foldl_put hne indent
    rw [← hmade] at hput
    have hfits : (parts.foldl Filling.put ⟨#[], indent.toArray, false⟩).row.toList.length
        ≤ max width 1 := by
      rw [hput]
      exact h.fits
    rw [fillLine, hlead, hwords, foldl_fillWord_of_fits hparts hfits, hput]
    simp [Filling.endRow]
  | @overwide d hd hwide =>
    have hwords : words (indent ++ [d]) = [[d]] := by
      rw [words_indent hindent, words_of_isWord ⟨by simp, by simpa using hd⟩]
    have hfull : ¬ indent.length + 1 ≤ max width 1 := by omega
    have hroom : max (max width 1 - indent.length) 1 = 1 := by omega
    rw [fillLine, hlead, hwords, List.foldl_cons, List.foldl_nil, fillWord]
    simp [Filling.sizeWith, hfull, Filling.room, hroom, fillWord, Filling.put, Filling.endRow]

theorem lineRows_row {width : Nat} {indent row : List Char} (h : IsRow (max width 1) indent row)
    (hindent : ∀ c ∈ indent, isBlank c = true) : lineRows width row = [row] := by
  obtain ⟨c, rest, -, hrow⟩ := h.indentedBy
  rw [lineRows, if_neg (by simp [hrow]), h.fillLine_eq hindent]

/-! ## The rows of a text -/

theorem Laid.exists_isRow {width : Nat} {indent row : List Char} {rows : List (List Char)}
    (h : Laid width indent rows) (hrow : row ∈ rows) :
    ∃ lead, lead ⊆ indent ∧ IsRow width lead row := by
  cases rows with
  | nil => cases hrow
  | cons first others =>
    rcases List.mem_cons.1 hrow with rfl | hrow
    · exact ⟨indent, List.Subset.refl indent, h.1⟩
    · exact ⟨[], List.nil_subset indent, h.2 row hrow⟩

theorem lineRows_of_mem {width : Nat} {line row : List Char} (hline : '\n' ∉ line)
    (hrow : row ∈ lineRows width line) : lineRows width row = [row] ∧ '\n' ∉ row := by
  unfold lineRows at hrow
  split at hrow
  · obtain rfl := List.mem_singleton.1 hrow
    exact ⟨rfl, List.not_mem_nil⟩
  · obtain ⟨lead, hlead, h⟩ := (laid_fillLine width line).exists_isRow hrow
    have hindent : indentation line ⊆ line := (List.takeWhile_prefix isBlank).subset
    refine ⟨lineRows_row h fun c hc => isBlank_of_mem_indentation (hlead hc), ?_⟩
    exact h.feed_notMem fun hfeed => hline (hindent (hlead hfeed))

theorem lineRows_of_mem_rows {width : Nat} {text row : List Char}
    (hrow : row ∈ (pieces '\n' text).flatMap (lineRows width)) :
    lineRows width row = [row] ∧ '\n' ∉ row := by
  obtain ⟨line, hline, hrow⟩ := List.mem_flatMap.1 hrow
  exact lineRows_of_mem (notMem_of_mem_pieces hline) hrow

theorem filter_lineRows (width : Nat) (line : List Char) :
    (lineRows width line).flatten.filter isSolid = line.filter isSolid := by
  unfold lineRows
  split
  · rename_i hempty
    rw [List.isEmpty_iff.1 hempty]
    rfl
  · exact filter_fillLine width line

theorem filter_flatMap_lineRows (width : Nat) (lines : List (List Char)) :
    (lines.flatMap (lineRows width)).flatten.filter isSolid = lines.flatten.filter isSolid := by
  induction lines with
  | nil => rfl
  | cons line lines ih =>
    rw [List.flatMap_cons, List.flatten_append, List.filter_append, filter_lineRows, ih,
      ← List.filter_append, ← List.flatten_cons]

theorem filter_wrap (text : String) (width : Nat) :
    (wrap text width).toList.filter isSolid = text.toList.filter isSolid := by
  have hfeed : isSolid '\n' = false := by decide
  calc (wrap text width).toList.filter isSolid
      = ((pieces '\n' text.toList).flatMap (lineRows width)).flatten.filter isSolid := by
        rw [toList_wrap, filter_joinPieces hfeed]
    _ = (pieces '\n' text.toList).flatten.filter isSolid := filter_flatMap_lineRows width _
    _ = text.toList.filter isSolid := by
        rw [← filter_joinPieces hfeed, joinPieces_pieces]

/-- The rows that a line may have in a width: an empty line stays, a blank one goes, and any other
keeps its text and, on the first row, its indentation. The first row may be wider than the width
only if the indentation takes it all up, and then by one character. -/
inductive LaidOut (width : Nat) : List Char → List (List Char) → Prop where
  | empty : LaidOut width [] [[]]
  | blank {line : List Char} (hne : line ≠ []) (hblank : ∀ c ∈ line, isBlank c = true) :
      LaidOut width line []
  | filled {line first : List Char} {others : List (List Char)}
      (hline : ∃ c ∈ line, isBlank c = false)
      (hkept : (first :: others).flatten.filter isSolid = line.filter isSolid)
      (hfirst : IndentedBy (indentation line) first)
      (hwidth : if (indentation line).length < width then first.length ≤ width
        else first.length = (indentation line).length + 1)
      (hothers : ∀ row ∈ others, IndentedBy [] row ∧ row.length ≤ width) :
      LaidOut width line (first :: others)

theorem laidOut_lineRows (width : Nat) (line : List Char) :
    LaidOut (max width 1) line (lineRows width line) := by
  unfold lineRows
  split
  · rename_i hempty
    rw [List.isEmpty_iff.1 hempty]
    exact .empty
  · rename_i hne
    by_cases hblank : ∀ c ∈ line, isBlank c = true
    · rw [fillLine_of_blank hblank]
      exact .blank (by simpa using hne) hblank
    · have hkept := filter_fillLine width line
      have hlaid := laid_fillLine width line
      cases hrows : fillLine width line with
      | nil =>
        rw [hrows] at hkept
        exact absurd (filter_isSolid_eq_nil.1 hkept.symm) hblank
      | cons first others =>
        rw [hrows] at hkept hlaid
        have hpos : 0 < max width 1 := by omega
        refine .filled (by simpa using hblank) hkept hlaid.1.indentedBy ?_ ?_
        · split
          · exact hlaid.1.length_le ‹_›
          · exact hlaid.1.length_eq (Nat.le_of_not_lt ‹_›)
        · exact fun row hrow => ⟨(hlaid.2 row hrow).indentedBy, (hlaid.2 row hrow).length_le hpos⟩

/-- A filled text is made of the rows of its lines, in order. Each line keeps its text, and its rows
respect the width. -/
theorem wrap_laidOut (text : String) (width : Nat) :
    ∃ rows, List.Forall₂ (LaidOut (max width 1)) (pieces '\n' text.toList) rows ∧
      (wrap text width).toList = joinPieces '\n' rows.flatten ∧
      (∀ row ∈ rows.flatten, '\n' ∉ row) ∧
      (wrap text width).toList.filter isSolid = text.toList.filter isSolid := by
  refine ⟨(pieces '\n' text.toList).map (lineRows width), ?_, ?_, ?_, filter_wrap text width⟩
  · rw [List.forall₂_map_right_iff, List.forall₂_same]
    exact fun line _ => laidOut_lineRows width line
  · rw [toList_wrap, List.flatMap_def]
  · intro row hrow
    rw [← List.flatMap_def] at hrow
    exact (lineRows_of_mem_rows hrow).2

/-- An indentation that is too wide, an empty line, a blank line and a word that is split. -/
example : wrap "   ab c\n\n \nd efgh" 2 = "   a\nb\nc\n\nd\nef\ngh" := by cbv

/-- Filling a filled text changes nothing. -/
theorem wrap_wrap (text : String) (width : Nat) :
    wrap (wrap text width) width = wrap text width := by
  rw [← String.toList_inj, toList_wrap, toList_wrap]
  generalize hrows : (pieces '\n' text.toList).flatMap (lineRows width) = rows
  have hrow : ∀ row ∈ rows, lineRows width row = [row] ∧ '\n' ∉ row := by
    intro row hmem
    rw [← hrows] at hmem
    exact lineRows_of_mem_rows hmem
  by_cases hne : rows = []
  · -- A text of blank lines gives no row at all, but the empty text that is left gives one.
    rw [hne]
    rfl
  · have hself : rows.flatMap (lineRows width) = rows.flatMap fun row => [row] :=
      List.flatMap_congr fun row hmem => (hrow row hmem).1
    rw [pieces_joinPieces hne fun row hmem => (hrow row hmem).2, hself, List.flatMap_singleton']

/-- No row break could have been avoided: the first word of a row does not fit on the row before it,
if both come from one line. -/
theorem wrap_greedy (text : String) (width : Nat) :
    (wrap text width).toList
      = joinPieces '\n' ((pieces '\n' text.toList).flatMap (lineRows width)) ∧
    ∀ line, (lineRows width line).IsChain fun earlier later =>
      max width 1 < earlier.length + 1 + (later.takeWhile (· != ' ')).length := by
  refine ⟨toList_wrap text width, fun line => ?_⟩
  unfold lineRows
  split
  · exact .singleton []
  · exact isChain_fillLine width line

end ImportAtlas.Layout
