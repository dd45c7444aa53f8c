import ImportAtlas.Import.Source
import ImportAtlas.Proofs.Text.Lossy
import ImportAtlas.Proofs.Text.Pieces

/-!
# Physical lines of a source

A source is decoded as a whole and cut into lines afterwards. Cutting its bytes
first and decoding each line alone gives the same: decoding neither swallows nor
invents a line feed or a carriage return, whatever stands before them. The cut
into physical lines is said as a relation that holds of bytes and of characters
alike.
-/

namespace ImportAtlas.Text

/-- The cut into physical lines: a line ends in `feed`, or in `mark` and `feed`, and what follows
the last `feed` is a line unless it is empty. -/
inductive LineCut {α : Type} (feed mark : α) : List α → List (List α) → Prop where
  | nil : LineCut feed mark [] []
  | last {line : List α} (hne : line ≠ []) (hline : feed ∉ line) : LineCut feed mark line [line]
  | feed {line rest : List α} {lines : List (List α)} (hline : feed ∉ line)
      (hmark : line.getLast? ≠ some mark) (h : LineCut feed mark rest lines) :
      LineCut feed mark (line ++ feed :: rest) (line :: lines)
  | markFeed {line rest : List α} {lines : List (List α)} (hline : feed ∉ line)
      (h : LineCut feed mark rest lines) :
      LineCut feed mark (line ++ mark :: feed :: rest) (line :: lines)

section PhysicalLines

variable {α : Type} [BEq α] [LawfulBEq α] {feed mark : α}

theorem physicalLines_last {line : List α} (hne : line ≠ []) (hline : feed ∉ line) :
    physicalLines feed mark line = [line] := by
  rw [physicalLines, pieces_of_notMem hline]
  simp [hne]

theorem physicalLines_append {line : List α} (hline : feed ∉ line) (rest : List α) :
    physicalLines feed mark (line ++ feed :: rest)
      = chomp mark line :: physicalLines feed mark rest := by
  have hne := pieces_ne_nil feed rest
  rw [physicalLines, physicalLines, pieces_append_cons hline, List.dropLast_cons_of_ne_nil hne,
    List.getLast?_cons_of_ne_nil hne, List.map_cons, List.cons_append]

theorem physicalLines_flatMap {lines : List (List α)}
    (h : ∀ line ∈ lines, feed ∉ line ∧ line.getLast? ≠ some mark) :
    physicalLines feed mark (lines.flatMap (· ++ [feed])) = lines := by
  induction lines with
  | nil => rfl
  | cons line lines ih =>
    obtain ⟨hline, hend⟩ := h line List.mem_cons_self
    rw [List.flatMap_cons, List.append_assoc, List.singleton_append, physicalLines_append hline,
      ih fun other hother => h other (List.mem_cons_of_mem _ hother), chomp,
      if_neg (by simpa using hend)]

theorem physicalLines_of_lineCut (hmark : mark ≠ feed) {items : List α} {lines : List (List α)}
    (h : LineCut feed mark items lines) : physicalLines feed mark items = lines := by
  induction h with
  | nil => rfl
  | last hne hline => exact physicalLines_last hne hline
  | feed hline hend _ ih =>
    rw [physicalLines_append hline, ih, chomp, if_neg (by simpa using hend)]
  | @markFeed line rest lines hline _ ih =>
    have hwhole : line ++ mark :: feed :: rest = (line ++ [mark]) ++ feed :: rest := by simp
    rw [hwhole, physicalLines_append (by simp [hline, hmark.symm]), ih, chomp, if_pos (by simp),
      List.dropLast_concat]

theorem exists_lineCut (feed mark : α) (items : List α) :
    ∃ lines, LineCut feed mark items lines := by
  induction hlength : items.length using Nat.strongRecOn generalizing items with
  | ind length ih =>
    by_cases hmem : feed ∈ items
    · obtain ⟨line, rest, rfl, hline⟩ := List.eq_append_cons_of_mem hmem
      rw [List.length_append, List.length_cons] at hlength
      obtain ⟨lines, hlines⟩ := ih rest.length (by omega) rest rfl
      by_cases hend : line.getLast? = some mark
      · obtain ⟨front, rfl⟩ := List.getLast?_eq_some_iff.1 hend
        refine ⟨front :: lines, ?_⟩
        rw [List.append_assoc]
        exact .markFeed (fun h => hline (List.mem_append_left _ h)) hlines
      · exact ⟨line :: lines, .feed hline hend hlines⟩
    · by_cases hnil : items = []
      · exact ⟨[], hnil ▸ .nil⟩
      · exact ⟨[items], .last hnil hmem⟩

theorem lineCut_iff (hmark : mark ≠ feed) {items : List α} {lines : List (List α)} :
    LineCut feed mark items lines ↔ lines = physicalLines feed mark items := by
  constructor
  · exact fun h => (physicalLines_of_lineCut hmark h).symm
  · rintro rfl
    obtain ⟨lines, h⟩ := exists_lineCut feed mark items
    rwa [physicalLines_of_lineCut hmark h]

end PhysicalLines

end ImportAtlas.Text

namespace ImportAtlas.Utf8

open Text (LineCut)

theorem toList_decodeLossy_feed (line rest : Bytes) :
    (decodeLossy (line ++ 0x0a :: rest)).toList
      = (decodeLossy line).toList ++ '\n' :: (decodeLossy rest).toList :=
  lossy_iff.1 ((lossy_decodeLossy line).append rfl (by decide) (lossy_decodeLossy rest))

theorem toList_decodeLossy_markFeed (line rest : Bytes) :
    (decodeLossy (line ++ 0x0d :: 0x0a :: rest)).toList
      = (decodeLossy line).toList ++ '\r' :: '\n' :: (decodeLossy rest).toList := by
  have hrest : Lossy (0x0a :: rest) ('\n' :: (decodeLossy rest).toList) :=
    .char '\n' (lossy_decodeLossy rest)
  exact lossy_iff.1 ((lossy_decodeLossy line).append rfl (by decide) hrest)

theorem feed_notMem_decodeLossy {line : Bytes} (h : 0x0a ∉ line) :
    '\n' ∉ (decodeLossy line).toList := by
  intro hmem
  have hwithin : [0x0a] <:+: line := (lossy_decodeLossy line).infix_of_mem (by decide) hmem
  exact h (hwithin.subset List.mem_cons_self)

theorem getLast?_decodeLossy_ne {line : Bytes} (h : line.getLast? ≠ some 0x0d) :
    (decodeLossy line).toList.getLast? ≠ some '\r' := by
  intro hlast
  obtain ⟨front, rfl⟩ : [0x0d] <:+ line :=
    (lossy_decodeLossy line).suffix_of_getLast? (by decide) hlast
  exact h List.getLast?_concat

/-- Decoding takes the lines of the bytes to the lines of the text. -/
theorem lineCut_decodeLossy {bytes : Bytes} {lines : List Bytes}
    (h : LineCut 0x0a 0x0d bytes lines) :
    LineCut '\n' '\r' (decodeLossy bytes).toList
      (lines.map fun line => (decodeLossy line).toList) := by
  induction h with
  | nil => exact .nil
  | @last line hne hline =>
    refine .last ?_ (feed_notMem_decodeLossy hline)
    intro hnil
    have hlossy := lossy_decodeLossy line
    rw [hnil] at hlossy
    cases hlossy
    exact hne rfl
  | feed hline hmark _ ih =>
    rw [toList_decodeLossy_feed]
    exact .feed (feed_notMem_decodeLossy hline) (getLast?_decodeLossy_ne hmark) ih
  | markFeed hline _ ih =>
    rw [toList_decodeLossy_markFeed]
    exact .markFeed (feed_notMem_decodeLossy hline) ih

end ImportAtlas.Utf8

namespace ImportAtlas.SourceText

open Text (LineCut)

def withoutMark : Bytes → Bytes
  | 0xef :: 0xbb :: 0xbf :: rest => rest
  | content => content

theorem toList_read (content : Bytes) :
    (read content).toList = (Utf8.decodeLossy (withoutMark content)).toList := by
  unfold withoutMark
  split
  · rename_i rest
    have hmark := Utf8.toList_decodeLossy_encodeChar '\ufeff' rest
    have hbytes : String.utf8EncodeChar '\ufeff' ++ rest = 0xef :: 0xbb :: 0xbf :: rest := rfl
    rw [hbytes] at hmark
    simp [read, hmark]
  · rename_i hcontent
    unfold read
    split
    · rename_i rest hchars
      have hlossy := Utf8.lossy_decodeLossy content
      rw [hchars] at hlossy
      obtain ⟨more, hmore⟩ := hlossy.prefix_of_cons (by decide)
      exact absurd hmore.symm (hcontent more)
    · rw [String.toList_ofList]

theorem lines_read (content : Bytes) :
    (ofString (read content)).lines
      = ((Text.physicalLines 0x0a 0x0d (withoutMark content)).map Utf8.decodeLossy).toArray := by
  have hbytes : LineCut 0x0a 0x0d (withoutMark content)
      (Text.physicalLines 0x0a 0x0d (withoutMark content)) :=
    (Text.lineCut_iff (by decide)).2 rfl
  have hchars := Utf8.lineCut_decodeLossy hbytes
  rw [Text.lineCut_iff (by decide), ← toList_read] at hchars
  rw [ofString, Text.lines, ← hchars]
  simp [Function.comp_def]

theorem line?_eq (source : SourceText) (number : UInt32) :
    source.line? number = if number = 0 then none else source.lines[number.toNat - 1]? := by
  unfold line?
  split
  · rename_i hzero
    rw [if_pos (UInt32.toNat_inj.1 hzero)]
  · rename_i index hindex
    have hne : number ≠ 0 := by
      rintro rfl
      cases hindex
    rw [if_neg hne, hindex]
    rfl

/--
The line with a number is the lossy reading of the physical line that the file has there, and there
is none where the file has no such line. The physical lines are cut from the bytes.
-/
theorem line?_read (content : Bytes) :
    ∃ lines, (∀ cut, LineCut 0x0a 0x0d (withoutMark content) cut ↔ cut = lines) ∧
      ∀ number : UInt32,
        ((ofString (read content)).line? number = none ↔
          number = 0 ∨ lines.length < number.toNat) ∧
        ∀ text, (ofString (read content)).line? number = some text ↔
          number ≠ 0 ∧ ∃ line, lines[number.toNat - 1]? = some line ∧
            Utf8.Lossy line text.toList := by
  refine ⟨Text.physicalLines 0x0a 0x0d (withoutMark content), fun cut => ?_, fun number => ?_⟩
  · exact Text.lineCut_iff (by decide)
  · rw [line?_eq, lines_read]
    by_cases hzero : number = 0
    · simp [hzero]
    · have hpos : number.toNat ≠ 0 := fun h => hzero (UInt32.toNat_inj.1 h)
      rw [if_neg hzero]
      constructor
      · rw [Array.getElem?_eq_none_iff, List.size_toArray, List.length_map, or_iff_right hzero]
        omega
      · simp [hzero, Utf8.lossy_iff, String.toList_inj]

/-- A byte order mark, a character that the end of its line cuts off, and a last line without an
end that keeps its carriage return. -/
example :
    let source := ofString (read [0xef, 0xbb, 0xbf, 0x61, 0xe2, 0x82, 0x0d, 0x0a, 0x62, 0x0d])
    source.line? 1 = some "a\ufffd" ∧ source.line? 2 = some "b\r" ∧ source.line? 3 = none := by
  decide +kernel

end ImportAtlas.SourceText
