import ImportAtlas.Proofs.Layout.Wrap

/-!
# Words that are split

The words of the filled rows are the words of the line, cut into parts where a
word has more characters than there is room for. Only the indentation of a line
takes room away, and only from the first word of the line; every other word has
the whole width. So a word stays whole exactly if it has at most as many
characters as this room, which for the first word of an indented line is less
than the width.
-/

namespace ImportAtlas.Layout

open Text

/-! ## Parts of words -/

/-- The parts of a word: the first takes up `room`, but at least one character, and each of the
others has the width. -/
def parts (width room : Nat) (word : List Char) : List (List Char) :=
  if word = [] then []
  else if word.length ≤ max room 1 then [word]
  else word.take (max room 1) :: parts width width (word.drop (max room 1))
termination_by word.length
decreasing_by
  rw [List.length_drop]
  omega

def allParts (width : Nat) : (room : Nat) → List (List Char) → List (List Char)
  | _, [] => []
  | room, word :: words =>
    if word = [] then allParts width room words
    else parts width room word ++ allParts width width words

section Parts

variable {width room : Nat} {word : List Char}

theorem parts_of_le (hword : word ≠ []) (h : word.length ≤ max room 1) :
    parts width room word = [word] := by
  rw [parts, if_neg hword, if_pos h]

theorem parts_of_lt (h : max room 1 < word.length) :
    parts width room word
      = word.take (max room 1) :: parts width width (word.drop (max room 1)) := by
  have hword : word ≠ [] := List.length_pos_iff.1 (by omega)
  rw [parts, if_neg hword, if_neg (Nat.not_le_of_lt h)]

theorem flatten_parts (width room : Nat) (word : List Char) :
    (parts width room word).flatten = word := by
  fun_induction parts width room word with
  | case1 => rfl
  | case2 => simp
  | case3 room word _ _ ih => rw [List.flatten_cons, ih, List.take_append_drop]

theorem allParts_cons (hword : word ≠ []) (words : List (List Char)) :
    allParts width room (word :: words) = parts width room word ++ allParts width width words := by
  rw [allParts, if_neg hword]

theorem allParts_append (width : Nat) (first second : List (List Char)) :
    allParts width width (first ++ second)
      = allParts width width first ++ allParts width width second := by
  induction first with
  | nil => rfl
  | cons word first ih =>
    rw [List.cons_append, allParts, allParts, ih]
    split
    · rfl
    · rw [List.append_assoc]

theorem flatten_allParts (width room : Nat) (words : List (List Char)) :
    (allParts width room words).flatten = words.flatten := by
  fun_induction allParts width room words with
  | case1 => rfl
  | case2 room words ih => rw [ih, List.flatten_cons, List.nil_append]
  | case3 room word words _ ih => rw [List.flatten_append, flatten_parts, ih, List.flatten_cons]

end Parts

/-! ## Filling keeps the parts -/

/-- What the present row has for the next word. A row with a word on it ends if that word does not
fit, so the word has the whole width then. -/
def roomAhead (width : Nat) (filling : Filling) : Nat :=
  if filling.hasWord then width else width - filling.row.toList.length

def partsOf (width : Nat) (state : State) : List (List Char) :=
  state.filling.rows.toList.flatMap words ++ words state.filling.row.toList
    ++ allParts width (roomAhead width state.filling) state.words

section Steps

variable {width : Nat} {indent text word : List Char} {rest : List (List Char)} {filling : Filling}

theorem max_room_eq (hhas : filling.hasWord = false) :
    max (roomAhead width filling) 1 = filling.room width := by
  rw [roomAhead, hhas]
  rfl

theorem roomAhead_endRow (width : Nat) (filling : Filling) :
    roomAhead width filling.endRow = width :=
  Nat.sub_zero width

theorem isBlank_of_waiting (hindent : ∀ c ∈ indent, isBlank c = true)
    (h : Sound width indent text ⟨filling, rest⟩) (hhas : filling.hasWord = false) :
    ∀ c ∈ filling.row.toList, isBlank c = true := by
  rw [h.waiting hhas]
  unfold leadAfter
  split
  · exact hindent
  · simp

theorem partsOf_fits (hindent : ∀ c ∈ indent, isBlank c = true)
    (h : Sound width indent text ⟨filling, word :: rest⟩) (hword : word ≠ [])
    (hfits : filling.sizeWith word ≤ width) :
    partsOf width ⟨filling.put word, rest⟩ = partsOf width ⟨filling, word :: rest⟩ := by
  have hown : words word = [word] := words_of_isWord ⟨hword, h.solid_head⟩
  have hroom : roomAhead width (filling.put word) = width := rfl
  rw [Filling.sizeWith_eq] at hfits
  simp only [partsOf, Filling.rows_put, hroom, allParts_cons hword]
  cases hhas : filling.hasWord with
  | false =>
    have hblank := isBlank_of_waiting hindent h hhas
    rw [Filling.row_put_of_not_hasWord hhas] at hfits ⊢
    rw [List.length_append] at hfits
    have hshort : word.length ≤ max (roomAhead width filling) 1 := by
      rw [roomAhead, hhas, if_neg Bool.false_ne_true]
      omega
    rw [words_indent hblank, words_of_blank hblank, hown, parts_of_le hword hshort,
      List.append_nil, List.append_assoc]
  | true =>
    rw [Filling.row_put_of_hasWord hhas] at hfits ⊢
    rw [List.length_append, List.length_cons] at hfits
    have hshort : word.length ≤ max (roomAhead width filling) 1 := by
      rw [roomAhead, hhas, if_pos rfl]
      omega
    rw [words_append_blank (by decide), hown, parts_of_le hword hshort]
    simp only [List.append_assoc]

theorem partsOf_breaks (hhas : filling.hasWord = true) (rest : List (List Char)) :
    partsOf width ⟨filling.endRow, rest⟩ = partsOf width ⟨filling, rest⟩ := by
  have hroom : roomAhead width filling = width := by rw [roomAhead, hhas, if_pos rfl]
  simp only [partsOf, Filling.rows_endRow, Filling.row_endRow, roomAhead_endRow, hroom,
    List.flatMap_append, List.flatMap_singleton, words_nil, List.append_nil]

theorem partsOf_splits (hindent : ∀ c ∈ indent, isBlank c = true)
    (h : Sound width indent text ⟨filling, word :: rest⟩) (hword : word ≠ [])
    (hhas : filling.hasWord = false) :
    partsOf width
        ⟨(filling.put (word.take (filling.room width))).endRow,
          word.drop (filling.room width) :: rest⟩
      = partsOf width ⟨filling, word :: rest⟩ := by
  have hblank := isBlank_of_waiting hindent h hhas
  have hpos : 1 ≤ filling.room width := Nat.le_max_right _ _
  have htake : words (word.take (filling.room width)) = [word.take (filling.room width)] := by
    refine words_of_isWord ⟨?_, fun c hc => h.solid_head c (List.mem_of_mem_take hc)⟩
    have hlength := List.length_pos_iff.2 hword
    rw [← List.length_pos_iff, List.length_take]
    omega
  -- A word that has one character too many beside a wide indentation leaves nothing behind.
  have hparts : allParts width (roomAhead width filling) (word :: rest)
      = word.take (filling.room width)
        :: allParts width width (word.drop (filling.room width) :: rest) := by
    rw [allParts_cons hword]
    by_cases hshort : word.length ≤ filling.room width
    · rw [parts_of_le hword (by rwa [max_room_eq hhas]), List.take_of_length_le hshort,
        List.drop_eq_nil_of_le hshort]
      rfl
    · have hdrop : word.drop (filling.room width) ≠ [] := by
        rw [← List.length_pos_iff, List.length_drop]
        omega
      rw [parts_of_lt (by rw [max_room_eq hhas]; omega), max_room_eq hhas, allParts_cons hdrop]
      rfl
  simp only [partsOf, Filling.rows_endRow, Filling.row_endRow, Filling.rows_put, roomAhead_endRow,
    Filling.row_put_of_not_hasWord hhas, List.flatMap_append, List.flatMap_singleton,
    words_indent hblank, words_of_blank hblank, htake, hparts, words_nil]
  simp

theorem partsOf_step (hindent : ∀ c ∈ indent, isBlank c = true) {state next : State}
    (h : Sound width indent text state) (hstep : Step width state next) :
    partsOf width next = partsOf width state := by
  cases hstep with
  | skip => rfl
  | fits hword hfits => exact partsOf_fits hindent h hword hfits
  | breaks _ hhas => exact partsOf_breaks hhas _
  | splits hword _ hhas => exact partsOf_splits hindent h hword hhas

end Steps

/-- In a tight state, what is on the rows and what is to come make up the same parts all along. -/
structure Divided (width : Nat) (indent text : List Char) (all : List (List Char)) (state : State) :
    Prop extends Tight width indent text state where
  parts_eq : partsOf width state = all

theorem Divided.step {width : Nat} {indent text : List Char} {all : List (List Char)}
    (hindent : ∀ c ∈ indent, isBlank c = true) {state next : State} (hstep : Step width state next)
    (h : Divided width indent text all state) : Divided width indent text all next :=
  ⟨h.toTight.step hstep, (partsOf_step hindent h.toSound hstep).trans h.parts_eq⟩

/-- The words on the rows of a line are the parts of its words. -/
theorem flatMap_words_fillLine (width : Nat) (line : List Char) :
    (fillLine width line).flatMap words
      = allParts (max width 1) (max width 1 - (indentation line).length) (words line) := by
  have hindent : ∀ c ∈ indentation line, isBlank c = true :=
    fun c hc => isBlank_of_mem_indentation hc
  have hstart : Divided (max width 1) (indentation line) (line.filter isSolid)
      (allParts (max width 1) (max width 1 - (indentation line).length) (words line))
      ⟨⟨#[], (indentation line).toArray, false⟩, words line⟩ := by
    refine ⟨tight_start (max width 1) line, ?_⟩
    simp only [partsOf, words_of_blank hindent]
    rfl
  have hend := foldl_of_step (fun _ _ => Divided.step hindent) hstart
  rw [fillLine, ← hend.parts_eq]
  generalize (words line).foldl (fillWord (max width 1)) _ = filling at hend
  have hnone : allParts (max width 1) (roomAhead (max width 1) filling) [] = [] := rfl
  show (if filling.hasWord then filling.endRow else filling).rows.toList.flatMap words
    = filling.rows.toList.flatMap words ++ words filling.row.toList ++ _
  cases hhas : filling.hasWord with
  | false =>
    have hblank := isBlank_of_waiting hindent hend.toSound hhas
    rw [if_neg Bool.false_ne_true, hnone, words_of_blank hblank, List.append_nil, List.append_nil]
  | true =>
    rw [if_pos rfl, Filling.rows_endRow, hnone, List.flatMap_append, List.flatMap_singleton,
      List.append_nil]

/-! ## Runs of the text on the rows -/

theorem flatMap_words_lineRows (width : Nat) (line : List Char) :
    (lineRows width line).flatMap words
      = allParts (max width 1) (max width 1 - (indentation line).length) (words line) := by
  unfold lineRows
  split
  · rename_i hempty
    rw [List.isEmpty_iff.1 hempty]
    rfl
  · exact flatMap_words_fillLine width line

/-- How many characters of a word have room on one row, if `lead` comes before it on its line: all
of the width, less the indentation if nothing else comes before the word, but always one. -/
def roomBeside (width : Nat) (lead : List Char) : Nat :=
  if lead.all isBlank then max (width - lead.length) 1 else width

/-- The same, for a word behind `front`, of which the last line counts. -/
def roomAfter (width : Nat) (front : List Char) : Nat :=
  roomBeside width ((pieces '\n' front).getLastD [])

/-- The words of some rows, with the parts of `word` between those of what comes before it and those
of what comes behind it. -/
def Around (width room : Nat) (rows : List (List Char)) (front word back : List Char) : Prop :=
  ∃ before behind, rows.flatMap words = before ++ parts width room word ++ behind ∧
    before.flatten = front.filter isSolid ∧ behind.flatten = back.filter isSolid

theorem indentation_of_runIn {line lead word trail : List Char} (h : RunIn line lead word trail)
    (hblank : ∀ c ∈ lead, isBlank c = true) : indentation line = lead := by
  obtain ⟨c, rest, rfl⟩ := List.exists_cons_of_ne_nil h.isWord.ne_nil
  rw [h.text_eq, List.append_assoc, List.cons_append]
  exact indentation_append hblank (h.isWord.solid c List.mem_cons_self) _

theorem around_lineRows (width : Nat) {line lead word trail : List Char}
    (h : RunIn line lead word trail) :
    ∃ room, max room 1 = roomBeside (max width 1) lead ∧
      Around (max width 1) room (lineRows width line) lead word trail := by
  have hword := h.isWord.ne_nil
  have htrail (size : Nat) : (allParts size size (words trail)).flatten = trail.filter isSolid := by
    rw [flatten_allParts, flatten_words]
  by_cases hblank : ∀ c ∈ lead, isBlank c = true
  · have hroom : roomBeside (max width 1) lead = max (max width 1 - lead.length) 1 :=
      if_pos (List.all_eq_true.2 hblank)
    refine ⟨max width 1 - lead.length, hroom.symm, [],
      allParts (max width 1) (max width 1) (words trail), ?_, ?_, htrail _⟩
    · rw [flatMap_words_lineRows, h.words_eq, indentation_of_runIn h hblank, words_of_blank hblank,
        List.nil_append, allParts_cons hword, List.nil_append]
    · rw [filter_isSolid_eq_nil.2 hblank]
      rfl
  · have hroom : roomBeside (max width 1) lead = max width 1 :=
      if_neg fun hall => hblank (List.all_eq_true.1 hall)
    have hlead := flatten_words lead
    cases hwords : words lead with
    | nil =>
      rw [hwords] at hlead
      exact absurd (filter_isSolid_eq_nil.1 hlead.symm) hblank
    | cons first others =>
      -- The first word of the line has the room beside the indentation, and this one comes later.
      have hfirst : IsWord first := isWord_of_mem_words (hwords ▸ List.mem_cons_self)
      refine ⟨max width 1, by omega,
        allParts (max width 1) (max width 1 - (indentation line).length) (first :: others),
        allParts (max width 1) (max width 1) (words trail), ?_, ?_, htrail _⟩
      · rw [flatMap_words_lineRows, h.words_eq, hwords, List.cons_append,
          allParts_cons hfirst.ne_nil, allParts_cons hfirst.ne_nil, allParts_append,
          allParts_cons hword]
        simp only [List.append_assoc]
      · rw [flatten_allParts, ← hwords, hlead]

theorem feed_notMem_of_isWord {word : List Char} (h : IsWord word) : '\n' ∉ word := by
  intro hfeed
  exact absurd (h.solid '\n' hfeed) (by decide)

theorem exists_line_of_runIn {text front word back : List Char} (h : RunIn text front word back) :
    ∃ above lead trail below, pieces '\n' front = above ++ [lead] ∧
      pieces '\n' back = trail :: below ∧
      pieces '\n' text = above ++ (lead ++ word ++ trail) :: below ∧
      RunIn (lead ++ word ++ trail) lead word trail := by
  obtain ⟨above, lead, hfront⟩ : ∃ above lead, pieces '\n' front = above ++ [lead] :=
    ⟨_, _, (List.dropLast_concat_getLast (pieces_ne_nil '\n' front)).symm⟩
  obtain ⟨trail, below, hback⟩ := List.exists_cons_of_ne_nil (pieces_ne_nil '\n' back)
  have hword : pieces '\n' word = [word] := pieces_of_notMem (feed_notMem_of_isWord h.isWord)
  have htext : pieces '\n' text = above ++ (lead ++ word ++ trail) :: below := by
    rw [h.text_eq]
    exact pieces_append (pieces_append hfront hword) hback
  have hfrontText : front = above.flatMap (· ++ ['\n']) ++ lead := by
    rw [← joinPieces_concat, ← hfront, joinPieces_pieces]
  have hbackText : ∃ more, back = trail ++ more := by
    rw [← joinPieces_pieces '\n' back, hback]
    cases below with
    | nil => exact ⟨[], by simp [joinPieces]⟩
    | cons next below => exact ⟨_, joinPieces_cons_cons '\n' trail next below⟩
  refine ⟨above, lead, trail, below, hfront, hback, htext, rfl, h.isWord, ?_, ?_⟩
  · intro c hc
    apply h.before
    rw [hfrontText, List.getLast?_append, Option.mem_def.1 hc]
    rfl
  · intro c hc
    obtain ⟨more, hmore⟩ := hbackText
    apply h.after
    rw [hmore, List.head?_append, Option.mem_def.1 hc]
    rfl

theorem around_rows (width : Nat) {text front word back : List Char}
    (h : RunIn text front word back) :
    ∃ room, max room 1 = roomAfter (max width 1) front ∧
      Around (max width 1) room ((pieces '\n' text).flatMap (lineRows width)) front word back := by
  obtain ⟨above, lead, trail, below, hfront, hback, htext, hline⟩ := exists_line_of_runIn h
  obtain ⟨room, hroom, before, behind, hwords, hbefore, hbehind⟩ := around_lineRows width hline
  have hfeed : isSolid '\n' = false := by decide
  have hkept (lines : List (List Char)) :
      ((lines.flatMap (lineRows width)).flatMap words).flatten = lines.flatten.filter isSolid := by
    rw [flatten_flatMap_words, filter_flatMap_lineRows]
  refine ⟨room, ?_, (above.flatMap (lineRows width)).flatMap words ++ before,
    behind ++ (below.flatMap (lineRows width)).flatMap words, ?_, ?_, ?_⟩
  · rw [hroom, roomAfter, hfront]
    simp
  · rw [htext, List.flatMap_append, List.flatMap_cons, List.flatMap_append, List.flatMap_append,
      hwords]
    simp only [List.append_assoc]
  · rw [List.flatten_append, hkept, hbefore, ← joinPieces_pieces '\n' front, hfront,
      filter_joinPieces hfeed, ← List.filter_append]
    simp
  · rw [List.flatten_append, hkept, hbehind, ← joinPieces_pieces '\n' back, hback,
      filter_joinPieces hfeed, ← List.filter_append]
    simp

/-- The word stands on one of the rows, with no character of another word beside it, and what comes
before and behind it is what came before and behind it in the text, blanks apart. -/
def Unbroken (rows : List (List Char)) (front word back : List Char) : Prop :=
  ∃ above row below left right, rows = above ++ row :: below ∧ RunIn row left word right ∧
    (above.flatten ++ left).filter isSolid = front.filter isSolid ∧
    (right ++ below.flatten).filter isSolid = back.filter isSolid

theorem exists_row_of_flatMap {rows before behind : List (List Char)} {word : List Char}
    (h : rows.flatMap words = before ++ word :: behind) :
    ∃ above row below earlier later, rows = above ++ row :: below ∧
      words row = earlier ++ word :: later ∧ before = above.flatMap words ++ earlier ∧
      behind = later ++ below.flatMap words := by
  induction rows generalizing before with
  | nil => cases before <;> cases h
  | cons row rows ih =>
    rw [List.flatMap_cons] at h
    have hcases :
        (∃ more, before = words row ++ more ∧ rows.flatMap words = more ++ word :: behind) ∨
        ∃ later, words row = before ++ word :: later ∧ behind = later ++ rows.flatMap words := by
      rcases List.append_eq_append_iff.1 h with hfurther | ⟨more, hrow, hrest⟩
      · exact .inl hfurther
      · cases more with
        | nil => exact .inl ⟨[], by rw [hrow, List.append_nil, List.append_nil], hrest.symm⟩
        | cons first later =>
          obtain ⟨rfl, hlater⟩ := List.cons.inj hrest
          exact .inr ⟨later, hrow, hlater⟩
    rcases hcases with ⟨more, hbefore, hrest⟩ | ⟨later, hrow, hlater⟩
    · obtain ⟨above, found, below, earlier, later, hrows, hfound, hmore, hbehind⟩ := ih hrest
      refine ⟨row :: above, found, below, earlier, later, by rw [hrows]; rfl, hfound, ?_, hbehind⟩
      rw [hbefore, hmore, List.flatMap_cons, List.append_assoc]
    · exact ⟨[], row, rows, before, later, rfl, hrow, rfl, hlater⟩

/-- The next word on the rows, once the text before an unbroken word is through, is that word. -/
theorem Unbroken.next_word {rows before rest : List (List Char)} {front word back : List Char}
    (h : Unbroken rows front word back) (hwords : rows.flatMap words = before ++ rest)
    (hbefore : before.flatten = front.filter isSolid) : ∃ others, rest = word :: others := by
  obtain ⟨above, row, below, left, right, hrows, hrun, hleft, -⟩ := h
  have hother : rows.flatMap words
      = (above.flatMap words ++ words left) ++ word :: (words right ++ below.flatMap words) := by
    rw [hrows, List.flatMap_append, List.flatMap_cons, hrun.words_eq]
    simp only [List.append_assoc, List.cons_append]
  have hflatten : before.flatten = (above.flatMap words ++ words left).flatten := by
    rw [List.flatten_append, flatten_flatMap_words, flatten_words, ← List.filter_append, hleft,
      hbefore]
  have hproper : [] ∉ rows.flatMap words := by
    intro hempty
    obtain ⟨row, -, hmem⟩ := List.mem_flatMap.1 hempty
    exact (isWord_of_mem_words hmem).ne_nil rfl
  have hboth := hwords.symm.trans hother
  have hsame := eq_of_flatten_eq hboth hflatten
    (fun hmem => hproper (hwords ▸ List.mem_append_left _ hmem))
    (fun hmem => hproper (hother ▸ List.mem_append_left _ hmem))
  rw [hsame] at hboth
  exact ⟨_, List.append_cancel_left hboth⟩

/-- A word stays whole exactly if there is room for all of it. -/
theorem unbroken_iff {width room : Nat} {rows : List (List Char)} {front word back : List Char}
    (hword : word ≠ []) (h : Around width room rows front word back) :
    Unbroken rows front word back ↔ word.length ≤ max room 1 := by
  obtain ⟨before, behind, hwords, hbefore, hbehind⟩ := h
  constructor
  · intro hunbroken
    rw [List.append_assoc] at hwords
    obtain ⟨others, hnext⟩ := hunbroken.next_word hwords hbefore
    by_contra hlong
    rw [parts_of_lt (Nat.lt_of_not_le hlong), List.cons_append] at hnext
    have hlength := congrArg List.length (List.cons.inj hnext).1
    rw [List.length_take] at hlength
    omega
  · intro hshort
    rw [parts_of_le hword hshort, List.append_assoc, List.singleton_append] at hwords
    obtain ⟨above, row, below, earlier, later, hrows, hrow, rfl, rfl⟩ :=
      exists_row_of_flatMap hwords
    obtain ⟨left, right, hrun, rfl, rfl⟩ := exists_runIn hrow
    refine ⟨above, row, below, left, right, hrows, hrun, ?_, ?_⟩
    · rw [← hbefore, List.flatten_append, flatten_flatMap_words, flatten_words, List.filter_append]
    · rw [← hbehind, List.flatten_append, flatten_flatMap_words, flatten_words, List.filter_append]

theorem Around.rows_ne_nil {width room : Nat} {rows : List (List Char)}
    {front word back : List Char} (hword : word ≠ []) (h : Around width room rows front word back) :
    rows ≠ [] := by
  obtain ⟨before, behind, hwords, -, -⟩ := h
  rintro rfl
  obtain ⟨-, hempty, -⟩ : before = [] ∧ parts width room word = [] ∧ behind = [] := by
    simpa using hwords
  have hflatten := flatten_parts width room word
  rw [hempty] at hflatten
  exact hword hflatten.symm

/-- A word of a text stands unbroken on a row of the filled text if and only if it has at most as
many characters as there is room for: the width, or, for the first word of a line, what the
indentation leaves of the width, and one character in any case. -/
theorem wrap_unbroken_iff (text : String) {width : Nat} (hwidth : 1 ≤ width)
    {front word back : List Char} (h : RunIn text.toList front word back) :
    Unbroken (pieces '\n' (wrap text width).toList) front word back ↔
      word.length ≤ roomAfter width front := by
  obtain ⟨room, hroom, haround⟩ := around_rows width h
  have hword := h.isWord.ne_nil
  have hrows : pieces '\n' (wrap text width).toList
      = (pieces '\n' text.toList).flatMap (lineRows width) := by
    rw [toList_wrap]
    exact pieces_joinPieces (haround.rows_ne_nil hword) fun row hrow =>
      (lineRows_of_mem_rows hrow).2
  rw [hrows, unbroken_iff hword haround, hroom, Nat.max_eq_left hwidth]

/-- Beside an indentation of two a word of three characters is split to a width of four, and the
word behind it is not. -/
theorem wrap_unbroken_iff_indented :
    let text := "x\n  abc de"
    RunIn text.toList ['x', '\n', ' ', ' '] ['a', 'b', 'c'] [' ', 'd', 'e'] ∧
      RunIn text.toList ['x', '\n', ' ', ' ', 'a', 'b', 'c', ' '] ['d', 'e'] [] ∧
      ¬Unbroken (pieces '\n' (wrap text 4).toList) ['x', '\n', ' ', ' '] ['a', 'b', 'c']
        [' ', 'd', 'e'] ∧
      Unbroken (pieces '\n' (wrap text 4).toList) ['x', '\n', ' ', ' ', 'a', 'b', 'c', ' ']
        ['d', 'e'] [] := by
  intro text
  have hfirst : RunIn text.toList ['x', '\n', ' ', ' '] ['a', 'b', 'c'] [' ', 'd', 'e'] := by
    decide
  have hsecond : RunIn text.toList ['x', '\n', ' ', ' ', 'a', 'b', 'c', ' '] ['d', 'e'] [] := by
    decide
  refine ⟨hfirst, hsecond, ?_, ?_⟩
  · rw [wrap_unbroken_iff text (by decide) hfirst]
    decide
  · rw [wrap_unbroken_iff text (by decide) hsecond]
    decide

/-- A word that is no longer than the width may be split all the same. -/
theorem short_word_split :
    ¬∀ (text : String) (width : Nat), 1 ≤ width → ∀ front word back : List Char,
      RunIn text.toList front word back → word.length ≤ width →
        ∃ row ∈ pieces '\n' (wrap text width).toList, word <:+: row := by
  intro h
  have hrun : RunIn "  abc".toList [' ', ' '] ['a', 'b', 'c'] [] := by
    decide
  have hwrap : wrap "  abc" 4 = "  ab\nc" := by cbv
  obtain ⟨row, hrow, hinfix⟩ := h "  abc" 4 (by decide) _ _ _ hrun (by decide)
  rw [hwrap] at hrow
  have hrows : pieces '\n' "  ab\nc".toList = [[' ', ' ', 'a', 'b'], ['c']] := by decide
  rw [hrows] at hrow
  rcases List.mem_cons.1 hrow with rfl | hlast
  · exact absurd hinfix (by decide)
  · rw [List.mem_singleton.1 hlast] at hinfix
    exact absurd hinfix (by decide)

end ImportAtlas.Layout
