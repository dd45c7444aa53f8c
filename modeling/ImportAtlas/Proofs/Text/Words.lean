import ImportAtlas.Proofs.Text.Pieces
import ImportAtlas.Text.Blank
import Mathlib.Data.List.Basic
import Mathlib.Data.List.TakeWhile

/-!
# Words of a line

Words are the parts between blanks that are not empty, so they hold the text of
a line and nothing else. A line that is made of an indentation and of words with
a space between each two gives both back.
-/

namespace ImportAtlas.Text

def isSolid (c : Char) : Bool :=
  !isBlank c

structure IsWord (word : List Char) : Prop where
  ne_nil : word ≠ []
  solid : ∀ c ∈ word, isBlank c = false

theorem wordsFrom_eq_filter (pending line : List Char) :
    wordsFrom pending line
      = (line.splitOnPPrepend isBlank pending).filter fun part => !part.isEmpty := by
  induction line generalizing pending with
  | nil =>
    rw [wordsFrom, List.splitOnPPrepend_nil]
    cases pending <;> simp
  | cons c line ih =>
    rw [wordsFrom, List.splitOnPPrepend_cons_eq_if, ih, ih]
    cases pending <;> cases isBlank c <;> simp

theorem words_eq_filter (line : List Char) :
    words line = (line.splitOnP isBlank).filter fun part => !part.isEmpty :=
  wordsFrom_eq_filter [] line

@[simp] theorem words_nil : words [] = [] := rfl

theorem isWord_of_mem_words {line word : List Char} (h : word ∈ words line) : IsWord word := by
  rw [words_eq_filter, List.mem_filter] at h
  exact ⟨by simpa using h.2, eq_false_of_mem_splitOnP h.1⟩

theorem words_append_blank {c : Char} (hc : isBlank c = true) (front rest : List Char) :
    words (front ++ c :: rest) = words front ++ words rest := by
  simp only [words_eq_filter]
  rw [List.splitOnP_append_cons front rest hc, List.filter_append]

theorem words_of_isWord {word : List Char} (h : IsWord word) : words word = [word] := by
  rw [words_eq_filter, List.splitOnP_eq_singleton h.solid]
  simp [h.ne_nil]

theorem words_indent {indent : List Char} (hindent : ∀ c ∈ indent, isBlank c = true)
    (rest : List Char) : words (indent ++ rest) = words rest := by
  induction indent with
  | nil => rfl
  | cons c indent ih =>
    obtain ⟨hc, hindent⟩ := List.forall_mem_cons.1 hindent
    exact (words_append_blank hc [] (indent ++ rest)).trans (ih hindent)

theorem words_joinPieces {parts : List (List Char)} (h : ∀ part ∈ parts, IsWord part) :
    words (joinPieces ' ' parts) = parts := by
  induction parts with
  | nil => rfl
  | cons first parts ih =>
    obtain ⟨hfirst, hparts⟩ := List.forall_mem_cons.1 h
    cases parts with
    | nil => simpa [joinPieces] using words_of_isWord hfirst
    | cons second rest =>
      rw [joinPieces_cons_cons, words_append_blank (by decide), words_of_isWord hfirst, ih hparts]
      rfl

theorem flatten_splitOnP {α : Type} (cutAt : α → Bool) (items : List α) :
    (items.splitOnP cutAt).flatten = items.filter fun item => !cutAt item := by
  induction items with
  | nil => simp
  | cons first items ih =>
    rw [List.splitOnP_cons_eq_if_modifyHead, List.filter_cons, ← ih]
    obtain ⟨head, rest, hsplit⟩ := List.exists_cons_of_ne_nil (List.splitOnP_ne_nil cutAt items)
    cases cutAt first <;> simp [hsplit]

theorem flatten_words (line : List Char) : (words line).flatten = line.filter isSolid := by
  rw [words_eq_filter, List.flatten_filter_not_isEmpty, flatten_splitOnP]
  rfl

/-! ## Runs in a text -/

/-- `word` stands in `text` between `front` and `back`, with no character on either side that could
belong to it. -/
structure RunIn (text front word back : List Char) : Prop where
  text_eq : text = front ++ word ++ back
  isWord : IsWord word
  before : ∀ c ∈ front.getLast?, isBlank c = true
  after : ∀ c ∈ back.head?, isBlank c = true

theorem runIn_iff {text front word back : List Char} :
    RunIn text front word back ↔
      text = front ++ word ++ back ∧ word ≠ [] ∧ (word.all fun c => !isBlank c) = true ∧
        front.getLast?.all isBlank = true ∧ back.head?.all isBlank = true := by
  simp only [List.all_eq_true, Bool.not_eq_true', Option.all_eq_true]
  constructor
  · rintro ⟨htext, ⟨hne, hsolid⟩, hbefore, hafter⟩
    exact ⟨htext, hne, hsolid, hbefore, hafter⟩
  · rintro ⟨htext, hne, hsolid, hbefore, hafter⟩
    exact ⟨htext, ⟨hne, hsolid⟩, hbefore, hafter⟩

instance (text front word back : List Char) : Decidable (RunIn text front word back) :=
  decidable_of_iff _ runIn_iff.symm

theorem words_of_blank {chars : List Char} (h : ∀ c ∈ chars, isBlank c = true) :
    words chars = [] := by
  have hwords := words_indent h []
  rwa [List.append_nil] at hwords

theorem RunIn.words_eq {text front word back : List Char} (h : RunIn text front word back) :
    words text = words front ++ word :: words back := by
  have hback : words (word ++ back) = word :: words back := by
    cases hcases : back with
    | nil => rw [List.append_nil, words_of_isWord h.isWord]; rfl
    | cons c rest =>
      have hc : isBlank c = true := h.after c (by rw [hcases]; rfl)
      rw [words_append_blank hc, words_of_isWord h.isWord, ← List.nil_append (c :: rest),
        words_append_blank hc]
      rfl
  rw [h.text_eq, List.append_assoc]
  rcases List.eq_nil_or_concat front with rfl | ⟨start, c, rfl⟩
  · exact hback
  · have hc : isBlank c = true := h.before c (by simp)
    rw [List.concat_eq_append, List.append_assoc, List.singleton_append, words_append_blank hc,
      words_append_blank hc, hback, words_nil, List.append_nil]

theorem runIn_takeWhile {line : List Char} (hne : line ≠ [])
    (hhead : ∀ c ∈ line.head?, isBlank c = false) :
    RunIn line [] (line.takeWhile isSolid) (line.dropWhile isSolid) := by
  refine ⟨by simp, ⟨?_, ?_⟩, by simp, ?_⟩
  · obtain ⟨c, rest, rfl⟩ := List.exists_cons_of_ne_nil hne
    rw [List.takeWhile_cons_of_pos (by simp [isSolid, hhead c rfl])]
    exact List.cons_ne_nil _ _
  · intro c hc
    simpa [isSolid] using List.mem_takeWhile_imp hc
  · intro c hc
    have hnot := List.head?_dropWhile_not isSolid line
    rw [Option.mem_def.1 hc] at hnot
    simpa [isSolid] using hnot

theorem exists_runIn_first {line word : List Char} {others : List (List Char)}
    (h : words line = word :: others) :
    ∃ indent rest, RunIn line indent word rest ∧ (∀ c ∈ indent, isBlank c = true) ∧
      words rest = others := by
  have hindent : ∀ c ∈ line.takeWhile isBlank, isBlank c = true :=
    fun c hc => List.mem_takeWhile_imp hc
  have hline : line = line.takeWhile isBlank ++ line.dropWhile isBlank :=
    List.takeWhile_append_dropWhile.symm
  have hdropped : words (line.dropWhile isBlank) = word :: others := by
    rw [← words_indent hindent, ← hline, h]
  have hne : line.dropWhile isBlank ≠ [] := by
    intro hempty
    rw [hempty] at hdropped
    cases hdropped
  have hhead : ∀ c ∈ (line.dropWhile isBlank).head?, isBlank c = false := by
    intro c hc
    have hnot := List.head?_dropWhile_not isBlank line
    rw [Option.mem_def.1 hc] at hnot
    simpa using hnot
  have hrun := runIn_takeWhile hne hhead
  have hwords := hrun.words_eq
  rw [hdropped] at hwords
  obtain ⟨rfl, rfl⟩ := List.cons.inj hwords
  refine ⟨line.takeWhile isBlank, _, ⟨?_, hrun.isWord, ?_, hrun.after⟩, hindent, rfl⟩
  · rw [List.append_assoc, List.takeWhile_append_dropWhile]
    exact hline
  · exact fun c hc => hindent c (List.mem_of_getLast? hc)

/-- Every word of a line is a run in it, at its own place. -/
theorem exists_runIn {line word : List Char} {earlier later : List (List Char)}
    (h : words line = earlier ++ word :: later) :
    ∃ left right, RunIn line left word right ∧ words left = earlier ∧ words right = later := by
  induction earlier generalizing line with
  | nil =>
    obtain ⟨indent, rest, hrun, hindent, hrest⟩ := exists_runIn_first h
    exact ⟨indent, rest, hrun, words_of_blank hindent, hrest⟩
  | cons first earlier ih =>
    obtain ⟨indent, rest, hrun, hindent, hrest⟩ := exists_runIn_first h
    cases rest with
    | nil => cases earlier <;> cases hrest
    | cons c rest =>
      -- The blank behind the first word keeps it apart from the run that is found in the rest.
      have hc : isBlank c = true := hrun.after c rfl
      have hshorter : words rest = earlier ++ word :: later :=
        (words_append_blank hc [] rest).symm.trans hrest
      obtain ⟨left, right, hinner, hleft, hright⟩ := ih hshorter
      refine ⟨indent ++ first ++ c :: left, right, ⟨?_, hinner.isWord, ?_, hinner.after⟩, ?_,
        hright⟩
      · rw [hrun.text_eq, hinner.text_eq]
        simp
      · intro d hd
        rw [List.getLast?_append_cons] at hd
        cases hcases : left with
        | nil =>
          rw [hcases] at hd
          exact Option.some.inj hd ▸ hc
        | cons e more =>
          rw [hcases, List.getLast?_cons_cons, ← hcases] at hd
          exact hinner.before d hd
      · have hfirst := hrun.isWord
        rw [words_append_blank hc, words_indent hindent, words_of_isWord hfirst, hleft]
        rfl

theorem flatten_flatMap_words (rows : List (List Char)) :
    (rows.flatMap words).flatten = rows.flatten.filter isSolid := by
  induction rows with
  | nil => rfl
  | cons row rows ih =>
    rw [List.flatMap_cons, List.flatten_append, flatten_words, ih, List.flatten_cons,
      List.filter_append]

theorem eq_of_flatten_eq {α : Type} {first second more others : List (List α)}
    (hlist : first ++ more = second ++ others) (hflatten : first.flatten = second.flatten)
    (hfirst : [] ∉ first) (hsecond : [] ∉ second) : first = second := by
  induction first generalizing second with
  | nil =>
    cases second with
    | nil => rfl
    | cons part second =>
      have hpart : part = [] := (List.append_eq_nil_iff.1 hflatten.symm).1
      exact absurd (hpart ▸ List.mem_cons_self) hsecond
  | cons part first ih =>
    cases second with
    | nil =>
      have hpart : part = [] := (List.append_eq_nil_iff.1 hflatten).1
      exact absurd (hpart ▸ List.mem_cons_self) hfirst
    | cons other second =>
      obtain ⟨rfl, htails⟩ := List.cons.inj hlist
      rw [List.flatten_cons, List.flatten_cons] at hflatten
      rw [ih htails (List.append_cancel_left hflatten)
        (fun h => hfirst (List.mem_cons_of_mem _ h)) (fun h => hsecond (List.mem_cons_of_mem _ h))]

end ImportAtlas.Text
