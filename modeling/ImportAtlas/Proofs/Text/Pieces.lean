import ImportAtlas.Text.Pieces

/-!
# Cutting at a separator and joining

Cutting is the library's split of a list, and joining undoes it. Pieces that hold
no separator are found again in what they are joined to. So are numbers, which
are written with digits only and each in its own way.
-/

namespace ImportAtlas.Text

variable {α : Type}

theorem eq_false_of_mem_splitOnP {cutAt : α → Bool} {items part : List α}
    (h : part ∈ items.splitOnP cutAt) : ∀ item ∈ part, cutAt item = false := by
  induction items generalizing part with
  | nil =>
    rw [List.splitOnP_nil, List.mem_singleton] at h
    simp [h]
  | cons first items ih =>
    rw [List.splitOnP_cons_eq_if_modifyHead] at h
    split at h
    · rcases List.mem_cons.1 h with rfl | h
      · simp
      · exact ih h
    · rename_i hfirst
      obtain ⟨head, rest, hsplit⟩ := List.exists_cons_of_ne_nil (List.splitOnP_ne_nil cutAt items)
      rw [hsplit, List.modifyHead_cons] at h
      rw [hsplit] at ih
      rcases List.mem_cons.1 h with rfl | h
      · exact List.forall_mem_cons.2 ⟨by simpa using hfirst, ih List.mem_cons_self⟩
      · exact ih (List.mem_cons_of_mem _ h)

section Pieces

variable [BEq α]

theorem toList_piecesFrom (separator : α) (done : Array (List α)) (part items : List α) :
    (piecesFrom separator done part items).toList =
      done.toList ++ items.splitOnPPrepend (· == separator) part := by
  induction items generalizing done part with
  | nil => simp [piecesFrom]
  | cons item items ih =>
    rw [piecesFrom, List.splitOnPPrepend_cons_eq_if]
    split
    · rw [ih, Array.toList_push, List.append_assoc]
      rfl
    · exact ih done (item :: part)

theorem pieces_eq_splitOn (separator : α) (items : List α) :
    pieces separator items = items.splitOn separator :=
  toList_piecesFrom separator #[] [] items

theorem pieces_ne_nil (separator : α) (items : List α) : pieces separator items ≠ [] := by
  rw [pieces_eq_splitOn]
  exact List.splitOn_ne_nil separator items

variable [LawfulBEq α]

theorem notMem_of_mem_pieces {separator : α} {items part : List α}
    (h : part ∈ pieces separator items) : separator ∉ part := by
  rw [pieces_eq_splitOn] at h
  intro hmem
  have hpart := eq_false_of_mem_splitOnP h separator hmem
  rw [beq_self_eq_true] at hpart
  cases hpart

theorem beq_of_notMem {separator : α} {items : List α} (h : separator ∉ items) :
    ∀ item ∈ items, (item == separator) = false := by
  intro item hitem
  rw [beq_eq_false_iff_ne]
  rintro rfl
  exact h hitem

theorem pieces_of_notMem {separator : α} {items : List α} (h : separator ∉ items) :
    pieces separator items = [items] := by
  rw [pieces_eq_splitOn, List.splitOn]
  exact List.splitOnP_eq_singleton (beq_of_notMem h)

theorem pieces_append_cons {separator : α} {part : List α} (h : separator ∉ part)
    (rest : List α) :
    pieces separator (part ++ separator :: rest) = part :: pieces separator rest := by
  rw [pieces_eq_splitOn, pieces_eq_splitOn]
  exact List.splitOnP_append_cons_of_forall_mem (beq_of_notMem h) separator BEq.rfl rest

theorem joinPieces_pieces (separator : α) (items : List α) :
    joinPieces separator (pieces separator items) = items := by
  rw [pieces_eq_splitOn]
  exact List.intercalate_splitOn separator

theorem pieces_joinPieces {separator : α} {parts : List (List α)} (hne : parts ≠ [])
    (h : ∀ part ∈ parts, separator ∉ part) :
    pieces separator (joinPieces separator parts) = parts := by
  rw [pieces_eq_splitOn]
  exact List.splitOn_intercalate separator h hne

end Pieces

theorem joinPieces_cons_cons (separator : α) (first second : List α) (rest : List (List α)) :
    joinPieces separator (first :: second :: rest) =
      first ++ separator :: joinPieces separator (second :: rest) := by
  simp [joinPieces]

theorem joinPieces_append_cons (separator : α) (front : List (List α)) (part : List α)
    (rest : List (List α)) :
    joinPieces separator (front ++ part :: rest) =
      front.flatMap (· ++ [separator]) ++ joinPieces separator (part :: rest) := by
  induction front with
  | nil => rfl
  | cons first front ih =>
    cases front with
    | nil => simp [joinPieces]
    | cons second front =>
      rw [List.cons_append, List.cons_append, joinPieces_cons_cons, ← List.cons_append, ih]
      simp

theorem joinPieces_concat (separator : α) (front : List (List α)) (last : List α) :
    joinPieces separator (front ++ [last]) = front.flatMap (· ++ [separator]) ++ last := by
  rw [joinPieces_append_cons]
  simp [joinPieces]

theorem joinPieces_snoc {separator : α} {parts : List (List α)} (hne : parts ≠ [])
    (last : List α) :
    joinPieces separator (parts ++ [last]) = joinPieces separator parts ++ separator :: last := by
  rw [joinPieces_concat, ← List.dropLast_concat_getLast hne, joinPieces_concat]
  simp

theorem mem_joinPieces {separator item : α} {parts : List (List α)}
    (h : item ∈ joinPieces separator parts) :
    item = separator ∨ ∃ part ∈ parts, item ∈ part := by
  induction parts with
  | nil => cases h
  | cons first parts ih =>
    cases parts with
    | nil => exact .inr ⟨first, List.mem_cons_self, by simpa [joinPieces] using h⟩
    | cons second rest =>
      rw [joinPieces_cons_cons, List.mem_append, List.mem_cons] at h
      rcases h with h | rfl | h
      · exact .inr ⟨first, List.mem_cons_self, h⟩
      · exact .inl rfl
      · exact (ih h).imp id fun ⟨part, hpart, hitem⟩ => ⟨part, List.mem_cons_of_mem _ hpart, hitem⟩

theorem filter_joinPieces {keep : α → Bool} {separator : α} (hseparator : keep separator = false)
    (parts : List (List α)) :
    (joinPieces separator parts).filter keep = parts.flatten.filter keep := by
  induction parts with
  | nil => rfl
  | cons first parts ih =>
    cases parts with
    | nil => simp [joinPieces]
    | cons second rest =>
      rw [joinPieces_cons_cons, List.filter_append, List.filter_cons_of_neg (by simp [hseparator]),
        ih, ← List.filter_append, ← List.flatten_cons]

theorem pieces_append [BEq α] [LawfulBEq α] {separator : α} {front back left right : List α}
    {above below : List (List α)} (hfront : pieces separator front = above ++ [left])
    (hback : pieces separator back = right :: below) :
    pieces separator (front ++ back) = above ++ (left ++ right) :: below := by
  have hclear : ∀ part ∈ above ++ (left ++ right) :: below, separator ∉ part := by
    have hbefore : ∀ part ∈ above ++ [left], separator ∉ part :=
      fun part hpart => notMem_of_mem_pieces (hfront ▸ hpart)
    have hbehind : ∀ part ∈ right :: below, separator ∉ part :=
      fun part hpart => notMem_of_mem_pieces (hback ▸ hpart)
    obtain ⟨habove, hleft⟩ := List.forall_mem_append.1 hbefore
    obtain ⟨hright, hbelow⟩ := List.forall_mem_cons.1 hbehind
    refine List.forall_mem_append.2 ⟨habove, List.forall_mem_cons.2 ⟨?_, hbelow⟩⟩
    rw [List.mem_append, not_or]
    exact ⟨hleft left List.mem_cons_self, hright⟩
  have hmiddle : left ++ joinPieces separator (right :: below)
      = joinPieces separator ((left ++ right) :: below) := by
    cases below <;> simp [joinPieces]
  calc pieces separator (front ++ back)
      = pieces separator (joinPieces separator (above ++ [left])
          ++ joinPieces separator (right :: below)) := by
        rw [← hfront, ← hback, joinPieces_pieces, joinPieces_pieces]
    _ = pieces separator (joinPieces separator (above ++ (left ++ right) :: below)) := by
        rw [joinPieces_concat, List.append_assoc, hmiddle, ← joinPieces_append_cons]
    _ = above ++ (left ++ right) :: below := pieces_joinPieces (by simp) hclear

/-! ## Numbers -/

theorem toList_toString (number : Nat) : (toString number).toList = Nat.toDigits 10 number := by
  rw [Nat.toString_eq_repr, Nat.repr_eq_ofList_toDigits, String.toList_ofList]

theorem toString_inj {number other : Nat} (h : toString number = toString other) :
    number = other := by
  have hdigits : Nat.toDigits 10 number = Nat.toDigits 10 other := by
    rw [← toList_toString, ← toList_toString, h]
  have hvalue (number : Nat) : Nat.ofDigitChars 10 (Nat.toDigits 10 number) 0 = number :=
    Nat.ofDigitChars_toDigits (by decide) (by decide)
  rw [← hvalue number, hdigits, hvalue]

theorem notMem_toString {separator : Char} (h : separator.isDigit = false) (number : Nat) :
    separator ∉ (toString number).toList := by
  rw [toList_toString]
  intro hmem
  rw [Nat.isDigit_of_mem_toDigits (by decide) (by decide) hmem] at h
  cases h

end ImportAtlas.Text
