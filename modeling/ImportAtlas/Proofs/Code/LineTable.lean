import ImportAtlas.Code.LineTable

/-!
# What a compressed line table means

The pairs of a table move an offset and a line forward together. The line of an
instruction is the first line of its unit and all the lines of the pairs whose
offset, their own move included, is not beyond the instruction. Decoding keeps
only the offsets where the line changes and a lookup takes the last of them, so
the two agree as long as a start that is left out would have shown the same line.
-/

namespace ImportAtlas.LineTable

/-- The lines added up to the instruction at `target` by pairs that start from `offset`. -/
def linesTo (target : Nat) : (offset : Nat) → Bytes → Nat
  | offset, bytes :: lines :: rest =>
    (if offset + bytes.toNat ≤ target then lines.toNat else 0)
      + linesTo target (offset + bytes.toNat) rest
  | _, _ => 0

def span : Bytes → Nat
  | bytes :: _ :: rest => bytes.toNat + span rest
  | _ => 0

theorem linesTo_eq_zero {target offset : Nat} (h : target < offset) (table : Bytes) :
    linesTo target offset table = 0 := by
  fun_induction linesTo target offset table with
  | case1 offset bytes lines rest ih =>
    rw [if_neg (by omega), ih (by omega)]
  | case2 => rfl

theorem eq_nil_of_no_pair {table : Bytes} (heven : table.length % 2 = 0)
    (hshort : ∀ bytes lines rest, table = bytes :: lines :: rest → False) : table = [] := by
  match table, heven, hshort with
  | [], _, _ => rfl
  | bytes :: lines :: rest, _, hshort => exact (hshort bytes lines rest rfl).elim

theorem linesTo_append {front : Bytes} (hfront : front.length % 2 = 0) (target offset : Nat)
    (back : Bytes) :
    linesTo target offset (front ++ back)
      = linesTo target offset front + linesTo target (offset + span front) back := by
  fun_induction linesTo target offset front with
  | case1 offset bytes lines rest ih =>
    have hrest : rest.length % 2 = 0 := by
      simp only [List.length_cons] at hfront
      omega
    simp only [List.cons_append, linesTo, span, ih hrest, Nat.add_assoc]
  | case2 offset front hshort =>
    rw [eq_nil_of_no_pair hfront hshort]
    simp [span]

theorem span_append {front : Bytes} (hfront : front.length % 2 = 0) (back : Bytes) :
    span (front ++ back) = span front + span back := by
  fun_induction span front with
  | case1 bytes lines rest ih =>
    have hrest : rest.length % 2 = 0 := by
      simp only [List.length_cons] at hfront
      omega
    simp only [List.cons_append, span, ih hrest, Nat.add_assoc]
  | case2 front hshort =>
    rw [eq_nil_of_no_pair hfront hshort]
    simp

theorem linesTo_mono {first second : Nat} (h : first ≤ second) (offset : Nat) (table : Bytes) :
    linesTo first offset table ≤ linesTo second offset table := by
  fun_induction linesTo first offset table with
  | case1 offset bytes lines rest ih =>
    rw [linesTo]
    apply Nat.add_le_add _ ih
    split
    · exact Nat.le_of_eq (if_pos (by omega)).symm
    · exact Nat.zero_le _
  | case2 => exact Nat.zero_le _

/-! ## Looking up a line among starts -/

def lineIn (before : UInt32) (starts : List LineStart) (target : Nat) : UInt32 :=
  match (starts.takeWhile (·.offset ≤ target)).getLast? with
  | some start => start.line
  | none => before

theorem lineIn_cons {start : LineStart} {target : Nat} (h : start.offset ≤ target)
    (before : UInt32) (starts : List LineStart) :
    lineIn before (start :: starts) target = lineIn start.line starts target := by
  have htake : (start :: starts).takeWhile (·.offset ≤ target)
      = start :: starts.takeWhile (·.offset ≤ target) := by
    rw [List.takeWhile_cons, if_pos (by simpa using h)]
  unfold lineIn
  rw [htake, List.getLast?_cons]
  cases (starts.takeWhile (·.offset ≤ target)).getLast? <;> rfl

theorem lineIn_of_lt {starts : List LineStart} {target : Nat}
    (h : ∀ start ∈ starts, target < start.offset) (before : UInt32) :
    lineIn before starts target = before := by
  have htake : starts.takeWhile (·.offset ≤ target) = [] := by
    cases starts with
    | nil => rfl
    | cons start starts =>
      have hstart := h start List.mem_cons_self
      rw [List.takeWhile_cons, if_neg (by simpa using hstart)]
  unfold lineIn
  rw [htake]
  rfl

theorem le_offset_of_mem_startsFrom {shown : Option UInt32} {offset : Nat} {line : UInt32}
    {table : Bytes} {start : LineStart} (h : start ∈ startsFrom shown offset line table) :
    offset ≤ start.offset := by
  fun_induction startsFrom shown offset line table with
  | case1 _ _ _ _ _ ih => exact ih h
  | case2 _ _ _ _ _ _ ih =>
    have hle := ih h
    omega
  | case3 _ _ _ _ _ _ _ _ ih =>
    rcases List.mem_cons.mp h with rfl | htail
    · exact Nat.le_refl _
    · have hle := ih htail
      omega
  | case4 => cases h
  | case5 =>
    obtain rfl := List.mem_singleton.mp h
    exact Nat.le_refl _

theorem toNat_le_lastLine (line : UInt32) : line.toNat ≤ lastLine := by
  have hlt := line.toNat_lt
  unfold lastLine
  omega

theorem toNat_lineIn_move {target offset : Nat} {line : UInt32} {bytes lines : UInt8} {rest : Bytes}
    {starts : List LineStart} (hstarts : ∀ start ∈ starts, offset + bytes.toNat ≤ start.offset)
    (hrest : offset + bytes.toNat ≤ target → (lineIn line starts target).toNat
      = min lastLine ((advance line lines).toNat + linesTo target (offset + bytes.toNat) rest)) :
    (lineIn line starts target).toNat
      = min lastLine (line.toNat + linesTo target offset (bytes :: lines :: rest)) := by
  rw [linesTo]
  by_cases hbelow : offset + bytes.toNat ≤ target
  · rw [hrest hbelow, toNat_advance, if_pos hbelow]
    omega
  · have hline := toNat_le_lastLine line
    have hbeyond : ∀ start ∈ starts, target < start.offset := by
      intro start hstart
      have hle := hstarts start hstart
      omega
    rw [lineIn_of_lt hbeyond, if_neg hbelow, linesTo_eq_zero (by omega)]
    omega

theorem toNat_lineIn_startsFrom {target offset : Nat} (h : offset ≤ target)
    (shown : Option UInt32) (first line : UInt32) (table : Bytes) :
    (lineIn (shown.getD first) (startsFrom shown offset line table) target).toNat
      = min lastLine (line.toNat + linesTo target offset table) := by
  fun_induction startsFrom shown offset line table with
  | case1 shown offset line lines rest ih =>
    rw [ih h, toNat_advance, linesTo]
    simp only [UInt8.toNat_zero, Nat.add_zero, if_pos h]
    omega
  | case2 offset line bytes lines rest hbytes ih =>
    exact toNat_lineIn_move (fun _ => le_offset_of_mem_startsFrom) ih
  | case3 shown offset line bytes lines rest hbytes hshown ih =>
    rw [lineIn_cons h]
    exact toNat_lineIn_move (fun _ => le_offset_of_mem_startsFrom) ih
  | case4 table offset line hshort =>
    have hline := toNat_le_lastLine line
    rw [linesTo.eq_2 _ _ _ hshort, Nat.add_zero, Nat.min_eq_right hline]
    rfl
  | case5 table shown offset line hshown hshort =>
    have hline := toNat_le_lastLine line
    rw [linesTo.eq_2 _ _ _ hshort, Nat.add_zero, Nat.min_eq_right hline, lineIn_cons h]
    rfl

/-- The line found for an instruction is the first line and the lines of all pairs up to it. -/
theorem toNat_lineAt_decode (table : Bytes) (firstLine : UInt32) (target : Nat) :
    ((decode table firstLine).lineAt target).toNat
      = min lastLine (firstLine.toNat + linesTo target 0 table) :=
  toNat_lineIn_startsFrom (Nat.zero_le target) none firstLine firstLine table

theorem lineAt_decode_mono (table : Bytes) (firstLine : UInt32) {first second : Nat}
    (h : first ≤ second) :
    (decode table firstLine).lineAt first ≤ (decode table firstLine).lineAt second := by
  have hmono := linesTo_mono h 0 table
  rw [UInt32.le_iff_toNat_le, toNat_lineAt_decode, toNat_lineAt_decode]
  omega

theorem firstLine_le_lineAt_decode (table : Bytes) (firstLine : UInt32) (target : Nat) :
    firstLine ≤ (decode table firstLine).lineAt target := by
  have hline := toNat_le_lastLine firstLine
  rw [UInt32.le_iff_toNat_le, toNat_lineAt_decode]
  omega

end ImportAtlas.LineTable
