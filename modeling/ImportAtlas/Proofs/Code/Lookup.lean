import ImportAtlas.Proofs.Code.LineTable
import Mathlib.Algebra.BigOperators.Fin

/-!
# Looking up lines

A compressed table is meant to be read from the front: each pair that does not
move the offset beyond an instruction adds its lines. The decoded table is not
read that way. Its starts are in strict order, so that they can be searched, and
there is none for a pair that changes nothing. The main statements are that both
ways give the same line, and that the starts move forward in offset and in line
from offset zero on, so that a search never ends before the first of them.
-/

namespace ImportAtlas.LineTable

/-- The pairs of a table; a last odd byte is left out. -/
def pairs : Bytes → List (UInt8 × UInt8)
  | bytes :: lines :: rest => (bytes, lines) :: pairs rest
  | _ => []

/-- The offset that the pair at `index` moves to: all moves before it and its own. -/
def reach (pairs : List (UInt8 × UInt8)) (index : Fin pairs.length) : Nat :=
  ((pairs.take (index + 1)).map (·.1.toNat)).sum

theorem reach_cons_zero (pair : UInt8 × UInt8) (pairs : List (UInt8 × UInt8)) :
    reach (pair :: pairs) (0 : Fin (pairs.length + 1)) = pair.1.toNat := by
  simp [reach]

theorem reach_cons_succ (pair : UInt8 × UInt8) (pairs : List (UInt8 × UInt8))
    (index : Fin pairs.length) :
    reach (pair :: pairs) index.succ = pair.1.toNat + reach pairs index := by
  simp [reach]

theorem linesTo_eq_sum (target offset : Nat) (table : Bytes) :
    linesTo target offset table = ∑ index : Fin (pairs table).length
      with offset + reach (pairs table) index ≤ target, ((pairs table).get index).2.toNat := by
  fun_induction linesTo target offset table with
  | case1 offset bytes lines rest ih =>
    rw [ih, Finset.sum_filter, Finset.sum_filter, pairs]
    refine Eq.symm ((Fin.sum_univ_succ _).trans ?_)
    simp only [reach_cons_zero, reach_cons_succ, Nat.add_assoc]
    rfl
  | case2 table offset hshort =>
    have hpairs : pairs table = [] := pairs.eq_2 table hshort
    rw [hpairs]
    rfl

theorem span_eq_sum (table : Bytes) : span table = ((pairs table).map (·.1.toNat)).sum := by
  fun_induction span table with
  | case1 bytes lines rest ih => simp [pairs, ih]
  | case2 table hshort => simp [pairs.eq_2 table hshort]

theorem linesTo_of_span_le {target offset : Nat} {table : Bytes}
    (h : offset + span table ≤ target) :
    linesTo target offset table = ((pairs table).map (·.2.toNat)).sum := by
  fun_induction linesTo target offset table with
  | case1 offset bytes lines rest ih =>
    rw [span] at h
    rw [if_pos (by omega), ih (by omega)]
    simp [pairs]
  | case2 table offset hshort => simp [pairs.eq_2 table hshort]

theorem pairwise_startsFrom (shown : Option UInt32) (offset : Nat) (line : UInt32)
    (table : Bytes) :
    (startsFrom shown offset line table).Pairwise
      fun first second => first.offset < second.offset := by
  fun_induction startsFrom shown offset line table with
  | case1 shown offset line lines rest ih => exact ih
  | case2 offset line bytes lines rest hbytes ih => exact ih
  | case3 shown offset line bytes lines rest hbytes hshown ih =>
    refine List.pairwise_cons.mpr ⟨?_, ih⟩
    intro start hstart
    have hle := le_offset_of_mem_startsFrom hstart
    have hpos : 0 < bytes.toNat := by
      apply Nat.pos_of_ne_zero
      intro hzero
      exact hbytes (UInt8.toNat_inj.mp hzero)
    change offset < start.offset
    omega
  | case4 => exact List.Pairwise.nil
  | case5 => exact List.pairwise_singleton _ _

/--
The line of an instruction is the first line and the lines of all pairs whose
moves, their own included, stay at or before the instruction, cut to the largest
line number. The starts that are searched for it are in strict order of offset.
-/
theorem lineAt_decode_eq_sum (table : Bytes) (firstLine : UInt32) (offset : Nat) :
    ((decode table firstLine).lineAt offset).toNat
      = min lastLine (firstLine.toNat + ∑ index : Fin (pairs table).length
          with reach (pairs table) index ≤ offset, ((pairs table).get index).2.toNat) ∧
    (decode table firstLine).starts.Pairwise fun first second => first.offset < second.offset := by
  constructor
  · have hlines := linesTo_eq_sum offset 0 table
    simp only [Nat.zero_add] at hlines
    rw [toNat_lineAt_decode, hlines]
  · exact pairwise_startsFrom none 0 firstLine table

/-! ## Starts move down -/

theorem le_advance (line : UInt32) (delta : UInt8) : line ≤ advance line delta := by
  have hline := toNat_le_lastLine line
  rw [UInt32.le_iff_toNat_le, toNat_advance]
  omega

/-- While the pending line is not before the line shown last, every start ahead is behind that. -/
theorem lt_line_of_mem_startsFrom {shown : Option UInt32} {offset : Nat} {line : UInt32}
    {table : Bytes} (hshown : ∀ last, shown = some last → last ≤ line) {start : LineStart}
    (h : start ∈ startsFrom shown offset line table) :
    ∀ last, shown = some last → last < start.line := by
  fun_induction startsFrom shown offset line table with
  | case1 shown offset line lines rest ih =>
    refine ih (fun last hlast => ?_) h
    exact UInt32.le_trans (hshown last hlast) (le_advance line lines)
  | case2 offset line bytes lines rest hbytes ih =>
    refine ih (fun last hlast => ?_) h
    exact UInt32.le_trans (hshown last hlast) (le_advance line lines)
  | case3 shown offset line bytes lines rest hbytes hline ih =>
    intro last hlast
    have hle := hshown last hlast
    rcases List.mem_cons.mp h with rfl | hlater
    · apply UInt32.lt_of_le_of_ne hle
      rintro rfl
      exact hline hlast
    · have hpending (next : UInt32) (hnext : some line = some next) :
          next ≤ advance line lines := by
        cases hnext
        exact le_advance line lines
      exact UInt32.lt_of_le_of_lt hle (ih hpending hlater line rfl)
  | case4 => cases h
  | case5 table shown offset line hline hshort =>
    intro last hlast
    obtain rfl := List.mem_singleton.mp h
    apply UInt32.lt_of_le_of_ne (hshown last hlast)
    rintro rfl
    exact hline hlast

theorem pairwise_line_startsFrom (shown : Option UInt32) (offset : Nat) (line : UInt32)
    (table : Bytes) :
    (startsFrom shown offset line table).Pairwise fun first second => first.line < second.line := by
  fun_induction startsFrom shown offset line table with
  | case1 shown offset line lines rest ih => exact ih
  | case2 offset line bytes lines rest hbytes ih => exact ih
  | case3 shown offset line bytes lines rest hbytes hshown ih =>
    refine List.pairwise_cons.mpr ⟨?_, ih⟩
    intro start hstart
    refine lt_line_of_mem_startsFrom ?_ hstart line rfl
    intro next hnext
    cases hnext
    exact le_advance line lines
  | case4 => exact List.Pairwise.nil
  | case5 => exact List.pairwise_singleton _ _

theorem exists_startsFrom_none (offset : Nat) (line : UInt32) (table : Bytes) :
    ∃ first later, startsFrom none offset line table = ⟨offset, first⟩ :: later := by
  generalize hshown : (none : Option UInt32) = shown
  fun_induction startsFrom shown offset line table with
  | case1 shown offset line lines rest ih => exact ih hshown
  | case2 => cases hshown
  | case3 shown offset line => exact ⟨line, _, rfl⟩
  | case4 => cases hshown
  | case5 table shown offset line => exact ⟨line, [], rfl⟩

theorem exists_lineAt_of_zero {decoded : LineTable} {line : UInt32} {later : List LineStart}
    (h : decoded.starts = ⟨0, line⟩ :: later) (offset : Nat) :
    ∃ start, (decoded.starts.takeWhile (·.offset ≤ offset)).getLast? = some start ∧
      decoded.lineAt offset = start.line := by
  have htake : decoded.starts.takeWhile (·.offset ≤ offset)
      = ⟨0, line⟩ :: later.takeWhile (·.offset ≤ offset) := by
    rw [h, List.takeWhile_cons, if_pos (by simp)]
  unfold lineAt
  rw [htake, List.getLast?_cons]
  exact ⟨_, rfl, rfl⟩

/--
Decoding any table gives starts of which the first is at offset zero and each is
behind the one before it both in offset and in line. A search therefore always
ends at one of them, never before the first, and gives no smaller line further on.
-/
theorem decode_starts_in_order (table : Bytes) (firstLine : UInt32) :
    let decoded := decode table firstLine
    (∃ line later, decoded.starts = ⟨0, line⟩ :: later) ∧
    (decoded.starts.Pairwise fun first second =>
      first.offset < second.offset ∧ first.line < second.line) ∧
    (∀ offset, ∃ start, (decoded.starts.takeWhile (·.offset ≤ offset)).getLast? = some start ∧
      decoded.lineAt offset = start.line) ∧
    ∀ first second, first ≤ second → decoded.lineAt first ≤ decoded.lineAt second := by
  intro decoded
  obtain ⟨line, later, hstarts⟩ : ∃ line later, decoded.starts = ⟨0, line⟩ :: later :=
    exists_startsFrom_none 0 firstLine table
  refine ⟨⟨line, later, hstarts⟩, ?_, exists_lineAt_of_zero hstarts, ?_⟩
  · exact (pairwise_startsFrom none 0 firstLine table).and
      (pairwise_line_startsFrom none 0 firstLine table)
  · intro first second hle
    exact lineAt_decode_mono table firstLine hle

end ImportAtlas.LineTable
