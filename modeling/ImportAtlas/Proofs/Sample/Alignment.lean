import ImportAtlas.Proofs.Sample.Program
import ImportAtlas.Proofs.Text.Lines
import Mathlib.Data.List.Forall2

/-!
# Sample modules line up with their source

A sample module and its source text are made independently. Both use one line for
a statement and two more for a function, so a scan of the module finds a line of
the source for each import: `import x` for those of the module itself, and
`import y`, indented, for those of its functions.
-/

namespace ImportAtlas.Sample

/-! ## The lines of the source -/

def sourceLines (index : Nat) : List String :=
  "import x" :: if endsBlock index then ["def f():", "    import y"] else []

theorem cut_sourceLines (index : Nat) : ∀ line ∈ sourceLines index,
    '\n' ∉ line.toList ∧ line.toList.getLast? ≠ some '\r' := by
  unfold sourceLines
  split <;> decide

theorem toList_source (statements : Nat) :
    (source statements).toList
      = (((List.range statements).flatMap sourceLines).map String.toList).flatMap
          (· ++ ['\n']) := by
  have hlines (index : Nat) :
      ("import x\n" ++ if endsBlock index then "def f():\n    import y\n" else "").toList
        = (sourceLines index).flatMap fun line => line.toList ++ ['\n'] := by
    unfold sourceLines
    split <;> decide
  rw [source, String.toList_join, List.flatMap_map, List.flatMap_map, List.flatMap_assoc]
  exact congrArg (List.flatMap · _) (funext hlines)

theorem lines_source (statements : Nat) :
    Text.lines (source statements) = (List.range statements).flatMap sourceLines := by
  have hlines : ∀ line ∈ ((List.range statements).flatMap sourceLines).map String.toList,
      '\n' ∉ line ∧ line.getLast? ≠ some '\r' := by
    intro line hline
    obtain ⟨text, htext, rfl⟩ := List.mem_map.mp hline
    obtain ⟨index, -, hindex⟩ := List.mem_flatMap.mp htext
    exact cut_sourceLines index text hindex
  rw [Text.lines, toList_source, Text.physicalLines_flatMap hlines, List.map_map]
  simp

theorem length_sourceLines (statements : Nat) :
    ((List.range statements).flatMap sourceLines).length = statements + 2 * (statements / 10) := by
  induction statements with
  | zero => rfl
  | succ index ih =>
    have hlength : (sourceLines index).length = if endsBlock index then 3 else 1 := by
      unfold sourceLines
      split <;> rfl
    rw [List.range_succ, List.flatMap_append, List.flatMap_singleton, List.length_append, ih,
      hlength]
    have hnext := lineNumber_succ index
    unfold lineNumber at hnext
    omega

theorem getElem?_sourceLines {index statements offset : Nat} (h : index < statements)
    (hoffset : offset < (sourceLines index).length) :
    ((List.range statements).flatMap sourceLines)[index + 2 * (index / 10) + offset]?
      = (sourceLines index)[offset]? := by
  obtain ⟨more, rfl⟩ : ∃ more, statements = index + 1 + more := ⟨statements - (index + 1), by omega⟩
  rw [List.range_add, List.range_succ, List.flatMap_append, List.flatMap_append,
    List.flatMap_singleton, List.append_assoc, ← length_sourceLines,
    List.getElem?_append_right (Nat.le_add_right _ _), Nat.add_sub_cancel_left,
    List.getElem?_append_left hoffset]

theorem line?_source {index statements offset : Nat} {number : UInt32} (h : index < statements)
    (hoffset : offset < (sourceLines index).length)
    (hnumber : number.toNat = lineNumber index + offset) :
    (SourceText.ofString (source statements)).line? number = (sourceLines index)[offset]? := by
  unfold lineNumber at hnumber
  have hne : number ≠ 0 := by
    rintro rfl
    cases hnumber.trans (Nat.add_right_comm _ 1 offset)
  have hplace : number.toNat - 1 = index + 2 * (index / 10) + offset := by omega
  rw [SourceText.line?_eq, if_neg hne, SourceText.ofString, lines_source, hplace,
    List.getElem?_toArray]
  exact getElem?_sourceLines h hoffset

/-! ## The records of the module -/

section Records

variable {index statements : Nat}

theorem lineNumber_lt (h : index < statements) : lineNumber index < lineNumber statements := by
  unfold lineNumber
  omega

theorem lineNumber_of_mem_filter (h : index ∈ (List.range statements).filter endsBlock) :
    index < statements ∧ endsBlock index = true
      ∧ lineNumber index + 2 < lineNumber statements := by
  obtain ⟨hrange, hends⟩ := List.mem_filter.mp h
  have hwithin := List.mem_range.mp hrange
  refine ⟨hwithin, hends, ?_⟩
  rw [endsBlock_iff] at hends
  unfold lineNumber
  omega

theorem toNat_lineOf (h : lineNumber index < 0x100000000) :
    (lineOf index).toNat = lineNumber index :=
  UInt32.toNat_ofNat_of_lt' h

theorem toNat_lineOf_add {offset : UInt32} (h : lineNumber index + offset.toNat < 0x100000000) :
    (lineOf index + offset).toNat = lineNumber index + offset.toNat := by
  rw [UInt32.toNat_add, toNat_lineOf (by omega), Nat.mod_eq_of_lt h]

theorem toNat_lineOf_one (h : lineNumber index + 1 < 0x100000000) :
    (lineOf index + 1).toNat = lineNumber index + 1 :=
  toNat_lineOf_add h

theorem toNat_lineOf_two (h : lineNumber index + 2 < 0x100000000) :
    (lineOf index + 2).toNat = lineNumber index + 2 :=
  toNat_lineOf_add h

def ownRecords (source : Option SourceText) (statements : Nat) : List ImportRecord :=
  (List.range statements).filterMap fun index => (command index).record? source (lineOf index)

def innerRecord (source : Option SourceText) (index : Nat) : ImportRecord :=
  importRecord source (lineOf index + 2) .implicit (target index) none

theorem nextLine_command (line : UInt32) : (command index).nextLine line = line := by
  unfold command
  split <;> rfl

theorem max_line {reached line : UInt32} (h : reached ≤ line) : max reached line = line :=
  if_pos h

/-- The statement of a number is on its own line, whatever smaller line was reached before. -/
theorem records_portion (source : Option SourceText) {reached : UInt32}
    (h : reached ≤ lineOf index) :
    Statement.records source reached (portion index)
      = ((command index).record? source (lineOf index)).toList := by
  rw [portion, Statement.records, Statement.nextLine, max_line h, Statement.records]
  split
  · exact List.append_nil _
  · exact List.append_nil _

theorem nextLine_portion (hlines : lineNumber (index + 1) < 0x100000000) {reached : UInt32}
    (h : reached ≤ lineOf index) :
    (portion index).foldl Statement.nextLine reached ≤ lineOf (index + 1) := by
  have hnext := toNat_lineOf hlines
  have hsucc := lineNumber_succ index
  rw [portion, List.foldl_cons, List.foldl_cons, nextLine_command, Statement.nextLine, max_line h,
    UInt32.le_iff_toNat_le, hnext]
  by_cases hends : endsBlock index
  · rw [if_pos hends] at hsucc ⊢
    have hdown : lineOf index ≤ lineOf index + 1 := by
      rw [UInt32.le_iff_toNat_le, toNat_lineOf (by omega), toNat_lineOf_one (by omega)]
      exact Nat.le_succ _
    show (max (lineOf index) (lineOf index + 1)).toNat ≤ _
    rw [max_line hdown, toNat_lineOf_one (by omega)]
    omega
  · rw [if_neg hends] at hsucc ⊢
    show (lineOf index).toNat ≤ _
    rw [toNat_lineOf (by omega)]
    omega

theorem records_flatMap (source : Option SourceText)
    (hlines : lineNumber statements < 0x100000000) :
    ((List.range statements).flatMap portion).foldl Statement.nextLine 1 ≤ lineOf statements
      ∧ Statement.records source 1 ((List.range statements).flatMap portion)
        = ownRecords source statements := by
  induction statements with
  | zero => exact ⟨UInt32.le_refl _, rfl⟩
  | succ index ih =>
    obtain ⟨hreached, hrecords⟩ := ih (Nat.lt_trans (lineNumber_lt (Nat.lt_succ_self index)) hlines)
    rw [ownRecords, List.range_succ, List.flatMap_append, List.flatMap_singleton]
    constructor
    · rw [List.foldl_append]
      exact nextLine_portion hlines hreached
    · rw [Statement.records_append, hrecords, records_portion source hreached,
        List.filterMap_append, Assembler.filterMap_cons_toList]
      exact congrArg _ (List.append_nil _).symm

theorem records_program (source : Option SourceText)
    (hlines : lineNumber statements < 0x100000000) :
    (program statements).records source = ownRecords source statements :=
  (records_flatMap source hlines).2

theorem records_body (source : Option SourceText) (hlines : lineNumber statements < 0x100000000)
    (h : index ∈ (List.range statements).filter endsBlock) :
    (body index).records source = [innerRecord source index] := by
  have hbelow := (lineNumber_of_mem_filter h).2.2
  have hline : lineOf index + 1 + 1 = lineOf index + 2 := UInt32.add_assoc _ _ _
  have hdown : lineOf index + 1 ≤ lineOf index + 2 := by
    rw [UInt32.le_iff_toNat_le, toNat_lineOf_one (by omega), toNat_lineOf_two (by omega)]
    exact Nat.le_succ _
  show Statement.records source (max (lineOf index + 1) (lineOf index + 1 + 1)) _ = _
  rw [hline, max_line hdown]
  rfl

theorem length_ownRecords (source : Option SourceText) (statements : Nat) :
    (ownRecords source statements).length = statements - statements / 4 := by
  induction statements with
  | zero => rfl
  | succ index ih =>
    have hlength : ((command index).record? source (lineOf index)).toList.length
        = if index % 4 = 3 then 0 else 1 := by
      have hkind : index % 4 < 4 := Nat.mod_lt _ (by decide)
      unfold command
      generalize index % 4 = kind at hkind ⊢
      match kind, hkind with
      | 0, _ | 1, _ | 2, _ | 3, _ => rfl
    rw [ownRecords, List.range_succ, List.filterMap_append, List.length_append,
      Assembler.filterMap_cons_toList, List.filterMap_nil, List.append_nil, hlength]
    rw [ownRecords] at ih
    rw [ih]
    split <;> omega

theorem pairwise_ownRecords (source : Option SourceText)
    (hlines : lineNumber statements < 0x100000000) :
    ((ownRecords source statements).map ImportRecord.lineNumber).Pairwise (· < ·) := by
  apply List.pairwise_map.mpr
  apply List.pairwise_filterMap.mpr
  refine List.pairwise_lt_range.imp_of_mem ?_
  intro index later _ hlater hlt record hrecord next hnext
  rw [(Statement.line_of_record? hrecord).1, (Statement.line_of_record? hnext).1]
  have hbelow := lineNumber_lt (List.mem_range.mp hlater)
  have hup := lineNumber_lt hlt
  rw [UInt32.lt_iff_toNat_lt, toNat_lineOf (by omega), toNat_lineOf (by omega)]
  exact hup

end Records

/-! ## Alignment -/

def sourceText (statements : Nat) : SourceText :=
  SourceText.ofString (source statements)

theorem sourceLine_own {statements : Nat} (hlines : lineNumber statements < 0x100000000)
    {record : ImportRecord} (h : record ∈ ownRecords (some (sourceText statements)) statements) :
    record.sourceLine = some "import x" := by
  obtain ⟨index, hindex, hrecord⟩ := List.mem_filterMap.mp h
  have hwithin := List.mem_range.mp hindex
  have hbelow := lineNumber_lt hwithin
  rw [(Statement.line_of_record? hrecord).2]
  exact line?_source hwithin (Nat.zero_lt_succ _) (toNat_lineOf (by omega))

theorem sourceLine_inner {index statements : Nat} (hlines : lineNumber statements < 0x100000000)
    (h : index ∈ (List.range statements).filter endsBlock) :
    (innerRecord (some (sourceText statements)) index).sourceLine = some "    import y" := by
  obtain ⟨hwithin, hends, hbelow⟩ := lineNumber_of_mem_filter h
  have hsource : sourceLines index = ["import x", "def f():", "    import y"] := by
    rw [sourceLines, if_pos hends]
  have hline := line?_source hwithin (show 2 < (sourceLines index).length by simp [hsource])
    (toNat_lineOf_two (by omega))
  rw [hsource] at hline
  exact hline

/-- What a scan of a sample module with its source finds, in the module itself and in its
functions. -/
structure Found (statements : Nat) (own inner : List ImportRecord) : Prop where
  extract_own : extract .v27 (some (sourceText statements)) (Sample.module statements) = .ok own
  /-- Each function has one import. -/
  extract_inner : List.Forall₂
    (fun unit record => extract .v27 (some (sourceText statements)) unit = .ok [record])
    (Sample.module statements).nested inner
  length_own : own.length = statements - statements / 4
  length_inner : inner.length = statements / 10
  sourceLine_own : ∀ record ∈ own, record.sourceLine = some "import x"
  sourceLine_inner : ∀ record ∈ inner, record.sourceLine = some "    import y"
  pairwise_own : (own.map ImportRecord.lineNumber).Pairwise (· < ·)

theorem found_records {statements : Nat} (hlines : lineNumber statements < 0x100000000) :
    Found statements (ownRecords (some (sourceText statements)) statements)
      (((List.range statements).filter endsBlock).map
        (innerRecord (some (sourceText statements)))) where
  extract_own := by
    rw [module_eq, extract_assemble (by decide) (addressable_program statements),
      records_program _ hlines]
  extract_inner := by
    rw [nested_module, List.forall₂_map_left_iff, List.forall₂_map_right_iff, List.forall₂_same]
    intro index hindex
    rw [extract_assemble (by decide) (admissible_body index).addressable,
      records_body _ hlines hindex]
  length_own := length_ownRecords _ statements
  length_inner := by rw [List.length_map, length_filter_endsBlock]
  sourceLine_own record h := Sample.sourceLine_own hlines h
  sourceLine_inner record h := by
    obtain ⟨index, hindex, rfl⟩ := List.mem_map.mp h
    exact Sample.sourceLine_inner hlines hindex
  pairwise_own := pairwise_ownRecords _ hlines

theorem records_blocks {statements : Nat} (source : Option SourceText)
    (hlines : lineNumber statements < 0x100000000) :
    (program statements).blocks.flatMap (Block.records source)
      = ownRecords source statements
        ++ ((List.range statements).filter endsBlock).map (innerRecord source) := by
  rw [blocks_program, List.flatMap_cons, records_program source hlines, List.flatMap_map,
    List.map_eq_flatMap, List.flatMap_congr fun _ h => records_body source hlines h]

/--
A sample module of any size is scanned completely, as long as its lines can be counted: the
records of the module itself come first, one for each import, and then one for each function, all
with their lines of the source. The tables have an entry for each function, so they may be larger
than what an operand can point to.
-/
theorem scan_module_found (statements : Nat)
    (h : statements + 2 * (statements / 10) + 1 < 0x100000000) :
    ∃ own inner, Found statements own inner
      ∧ scan .v27 (some (sourceText statements)) (Sample.module statements)
        = .ok { records := own ++ inner, failures := [] }
      ∧ statements / 10 ≤ (Sample.module statements).consts.length
      ∧ statements / 10 ≤ (Sample.module statements).names.length := by
  refine ⟨_, _, found_records h, ?_, le_length_consts statements, le_length_names statements⟩
  rw [module_eq, scan_of_addressable (by decide) fun _ hblock => addressable_blocks hblock,
    records_blocks _ h]

theorem scan_module_found_large :
    700000 + 2 * (700000 / 10) + 1 < 0x100000000
      ∧ ∃ own inner, own.length = 525000 ∧ inner.length = 70000
        ∧ scan .v27 (some (sourceText 700000)) (Sample.module 700000)
          = .ok { records := own ++ inner, failures := [] }
        ∧ 0x10000 < (Sample.module 700000).consts.length
        ∧ 0x10000 < (Sample.module 700000).names.length := by
  have h : 700000 + 2 * (700000 / 10) + 1 < 0x100000000 := by decide
  obtain ⟨own, inner, hfound, hscan, hconsts, hnames⟩ := scan_module_found 700000 h
  exact ⟨h, own, inner, hfound.length_own, hfound.length_inner, hscan,
    Nat.lt_of_lt_of_le (by decide) hconsts, Nat.lt_of_lt_of_le (by decide) hnames⟩

end ImportAtlas.Sample
