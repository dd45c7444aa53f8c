import ImportAtlas.Proofs.Import.Recovery
import ImportAtlas.Proofs.Text.Pieces
import ImportAtlas.Sample

/-!
# Sample modules as programs

A sample module is the unit of a program with a line and a statement for each
number, and a function behind every tenth statement. Each function adds a
constant and a name, so the tables outgrow the operands in the end. The imports
do not: the statements come round after one cycle, so whatever an import points
to was entered in the first cycle, and stays there.
-/

namespace ImportAtlas.Sample

open Assembler (Continues)

def lineNumber (index : Nat) : Nat :=
  index + 2 * (index / 10) + 1

def lineOf (index : Nat) : UInt32 :=
  UInt32.ofNat (lineNumber index)

def command (index : Nat) : Statement :=
  match index % 4 with
  | 0 => .importModule (target index) none
  | 1 => .importFrom (target index) ["a", "b"] (-1)
  | 2 => .importFrom "" ["sibling"] 1
  | _ => .assignNone "value"

def body (index : Nat) : Block :=
  .mk (.function ("f" ++ toString index) filename (lineOf index + 1))
    [.line (lineOf index + 1 + 1), .importModule (target index) none]

def portion (index : Nat) : List Statement :=
  .line (lineOf index) :: command index ::
    if endsBlock index then [.line (lineOf index + 1), .functionDef (body index)] else []

def program (statements : Nat) : Block :=
  .mk (.module filename) ((List.range statements).flatMap portion)

/-- The state of the assembler behind the statements with smaller numbers. -/
def stateAt (index : Nat) : Assembler :=
  (Assembler.module filename).run (Statement.steps .v27 ((List.range index).flatMap portion))

/-! ## The module is the unit of the program -/

theorem endsBlock_iff {index : Nat} : endsBlock index = true ↔ index % 10 = 9 :=
  beq_iff_eq

theorem lineNumber_succ (index : Nat) :
    lineNumber (index + 1) = lineNumber index + if endsBlock index then 3 else 1 := by
  unfold lineNumber
  by_cases h : endsBlock index
  · rw [if_pos h]
    rw [endsBlock_iff] at h
    omega
  · rw [if_neg h]
    rw [endsBlock_iff] at h
    omega

theorem lineOf_succ (index : Nat) :
    lineOf (index + 1) = lineOf index + 1 + if endsBlock index then 2 else 0 := by
  unfold lineOf
  rw [lineNumber_succ]
  split
  · rw [UInt32.ofNat_add, UInt32.add_assoc]
    rfl
  · rw [UInt32.ofNat_add, UInt32.add_zero]
    rfl

theorem step_command (index : Nat) : (command index).step .v27 = statement index := by
  unfold command statement
  generalize index % 4 = kind
  match kind with
  | 0 | 1 | 2 | _ + 3 => rfl

theorem assemble_body (index : Nat) :
    (body index).assemble .v27 = function index (lineOf index + 1) :=
  rfl

theorem stateAt_succ (index : Nat) :
    stateAt (index + 1) = (stateAt index).run (Statement.steps .v27 (portion index)) := by
  unfold stateAt
  rw [List.range_succ, List.flatMap_append, List.flatMap_singleton, Statement.steps_eq_map,
    List.map_append, Assembler.run, List.foldl_append, ← Statement.steps_eq_map,
    ← Statement.steps_eq_map]
  rfl

theorem addStatement_stateAt (index : Nat) :
    addStatement (stateAt index, lineOf index) index
      = (stateAt (index + 1), lineOf (index + 1)) := by
  rw [stateAt_succ, lineOf_succ, portion]
  by_cases h : endsBlock index
  · simp only [addStatement, if_pos h, Statement.steps, step_command, Statement.step,
      assemble_body, Assembler.run, List.foldl_cons, List.foldl_nil, Assembler.step]
  · simp only [addStatement, if_neg h, Statement.steps, step_command, Statement.step,
      Assembler.run, List.foldl_cons, List.foldl_nil, Assembler.step, UInt32.add_zero]

theorem foldl_addStatement (statements : Nat) :
    (List.range statements).foldl addStatement (Assembler.module filename, 1)
      = (stateAt statements, lineOf statements) := by
  induction statements with
  | zero => rfl
  | succ index ih =>
    rw [List.range_succ, List.foldl_append, ih]
    exact addStatement_stateAt index

theorem module_eq (statements : Nat) :
    Sample.module statements = (program statements).assemble .v27 := by
  rw [Sample.module, foldl_addStatement]
  rfl

/-! ## Operands -/

theorem entries_statement (asm : Assembler) (index : Nat) :
    (asm.step (statement index)).entries ≤ asm.entries + 7 := by
  unfold statement
  generalize index % 4 = kind
  match kind with
  | 0 =>
    have htriple := asm.entries_importTriple (-1) .none (target index)
    exact Nat.le_trans (Assembler.entries_store _ _) (by omega)
  | 1 => exact asm.entries_importFrom (target index) ["a", "b"] (-1)
  | 2 => exact Nat.le_trans (asm.entries_importFrom "" ["sibling"] 1) (by simp)
  | _ + 3 =>
    have hload := asm.entries_load .none
    exact Nat.le_trans (Assembler.entries_store _ _) (by omega)

theorem entries_addStatement (asm : Assembler) (line : UInt32) (index : Nat) :
    (addStatement (asm, line) index).1.entries ≤ asm.entries + 9 := by
  have hstatement := entries_statement (asm.line line) index
  rw [Assembler.entries_line] at hstatement
  unfold addStatement
  by_cases h : endsBlock index
  · have hfunction := Assembler.entries_functionDef
      (((asm.line line).step (statement index)).line (line + 1)) (function index (line + 1))
    rw [Assembler.entries_line] at hfunction
    simp only [if_pos h]
    omega
  · simp only [if_neg h]
    omega

theorem continues_stateAt {index later : Nat} (h : index ≤ later) :
    Continues (stateAt index) (stateAt later) := by
  induction h with
  | refl => exact (Assembler.Appends.refl _).continues
  | step _ ih =>
    rw [stateAt_succ]
    exact ih.trans (Assembler.continues_run _ _)

theorem continues_final (statements : Nat) :
    Continues (stateAt statements) ((program statements).final .v27) :=
  ((Assembler.appends_load _ _).trans (Assembler.appends_op _ _)).continues

theorem command_mod (index : Nat) : command (index % 28) = command index := by
  have hkind : index % 28 % 4 = index % 4 := by omega
  have htarget : target (index % 28) = target index := by
    have hturn : index % 28 % modules.length = index % modules.length := by
      show index % 28 % 7 = index % 7
      omega
    rw [target, target, hturn]
  rw [command, command, hkind, htarget]

theorem entries_stateAt (index : Nat) : (stateAt index).entries ≤ 9 * index := by
  induction index with
  | zero => exact Nat.le_refl 0
  | succ index ih =>
    have hstate := congrArg Prod.fst (addStatement_stateAt index)
    have hstep := entries_addStatement (stateAt index) (lineOf index) index
    rw [hstate] at hstep
    simp only at hstep
    omega

theorem addressed_command {index statements : Nat} (h : index < statements) :
    (command index).Addressed ((program statements).assemble .v27) := by
  rw [← command_mod, Block.assemble_eq]
  have hcycle : index % 28 + 1 ≤ 28 := Nat.mod_lt _ (by decide)
  have hwithin : index % 28 + 1 ≤ statements := by omega
  generalize index % 28 = first at hcycle hwithin
  -- The statement is the one of this number in the first cycle, when the tables were small.
  have hnext : Continues (((stateAt first).line (lineOf first)).step ((command first).step .v27))
      (stateAt (first + 1)) := by
    rw [stateAt_succ]
    exact Assembler.continues_run _ _
  have hsmall := hnext.trans (continues_stateAt hcycle)
  have hconsts := hsmall.consts.length_le
  have hnames := hsmall.names.length_le
  have hsize := entries_stateAt 28
  rw [Assembler.entries] at hsize
  rw [Array.length_toList, Array.length_toList] at hconsts hnames
  exact Statement.addressed_step (by omega) (by omega)
    ((hnext.trans (continues_stateAt hwithin)).trans (continues_final statements))

theorem level_command {index : Nat} {level : Int64} (h : level ∈ (command index).level?) :
    -1 ≤ level.toInt ∧ level.toInt < 0x100000000 := by
  unfold command at h
  generalize index % 4 = kind at h
  match kind with
  | 0 | _ + 3 => cases h
  | 1 | 2 =>
    obtain rfl := Option.some.inj h
    decide

/-! ## Functions -/

theorem name_body (index : Nat) :
    ((body index).assemble .v27).name = "f" ++ toString index := by
  rw [assemble_body, function, Assembler.line]
  split <;> rfl

theorem admissible_body (index : Nat) : (body index).Admissible .v27 := by
  have hconsts : ((body index).assemble .v27).consts
      = ([.int (-1), .none, .none].foldl Assembler.enter #[.none]).toList := by
    rw [assemble_body, function, Assembler.line]
    split <;> rfl
  have hnames : ((body index).assemble .v27).names
      = (Assembler.tableIndex (· == ·) #[] (target index)).2.toList := by
    rw [assemble_body, function, Assembler.line]
    split <;> rfl
  refine ⟨List.forall_mem_nil _, ?_, ?_, List.nodup_nil⟩
  · rw [hconsts]
    decide +kernel
  · have hsize := Assembler.size_tableIndex_le (· == ·) #[] (target index)
    rw [hnames, Array.length_toList]
    exact Nat.le_trans hsize (by decide)

theorem filterMap_portion (indices : List Nat) :
    (indices.flatMap portion).filterMap Statement.body? = (indices.filter endsBlock).map body := by
  induction indices with
  | nil => rfl
  | cons index indices ih =>
    have hcommand : (command index).body? = none := by
      unfold command
      split <;> rfl
    have hportion : (portion index).filterMap Statement.body?
        = if endsBlock index then [body index] else [] := by
      rw [portion, List.filterMap_cons_none rfl, List.filterMap_cons_none hcommand]
      split <;> rfl
    rw [List.flatMap_cons, List.filterMap_append, ih, hportion]
    by_cases h : endsBlock index
    · rw [if_pos h, List.filter_cons_of_pos h]
      rfl
    · rw [if_neg h, List.filter_cons_of_neg h]
      rfl

theorem bodies_program (statements : Nat) :
    (program statements).bodies .v27
      = ((List.range statements).filter endsBlock).map fun index =>
          (body index).assemble .v27 := by
  rw [Block.bodies, program, Block.statements, filterMap_portion, List.map_map]
  rfl

theorem functionName_inj {index other : Nat} (h : "f" ++ toString index = "f" ++ toString other) :
    index = other :=
  Text.toString_inj ((String.append_right_inj _).mp h)

theorem nodup_functionNames (statements : Nat) :
    (((List.range statements).filter endsBlock).map fun index => "f" ++ toString index).Nodup := by
  have hindices : ((List.range statements).filter endsBlock).Nodup :=
    List.nodup_range.sublist List.filter_sublist
  exact List.pairwise_map.mpr (hindices.imp fun hne heq => hne (functionName_inj heq))

theorem nodup_bodies (statements : Nat) : ((program statements).bodies .v27).Nodup := by
  have hnames : (((program statements).bodies .v27).map CodeUnit.name).Nodup := by
    have hname : (CodeUnit.name ∘ fun index => (body index).assemble .v27)
        = fun index => "f" ++ toString index := funext name_body
    rw [bodies_program, List.map_map, hname]
    exact nodup_functionNames statements
  exact (List.pairwise_map.mp hnames).imp fun hne heq => hne (congrArg CodeUnit.name heq)

theorem blocks_program (statements : Nat) :
    (program statements).blocks
      = program statements :: ((List.range statements).filter endsBlock).map body := by
  have hown (index : Nat) : (body index).blocks = [body index] := rfl
  rw [program, Block.blocks, Statement.blocks_eq, filterMap_portion, List.flatMap_map,
    List.map_eq_flatMap]
  simp only [hown]

theorem mem_portion {index : Nat} {statement : Statement} (h : statement ∈ portion index) :
    (∃ line, statement = .line line) ∨ statement = command index
      ∨ statement = .functionDef (body index) := by
  unfold portion at h
  split at h
  · simp only [List.mem_cons, List.not_mem_nil, or_false] at h
    rcases h with rfl | rfl | rfl | rfl
    · exact .inl ⟨_, rfl⟩
    · exact .inr (.inl rfl)
    · exact .inl ⟨_, rfl⟩
    · exact .inr (.inr rfl)
  · simp only [List.mem_cons, List.not_mem_nil, or_false] at h
    rcases h with rfl | rfl
    · exact .inl ⟨_, rfl⟩
    · exact .inr (.inl rfl)

theorem addressable_program (statements : Nat) : (program statements).Addressable .v27 where
  level level h := by
    obtain ⟨statement, hmem, hlevel⟩ := List.mem_filterMap.mp h
    obtain ⟨index, -, hportion⟩ := List.mem_flatMap.mp hmem
    rcases mem_portion hportion with ⟨line, rfl⟩ | rfl | rfl
    · cases hlevel
    · exact level_command hlevel
    · cases hlevel
  addressed statement h := by
    obtain ⟨index, hindex, hportion⟩ := List.mem_flatMap.mp h
    rcases mem_portion hportion with ⟨line, rfl⟩ | rfl | rfl
    · trivial
    · exact addressed_command (List.mem_range.mp hindex)
    · trivial
  bodies := nodup_bodies statements

theorem addressable_blocks {statements : Nat} {block : Block}
    (h : block ∈ (program statements).blocks) : block.Addressable .v27 := by
  rw [blocks_program] at h
  rcases List.mem_cons.mp h with rfl | hbody
  · exact addressable_program statements
  · obtain ⟨index, -, rfl⟩ := List.mem_map.mp hbody
    exact (admissible_body index).addressable

/-! ## Tables -/

theorem length_filter_endsBlock (statements : Nat) :
    ((List.range statements).filter endsBlock).length = statements / 10 := by
  induction statements with
  | zero => rfl
  | succ index ih =>
    rw [List.range_succ, List.filter_append, List.length_append, ih]
    by_cases h : endsBlock index
    · rw [List.filter_cons_of_pos h, List.filter_nil, List.length_singleton]
      rw [endsBlock_iff] at h
      omega
    · rw [List.filter_cons_of_neg h, List.filter_nil, List.length_nil]
      rw [endsBlock_iff] at h
      omega

theorem nested_module (statements : Nat) :
    (Sample.module statements).nested
      = ((List.range statements).filter endsBlock).map fun index =>
          (body index).assemble .v27 := by
  rw [module_eq, Block.nested_assemble (nodup_bodies statements), bodies_program]

theorem le_length_consts (statements : Nat) :
    statements / 10 ≤ (Sample.module statements).consts.length := by
  calc statements / 10 = (Sample.module statements).nested.length := by
        rw [nested_module, List.length_map, length_filter_endsBlock]
    _ ≤ (Sample.module statements).consts.length := List.length_filterMap_le _ _

theorem mem_names_module {index statements : Nat} (h : index < statements)
    (hends : endsBlock index = true) :
    "f" ++ toString index ∈ (Sample.module statements).names := by
  have hstate := congrArg Prod.fst (addStatement_stateAt index)
  simp only [addStatement, if_pos hends] at hstate
  have hscope : ((((stateAt index).line (lineOf index)).step (statement index)).line
      (lineOf index + 1)).scope = .module := by
    rw [Assembler.scope_line, ← step_command, Statement.scope_step, Assembler.scope_line, stateAt,
      Statement.scope_run]
    rfl
  have hentered : "f" ++ toString index ∈ (stateAt (index + 1)).names := by
    rw [← hstate, ← name_body, assemble_body]
    exact Assembler.mem_functionDef hscope _
  have hgrown := (continues_stateAt h).trans (continues_final statements)
  rw [module_eq, Block.assemble_eq]
  exact hgrown.names.subset hentered.val

theorem le_length_names (statements : Nat) :
    statements / 10 ≤ (Sample.module statements).names.length := by
  rw [← length_filter_endsBlock statements, ← List.length_map fun index => "f" ++ toString index]
  apply (nodup_functionNames statements).length_le_of_subset
  intro name hname
  obtain ⟨index, hindex, rfl⟩ := List.mem_map.mp hname
  obtain ⟨hrange, hends⟩ := List.mem_filter.mp hindex
  exact mem_names_module (List.mem_range.mp hrange) hends

end ImportAtlas.Sample
