import ImportAtlas.Import.Scan
import ImportAtlas.Proofs.Import.Program

/-!
# A scan recovers the imports of a program

Assembling a program and scanning the unit gives back the imports of the program,
in order and with their lines, styles and names. Statement by statement the code
shows the records of the program; the constant table holds the bodies of a block
in order, because bodies that differ are never entered as one; and a scan visits
them in that order. The tables may outgrow the operands, as long as the imports
do not: other operands that are cut off point to a wrong entry, but to an entry.
-/

namespace ImportAtlas

/-! ## Levels -/

theorem styleOf_int {level : Int64} (hlow : -1 ≤ level.toInt) (hhigh : level.toInt < 0x100000000)
    (offset : Nat) : Walker.styleOf offset (.int level) = .ok (.ofLevel level) := by
  unfold ImportStyle.ofLevel
  simp only [Walker.styleOf, Constant.int?]
  by_cases hminus : level = -1
  · rw [if_pos hminus, if_pos hminus]
  · rw [if_neg hminus, if_neg hminus]
    by_cases hzero : level = 0
    · rw [if_pos hzero, if_pos hzero]
    · have hnonneg : ¬level < 0 := by
        intro hneg
        rw [Int64.lt_iff_toInt_lt] at hneg
        apply hminus
        apply Int64.toInt_inj.mp
        have hlast : (-1 : Int64).toInt = -1 := rfl
        have hnull : (0 : Int64).toInt = 0 := rfl
        omega
      rw [if_neg hzero, if_neg hzero, if_neg hnonneg, if_pos hhigh]
      rfl

theorem moduleName_ofLevel {level : Int64} (hhigh : level.toInt < 0x100000000) (name : String) :
    moduleName (.ofLevel level) name = dots level ++ name := by
  unfold ImportStyle.ofLevel
  by_cases hminus : level = -1
  · rw [if_pos hminus, hminus]
    exact String.empty_append.symm
  · rw [if_neg hminus]
    by_cases hzero : level = 0
    · rw [if_pos hzero, hzero]
      exact String.empty_append.symm
    · have hlevel : (UInt32.ofNat level.toInt.toNat).toNat = level.toInt.toNat := by
        rw [UInt32.toNat_ofNat']
        omega
      rw [if_neg hzero, moduleName, hlevel]
      rfl

/-! ## Statements -/

namespace Statement

open Assembler

variable {format : Format}

theorem appends_step {statement : Statement} (h : ∀ line, statement ≠ .line line)
    (asm : Assembler) : Appends asm (asm.step (statement.step format)) := by
  cases statement with
  | line line => exact absurd rfl (h line)
  | store name => exact appends_store asm name
  | assignNone name => exact appends_assignNone asm name
  | importModule dotted boundAs => exact appends_importModule asm dotted boundAs
  | importFrom module names level => exact appends_importFrom asm module names level
  | importStar module level => exact appends_importStar asm module level
  | functionDef body => exact appends_functionDef asm _

theorem format_step (statement : Statement) (asm : Assembler) :
    (asm.step (statement.step format)).format = asm.format := by
  by_cases h : ∃ line, statement = .line line
  · obtain ⟨line, rfl⟩ := h
    exact format_line asm line
  · exact (appends_step (not_exists.mp h) asm).format

theorem scope_step (statement : Statement) (asm : Assembler) :
    (asm.step (statement.step format)).scope = asm.scope := by
  by_cases h : ∃ line, statement = .line line
  · obtain ⟨line, rfl⟩ := h
    exact scope_line asm line
  · exact (appends_step (not_exists.mp h) asm).scope

theorem lastLine_step (statement : Statement) (asm : Assembler) :
    (asm.step (statement.step format)).lastLine = statement.nextLine asm.lastLine := by
  by_cases h : ∃ line, statement = .line line
  · obtain ⟨line, rfl⟩ := h
    exact lastLine_line asm line
  · have hnext : statement.nextLine asm.lastLine = asm.lastLine := by
      cases statement with
      | line line => exact absurd ⟨line, rfl⟩ h
      | _ => rfl
    rw [hnext]
    exact (appends_step (not_exists.mp h) asm).lastLine

/-- The code of a statement shows the record of the statement. -/
theorem shows_step {source : Option SourceText} {statement : Statement} {asm final : Assembler}
    (hformat : final.format.Separate) (hasm : asm.Lined)
    (hlevel : ∀ level ∈ statement.level?, -1 ≤ level.toInt ∧ level.toInt < 0x100000000)
    (haddressed : statement.Addressed final.unit)
    (h : Towards final (asm.step (statement.step format))) :
    Shows source final asm (asm.step (statement.step format))
      (statement.record? source asm.lastLine).toList := by
  cases statement with
  | line line =>
    exact .of_quiet (by simp [Assembler.step, step]) .nil
  | store name => exact shows_store hformat h
  | assignNone name => exact shows_assignNone hformat h
  | importModule dotted boundAs => exact shows_importModule hformat hasm h haddressed
  | importFrom module names level =>
    obtain ⟨hlow, hhigh⟩ := hlevel level rfl
    have hshows : Shows source final asm _ _ :=
      shows_importFrom hformat hasm (styleOf_int hlow hhigh) h haddressed
    rwa [moduleName_ofLevel hhigh] at hshows
  | importStar module level =>
    obtain ⟨hlow, hhigh⟩ := hlevel level rfl
    have hshows : Shows source final asm _ _ :=
      shows_importStar hformat hasm (styleOf_int hlow hhigh) h haddressed
    rwa [moduleName_ofLevel hhigh] at hshows
  | functionDef body => exact shows_functionDef hformat h

theorem addressed_step {statement : Statement} {asm final : Assembler}
    (hconsts : (asm.step (statement.step format)).consts.size ≤ 0x10000)
    (hnames : (asm.step (statement.step format)).names.size ≤ 0x10000)
    (h : Continues (asm.step (statement.step format)) final) : statement.Addressed final.unit := by
  cases statement with
  | importModule dotted boundAs =>
    have hnone : Constant.none.FloatFree := trivial
    exact addresses_importTriple hnone (appends_boundModule asm dotted boundAs).continues hconsts
      hnames h
  | importFrom module names level =>
    have hbound : Appends (asm.importTriple level (.tuple (names.map .str)) module)
        (asm.importFrom module names level) :=
      (appends_boundNames _ names).trans (appends_op _ _)
    exact addresses_importTriple (floatFree_names names) hbound.continues hconsts hnames h
  | importStar module level =>
    have hstar : Appends (asm.importTriple level (.tuple [.str "*"]) module)
        (asm.importStar module level) := appends_op _ _
    exact addresses_importTriple (floatFree_names ["*"]) hstar.continues hconsts hnames h
  | _ => trivial

theorem format_run (statements : List Statement) (asm : Assembler) :
    (asm.run (steps format statements)).format = asm.format := by
  induction statements generalizing asm with
  | nil => rfl
  | cons statement statements ih => exact (ih _).trans (format_step statement asm)

theorem scope_run (statements : List Statement) (asm : Assembler) :
    (asm.run (steps format statements)).scope = asm.scope := by
  induction statements generalizing asm with
  | nil => rfl
  | cons statement statements ih => exact (ih _).trans (scope_step statement asm)

/-- The code of statements shows their records, from the line reached on. -/
theorem shows_run {source : Option SourceText} {final : Assembler}
    (hformat : final.format.Separate) {statements : List Statement}
    {asm : Assembler} (hasm : asm.Lined)
    (hlevel : ∀ level ∈ statements.filterMap level?,
      -1 ≤ level.toInt ∧ level.toInt < 0x100000000)
    (haddressed : ∀ statement ∈ statements, statement.Addressed final.unit)
    (h : Towards final (asm.run (steps format statements))) :
    Shows source final asm (asm.run (steps format statements))
      (records source asm.lastLine statements) := by
  -- `Lined` is the invariant of the state, `Towards final` what its future has to be.
  induction statements generalizing asm with
  | nil => exact .of_quiet (List.append_nil _).symm .nil
  | cons statement statements ih =>
    have hnext : Towards final (asm.step (statement.step format)) :=
      ⟨(format_run statements _).symm.trans h.format,
        (continues_run _ _).trans h.continues⟩
    have hown : ∀ level ∈ statement.level?, -1 ≤ level.toInt ∧ level.toInt < 0x100000000 :=
      fun level h => hlevel level (List.mem_filterMap.mpr ⟨statement, List.mem_cons_self, h⟩)
    have hothers : ∀ level ∈ statements.filterMap level?,
        -1 ≤ level.toInt ∧ level.toInt < 0x100000000 := by
      intro level h
      obtain ⟨other, hother, hlevel'⟩ := List.mem_filterMap.mp h
      exact hlevel level (List.mem_filterMap.mpr ⟨other, List.mem_cons_of_mem _ hother, hlevel'⟩)
    have hfirst : Shows source final asm _ _ :=
      shows_step hformat hasm hown (haddressed statement List.mem_cons_self) hnext
    have hrest := ih ((continues_step _ asm).lined hasm) hothers
      (fun other hother => haddressed other (List.mem_cons_of_mem _ hother)) h
    rw [lastLine_step] at hrest
    exact hfirst.trans hrest

end Statement

/-! ## Constants -/

namespace Assembler

def enter (table : Array Constant) (value : Constant) : Array Constant :=
  (tableIndex Constant.numEq table value).2

def unitsOf (table : Array Constant) : List CodeUnit :=
  table.toList.filterMap Constant.code?

theorem filterMap_cons_toList {α β : Type} (f : α → Option β) (item : α) (items : List α) :
    (item :: items).filterMap f = (f item).toList ++ items.filterMap f := by
  cases h : f item <;> simp [h]

theorem unitsOf_push (table : Array Constant) (value : Constant) :
    unitsOf (table.push value) = unitsOf table ++ value.code?.toList := by
  unfold unitsOf
  rw [Array.toList_push, List.filterMap_append, filterMap_cons_toList, List.filterMap_nil,
    List.append_nil]

/-- Entering a constant adds its unit, if it is one that is not there yet. -/
theorem unitsOf_enter {table : Array Constant} {value : Constant} (hvalue : value.FloatFree)
    (hnew : ∀ unit, value = .code unit → unit ∉ unitsOf table) :
    unitsOf (enter table value) = unitsOf table ++ value.code?.toList := by
  rcases tableIndex_cases Constant.numEq table value with h | ⟨h, -⟩
  · -- The entry that was found is the value itself, as no two floats were compared.
    have hentry := getElem?_tableIndex (fun _ => Constant.eq_of_numEq hvalue) table
    have hmem : value ∈ table := by
      rw [h] at hentry
      exact Array.mem_of_getElem? hentry
    rw [enter, h]
    cases hunit : value.code? with
    | none => simp
    | some unit =>
      have hfound : unit ∈ unitsOf table :=
        List.mem_filterMap.mpr ⟨value, Array.mem_toList_iff.mpr hmem, hunit⟩
      cases value with
      | code other =>
        obtain rfl : other = unit := Option.some.inj hunit
        exact absurd hfound (hnew other rfl)
      | _ => cases hunit
  · rw [enter, h]
    exact unitsOf_push table value

theorem mem_enter {table : Array Constant} {value constant : Constant}
    (h : constant ∈ enter table value) : constant ∈ table ∨ constant = value := by
  rcases tableIndex_cases Constant.numEq table value with hsame | ⟨hpush, -⟩
  · rw [enter, hsame] at h
    exact .inl h
  · rw [enter, hpush] at h
    exact Array.mem_push.mp h

theorem unitsOf_foldl_enter {values : List Constant} {table : Array Constant}
    (hvalues : ∀ value ∈ values, value.FloatFree)
    (hnodup : (unitsOf table ++ values.filterMap Constant.code?).Nodup) :
    unitsOf (values.foldl enter table) = unitsOf table ++ values.filterMap Constant.code? := by
  induction values generalizing table with
  | nil => simp
  | cons value values ih =>
    rw [filterMap_cons_toList] at hnodup ⊢
    have hvalue : unitsOf (enter table value) = unitsOf table ++ value.code?.toList := by
      apply unitsOf_enter (hvalues value List.mem_cons_self)
      rintro unit rfl hunit
      exact (List.nodup_append.mp hnodup).2.2 unit hunit unit (by simp [Constant.code?]) rfl
    rw [← List.append_assoc, ← hvalue] at hnodup ⊢
    exact ih (fun other hother => hvalues other (List.mem_cons_of_mem _ hother)) hnodup

theorem mem_foldl_enter {values : List Constant} {table : Array Constant} {constant : Constant}
    (h : constant ∈ values.foldl enter table) : constant ∈ table ∨ constant ∈ values := by
  induction values generalizing table with
  | nil => exact .inl h
  | cons value values ih =>
    rcases ih h with hentered | hlater
    · rcases mem_enter hentered with hold | rfl
      · exact .inl hold
      · exact .inr List.mem_cons_self
    · exact .inr (List.mem_cons_of_mem _ hlater)

theorem consts_foldl {α : Type} {f : Assembler → α → Assembler}
    (hf : ∀ asm item, (f asm item).consts = asm.consts) (items : List α) (asm : Assembler) :
    (items.foldl f asm).consts = asm.consts := by
  induction items generalizing asm with
  | nil => rfl
  | cons item items ih => exact (ih _).trans (hf asm item)

theorem consts_store (asm : Assembler) (name : String) : (asm.store name).consts = asm.consts := by
  unfold store
  split <;> rfl

theorem consts_line (asm : Assembler) (line : UInt32) : (asm.line line).consts = asm.consts := by
  unfold Assembler.line
  split <;> rfl

end Assembler

namespace Statement

open Assembler

def constants (format : Format) : Statement → List Constant
  | .line _ | .store _ => []
  | .assignNone _ => [.none]
  | .importModule _ _ => [.int (-1), .none]
  | .importFrom _ names level => [.int level, .tuple (names.map .str)]
  | .importStar _ level => [.int level, .tuple [.str "*"]]
  | .functionDef body => [.code (body.assemble format)]

theorem consts_step (format : Format) (statement : Statement) (asm : Assembler) :
    (asm.step (statement.step format)).consts
      = (statement.constants format).foldl enter asm.consts := by
  cases statement with
  | line line => exact consts_line asm line
  | store name => exact consts_store asm name
  | assignNone name => exact consts_store _ name
  | importModule dotted boundAs =>
    cases boundAs with
    | none => exact consts_store _ _
    | some name =>
      have hpart (asm : Assembler) (part : String) :
          (asm.opName asm.format.loadAttr part).consts = asm.consts := rfl
      exact (consts_store _ _).trans (consts_foldl hpart _ _)
  | importFrom module names level =>
    have hname (asm : Assembler) (name : String) :
        ((asm.opName asm.format.importFrom name).store name).consts = asm.consts :=
      consts_store _ name
    exact consts_foldl hname names _
  | importStar module level => rfl
  | functionDef body => exact consts_store _ _

theorem consts_run (format : Format) (statements : List Statement) (asm : Assembler) :
    (asm.run (steps format statements)).consts
      = (statements.flatMap (constants format)).foldl enter asm.consts := by
  induction statements generalizing asm with
  | nil => rfl
  | cons statement statements ih =>
    rw [List.flatMap_cons, List.foldl_append, ← consts_step]
    exact ih _

theorem filterMap_constants (format : Format) (statements : List Statement) :
    (statements.flatMap (constants format)).filterMap Constant.code?
      = (statements.filterMap body?).map (Block.assemble format) := by
  induction statements with
  | nil => rfl
  | cons statement statements ih =>
    rw [List.flatMap_cons, List.filterMap_append, ih]
    cases statement <;> rfl

end Statement

/-! ## Blocks -/

namespace Block

open Assembler

def start (format : Format) (block : Block) : Assembler :=
  block.origin.assembler.withFormat format

def final (format : Format) (block : Block) : Assembler :=
  ((block.start format).run (Statement.steps format block.statements)).ended

theorem assemble_eq (format : Format) (block : Block) :
    block.assemble format = (block.final format).unit := by
  cases block
  rfl

def constants (format : Format) (block : Block) : List Constant :=
  block.statements.flatMap (Statement.constants format) ++ [.none]

theorem consts_final (format : Format) (block : Block) :
    (block.final format).consts
      = (block.constants format).foldl enter block.origin.assembler.consts := by
  rw [constants, List.foldl_append]
  exact congrArg (enter · Constant.none) (Statement.consts_run format block.statements _)

theorem filterMap_constants (format : Format) (block : Block) :
    (block.constants format).filterMap Constant.code? = block.bodies format := by
  rw [constants, List.filterMap_append, Statement.filterMap_constants]
  exact List.append_nil _

theorem consts_origin {origin : Origin} {constant : Constant}
    (h : constant ∈ origin.assembler.consts) : constant = .none := by
  cases origin with
  | module filename => simp [Origin.assembler, Assembler.module] at h
  | function name filename firstLine => simpa [Origin.assembler, Assembler.function] using h

end Block

theorem Statement.floatFree_import {level : Int64} {fromlist constant : Constant}
    (hfromlist : fromlist.FloatFree) (h : constant ∈ [.int level, fromlist]) :
    constant.FloatFree := by
  rcases List.mem_cons.mp h with rfl | hrest
  · trivial
  · rwa [List.mem_singleton.mp hrest]

mutual

theorem Block.floatFree_constants (format : Format) : ∀ block : Block,
    ∀ constant ∈ block.constants format, constant.FloatFree
  | .mk _ statements, constant, h => by
    rcases List.mem_append.mp h with hstatement | hnone
    · exact Statement.floatFree_list format statements constant hstatement
    · rw [List.mem_singleton.mp hnone]
      trivial

theorem Statement.floatFree_list (format : Format) : ∀ statements : List Statement,
    ∀ constant ∈ statements.flatMap (Statement.constants format), constant.FloatFree
  | [], constant, h => by cases h
  | statement :: statements, constant, h => by
    rw [List.flatMap_cons] at h
    rcases List.mem_append.mp h with hfirst | hrest
    · exact Statement.floatFree_constants format statement constant hfirst
    · exact Statement.floatFree_list format statements constant hrest

theorem Statement.floatFree_constants (format : Format) : ∀ statement : Statement,
    ∀ constant ∈ statement.constants format, constant.FloatFree
  | .line _, _, h | .store _, _, h => by cases h
  | .assignNone _, _, h => by
    rw [List.mem_singleton.mp h]
    trivial
  | .importModule _ _, _, h => by
    have hnone : Constant.none.FloatFree := trivial
    exact Statement.floatFree_import hnone h
  | .importFrom _ names _, _, h =>
    Statement.floatFree_import (Assembler.floatFree_names names) h
  | .importStar _ _, _, h => Statement.floatFree_import (Assembler.floatFree_names ["*"]) h
  | .functionDef body, _, h => by
    rw [List.mem_singleton.mp h]
    -- The unit of the body holds the constants entered for it, and none but `None` before them.
    apply (CodeUnit.floatFree_iff _).mpr
    rw [Block.assemble_eq]
    intro constant hconstant
    have hmem := Array.mem_toList_iff.mp hconstant
    rw [Block.consts_final] at hmem
    rcases Assembler.mem_foldl_enter hmem with horigin | hentered
    · rw [Block.consts_origin horigin]
      trivial
    · exact Block.floatFree_constants format body constant hentered

end

namespace Block

open Assembler

theorem nested_assemble {format : Format} {block : Block} (h : (block.bodies format).Nodup) :
    (block.assemble format).nested = block.bodies format := by
  have horigin : unitsOf block.origin.assembler.consts = [] := by
    cases block.origin <;> rfl
  have hnodup : (unitsOf block.origin.assembler.consts
      ++ (block.constants format).filterMap Constant.code?).Nodup := by
    rwa [horigin, filterMap_constants]
  have hunits := unitsOf_foldl_enter (floatFree_constants format block) hnodup
  rw [← consts_final, horigin, filterMap_constants] at hunits
  rw [assemble_eq]
  exact hunits

theorem lined_start (format : Format) (block : Block) : (block.start format).Lined := by
  cases hblock : block.origin <;>
    constructor <;> simp [start, hblock, Origin.assembler, Assembler.module, Assembler.function,
      withFormat, LineTable.span, LineTable.linesTo]

theorem format_final (format : Format) (block : Block) : (block.final format).format = format :=
  Statement.format_run block.statements (block.start format)

/-- The code of a block shows the records of its statements. -/
theorem shows_final {format : Format} (hformat : format ∈ Format.supported) {block : Block}
    (h : block.Addressable format) (source : Option SourceText) :
    Shows source (block.final format) (block.start format) (block.final format)
      (block.records source) := by
  have hseparate : (block.final format).format.Separate := by
    rw [format_final]
    exact Format.separate_of_supported hformat
  have haddressed := h.addressed
  rw [assemble_eq] at haddressed
  have hend : Towards (block.final format) (block.final format) :=
    ⟨rfl, (Appends.refl _).continues⟩
  have hrun := hend.of_appends ((appends_load _ _).trans (appends_op _ _))
  have hstatements : Shows source (block.final format) _ _ _ :=
    Statement.shows_run hseparate (lined_start format block) h.level haddressed hrun
  have hshows := hstatements.trans (shows_ended hseparate hend)
  have hline : (block.start format).lastLine = block.origin.assembler.firstLine := by
    rw [start]
    cases block.origin <;> rfl
  rwa [List.append_nil, hline] at hshows

end Block

/-! ## Scanning -/

theorem extract_of_results {format : Format} {source : Option SourceText} {unit : CodeUnit}
    {events : List Event} (h : (Walker.start format unit).results = events.map .ok) :
    extract format source unit = (do
      let found ← events.mapM
        (recordOf unit.names.toArray unit.consts.toArray unit.lineTable source)
      return found.filterMap id) := by
  have hitems (f : Event → Except Error (Option ImportRecord)) :
      (Walker.start format unit).run.1.mapM (fun item => do f (← item.result)) = events.mapM f := by
    have hmap := congrArg (List.mapM fun result => do f (← result)) h
    rw [Walker.results, List.mapM_map, List.mapM_map] at hmap
    exact hmap
  rw [extract, hitems]

theorem extract_of_shows {source : Option SourceText} {start final : Assembler}
    {records : List ImportRecord} (hstart : start.code = #[])
    (h : Assembler.Shows source final start final records) :
    extract final.format source final.unit = .ok records := by
  obtain ⟨part, events, found, hcode, hwalks, hfound, rfl⟩ := h
  have hpart : final.code.toList = part := by
    rw [hcode, hstart]
    rfl
  have hresults : (Walker.start final.format final.unit).results = events.map .ok := by
    have hwalk := hwalks []
    rw [List.append_nil, Walker.results_nil, List.append_nil, ← hpart, hstart] at hwalk
    exact hwalk
  rw [extract_of_results hresults]
  exact congrArg (· >>= _) hfound

theorem visit_cons (format : Format) (source : Option SourceText) (unit : CodeUnit)
    (waiting : List CodeUnit) :
    visit format source (unit :: waiting)
      = (contribution format source unit).append
          (visit format source (unit.nested ++ waiting)) := by
  rw [visit]

theorem ScanResult.append_assoc (first second third : ScanResult) :
    (first.append second).append third = first.append (second.append third) := by
  simp [ScanResult.append]

theorem visit_append (format : Format) (source : Option SourceText) (first second : List CodeUnit) :
    visit format source (first ++ second)
      = (visit format source first).append (visit format source second) := by
  fun_induction visit format source first with
  | case1 => rfl
  | case2 unit waiting ih =>
    rw [List.cons_append, visit_cons, ← List.append_assoc, ih, ScanResult.append_assoc]

theorem check_assemble (format : Format) (block : Block) :
    format.check (block.assemble format).marker = .ok () := by
  have hmarker : (block.assemble format).marker = format.magic := by
    rw [Block.assemble_eq]
    exact congrArg Format.magic (Block.format_final format block)
  rw [Format.check, if_pos hmarker]

theorem extract_assemble {format : Format} (hformat : format ∈ Format.supported)
    {block : Block} (h : block.Addressable format) (source : Option SourceText) :
    extract format source (block.assemble format) = .ok (block.records source) := by
  have hstart : (block.start format).code = #[] := by
    rw [Block.start]
    cases block.origin <;> rfl
  have hshows := extract_of_shows hstart (Block.shows_final hformat h source)
  rwa [Block.format_final, ← Block.assemble_eq] at hshows

theorem contribution_assemble {format : Format} (hformat : format ∈ Format.supported)
    {block : Block} (h : block.Addressable format) (source : Option SourceText) :
    contribution format source (block.assemble format) = { records := block.records source } := by
  rw [contribution, scanOne, check_assemble, extract_assemble hformat h]
  rfl

mutual

theorem visit_addressable {format : Format} (hformat : format ∈ Format.supported)
    (source : Option SourceText) : ∀ block : Block,
    (∀ inner ∈ block.blocks, inner.Addressable format) →
    visit format source [block.assemble format]
      = { records := block.blocks.flatMap (Block.records source) }
  | .mk origin statements, h => by
    have hblock : (Block.mk origin statements).Addressable format := h _ List.mem_cons_self
    have hbodies : visit format source ((Block.mk origin statements).bodies format)
        = { records := (Statement.blocks statements).flatMap (Block.records source) } :=
      visit_bodies hformat source statements fun inner hinner =>
        h inner (List.mem_cons_of_mem _ hinner)
    rw [visit_cons, contribution_assemble hformat hblock, Block.nested_assemble hblock.bodies,
      List.append_nil, hbodies]
    rfl

theorem visit_bodies {format : Format} (hformat : format ∈ Format.supported)
    (source : Option SourceText) : ∀ statements : List Statement,
    (∀ inner ∈ Statement.blocks statements, inner.Addressable format) →
    visit format source ((statements.filterMap Statement.body?).map (Block.assemble format))
      = { records := (Statement.blocks statements).flatMap (Block.records source) }
  | [], _ => by
    rw [List.filterMap_nil, List.map_nil, visit]
    rfl
  | statement :: statements, h => by
    have hfirst := visit_body hformat source statement fun inner hinner =>
      h inner (List.mem_append_left _ hinner)
    have hrest := visit_bodies hformat source statements fun inner hinner =>
      h inner (List.mem_append_right _ hinner)
    rw [Assembler.filterMap_cons_toList, List.map_append, visit_append, hfirst, hrest,
      Statement.blocks, List.flatMap_append]
    rfl

theorem visit_body {format : Format} (hformat : format ∈ Format.supported)
    (source : Option SourceText) : ∀ statement : Statement,
    (∀ inner ∈ Statement.ownBlocks statement, inner.Addressable format) →
    visit format source (statement.body?.toList.map (Block.assemble format))
      = { records := (Statement.ownBlocks statement).flatMap (Block.records source) }
  | .functionDef body, h => visit_addressable hformat source body h
  | .line _, _ | .store _, _ | .assignNone _, _ | .importModule _ _, _ | .importFrom _ _ _, _
  | .importStar _ _, _ => by
    simp [Statement.body?, Statement.ownBlocks, visit]

end

theorem scan_of_addressable {format : Format} (hformat : format ∈ Format.supported) {block : Block}
    (h : ∀ inner ∈ block.blocks, inner.Addressable format) (source : Option SourceText) :
    scan format source (block.assemble format)
      = .ok { records := block.blocks.flatMap (Block.records source), failures := [] } := by
  rw [scan, check_assemble, visit_addressable hformat source block h]
  rfl

/--
Scanning the unit of a program, all of whose blocks the format can hold, gives
the records of its blocks and no failure.
-/
theorem scan_assemble {format : Format} (hformat : format ∈ Format.supported) {block : Block}
    (hblocks : ∀ inner ∈ block.blocks, inner.Admissible format) (source : Option SourceText) :
    scan format source (block.assemble format)
      = .ok { records := block.blocks.flatMap (Block.records source), failures := [] } :=
  scan_of_addressable hformat (fun inner hinner => (hblocks inner hinner).addressable) source

/-- A module with two functions, one of them with a function of its own. -/
def nestedProgram : Block :=
  .mk (.module "pkg/mod.py") [
    .line 3, .importModule "os.path" (some "path"),
    .functionDef (.mk (.function "f" "pkg/mod.py" 5) [
      .line 300, .importFrom "" ["*", "a"] 2,
      .functionDef (.mk (.function "inner" "pkg/mod.py" 301) [.importStar "x" 0])]),
    .functionDef (.mk (.function "g" "pkg/mod.py" 302) [.store "y"]),
    .line 2, .importFrom "a.b" ["c"] (-1), .assignNone "z"]

theorem scan_assemble_nestedProgram :
    Format.v26 ∈ Format.supported
      ∧ (∀ inner ∈ nestedProgram.blocks, inner.Admissible .v26)
      ∧ scan .v26 none (nestedProgram.assemble .v26) = .ok {
          records := [
            ⟨3, none, "os.path", none, .implicit⟩, ⟨3, none, "a.b", some ["c"], .implicit⟩,
            ⟨300, none, "..", some ["a"], .relative 2⟩, ⟨301, none, "x", some [], .absolute⟩]
          failures := [] } := by
  have hformat : Format.v26 ∈ Format.supported := List.mem_cons_self
  have hblocks : ∀ inner ∈ nestedProgram.blocks, inner.Admissible .v26 := by
    have hbodies : (nestedProgram.bodies .v26).Nodup := by
      refine List.nodup_cons.mpr ⟨fun hmem => ?_, List.pairwise_singleton _ _⟩
      have hname := congrArg CodeUnit.name (List.mem_singleton.mp hmem)
      exact absurd hname (by decide)
    refine List.forall_mem_cons.mpr ⟨⟨?_, by decide +kernel, by decide +kernel, hbodies⟩, ?_⟩
    · exact List.forall_mem_singleton.mpr (by decide)
    refine List.forall_mem_cons.mpr
      ⟨⟨?_, by decide +kernel, by decide +kernel, List.pairwise_singleton _ _⟩, ?_⟩
    · exact List.forall_mem_singleton.mpr (by decide)
    refine List.forall_mem_cons.mpr
      ⟨⟨?_, by decide +kernel, by decide +kernel, List.nodup_nil⟩, ?_⟩
    · exact List.forall_mem_singleton.mpr (by decide)
    exact List.forall_mem_singleton.mpr
      ⟨List.forall_mem_nil _, by decide +kernel, by decide +kernel, List.nodup_nil⟩
  refine ⟨hformat, hblocks, ?_⟩
  exact scan_assemble hformat hblocks none

end ImportAtlas
