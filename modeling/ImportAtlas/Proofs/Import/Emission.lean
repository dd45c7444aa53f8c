import ImportAtlas.Code.Assembler
import ImportAtlas.Import.Extract
import ImportAtlas.Proofs.Code.Assembler
import ImportAtlas.Proofs.Code.Equality

/-!
# The records that assembled statements leave

The code of a statement is looked at where it stands in the finished unit: its
operands point into the final tables, its line is looked up in the final line
table, and the walk comes to it with whatever follows. `Shows` says which records
a scan of the finished unit makes of the code between two states of an assembler,
and there is one lemma for each statement.
-/

namespace ImportAtlas

def importRecord (source : Option SourceText) (line : UInt32) (style : ImportStyle)
    (module : String) (fromlist : Option (List String)) : ImportRecord where
  lineNumber := line
  sourceLine := source.bind (·.line? line)
  module := module
  fromlist := fromlist
  style := style

/-- The opcodes that statements compile to are told apart by a walk. -/
structure Format.Separate (format : Format) : Prop where
  load_not_store : ¬format.IsStore format.loadConst
  load_argument : format.hasArgument format.loadConst = true
  store_ne_load : format.storeName ≠ format.loadConst
  argument : ∀ opcode ∈ [format.loadAttr, format.importFrom, format.storeFast, format.makeFunction],
    format.Quiet opcode ∧ format.hasArgument opcode = true
  plain : ∀ opcode ∈ [format.popTop, format.importStar, format.returnValue],
    format.Quiet opcode ∧ ¬format.hasArgument opcode = true

theorem Format.separate_of_supported {format : Format} (h : format ∈ Format.supported) :
    format.Separate := by
  have h : format = .v26 ∨ format = .v27 := by simpa [Format.supported] using h
  rcases h with rfl | rfl <;> refine ⟨by decide, by decide, by decide, ?_, ?_⟩ <;>
    simp only [List.forall_mem_cons, List.not_mem_nil, false_implies, implies_true, and_true] <;>
    decide

/-- Where the table has the entry, it has it in a place that an operand can point to. -/
def Placed {α : Type} (table : List α) (entry : α) : Prop :=
  entry ∈ table → entry ∈ table.take 0x10000

theorem Placed.of_length_le {α : Type} {table : List α} (h : table.length ≤ 0x10000) (entry : α) :
    Placed table entry := by
  intro hentry
  rwa [List.take_of_length_le h]

theorem Placed.of_grown {α : Type} {table grown : List α} {entry : α} (hentry : entry ∈ table)
    (hlength : table.length ≤ 0x10000) (h : table <+: grown) : Placed grown entry := by
  intro _
  have hfront : table <+: grown.take 0x10000 := List.prefix_take_iff.mpr ⟨h, hlength⟩
  exact hfront.subset hentry

/-- The operands of an import can point to what it imports. -/
structure CodeUnit.Addresses (unit : CodeUnit) (level : Int64) (fromlist : Constant)
    (module : String) : Prop where
  level : Placed unit.consts (.int level)
  fromlist : Placed unit.consts fromlist
  module : Placed unit.names module

namespace Assembler

open LineTable (linesTo toNat_lineAt_decode toNat_le_lastLine)

structure Towards (final asm : Assembler) : Prop where
  format : asm.format = final.format
  continues : Continues asm final

theorem Towards.of_appends {final asm next : Assembler} (hnext : Towards final next)
    (h : Appends asm next) : Towards final asm where
  format := h.format.symm.trans hnext.format
  continues := h.continues.trans hnext.continues

/-! ## Operands and lines in the finished unit -/

theorem getElem?_of_grown {α : Type} {table final : Array α}
    (hgrown : table.toList <+: final.toList) {index : Nat} (hindex : index < table.size) :
    final[index]? = table[index]? := by
  obtain ⟨more, hmore⟩ := hgrown
  rw [← Array.getElem?_toList, ← Array.getElem?_toList, ← hmore]
  exact List.getElem?_append_left (by rwa [Array.length_toList])

theorem getElem?_operandOf {α : Type} {like : α → α → Bool} {entry : α}
    (hlike : ∀ other, like other entry = true → other = entry) (hself : like entry entry = true)
    {table final : Array α} (hgrown : (tableIndex like table entry).2.toList <+: final.toList)
    (hplaced : Placed final.toList entry) :
    final[(operandOf (tableIndex like table entry).1).toNat]? = some entry := by
  have hentry := getElem?_tableIndex hlike table
  have hindex := (Array.getElem?_eq_some_iff.mp hentry).1
  have hfinal := (getElem?_of_grown hgrown hindex).trans hentry
  -- Some place of the entry fits an operand, and the index is the first place of all.
  obtain ⟨place, hplace⟩ := List.mem_iff_getElem?.mp
    (hplaced (Array.mem_toList_iff.mpr (Array.mem_of_getElem? hfinal)))
  have hfits : place < 0x10000 := by
    have hlength := (List.getElem?_eq_some_iff.mp hplace).1
    rw [List.length_take] at hlength
    omega
  have hfirst : (tableIndex like table entry).1 ≤ place := by
    apply Nat.le_of_not_lt
    intro hbefore
    rw [List.getElem?_take_of_lt hfits, Array.getElem?_toList,
      getElem?_of_grown hgrown (Nat.lt_trans hbefore hindex)] at hplace
    exact Nat.not_le_of_lt hbefore (tableIndex_le hself table hplace)
  rw [toNat_operandOf (by omega)]
  exact hfinal

section Final

variable {final asm : Assembler}

theorem mem_nameOperand (asm : Assembler) (name : String) :
    name ∈ (asm.nameOperand name).2.names :=
  Array.mem_of_getElem? (getElem?_tableIndex (fun _ => eq_of_beq) asm.names)

theorem mem_constant (asm : Assembler) {value : Constant} (hvalue : value.FloatFree) :
    value ∈ (asm.constant value).2.consts :=
  Array.mem_of_getElem?
    (getElem?_tableIndex (fun _ => Constant.eq_of_numEq hvalue) asm.consts)

theorem mem_functionDef (hscope : asm.scope = .module) (body : CodeUnit) :
    body.name ∈ (asm.functionDef body).names := by
  have hload : ((asm.load (.code body)).opArg (asm.load (.code body)).format.makeFunction 0).scope
      = .module := hscope
  rw [functionDef, store, hload]
  exact mem_nameOperand _ _

theorem getElem?_nameOperand {name : String} (h : Towards final (asm.nameOperand name).2)
    (hplaced : Placed final.names.toList name) :
    final.names[(asm.nameOperand name).1.toNat]? = some name :=
  getElem?_operandOf (fun _ => eq_of_beq) (beq_self_eq_true name) h.continues.names hplaced

theorem getElem?_constant {value : Constant} (hvalue : value.FloatFree)
    (h : Towards final (asm.constant value).2) (hplaced : Placed final.consts.toList value) :
    final.consts[(asm.constant value).1.toNat]? = some value :=
  getElem?_operandOf (fun _ => Constant.eq_of_numEq hvalue) (Constant.numEq_self hvalue)
    h.continues.consts hplaced

/-- An operand for a name points into the table, even if the index of the name does not fit it. -/
theorem nameOperand_lt {name : String} (h : Towards final (asm.nameOperand name).2) :
    (asm.nameOperand name).1.toNat < final.names.size := by
  have hentry : _ = some name := getElem?_tableIndex (fun _ => eq_of_beq) asm.names
  have hgrown := h.continues.names.length_le
  rw [Array.length_toList, Array.length_toList] at hgrown
  calc (asm.nameOperand name).1.toNat
      ≤ (tableIndex (· == ·) asm.names name).1 := toNat_operandOf_le _
    _ < (asm.nameOperand name).2.names.size := (Array.getElem?_eq_some_iff.mp hentry).1
    _ ≤ final.names.size := hgrown

/-- The line of code that is emitted between `asm` and `next` is the line `asm` has reached, if no
line is started between them. -/
theorem lineAt_emitted {next : Assembler} {target : Nat} (hasm : asm.Lined)
    (hlnotab : next.lnotab = asm.lnotab) (hcontinues : Continues asm next)
    (hnext : Continues next final) (hbelow : asm.code.size ≤ target)
    (habove : target < next.code.size) : final.unit.lineTable.lineAt target = asm.lastLine := by
  -- Steps from `next` on move the lines of code behind `next` only, and this code is before it.
  have hlines : linesTo target 0 final.lnotab.toList = linesTo target 0 asm.lnotab.toList := by
    rw [hnext.linesTo_eq (hcontinues.lined hasm) target habove, hlnotab]
  have hfirst : final.firstLine = asm.firstLine := hnext.firstLine.trans hcontinues.firstLine
  have hline := hasm.line_eq target (Nat.le_trans hasm.offset_le hbelow)
  apply UInt32.toNat_inj.mp
  calc (final.unit.lineTable.lineAt target).toNat
      = min LineTable.lastLine
          (final.firstLine.toNat + linesTo target 0 final.lnotab.toList) :=
        toNat_lineAt_decode _ _ _
    _ = min LineTable.lastLine asm.lastLine.toNat := by rw [hlines, hfirst, hline]
    _ = asm.lastLine.toNat := Nat.min_eq_right (toNat_le_lastLine _)

theorem lineAt_unit {next : Assembler} (hasm : asm.Lined) (h : Appends asm next)
    (hsize : asm.code.size < next.code.size) (hnext : Continues next final) :
    final.unit.lineTable.lineAt asm.code.size = asm.lastLine :=
  lineAt_emitted hasm h.lnotab h.continues hnext (Nat.le_refl _) hsize

end Final

/-! ## Code in front of a walk -/

def walker (final : Assembler) : Walker :=
  Walker.start final.format final.unit

@[simp] theorem constants_walker (final : Assembler) : final.walker.constants = final.consts :=
  Array.toArray_toList

@[simp] theorem nameCount_walker (final : Assembler) :
    final.walker.nameCount = final.names.size :=
  Array.length_toList

def record (source : Option SourceText) (final : Assembler) :
    Event → Except Error (Option ImportRecord) :=
  recordOf final.names final.consts final.unit.lineTable source

theorem size_code {asm next : Assembler} {part : Bytes}
    (h : next.code.toList = asm.code.toList ++ part) :
    next.code.size = asm.code.size + part.length := by
  rw [← Array.length_toList, h, List.length_append, Array.length_toList]

/-- A scan of `final` finds `records` in the code added between `asm` and `next`. -/
def Shows (source : Option SourceText) (final asm next : Assembler)
    (records : List ImportRecord) : Prop :=
  ∃ part events found, next.code.toList = asm.code.toList ++ part
    ∧ Walker.Walks final.walker asm.code.size part events
    ∧ events.mapM (record source final) = .ok found
    ∧ found.filterMap id = records

namespace Shows

variable {source : Option SourceText} {final asm next : Assembler}

theorem trans {middle : Assembler} {before after : List ImportRecord}
    (hfirst : Shows source final asm middle before)
    (hsecond : Shows source final middle next after) :
    Shows source final asm next (before ++ after) := by
  obtain ⟨first, events, found, hcode, hwalks, hfound, rfl⟩ := hfirst
  obtain ⟨second, moreEvents, moreFound, hmoreCode, hmoreWalks, hmoreFound, rfl⟩ := hsecond
  refine ⟨first ++ second, events ++ moreEvents, found ++ moreFound, ?_, ?_, ?_, ?_⟩
  · rw [hmoreCode, hcode, List.append_assoc]
  · rw [size_code hcode] at hmoreWalks
    exact hwalks.append hmoreWalks
  · rw [List.mapM_append, hfound, hmoreFound]
    rfl
  · exact List.filterMap_append

theorem of_quiet {part : Bytes} (hcode : next.code.toList = asm.code.toList ++ part)
    (hwalks : Walker.Walks final.walker asm.code.size part []) :
    Shows source final asm next [] :=
  ⟨part, [], [], hcode, hwalks, rfl, rfl⟩

theorem foldl {α : Type} {f : Assembler → α → Assembler} (hf : ∀ asm item, Appends asm (f asm item))
    (hshows : ∀ asm item, Towards final (f asm item) → Shows source final asm (f asm item) [])
    (items : List α) (asm : Assembler) (h : Towards final (items.foldl f asm)) :
    Shows source final asm (items.foldl f asm) [] := by
  induction items generalizing asm with
  | nil => exact of_quiet (List.append_nil _).symm .nil
  | cons item items ih =>
    have hitem : Towards final (f asm item) := h.of_appends (Appends.foldl hf _ items)
    exact (hshows asm item hitem).trans (ih (f asm item) h)

end Shows

theorem fromlistOf_names (offset : Nat) (names : List String) :
    fromlistOf offset (.tuple (names.map .str)) = .ok (some (names.filter (· != "*"))) := by
  have hentries : (names.map Constant.str).mapM (fromlistEntry offset) = .ok names := by
    induction names with
    | nil => rfl
    | cons name names ih =>
      rw [List.map_cons, List.mapM_cons, ih]
      rfl
  simp only [fromlistOf, hentries]
  rfl

theorem floatFree_names (names : List String) : (Constant.tuple (names.map .str)).FloatFree := by
  apply Constant.floatFreeItems_iff.mpr
  intro item hitem
  obtain ⟨name, -, rfl⟩ := List.mem_map.mp hitem
  trivial

theorem addresses_importTriple {asm small final : Assembler} {level : Int64} {fromlist : Constant}
    {module : String} (hfromlist : fromlist.FloatFree)
    (h : Continues (asm.importTriple level fromlist module) small)
    (hconsts : small.consts.size ≤ 0x10000) (hnames : small.names.size ≤ 0x10000)
    (hfinal : Continues small final) : final.unit.Addresses level fromlist module := by
  let first := asm.constant (.int level)
  let second := first.2.constant fromlist
  let third := second.2.nameOperand module
  have hthird : Continues third.2 small :=
    (((appends_opArg third.2 third.2.format.loadConst first.1).trans
      (appends_opArg _ third.2.format.loadConst second.1)).trans
      (appends_opArg _ third.2.format.importName third.1)).continues.trans h
  have hsecond : Continues second.2 small := (appends_nameOperand _ _).continues.trans hthird
  have hfirst : Continues first.2 small := (appends_constant _ _).continues.trans hsecond
  have hint : (Constant.int level).FloatFree := trivial
  constructor
  · exact .of_grown (hfirst.consts.subset (mem_constant asm hint).val) hconsts hfinal.consts
  · exact .of_grown (hsecond.consts.subset (mem_constant first.2 hfromlist).val) hconsts
      hfinal.consts
  · exact .of_grown (hthird.names.subset (mem_nameOperand second.2 module).val) hnames
      hfinal.names

theorem code_store (asm : Assembler) (name : String) :
    ∃ opcode operand,
      (asm.store name).code.toList = asm.code.toList ++ Walker.instruction opcode operand
      ∧ (opcode = asm.format.storeName ∨ opcode = asm.format.storeFast) := by
  unfold store
  split
  · exact ⟨_, _, toList_opArg _ _ _, .inl rfl⟩
  · exact ⟨_, _, toList_opArg _ _ _, .inr rfl⟩

section Statements

variable {source : Option SourceText} {final asm : Assembler} (hformat : final.format.Separate)

include hformat

theorem shows_op {opcode : UInt8}
    (hopcode : opcode ∈ [final.format.popTop, final.format.importStar, final.format.returnValue]) :
    Shows source final asm (asm.op opcode) [] := by
  obtain ⟨hquiet, hplain⟩ := hformat.plain opcode hopcode
  exact .of_quiet (toList_op asm opcode) (.plain hquiet hplain)

theorem shows_opArg {opcode : UInt8} (hopcode : opcode ∈ [final.format.loadAttr,
      final.format.importFrom, final.format.storeFast, final.format.makeFunction])
    (operand : UInt16) : Shows source final asm (asm.opArg opcode operand) [] := by
  obtain ⟨hquiet, hargument⟩ := hformat.argument opcode hopcode
  exact .of_quiet (toList_opArg asm opcode operand) (.argument hquiet hargument operand)

theorem shows_store {name : String} (h : Towards final (asm.store name)) :
    Shows source final asm (asm.store name) [] := by
  have hasm := (h.of_appends (appends_store asm name)).format
  cases hscope : asm.scope with
  | function =>
    rw [store, hscope]
    exact shows_opArg hformat (by simp [hasm]) _
  | module =>
    rw [store, hscope] at h ⊢
    have hindex : (asm.nameOperand name).1.toNat < final.walker.nameCount := by
      rw [nameCount_walker]
      exact nameOperand_lt (h.of_appends (appends_opArg _ _ _))
    have hstore : final.walker.format.IsStore asm.format.storeName := by
      rw [hasm]
      exact .inl rfl
    exact ⟨_, _, [none], toList_opArg _ _ _, .store hstore hindex, rfl, rfl⟩

theorem Shows.after_load {next : Assembler} {value : Constant} {records : List ImportRecord}
    (hasm : asm.format = final.format) {opcode : UInt8} {tail : Bytes}
    (hcode : next.code.toList = (asm.load value).code.toList ++ opcode :: tail)
    (hopcode : opcode ≠ final.format.loadConst)
    (hnext : Shows source final (asm.load value) next records) :
    Shows source final asm next records := by
  -- A load is not walked on its own: with another load behind it, it could start an import.
  obtain ⟨part, events, found, hpart, hwalks, hfound⟩ := hnext
  obtain rfl : opcode :: tail = part := List.append_cancel_left (hcode.symm.trans hpart)
  have hload : (asm.load value).code.toList = asm.code.toList
      ++ Walker.instruction final.format.loadConst (asm.constant value).1 := by
    rw [← hasm]
    exact toList_opArg _ _ _
  refine ⟨Walker.instruction final.format.loadConst (asm.constant value).1 ++ opcode :: tail,
    events, found, ?_, ?_, hfound⟩
  · rw [hcode, hload, List.append_assoc]
  · rw [size_code hload] at hwalks
    exact .load hformat.load_not_store hformat.load_argument hopcode hwalks _

theorem shows_load_store {value : Constant} {name : String}
    (h : Towards final ((asm.load value).store name)) :
    Shows source final asm ((asm.load value).store name) [] := by
  have hload := h.of_appends (appends_store _ name)
  have hasm := (hload.of_appends (appends_load asm value)).format
  obtain ⟨opcode, operand, hcode, hopcode⟩ := code_store (asm.load value) name
  refine (shows_store hformat h).after_load hformat hasm hcode ?_
  rw [hload.format] at hopcode
  rcases hopcode with rfl | rfl
  · exact hformat.store_ne_load
  · exact (hformat.argument final.format.storeFast (by simp)).1.2

theorem shows_assignNone {name : String} (h : Towards final (asm.assignNone name)) :
    Shows source final asm (asm.assignNone name) [] :=
  shows_load_store hformat h

theorem shows_functionDef {body : CodeUnit} (h : Towards final (asm.functionDef body)) :
    Shows source final asm (asm.functionDef body) [] := by
  have hcall := h.of_appends (appends_store _ body.name)
  have hload := hcall.of_appends (appends_opArg _ _ 0)
  have hasm := (hload.of_appends (appends_load asm (.code body))).format
  have hopcode : (asm.load (.code body)).format.makeFunction
      ∈ [final.format.loadAttr, final.format.importFrom, final.format.storeFast,
        final.format.makeFunction] := by
    simp [hload.format]
  have hmake : Shows source final (asm.load (.code body)) _ [] := shows_opArg hformat hopcode 0
  have hfunction := hmake.after_load hformat hasm (toList_opArg (asm.load (.code body)) _ 0)
    (hformat.argument _ hopcode).1.2
  exact hfunction.trans (shows_store hformat h)

theorem shows_ended (h : Towards final asm.ended) : Shows source final asm asm.ended [] := by
  have hload := h.of_appends (appends_op (asm.load .none) _)
  have hasm := (hload.of_appends (appends_load asm .none)).format
  have hopcode : (asm.load .none).format.returnValue
      ∈ [final.format.popTop, final.format.importStar, final.format.returnValue] := by
    simp [hload.format]
  exact (shows_op hformat hopcode).after_load hformat hasm (toList_op (asm.load .none) _)
    (hformat.plain _ hopcode).1.2

omit hformat in
/-- The operands of an import point to its level, its list of names and its module. -/
theorem code_importTriple {level : Int64} {fromlist : Constant} {module : String}
    (hfromlist : fromlist.FloatFree) (h : Towards final (asm.importTriple level fromlist module))
    (haddresses : final.unit.Addresses level fromlist module) :
    ∃ first second third, (asm.importTriple level fromlist module).code.toList = asm.code.toList
      ++ (Walker.instruction final.format.loadConst first
        ++ Walker.instruction final.format.loadConst second
        ++ Walker.instruction final.format.importName third)
      ∧ final.consts[first.toNat]? = some (.int level)
      ∧ final.consts[second.toNat]? = some fromlist
      ∧ final.names[third.toNat]? = some module := by
  let first := asm.constant (.int level)
  let second := first.2.constant fromlist
  let third := second.2.nameOperand module
  have hthird : Towards final third.2 := h.of_appends <|
    ((appends_opArg third.2 third.2.format.loadConst first.1).trans
      (appends_opArg _ third.2.format.loadConst second.1)).trans
      (appends_opArg _ third.2.format.importName third.1)
  have hsecond : Towards final second.2 := hthird.of_appends (appends_nameOperand _ _)
  have hfirst : Towards final first.2 := hsecond.of_appends (appends_constant _ _)
  have hint : (Constant.int level).FloatFree := trivial
  refine ⟨first.1, second.1, third.1, ?_, getElem?_constant hint hfirst haddresses.level,
    getElem?_constant hfromlist hsecond haddresses.fromlist,
    getElem?_nameOperand hthird haddresses.module⟩
  rw [← hthird.format]
  simp [importTriple, first, second, third]

/-- The three instructions of an import show one record, on the line reached. -/
theorem shows_importTriple {level : Int64} {fromlist : Constant} {module : String}
    {style : ImportStyle} {names : Option (List String)} (hasm : asm.Lined)
    (hfromlist : fromlist.FloatFree)
    (hstyle : ∀ offset, Walker.styleOf offset (.int level) = .ok style)
    (hnames : ∀ offset, fromlistOf offset fromlist = .ok names)
    (h : Towards final (asm.importTriple level fromlist module))
    (haddresses : final.unit.Addresses level fromlist module) :
    Shows source final asm (asm.importTriple level fromlist module)
      [importRecord source asm.lastLine style (moduleName style module) names] := by
  obtain ⟨first, second, third, hcode, hfirst, hsecond, hthird⟩ :=
    code_importTriple hfromlist h haddresses
  have hsize : asm.code.size < (asm.importTriple level fromlist module).code.size := by
    rw [size_code hcode]
    simp [Walker.argumentWidth]
  have hline := lineAt_unit hasm (appends_importTriple asm level fromlist module) hsize h.continues
  have hlevel : Walker.styleOf asm.code.size (final.walker.constants.getD first.toNat .none)
      = .ok style := by
    simp [Array.getD_eq_getD_getElem?, hfirst, hstyle]
  have hwalks : Walker.Walks final.walker asm.code.size _ _ :=
    .importing hformat.load_not_store
      (by simpa using (Array.getElem?_eq_some_iff.mp hfirst).1)
      (by simpa using (Array.getElem?_eq_some_iff.mp hsecond).1)
      (by simpa using (Array.getElem?_eq_some_iff.mp hthird).1) hlevel
  have hrecord : record source final (.importing asm.code.size style second.toNat third.toNat)
      = .ok (some (importRecord source asm.lastLine style (moduleName style module) names)) := by
    simp only [record, recordOf, Array.getD_eq_getD_getElem?, hsecond, hthird, hnames, hline,
      Option.getD_some]
    rfl
  refine ⟨_, _, [some _], hcode, hwalks, ?_, rfl⟩
  rw [List.mapM_cons, hrecord]
  rfl

theorem shows_attributes {parts : List String}
    (h : Towards final (parts.foldl (fun asm part => asm.opName asm.format.loadAttr part) asm)) :
    Shows source final asm (parts.foldl (fun asm part => asm.opName asm.format.loadAttr part) asm)
      [] := by
  refine .foldl (fun asm part => appends_opName asm _ part) (fun asm part hpart => ?_) parts asm h
  have hasm := (hpart.of_appends (appends_opName asm _ part)).format
  exact shows_opArg hformat (by simp [hasm]) _

theorem shows_boundNames {names : List String}
    (h : Towards final (names.foldl
      (fun asm name => (asm.opName asm.format.importFrom name).store name) asm)) :
    Shows source final asm
      (names.foldl (fun asm name => (asm.opName asm.format.importFrom name).store name) asm)
      [] := by
  refine .foldl appends_boundName (fun asm name hname => ?_) names asm h
  have hasm := (hname.of_appends (appends_boundName asm name)).format
  have htaken : Shows source final asm (asm.opName asm.format.importFrom name) [] :=
    shows_opArg hformat (by simp [hasm]) _
  exact htaken.trans (shows_store hformat hname)

theorem shows_importModule {dotted : String} {boundAs : Option String} (hasm : asm.Lined)
    (h : Towards final (asm.importModule dotted boundAs))
    (haddresses : final.unit.Addresses (-1) .none dotted) :
    Shows source final asm (asm.importModule dotted boundAs)
      [importRecord source asm.lastLine .implicit dotted none] := by
  have htriple (hnext : Towards final (asm.importTriple (-1) .none dotted)) :
      Shows source final asm (asm.importTriple (-1) .none dotted)
        [importRecord source asm.lastLine .implicit dotted none] :=
    shows_importTriple hformat hasm trivial (fun _ => rfl) (fun _ => rfl) hnext haddresses
  cases boundAs with
  | none =>
    have hnext := h.of_appends (appends_store (asm.importTriple (-1) .none dotted) _)
    exact (htriple hnext).trans (shows_store hformat h)
  | some name =>
    have hparts := h.of_appends
      (appends_store (List.foldl _ (asm.importTriple (-1) .none dotted) _) _)
    have hnext := hparts.of_appends (appends_attributes (asm.importTriple (-1) .none dotted) _)
    exact (htriple hnext).trans <|
      (shows_attributes hformat hparts).trans (shows_store hformat h)

theorem shows_importFrom {module : String} {names : List String} {level : Int64}
    {style : ImportStyle} (hasm : asm.Lined)
    (hstyle : ∀ offset, Walker.styleOf offset (.int level) = .ok style)
    (h : Towards final (asm.importFrom module names level))
    (haddresses : final.unit.Addresses level (.tuple (names.map .str)) module) :
    Shows source final asm (asm.importFrom module names level)
      [importRecord source asm.lastLine style (moduleName style module)
        (some (names.filter (· != "*")))] := by
  have hbound := h.of_appends (appends_op (List.foldl _ (asm.importTriple level _ module) names) _)
  have hnext := hbound.of_appends (appends_boundNames (asm.importTriple level _ module) names)
  have htriple : Shows source final asm _ _ := shows_importTriple hformat hasm
    (floatFree_names names) hstyle (fun offset => fromlistOf_names offset names) hnext haddresses
  have hopcode : (List.foldl (fun asm name => (asm.opName asm.format.importFrom name).store name)
      (asm.importTriple level (.tuple (names.map .str)) module) names).format.popTop
      ∈ [final.format.popTop, final.format.importStar, final.format.returnValue] := by
    simp [hbound.format]
  exact htriple.trans ((shows_boundNames hformat hbound).trans (shows_op hformat hopcode))

theorem shows_importStar {module : String} {level : Int64} {style : ImportStyle}
    (hasm : asm.Lined) (hstyle : ∀ offset, Walker.styleOf offset (.int level) = .ok style)
    (h : Towards final (asm.importStar module level))
    (haddresses : final.unit.Addresses level (.tuple [.str "*"]) module) :
    Shows source final asm (asm.importStar module level)
      [importRecord source asm.lastLine style (moduleName style module) (some [])] := by
  have hnext := h.of_appends (appends_op (asm.importTriple level _ module) _)
  have htriple : Shows source final asm _ _ := shows_importTriple hformat hasm
    (floatFree_names ["*"]) hstyle (fun offset => fromlistOf_names offset ["*"]) hnext haddresses
  have hopcode : (asm.importTriple level (.tuple [.str "*"]) module).format.importStar
      ∈ [final.format.popTop, final.format.importStar, final.format.returnValue] := by
    simp [hnext.format]
  exact htriple.trans (shows_op hformat hopcode)

end Statements

end Assembler

end ImportAtlas
