import ImportAtlas.Code.Assembler
import ImportAtlas.Proofs.Code.LineTable
import ImportAtlas.Proofs.Code.Walk

/-!
# What a step of assembling keeps

Assembling only ever appends. Entries stay where they are in their tables, so an
operand that was right when it was emitted is right in the finished unit, and the
line table is extended in such a way that no instruction emitted before changes
its line. `Appends` says the first for every step but the start of a line, and
`Continues` says what all steps have in common.
-/

namespace ImportAtlas

open LineTable (linesTo span linesTo_append span_append)

/-! ## Pairs that move the line -/

/-- Whole pairs that move the offset by `bytes`, and by `lines` the line from there on. -/
structure Moves (pairs : Bytes) (bytes lines : Nat) : Prop where
  whole : pairs.length % 2 = 0
  span_eq : span pairs = bytes
  linesTo_eq : ∀ target offset,
    linesTo target offset pairs = if offset + bytes ≤ target then lines else 0

namespace Moves

theorem pair {bytes lines : Nat} (hbytes : bytes ≤ 255) (hlines : lines ≤ 255) :
    Moves [Assembler.deltaByte bytes, Assembler.deltaByte lines] bytes lines := by
  have htoNat {delta : Nat} (h : delta ≤ 255) : (Assembler.deltaByte delta).toNat = delta := by
    rw [Assembler.deltaByte, UInt8.toNat_ofNat', Nat.min_eq_left h]
    omega
  constructor
  · simp
  · simp [span, htoNat hbytes]
  · intro target offset
    simp [linesTo, htoNat hbytes, htoNat hlines]

theorem append {first second : Bytes} {bytes lines moreBytes moreLines : Nat}
    (hfirst : Moves first bytes lines) (hsecond : Moves second moreBytes moreLines)
    (h : lines = 0 ∨ moreBytes = 0) :
    Moves (first ++ second) (bytes + moreBytes) (lines + moreLines) := by
  have hwhole := hfirst.whole
  constructor
  · have hmore := hsecond.whole
    rw [List.length_append]
    omega
  · rw [span_append hwhole, hfirst.span_eq, hsecond.span_eq]
  · intro target offset
    rw [linesTo_append hwhole, hfirst.span_eq, hfirst.linesTo_eq, hsecond.linesTo_eq,
      Nat.add_assoc]
    rcases h with rfl | rfl
    · simp
    · simp only [Nat.add_zero]
      split <;> rfl

end Moves

namespace Assembler

theorem pushOffsets_spec (table : Array UInt8) (bytes : Nat) :
    ∃ pairs moved, (pushOffsets table bytes).1.toList = table.toList ++ pairs
      ∧ Moves pairs moved 0 ∧ moved + (pushOffsets table bytes).2 = bytes
      ∧ (pushOffsets table bytes).2 ≤ 255 := by
  fun_induction pushOffsets table bytes with
  | case1 table bytes hlarge ih =>
    obtain ⟨pairs, moved, htable, hmoves, hleft, hfits⟩ := ih
    refine ⟨[255, 0] ++ pairs, 255 + moved, ?_, ?_, by omega, hfits⟩
    · rw [htable]
      simp
    · exact (Moves.pair (Nat.le_refl 255) (Nat.zero_le 255)).append hmoves (.inl rfl)
  | case2 table bytes hsmall =>
    exact ⟨[], 0, by simp, ⟨rfl, rfl, by simp [linesTo]⟩, by omega, by omega⟩

theorem pushLines_spec (table : Array UInt8) {bytes : Nat} (hbytes : bytes ≤ 255) (lines : Nat) :
    ∃ pairs, (pushLines table bytes lines).toList = table.toList ++ pairs
      ∧ Moves pairs bytes lines := by
  fun_induction pushLines table bytes lines with
  | case1 table bytes lines hlarge ih =>
    obtain ⟨pairs, htable, hmoves⟩ := ih (Nat.zero_le 255)
    refine ⟨[deltaByte bytes, 255] ++ pairs, ?_, ?_⟩
    · rw [htable]
      simp
    · have h := (Moves.pair hbytes (Nat.le_refl 255)).append hmoves (.inr rfl)
      rwa [Nat.add_zero, Nat.add_sub_cancel' (Nat.le_of_lt hlarge)] at h
  | case2 table bytes lines hsmall =>
    exact ⟨[deltaByte bytes, deltaByte lines], by simp, Moves.pair hbytes (by omega)⟩

/-- The line table agrees with the line and the offset it has reached. -/
structure Lined (asm : Assembler) : Prop where
  whole : asm.lnotab.toList.length % 2 = 0
  span_eq : span asm.lnotab.toList = asm.lastOffset
  offset_le : asm.lastOffset ≤ asm.code.size
  line_eq : ∀ target, asm.lastOffset ≤ target →
    asm.firstLine.toNat + linesTo target 0 asm.lnotab.toList = asm.lastLine.toNat

theorem line_spec {asm : Assembler} {line : UInt32} (h : ¬line ≤ asm.lastLine) :
    ∃ lnotab pairs,
      asm.line line = { asm with lnotab, lastLine := line, lastOffset := asm.code.size }
      ∧ lnotab.toList = asm.lnotab.toList ++ pairs
      ∧ Moves pairs (asm.code.size - asm.lastOffset) (line.toNat - asm.lastLine.toNat) := by
  obtain ⟨pad, moved, hpad, hmoved, hleft, hfits⟩ :=
    pushOffsets_spec asm.lnotab (asm.code.size - asm.lastOffset)
  obtain ⟨pairs, hpairs, hmoves⟩ :=
    pushLines_spec (pushOffsets asm.lnotab (asm.code.size - asm.lastOffset)).1 hfits
      (line.toNat - asm.lastLine.toNat)
  refine ⟨_, pad ++ pairs, if_neg h, ?_, ?_⟩
  · rw [← List.append_assoc, ← hpad]
    exact hpairs
  · have hboth := hmoved.append hmoves (.inl rfl)
    rwa [hleft, Nat.zero_add] at hboth

/-! ## Steps that add to the code and the tables -/

/-- `next` is `asm` with more code and more entries in its tables. -/
structure Appends (asm next : Assembler) : Prop where
  format : next.format = asm.format
  scope : next.scope = asm.scope
  firstLine : next.firstLine = asm.firstLine
  lnotab : next.lnotab = asm.lnotab
  lastLine : next.lastLine = asm.lastLine
  lastOffset : next.lastOffset = asm.lastOffset
  size_le : asm.code.size ≤ next.code.size
  consts : asm.consts.toList <+: next.consts.toList
  names : asm.names.toList <+: next.names.toList

namespace Appends

theorem refl (asm : Assembler) : Appends asm asm :=
  ⟨rfl, rfl, rfl, rfl, rfl, rfl, Nat.le_refl _, List.prefix_refl _, List.prefix_refl _⟩

theorem trans {asm middle next : Assembler} (hfirst : Appends asm middle)
    (hsecond : Appends middle next) : Appends asm next where
  format := hsecond.format.trans hfirst.format
  scope := hsecond.scope.trans hfirst.scope
  firstLine := hsecond.firstLine.trans hfirst.firstLine
  lnotab := hsecond.lnotab.trans hfirst.lnotab
  lastLine := hsecond.lastLine.trans hfirst.lastLine
  lastOffset := hsecond.lastOffset.trans hfirst.lastOffset
  size_le := Nat.le_trans hfirst.size_le hsecond.size_le
  consts := hfirst.consts.trans hsecond.consts
  names := hfirst.names.trans hsecond.names

theorem foldl {α : Type} {f : Assembler → α → Assembler} (hf : ∀ asm item, Appends asm (f asm item))
    (asm : Assembler) (items : List α) : Appends asm (items.foldl f asm) := by
  induction items generalizing asm with
  | nil => exact refl asm
  | cons item items ih => exact (hf asm item).trans (ih _)

theorem update (asm : Assembler) {code : Array UInt8} {consts : Array Constant}
    {names : Array String} (varnames : Array String) (hcode : asm.code.size ≤ code.size)
    (hconsts : asm.consts.toList <+: consts.toList) (hnames : asm.names.toList <+: names.toList) :
    Appends asm { asm with code, consts, names, varnames } :=
  ⟨rfl, rfl, rfl, rfl, rfl, rfl, hcode, hconsts, hnames⟩

end Appends

/-! ### Tables -/

section Table

variable {α : Type} (like : α → α → Bool)

theorem tableIndex_cases (table : Array α) (entry : α) :
    (tableIndex like table entry).2 = table
      ∨ (tableIndex like table entry).2 = table.push entry
        ∧ ∀ other ∈ table, like other entry = false := by
  unfold tableIndex
  cases hfind : table.findIdx? (like · entry) with
  | some index => exact .inl rfl
  | none =>
    have hother := Array.findIdx?_eq_none_iff.mp hfind
    exact .inr ⟨rfl, by simpa using hother⟩

theorem prefix_tableIndex (table : Array α) (entry : α) :
    table.toList <+: (tableIndex like table entry).2.toList := by
  rcases tableIndex_cases like table entry with h | ⟨h, -⟩
  · exact h.symm ▸ List.prefix_refl _
  · rw [h, Array.toList_push]
    exact List.prefix_append _ _

theorem size_tableIndex_le (table : Array α) (entry : α) :
    (tableIndex like table entry).2.size ≤ table.size + 1 := by
  rcases tableIndex_cases like table entry with h | ⟨h, -⟩
  · exact h.symm ▸ Nat.le_succ _
  · exact h.symm ▸ Nat.le_of_eq (Array.size_push entry)

theorem getElem?_tableIndex {like : α → α → Bool} {entry : α}
    (hlike : ∀ other, like other entry = true → other = entry)
    (table : Array α) :
    (tableIndex like table entry).2[(tableIndex like table entry).1]? = some entry := by
  unfold tableIndex
  cases hfind : table.findIdx? (like · entry) with
  | some index =>
    obtain ⟨hindex, hfound, -⟩ := Array.findIdx?_eq_some_iff_getElem.mp hfind
    simp [hindex, hlike _ hfound]
  | none => simp

theorem tableIndex_le {like : α → α → Bool} {entry : α} (hself : like entry entry = true)
    (table : Array α) {index : Nat} (h : (tableIndex like table entry).2[index]? = some entry) :
    (tableIndex like table entry).1 ≤ index := by
  apply Nat.le_of_not_lt
  intro hbefore
  unfold tableIndex at h hbefore
  cases hfind : table.findIdx? (like · entry) with
  | some first =>
    rw [hfind] at h hbefore
    obtain ⟨_, _, hothers⟩ := Array.findIdx?_eq_some_iff_getElem.mp hfind
    obtain ⟨_, hentry⟩ := Array.getElem?_eq_some_iff.mp h
    have hunlike := hothers index hbefore
    rw [hentry] at hunlike
    exact hunlike hself
  | none =>
    rw [hfind] at h hbefore
    rw [Array.getElem?_push_lt hbefore] at h
    have hmem : entry ∈ table := Array.mem_of_getElem (Option.some.inj h)
    have hunlike := Array.findIdx?_eq_none_iff.mp hfind entry hmem
    rw [hself] at hunlike
    cases hunlike

end Table

theorem toNat_operandOf {index : Nat} (h : index < 0x10000) : (operandOf index).toNat = index := by
  rw [operandOf, UInt16.toNat_ofNat']
  omega

theorem toNat_operandOf_le (index : Nat) : (operandOf index).toNat ≤ index := by
  rw [operandOf, UInt16.toNat_ofNat']
  omega

/-! ### Primitives and statements -/

section Steps

variable (asm : Assembler)

theorem appends_constant (value : Constant) : Appends asm (asm.constant value).2 :=
  .update asm asm.varnames (Nat.le_refl _) (prefix_tableIndex _ _ _) (List.prefix_refl _)

theorem appends_nameOperand (name : String) : Appends asm (asm.nameOperand name).2 :=
  .update asm asm.varnames (Nat.le_refl _) (List.prefix_refl _) (prefix_tableIndex _ _ _)

@[simp] theorem code_constant (value : Constant) : (asm.constant value).2.code = asm.code := rfl

@[simp] theorem code_nameOperand (name : String) : (asm.nameOperand name).2.code = asm.code := rfl

theorem appends_variableOperand (name : String) : Appends asm (asm.variableOperand name).2 :=
  .update asm _ (Nat.le_refl _) (List.prefix_refl _) (List.prefix_refl _)

@[simp] theorem toList_op (opcode : UInt8) :
    (asm.op opcode).code.toList = asm.code.toList ++ [opcode] :=
  Array.toList_push

@[simp] theorem toList_opArg (opcode : UInt8) (operand : UInt16) :
    (asm.opArg opcode operand).code.toList
      = asm.code.toList ++ Walker.instruction opcode operand := by
  simp [opArg, Walker.instruction]

theorem appends_op (opcode : UInt8) : Appends asm (asm.op opcode) :=
  .update asm asm.varnames (by simp) (List.prefix_refl _) (List.prefix_refl _)

theorem appends_opArg (opcode : UInt8) (operand : UInt16) :
    Appends asm (asm.opArg opcode operand) := by
  have hcode : asm.code.size ≤ (asm.opArg opcode operand).code.size := by
    rw [← Array.length_toList, ← Array.length_toList, toList_opArg, List.length_append]
    omega
  exact .update asm asm.varnames hcode (List.prefix_refl _) (List.prefix_refl _)

theorem appends_load (value : Constant) : Appends asm (asm.load value) :=
  (appends_constant asm value).trans (appends_opArg _ _ _)

theorem appends_opName (opcode : UInt8) (name : String) : Appends asm (asm.opName opcode name) :=
  (appends_nameOperand asm name).trans (appends_opArg _ _ _)

theorem appends_store (name : String) : Appends asm (asm.store name) := by
  unfold store
  split
  · exact (appends_nameOperand asm name).trans (appends_opArg _ _ _)
  · exact (appends_variableOperand asm name).trans (appends_opArg _ _ _)

theorem appends_importTriple (level : Int64) (fromlist : Constant) (module : String) :
    Appends asm (asm.importTriple level fromlist module) :=
  (appends_constant asm _).trans <| (appends_constant _ _).trans <|
    (appends_nameOperand _ _).trans <| (appends_opArg _ _ _).trans <|
    (appends_opArg _ _ _).trans (appends_opArg _ _ _)

theorem appends_attributes (parts : List String) :
    Appends asm (parts.foldl (fun asm part => asm.opName asm.format.loadAttr part) asm) :=
  .foldl (fun asm part => appends_opName asm _ part) asm parts

theorem appends_boundModule (dotted : String) (boundAs : Option String) :
    Appends (asm.importTriple (-1) .none dotted) (asm.importModule dotted boundAs) := by
  cases boundAs with
  | none => exact appends_store _ _
  | some name => exact (appends_attributes _ _).trans (appends_store _ _)

theorem appends_importModule (dotted : String) (boundAs : Option String) :
    Appends asm (asm.importModule dotted boundAs) :=
  (appends_importTriple asm (-1) .none dotted).trans (appends_boundModule asm dotted boundAs)

theorem appends_boundName (name : String) :
    Appends asm ((asm.opName asm.format.importFrom name).store name) :=
  (appends_opName asm _ name).trans (appends_store _ name)

theorem appends_boundNames (names : List String) :
    Appends asm (names.foldl
      (fun asm name => (asm.opName asm.format.importFrom name).store name) asm) :=
  .foldl appends_boundName asm names

theorem appends_importFrom (module : String) (names : List String) (level : Int64) :
    Appends asm (asm.importFrom module names level) :=
  (appends_importTriple asm level (.tuple (names.map .str)) module).trans <|
    (appends_boundNames _ names).trans (appends_op _ _)

theorem appends_importStar (module : String) (level : Int64) :
    Appends asm (asm.importStar module level) :=
  (appends_importTriple asm level _ module).trans (appends_op _ _)

theorem appends_functionDef (body : CodeUnit) : Appends asm (asm.functionDef body) :=
  (appends_load asm _).trans <| (appends_opArg _ _ _).trans (appends_store _ _)

theorem appends_assignNone (name : String) : Appends asm (asm.assignNone name) :=
  (appends_load asm .none).trans (appends_store _ _)

end Steps

/-! ### How many entries a statement adds -/

def entries (asm : Assembler) : Nat :=
  asm.consts.size + asm.names.size

section Entries

variable (asm : Assembler)

theorem entries_line (line : UInt32) : (asm.line line).entries = asm.entries := by
  unfold Assembler.line
  split <;> rfl

theorem entries_load (value : Constant) : (asm.load value).entries ≤ asm.entries + 1 := by
  have hsize := size_tableIndex_le Constant.numEq asm.consts value
  show (tableIndex Constant.numEq asm.consts value).2.size + asm.names.size
    ≤ asm.consts.size + asm.names.size + 1
  omega

theorem entries_opName (opcode : UInt8) (name : String) :
    (asm.opName opcode name).entries ≤ asm.entries + 1 :=
  Nat.add_le_add_left (size_tableIndex_le (· == ·) asm.names name) asm.consts.size

theorem entries_store (name : String) : (asm.store name).entries ≤ asm.entries + 1 := by
  unfold store
  split
  · exact Nat.add_le_add_left (size_tableIndex_le (· == ·) asm.names name) asm.consts.size
  · exact Nat.le_succ _

theorem entries_importTriple (level : Int64) (fromlist : Constant) (module : String) :
    (asm.importTriple level fromlist module).entries ≤ asm.entries + 3 := by
  have hlevel := entries_load asm (.int level)
  have hfromlist := entries_load (asm.load (.int level)) fromlist
  have hmodule := entries_opName ((asm.load (.int level)).load fromlist) 0 module
  exact Nat.le_trans hmodule (by omega)

theorem entries_boundNames (names : List String) :
    (names.foldl (fun asm name => (asm.opName asm.format.importFrom name).store name) asm).entries
      ≤ asm.entries + 2 * names.length := by
  induction names generalizing asm with
  | nil => exact Nat.le_refl _
  | cons name names ih =>
    have htaken := entries_opName asm asm.format.importFrom name
    have hbound := entries_store (asm.opName asm.format.importFrom name) name
    have hrest := ih ((asm.opName asm.format.importFrom name).store name)
    rw [List.foldl_cons, List.length_cons]
    omega

theorem entries_importFrom (module : String) (names : List String) (level : Int64) :
    (asm.importFrom module names level).entries ≤ asm.entries + 3 + 2 * names.length := by
  have htriple := entries_importTriple asm level (.tuple (names.map .str)) module
  have hnames := entries_boundNames (asm.importTriple level (.tuple (names.map .str)) module) names
  exact Nat.le_trans hnames (by omega)

theorem entries_functionDef (body : CodeUnit) :
    (asm.functionDef body).entries ≤ asm.entries + 2 := by
  have hload := entries_load asm (.code body)
  have hstore := entries_store
    ((asm.load (.code body)).opArg (asm.load (.code body)).format.makeFunction 0) body.name
  exact Nat.le_trans hstore (Nat.succ_le_succ hload)

end Entries

/-! ## All steps -/

/-- `next` is reached from `asm` by assembling. -/
structure Continues (asm next : Assembler) : Prop where
  size_le : asm.code.size ≤ next.code.size
  consts : asm.consts.toList <+: next.consts.toList
  names : asm.names.toList <+: next.names.toList
  firstLine : next.firstLine = asm.firstLine
  lined : asm.Lined → next.Lined
  /-- The lines of the instructions emitted so far stay the same. -/
  linesTo_eq : asm.Lined → ∀ target < asm.code.size,
    linesTo target 0 next.lnotab.toList = linesTo target 0 asm.lnotab.toList

theorem Appends.continues {asm next : Assembler} (h : Appends asm next) : Continues asm next where
  size_le := h.size_le
  consts := h.consts
  names := h.names
  firstLine := h.firstLine
  lined hasm := by
    have hsize := h.size_le
    have hoffset := hasm.offset_le
    constructor
    · rw [h.lnotab]
      exact hasm.whole
    · rw [h.lnotab, h.lastOffset]
      exact hasm.span_eq
    · rw [h.lastOffset]
      omega
    · rw [h.lnotab, h.lastOffset, h.firstLine, h.lastLine]
      exact hasm.line_eq
  linesTo_eq _ _ _ := by rw [h.lnotab]

theorem Continues.trans {asm middle next : Assembler} (hfirst : Continues asm middle)
    (hsecond : Continues middle next) : Continues asm next where
  size_le := Nat.le_trans hfirst.size_le hsecond.size_le
  consts := hfirst.consts.trans hsecond.consts
  names := hfirst.names.trans hsecond.names
  firstLine := hsecond.firstLine.trans hfirst.firstLine
  lined h := hsecond.lined (hfirst.lined h)
  linesTo_eq h target htarget := by
    have hlater := Nat.lt_of_lt_of_le htarget hfirst.size_le
    rw [hsecond.linesTo_eq (hfirst.lined h) target hlater, hfirst.linesTo_eq h target htarget]

@[simp] theorem format_line (asm : Assembler) (line : UInt32) :
    (asm.line line).format = asm.format := by
  unfold Assembler.line
  split <;> rfl

theorem scope_line (asm : Assembler) (line : UInt32) : (asm.line line).scope = asm.scope := by
  unfold Assembler.line
  split <;> rfl

@[simp] theorem code_line (asm : Assembler) (line : UInt32) : (asm.line line).code = asm.code := by
  unfold Assembler.line
  split <;> rfl

theorem lastLine_line (asm : Assembler) (line : UInt32) :
    (asm.line line).lastLine = max asm.lastLine line := by
  change _ = if asm.lastLine ≤ line then line else asm.lastLine
  unfold Assembler.line
  by_cases h : line ≤ asm.lastLine
  · rw [if_pos h]
    split
    · exact UInt32.le_antisymm ‹_› h
    · rfl
  · rw [if_neg h, if_pos ((UInt32.le_total line asm.lastLine).resolve_left h)]

theorem continues_line (asm : Assembler) (line : UInt32) : Continues asm (asm.line line) := by
  by_cases h : line ≤ asm.lastLine
  · rw [Assembler.line, if_pos h]
    exact (Appends.refl asm).continues
  · obtain ⟨lnotab, pairs, hnext, htable, hmoves⟩ := line_spec h
    have hforward : asm.lastLine.toNat < line.toNat := by
      rw [UInt32.le_iff_toNat_le] at h
      omega
    -- The pairs move the line where the code ends now, which is beyond all that was emitted.
    have hlinesTo (hasm : asm.Lined) (target : Nat) :
        linesTo target 0 lnotab.toList = linesTo target 0 asm.lnotab.toList
          + if asm.code.size ≤ target then line.toNat - asm.lastLine.toNat else 0 := by
      rw [htable, linesTo_append hasm.whole, hasm.span_eq, hmoves.linesTo_eq, Nat.zero_add,
        Nat.add_sub_cancel' hasm.offset_le]
    rw [hnext]
    refine ⟨Nat.le_refl _, List.prefix_refl _, List.prefix_refl _, rfl, ?_, ?_⟩
    · intro hasm
      have hoffset := hasm.offset_le
      constructor
      · have hwhole := hasm.whole
        have hpairs := hmoves.whole
        simp only [htable, List.length_append]
        omega
      · simp only [htable, span_append hasm.whole, hasm.span_eq, hmoves.span_eq]
        omega
      · exact Nat.le_refl _
      · intro target htarget
        have hline := hasm.line_eq target (Nat.le_trans hoffset htarget)
        simp only [hlinesTo hasm, if_pos htarget]
        omega
    · intro hasm target htarget
      simp only [hlinesTo hasm, if_neg (Nat.not_le_of_lt htarget), Nat.add_zero]

/-! ## Steps that start no line -/

/-- `next` is reached from `asm` without starting a line. -/
structure KeepsLines (asm next : Assembler) : Prop where
  lnotab : next.lnotab = asm.lnotab
  lastLine : next.lastLine = asm.lastLine
  continues : Continues asm next

theorem Appends.keepsLines {asm next : Assembler} (h : Appends asm next) : KeepsLines asm next :=
  ⟨h.lnotab, h.lastLine, h.continues⟩

theorem keepsLines_withFormat (asm : Assembler) (format : Format) :
    KeepsLines asm (asm.withFormat format) where
  lnotab := rfl
  lastLine := rfl
  continues :=
    { size_le := Nat.le_refl _
      consts := List.prefix_refl _
      names := List.prefix_refl _
      firstLine := rfl
      lined := fun h => ⟨h.whole, h.span_eq, h.offset_le, h.line_eq⟩
      linesTo_eq := fun _ _ _ => rfl }

theorem keepsLines_step {step : Step} (h : ∀ line, step ≠ .line line) (asm : Assembler) :
    KeepsLines asm (asm.step step) := by
  cases step with
  | line line => exact absurd rfl (h line)
  | format format => exact keepsLines_withFormat asm format
  | constant value => exact (appends_constant asm value).keepsLines
  | name name => exact (appends_nameOperand asm name).keepsLines
  | op opcode => exact (appends_op asm opcode).keepsLines
  | opArg opcode operand => exact (appends_opArg asm opcode operand).keepsLines
  | store name => exact (appends_store asm name).keepsLines
  | assignNone name => exact (appends_assignNone asm name).keepsLines
  | importModule dotted boundAs => exact (appends_importModule asm dotted boundAs).keepsLines
  | importFrom module names level => exact (appends_importFrom asm module names level).keepsLines
  | importStar module level => exact (appends_importStar asm module level).keepsLines
  | functionDef body => exact (appends_functionDef asm body).keepsLines

theorem continues_step (step : Step) (asm : Assembler) : Continues asm (asm.step step) := by
  by_cases h : ∃ line, step = .line line
  · obtain ⟨line, rfl⟩ := h
    exact continues_line asm line
  · exact (keepsLines_step (not_exists.mp h) asm).continues

theorem continues_run (steps : List Step) (asm : Assembler) : Continues asm (asm.run steps) := by
  induction steps generalizing asm with
  | nil => exact (Appends.refl asm).continues
  | cons step steps ih => exact (continues_step step asm).trans (ih _)

end Assembler

end ImportAtlas
