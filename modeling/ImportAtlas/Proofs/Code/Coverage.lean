import ImportAtlas.Proofs.Code.Disassembly

/-!
# A walk against linear disassembly

A walk never makes a list of instructions. It peeks at raw bytes three and six
ahead, and moves by one, three or nine bytes at a time. The main statement is that
its results account for the disassembly of the whole buffer all the same: it finds
the same stores and imports, stops at the same first fault, and reports a last
instruction that is cut short.
-/

namespace ImportAtlas

/-! ## What a walk makes of a site -/

theorem styleOf_cases (offset : Nat) (level : Constant) :
    (∃ style, ImportStyle.ofConstant? level = some style ∧
      Walker.styleOf offset level = .ok style) ∨
    (ImportStyle.ofConstant? level = none ∧
      ∃ problem, Walker.styleOf offset level = .error (.unexpectedConstant offset problem)) := by
  cases level with
  | none => exact .inl ⟨.implicit, rfl, rfl⟩
  | bool value => cases value <;> exact .inl ⟨_, rfl, rfl⟩
  | int value =>
    have hminus : value = -1 ↔ value.toInt = -1 := Int64.toInt_inj.symm
    have hzero : value = 0 ↔ value.toInt = 0 := Int64.toInt_inj.symm
    have hneg : value < 0 ↔ value.toInt < 0 := Int64.lt_iff_toInt_lt
    simp only [ImportStyle.ofConstant?, ImportStyle.ofValue?, Walker.styleOf, Constant.int?, hminus,
      hzero, hneg]
    by_cases h1 : value.toInt = -1
    · exact .inl ⟨.implicit, if_pos h1, if_pos h1⟩
    by_cases h0 : value.toInt = 0
    · refine .inl ⟨.absolute, ?_, ?_⟩
      · rw [if_neg h1, if_pos h0]
      · rw [if_neg h1, if_pos h0]
    rw [if_neg h1, if_neg h1, if_neg h0, if_neg h0]
    by_cases hlow : value.toInt < 0
    · exact .inr ⟨if_neg (by omega), _, if_pos hlow⟩
    rw [if_neg hlow]
    by_cases hhigh : value.toInt < 2 ^ 32
    · exact .inl ⟨_, if_pos (by omega), if_pos hhigh⟩
    · exact .inr ⟨if_neg (by omega), _, if_neg hhigh⟩
  | _ => exact .inr ⟨rfl, _, rfl⟩

theorem Instruction.drop_of_not_whole {offset : Nat} {opcode : UInt8} {tail : Bytes}
    (h : ¬(Instruction.read offset opcode tail).Whole) : tail.drop 2 = [] := by
  simp only [Instruction.Whole, Instruction.read, List.length_take] at h
  apply List.drop_eq_nil_of_le
  omega

theorem Instruction.whole_read {tail : Bytes} (h : 2 ≤ tail.length) (offset : Nat)
    (opcode : UInt8) : (Instruction.read offset opcode tail).Whole := by
  simp only [Instruction.Whole, Instruction.read, List.length_take]
  omega

namespace Walker

section Operands

variable (walker : Walker) {instruction : Instruction} {offset : Nat} {opcode : UInt8}
  {tail : Bytes}

theorem operand_eq (h : instruction = .read offset opcode tail) :
    walker.operand offset tail =
      if instruction.Whole then .ok instruction.operand
      else .error (.truncatedInstruction instruction.offset walker.length) := by
  subst h
  match tail with
  | [] | [_] | _ :: _ :: _ =>
    simp [operand, Instruction.read, Instruction.Whole, Instruction.operand]

theorem index_eq (h : instruction = .read offset opcode tail) (size : Nat) (table : Table) :
    (do
      let index ← walker.operand offset tail
      if index < size then .ok index
      else .error (.operandOutside offset index table) : Except Error Nat) =
      if ¬instruction.Whole then .error (.truncatedInstruction instruction.offset walker.length)
      else if instruction.Outside size then
        .error (.operandOutside instruction.offset instruction.operand table)
      else .ok instruction.operand := by
  have hoffset : offset = instruction.offset := by rw [h, Instruction.read]
  rw [operand_eq walker h, hoffset]
  by_cases hwhole : instruction.Whole
  · by_cases hinside : instruction.operand < size
    · simp [hwhole, Instruction.Outside, hinside, bind, Except.bind]
    · simp [hwhole, Instruction.Outside, hinside, bind, Except.bind]
  · simp [hwhole, bind, Except.bind]

theorem nameIndex_eq (h : instruction = .read offset opcode tail) :
    walker.nameIndex offset tail =
      if ¬instruction.Whole then .error (.truncatedInstruction instruction.offset walker.length)
      else if instruction.Outside walker.nameCount then
        .error (.operandOutside instruction.offset instruction.operand .names)
      else .ok instruction.operand :=
  walker.index_eq h walker.nameCount .names

theorem constantIndex_eq (h : instruction = .read offset opcode tail) :
    walker.constantIndex offset tail =
      if ¬instruction.Whole then .error (.truncatedInstruction instruction.offset walker.length)
      else if instruction.Outside walker.constants.size then
        .error (.operandOutside instruction.offset instruction.operand .constants)
      else .ok instruction.operand :=
  walker.index_eq h walker.constants.size .constants

end Operands

/-- What a walk makes of a site whose last instruction is `last`. -/
inductive Verdict (unit : CodeUnit) (site : Site) (last : Instruction) : Except Error Event → Prop
  | event {event : Event} (hgood : ¬site.Bad unit) (hcomplete : site.Complete)
      (hevent : site.event? unit = some event) : Verdict unit site last (.ok event)
  | fault {error : Error} (hbad : site.Bad unit) (herror : site.Blames unit error) :
      Verdict unit site last (.error error)
  | cut (hgood : ¬site.Bad unit) (hlast : ¬last.Whole) :
      Verdict unit site last (.error (.truncatedInstruction last.offset unit.code.length))

theorem verdict_storeEvent (format : Format) (unit : CodeUnit) {instruction : Instruction}
    {offset : Nat} {opcode : UInt8} {tail : Bytes} (h : instruction = .read offset opcode tail) :
    Verdict unit (.store instruction) instruction
      ((start format unit).storeEvent offset tail) := by
  have hoffset : offset = instruction.offset := by rw [h, Instruction.read]
  have hcount : (start format unit).nameCount = unit.names.length := rfl
  rw [storeEvent, nameIndex_eq _ h, hcount, hoffset]
  by_cases hwhole : instruction.Whole
  · rw [if_neg (not_not_intro hwhole)]
    by_cases hout : instruction.Outside unit.names.length
    · rw [if_pos hout]
      exact .fault hout (.store hout)
    · rw [if_neg hout]
      exact .event hout hwhole rfl
  · rw [if_pos hwhole]
    exact .cut (fun hbad => hwhole hbad.1) hwhole

section Triple

variable {level fromlist module : Instruction} {offset : Nat} {opcode second third : UInt8}
  {tail : Bytes}

theorem importEvent_eq (walker : Walker) (hlevel : level = .read offset opcode tail)
    (hfromlist : fromlist = .read (offset + 3) second (tail.drop 3))
    (hmodule : module = .read (offset + 6) third (tail.drop 6))
    (hwhole : level.Whole ∧ fromlist.Whole) :
    walker.importEvent offset tail =
      if level.Outside walker.constants.size then
        .error (.operandOutside level.offset level.operand .constants)
      else if fromlist.Outside walker.constants.size then
        .error (.operandOutside fromlist.offset fromlist.operand .constants)
      else if ¬module.Whole then .error (.truncatedInstruction module.offset walker.length)
      else if module.Outside walker.nameCount then
        .error (.operandOutside module.offset module.operand .names)
      else do
        let style ← styleOf level.offset (walker.constants.getD level.operand .none)
        return .importing level.offset style fromlist.operand module.operand := by
  have hoffset : offset = level.offset := by rw [hlevel, Instruction.read]
  rw [importEvent, walker.constantIndex_eq hlevel, walker.constantIndex_eq hfromlist,
    walker.nameIndex_eq hmodule, hoffset]
  simp only [hwhole.1, hwhole.2, not_true_eq_false, if_false]
  by_cases hout : level.Outside walker.constants.size
  · simp only [hout, if_true]
    rfl
  simp only [hout, if_false]
  by_cases hout : fromlist.Outside walker.constants.size
  · simp only [hout, if_true]
    rfl
  simp only [hout, if_false]
  by_cases hthird : module.Whole
  · by_cases hout : module.Outside walker.nameCount
    · simp only [hthird, hout, not_true_eq_false, if_true, if_false]
      rfl
    · simp only [hthird, hout, not_true_eq_false, if_false]
      rfl
  · simp only [hthird, not_false_eq_true, if_true]
    rfl

theorem bad_triple_iff {unit : CodeUnit} {constant : Constant}
    (hconstant : unit.consts[level.operand]? = some constant)
    (hlevel : ¬level.Outside unit.consts.length) (hfromlist : ¬fromlist.Outside unit.consts.length)
    (hmodule : ¬module.Outside unit.names.length) :
    (Site.triple level fromlist module).Bad unit ↔ ImportStyle.ofConstant? constant = none := by
  simp [Site.Bad, hlevel, hfromlist, hmodule, hconstant]

theorem verdict_importEvent (format : Format) (unit : CodeUnit)
    (hlevel : level = .read offset opcode tail)
    (hfromlist : fromlist = .read (offset + 3) second (tail.drop 3))
    (hmodule : module = .read (offset + 6) third (tail.drop 6))
    (hwhole : level.Whole ∧ fromlist.Whole) :
    Verdict unit (.triple level fromlist module) module
      ((start format unit).importEvent offset tail) := by
  have hsize : (start format unit).constants.size = unit.consts.length := List.size_toArray
  have hcount : (start format unit).nameCount = unit.names.length := rfl
  rw [importEvent_eq _ hlevel hfromlist hmodule hwhole, hsize, hcount]
  by_cases hout₁ : level.Outside unit.consts.length
  · rw [if_pos hout₁]
    exact .fault (.inl hout₁) (.level hout₁)
  by_cases hout₂ : fromlist.Outside unit.consts.length
  · rw [if_neg hout₁, if_pos hout₂]
    exact .fault (.inr (.inl hout₂)) (.fromlist hout₂)
  rw [if_neg hout₁, if_neg hout₂]
  by_cases hthird : ¬module.Whole
  · rw [if_pos hthird]
    -- The missing operand of the import is met before its level is looked at.
    by_cases hbad : (Site.triple level fromlist module).Bad unit
    · exact .fault hbad (.truncated hthird)
    · exact .cut hbad hthird
  rw [if_neg hthird]
  by_cases hout₃ : module.Outside unit.names.length
  · rw [if_pos hout₃]
    exact .fault (.inr (.inr (.inl hout₃))) (.module hout₃)
  rw [if_neg hout₃]
  have hinside : level.operand < unit.consts.length :=
    Nat.lt_of_not_le fun hge => hout₁ ⟨hwhole.1, hge⟩
  have hconstant : unit.consts[level.operand]? = some unit.consts[level.operand] :=
    List.getElem?_eq_getElem hinside
  have hgetD : (start format unit).constants.getD level.operand .none
      = unit.consts[level.operand] := by
    simp [start, hinside]
  have hbad := bad_triple_iff hconstant hout₁ hout₂ hout₃
  rw [hgetD]
  rcases styleOf_cases level.offset unit.consts[level.operand] with
    ⟨style, hsome, hstyle⟩ | ⟨hnone, problem, hstyle⟩
  · rw [hstyle]
    refine .event ?_ ⟨hwhole.1, hwhole.2, Decidable.not_not.mp hthird⟩ ?_
    · rw [hbad, hsome]
      exact fun h => nomatch h
    · simp [Site.event?, hconstant, hsome]
  · rw [hstyle]
    exact .fault (hbad.mpr hnone) (.constant hconstant hnone problem)

end Triple

/-! ## Steps of a walk -/

/-- The results of a walk from `cursor` on account for the disassembly of the bytes ahead. -/
def Covers (format : Format) (unit : CodeUnit) (cursor : Nat) (code : Bytes) : Prop :=
  Accounted unit (sites format (disassemble format cursor code))
    (cut? format (disassemble format cursor code)) ((start format unit).goOn cursor code).results

section Steps

variable {format : Format} {unit : CodeUnit} {cursor : Nat} {opcode : UInt8} {tail : Bytes}

theorem disassemble_import (hregular : format.Regular)
    (h : (start format unit).startsImport opcode tail = true) (cursor : Nat) :
    opcode = format.loadConst ∧ 6 ≤ tail.length ∧
      disassemble format cursor (opcode :: tail) =
        .read cursor format.loadConst tail ::
          .read (cursor + 3) format.loadConst (tail.drop 3) ::
          .read (cursor + 6) format.importName (tail.drop 6) ::
          disassemble format (cursor + 9) (tail.drop 8) := by
  simp only [startsImport, start, Bool.and_eq_true, beq_iff_eq] at h
  obtain ⟨⟨rfl, hsecond⟩, hthird⟩ := h
  obtain ⟨hlt, hsecond⟩ := List.getElem?_eq_some_iff.mp hsecond
  obtain ⟨hlt', hthird⟩ := List.getElem?_eq_some_iff.mp hthird
  have hdrop : tail.drop 2 = format.loadConst :: tail.drop 3 := by
    rw [List.drop_eq_getElem_cons hlt, hsecond]
  have hdrop' : (tail.drop 3).drop 2 = format.importName :: tail.drop 6 := by
    rw [List.drop_drop, List.drop_eq_getElem_cons hlt', hthird]
  refine ⟨rfl, hlt', ?_⟩
  rw [disassemble_argument hregular.load_argument, hdrop,
    disassemble_argument hregular.load_argument, hdrop',
    disassemble_argument hregular.import_argument, List.drop_drop]

theorem covers_nil (format : Format) (unit : CodeUnit) (cursor : Nat) :
    Covers format unit cursor [] := by
  unfold Covers
  rw [results_nil]
  exact .nil none

theorem covers_store (hregular : format.Regular) (hstore : format.IsStore opcode)
    (hrest : Covers format unit (cursor + 3) (tail.drop 2)) :
    Covers format unit cursor (opcode :: tail) := by
  have hargument := hregular.store_argument opcode hstore
  have hverdict : Verdict unit (.store (.read cursor opcode tail)) (.read cursor opcode tail)
      ((start format unit).storeEvent cursor tail) := verdict_storeEvent format unit rfl
  unfold Covers at hrest ⊢
  rw [disassemble_argument hargument, sites_cons_of_store hstore]
  generalize hevent : (start format unit).storeEvent cursor tail = outcome at hverdict
  cases hverdict with
  | event hgood hcomplete hsite =>
    have hresults := results_of_store hstore hevent
    rw [cut?_cons fun h => h.2 hcomplete, hresults]
    exact hrest.good hgood hcomplete hsite
  | fault hbad herror =>
    rw [results_of_store_error hstore hevent]
    exact .bad hbad herror
  | cut hgood hlast =>
    rw [results_of_store_error hstore hevent, Instruction.drop_of_not_whole hlast, disassemble,
      cut?_singleton ⟨hargument, hlast⟩]
    exact .incomplete hgood hlast

theorem covers_import (hregular : format.Regular)
    (himport : (start format unit).startsImport opcode tail = true)
    (hrest : Covers format unit (cursor + 9) (tail.drop 8)) :
    Covers format unit cursor (opcode :: tail) := by
  obtain ⟨hopcode, hlength, hdisassemble⟩ := disassemble_import hregular himport cursor
  have hstore : ¬(start format unit).format.IsStore opcode := hopcode ▸ hregular.load_not_store
  unfold Covers at hrest ⊢
  rw [hdisassemble]
  generalize hlevel : Instruction.read cursor format.loadConst tail = level
  generalize hfromlist : Instruction.read (cursor + 3) format.loadConst (tail.drop 3) = fromlist
  generalize hmodule : Instruction.read (cursor + 6) format.importName (tail.drop 6) = module
  have hwhole : level.Whole ∧ fromlist.Whole := by
    rw [← hlevel, ← hfromlist]
    refine ⟨Instruction.whole_read (by omega) _ _, Instruction.whole_read ?_ _ _⟩
    rw [List.length_drop]
    omega
  have hverdict : Verdict unit (.triple level fromlist module) module
      ((start format unit).importEvent cursor tail) :=
    verdict_importEvent format unit hlevel.symm hfromlist.symm hmodule.symm hwhole
  rw [sites_triple hregular (hlevel ▸ rfl) (hfromlist ▸ rfl) (hmodule ▸ rfl),
    cut?_cons fun h => h.2 hwhole.1, cut?_cons fun h => h.2 hwhole.2]
  generalize hevent : (start format unit).importEvent cursor tail = outcome at hverdict
  cases hverdict with
  | event hgood hcomplete hsite =>
    have hresults := results_of_import hstore himport hevent
    rw [cut?_cons fun h => h.2 hcomplete.2.2, hresults]
    exact hrest.good hgood hcomplete hsite
  | fault hbad herror =>
    rw [results_of_import_error hstore himport hevent]
    exact .bad hbad herror
  | cut hgood hlast =>
    have hdrop : tail.drop 8 = [] := by
      rw [← hmodule] at hlast
      simpa using Instruction.drop_of_not_whole hlast
    have hargument : format.hasArgument module.opcode = true :=
      hmodule ▸ hregular.import_argument
    rw [results_of_import_error hstore himport hevent, hdrop, disassemble,
      cut?_singleton ⟨hargument, hlast⟩]
    exact .incomplete hgood fun hcomplete => hlast hcomplete.2.2

theorem siteAt?_of_other (hregular : format.Regular)
    (hother : (start format unit).Other opcode tail) (cursor : Nat) :
    siteAt? format (.read cursor opcode tail)
      (disassemble format (cursor + 3) (tail.drop 2)) = none := by
  have hstore : ¬format.IsStore (Instruction.read cursor opcode tail).opcode := hother.not_store
  unfold siteAt?
  rw [if_neg hstore]
  split
  · rename_i second third more hnext
    apply if_neg
    rintro ⟨hfirst, hsecond, hthird⟩
    have hload : tail[2]? = some format.loadConst := by
      have hhead := opcode_head?_disassemble format (cursor + 3) (tail.drop 2)
      rw [hnext, List.head?_drop] at hhead
      exact hhead.symm.trans (congrArg some hsecond)
    obtain ⟨hlt, hget⟩ := List.getElem?_eq_some_iff.mp hload
    rw [List.drop_eq_getElem_cons hlt, hget, disassemble_argument hregular.load_argument] at hnext
    have himport : tail[5]? = some format.importName := by
      have hhead := opcode_head?_disassemble format (cursor + 6) (tail.drop 5)
      rw [List.head?_drop] at hhead
      rw [← hhead, ← hthird]
      injection hnext with _ hmore
      rw [List.drop_drop] at hmore
      exact congrArg (fun next => next.head?.map Instruction.opcode) hmore
    apply hother.not_import
    have hfirst : opcode = format.loadConst := hfirst
    simp [startsImport, start, hfirst, hload, himport]
  · rfl

theorem covers_argument (hregular : format.Regular)
    (hother : (start format unit).Other opcode tail) (h : format.hasArgument opcode = true)
    (hrest : Covers format unit (cursor + 3) (tail.drop 2)) :
    Covers format unit cursor (opcode :: tail) := by
  unfold Covers at hrest ⊢
  rw [disassemble_argument h, sites_cons_of_none (siteAt?_of_other hregular hother cursor)]
  by_cases hwhole : (Instruction.read cursor opcode tail).Whole
  · rw [cut?_cons fun htruncated => htruncated.2 hwhole]
    match tail, hother, hrest, hwhole with
    | low :: high :: rest, hother, hrest, _ => exact results_of_argument hother h ▸ hrest
  · have hshort (low high : UInt8) (rest : Bytes) (htail : tail = low :: high :: rest) : False := by
      subst htail
      exact hwhole rfl
    rw [results_of_truncated hother h hshort, Instruction.drop_of_not_whole hwhole, disassemble,
      cut?_singleton ⟨h, hwhole⟩]
    exact .nil (some _)

theorem covers_plain (hregular : format.Regular)
    (hother : (start format unit).Other opcode tail) (h : ¬format.hasArgument opcode = true)
    (hrest : Covers format unit (cursor + 1) tail) :
    Covers format unit cursor (opcode :: tail) := by
  have hquiet : format.Quiet opcode := by
    refine ⟨hother.not_store, ?_⟩
    rintro rfl
    exact h hregular.load_argument
  unfold Covers at hrest ⊢
  rw [disassemble_plain h, sites_cons_of_none (siteAt?_of_quiet hquiet),
    cut?_cons fun htruncated => h htruncated.1, results_of_plain hother h]
  exact hrest

end Steps

/-- What a walk does with the bytes ahead, one instruction or one import at a time. -/
theorem walkInduction (format : Format) (unit : CodeUnit) {motive : Nat → Bytes → Prop}
    (nil : ∀ cursor, motive cursor [])
    (store : ∀ {cursor opcode tail}, format.IsStore opcode →
      motive (cursor + 3) (tail.drop 2) → motive cursor (opcode :: tail))
    (importing : ∀ {cursor opcode tail}, (start format unit).startsImport opcode tail = true →
      motive (cursor + 9) (tail.drop 8) → motive cursor (opcode :: tail))
    (argument : ∀ {cursor opcode tail}, (start format unit).Other opcode tail →
      format.hasArgument opcode = true →
      motive (cursor + 3) (tail.drop 2) → motive cursor (opcode :: tail))
    (plain : ∀ {cursor opcode tail}, (start format unit).Other opcode tail →
      ¬format.hasArgument opcode = true →
      motive (cursor + 1) tail → motive cursor (opcode :: tail))
    (cursor : Nat) (code : Bytes) : motive cursor code := by
  -- An import is stepped over whole, so the induction is on the number of bytes ahead.
  induction hlength : code.length using Nat.strongRecOn generalizing cursor code with
  | ind length ih =>
    subst hlength
    cases code with
    | nil => exact nil cursor
    | cons opcode tail =>
      have hrest (width count : Nat) : motive (cursor + width) (tail.drop count) := by
        refine ih _ ?_ _ _ rfl
        rw [List.length_drop, List.length_cons]
        omega
      by_cases hstore : format.IsStore opcode
      · exact store hstore (hrest 3 2)
      by_cases himport : (start format unit).startsImport opcode tail = true
      · exact importing himport (hrest 9 8)
      by_cases hargument : format.hasArgument opcode = true
      · exact argument ⟨hstore, himport⟩ hargument (hrest 3 2)
      · exact plain ⟨hstore, himport⟩ hargument (hrest 1 0)

/-- A walk accounts for the disassembly of whatever is ahead of it. -/
theorem covers {format : Format} (hregular : format.Regular) (unit : CodeUnit) (cursor : Nat)
    (code : Bytes) : Covers format unit cursor code :=
  walkInduction format unit (covers_nil format unit) (covers_store hregular)
    (covers_import hregular) (covers_argument hregular) (covers_plain hregular) cursor code

/-- The results of a walk over a unit account for the linear disassembly of its code: one event
for each complete store and import in the order of their offsets, up to the first bad one, whose
error comes next and is the last; without a bad one, an error for a last instruction that is cut
short, and nothing else. Behind the results there is nothing more, however often one asks. -/
theorem results_account_for_disassembly {format : Format} (hformat : format ∈ Format.supported)
    (unit : CodeUnit) :
    ∃ events ending, (start format unit).results = events.map .ok ++ ending ∧
      Accounts unit (sites format (disassemble format 0 unit.code))
        (cut? format (disassemble format 0 unit.code)) events ending ∧
      (events.map Event.offset).Pairwise (· < ·) ∧
      (start format unit).run.2.next = (none, (start format unit).run.2) := by
  obtain ⟨events, ending, hresults, haccounts⟩ :=
    covers (Format.regular_of_supported hformat) unit 0 unit.code
  exact ⟨events, ending, hresults, haccounts, haccounts.offset_pairwise, next_run _⟩

/-- Three loads before an import, a store, and an import whose operand is cut short. -/
def loadingUnit : CodeUnit where
  marker := 62211
  code := [100, 0, 0, 100, 0, 0, 100, 1, 0, 108, 0, 0, 90, 0, 0, 1, 100, 0, 0, 100, 1, 0, 108, 0]
  consts := [.int (-1), .none]
  names := ["os"]

theorem results_account_for_disassembly_loadingUnit :
    Format.v27 ∈ Format.supported ∧
      ∃ events ending, (start .v27 loadingUnit).results = events.map .ok ++ ending ∧
        Accounts loadingUnit (sites .v27 (disassemble .v27 0 loadingUnit.code))
          (cut? .v27 (disassemble .v27 0 loadingUnit.code)) events ending ∧
        (events.map Event.offset).Pairwise (· < ·) ∧
        (start .v27 loadingUnit).run.2.next = (none, (start .v27 loadingUnit).run.2) := by
  have hformat : Format.v27 ∈ Format.supported := by decide
  exact ⟨hformat, results_account_for_disassembly hformat loadingUnit⟩

end Walker

end ImportAtlas
