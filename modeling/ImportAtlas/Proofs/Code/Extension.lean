import ImportAtlas.Proofs.Code.Coverage
import Mathlib.Data.List.Chain
import Mathlib.Data.List.Nodup

/-!
# Operands in two halves

An operand has two bytes. For an index beyond them there is the extension, an
instruction that stands right before another one and holds the upper half of its
operand. A walk has no use for extensions: it steps over them and takes the two
bytes of a store or an import as they are. The main statement says what that
comes to. No extension fits between the three instructions of an import that a
walk finds, so the module and the list of names are always those that are meant.
Only the operand in front, the name of a store or the level of an import, is
read without its upper half.
-/

namespace ImportAtlas

/-- The operand of the extension right before an instruction; zero if there is none. -/
def upperHalf (format : Format) (instructions : List Instruction) (instruction : Instruction) :
    Nat :=
  ((instructions.find? fun other =>
    other.opcode = format.extendedArg ∧ other.offset + 3 = instruction.offset).map
      Instruction.operand).getD 0

def fullOperand (format : Format) (instructions : List Instruction) (instruction : Instruction) :
    Nat :=
  upperHalf format instructions instruction * 0x10000 + instruction.operand

/-! ## Reports on sites -/

namespace Site

def first : Site → Instruction
  | .store instruction => instruction
  | .triple level _ _ => level

def others : Site → List Instruction
  | .store _ => []
  | .triple _ fromlist module => [fromlist, module]

/-- What is to be reported of a site, if `head` reads the operand of its first instruction and
`later` those of the others. -/
inductive Reported (unit : CodeUnit) (head later : Instruction → Nat) :
    Site → Except Error Event → Prop
  | store {instruction : Instruction} (h : head instruction < unit.names.length) :
      Reported unit head later (.store instruction)
        (.ok (.store instruction.offset (head instruction)))
  | storeOutside {instruction : Instruction} (h : unit.names.length ≤ head instruction) :
      Reported unit head later (.store instruction)
        (.error (.operandOutside instruction.offset (head instruction) .names))
  | importing {level fromlist module : Instruction} {constant : Constant} {style : ImportStyle}
      (hlevel : unit.consts[head level]? = some constant)
      (hfromlist : later fromlist < unit.consts.length) (hmodule : later module < unit.names.length)
      (hstyle : ImportStyle.ofConstant? constant = some style) :
      Reported unit head later (.triple level fromlist module)
        (.ok (.importing level.offset style (later fromlist) (later module)))
  | levelOutside {level fromlist module : Instruction} (h : unit.consts.length ≤ head level) :
      Reported unit head later (.triple level fromlist module)
        (.error (.operandOutside level.offset (head level) .constants))
  | fromlistOutside {level fromlist module : Instruction} (hlevel : head level < unit.consts.length)
      (h : unit.consts.length ≤ later fromlist) :
      Reported unit head later (.triple level fromlist module)
        (.error (.operandOutside fromlist.offset (later fromlist) .constants))
  | moduleOutside {level fromlist module : Instruction} (hlevel : head level < unit.consts.length)
      (hfromlist : later fromlist < unit.consts.length) (h : unit.names.length ≤ later module) :
      Reported unit head later (.triple level fromlist module)
        (.error (.operandOutside module.offset (later module) .names))
  | noLevel {level fromlist module : Instruction} {constant : Constant}
      (hlevel : unit.consts[head level]? = some constant)
      (hfromlist : later fromlist < unit.consts.length) (hmodule : later module < unit.names.length)
      (hstyle : ImportStyle.ofConstant? constant = none) (problem : ConstantProblem) :
      Reported unit head later (.triple level fromlist module)
        (.error (.unexpectedConstant level.offset problem))

end Site

/-- Results that report the sites one by one, up to the first error. -/
inductive Answered (unit : CodeUnit) (head later : Instruction → Nat) :
    List Site → List (Except Error Event) → Prop
  | nil : Answered unit head later [] []
  | event {site : Site} {found : List Site} {event : Event} {results : List (Except Error Event)}
      (hsite : site.Reported unit head later (.ok event))
      (hrest : Answered unit head later found results) :
      Answered unit head later (site :: found) (.ok event :: results)
  | error {site : Site} {found : List Site} {error : Error}
      (hsite : site.Reported unit head later (.error error)) :
      Answered unit head later (site :: found) [.error error]

section Congr

variable {unit : CodeUnit} {head later head' later' : Instruction → Nat}

theorem Site.Reported.congr {site : Site} {result : Except Error Event}
    (hfirst : head site.first = head' site.first)
    (hothers : ∀ instruction ∈ site.others, later instruction = later' instruction)
    (h : site.Reported unit head later result) : site.Reported unit head' later' result := by
  cases site with
  | store instruction =>
    change head instruction = head' instruction at hfirst
    cases h with
    | store h =>
      rw [hfirst] at h ⊢
      exact .store h
    | storeOutside h =>
      rw [hfirst] at h ⊢
      exact .storeOutside h
  | triple level fromlist module =>
    change head level = head' level at hfirst
    have hfrom := hothers fromlist (by simp [others])
    have hname := hothers module (by simp [others])
    cases h with
    | importing hlevel hfromlist hmodule hstyle =>
      rw [hfirst] at hlevel
      rw [hfrom] at hfromlist ⊢
      rw [hname] at hmodule ⊢
      exact .importing hlevel hfromlist hmodule hstyle
    | levelOutside h =>
      rw [hfirst] at h ⊢
      exact .levelOutside h
    | fromlistOutside hlevel h =>
      rw [hfirst] at hlevel
      rw [hfrom] at h ⊢
      exact .fromlistOutside hlevel h
    | moduleOutside hlevel hfromlist h =>
      rw [hfirst] at hlevel
      rw [hfrom] at hfromlist
      rw [hname] at h ⊢
      exact .moduleOutside hlevel hfromlist h
    | noLevel hlevel hfromlist hmodule hstyle problem =>
      rw [hfirst] at hlevel
      rw [hfrom] at hfromlist
      rw [hname] at hmodule
      exact .noLevel hlevel hfromlist hmodule hstyle problem

theorem Site.Reported.level_lt {level fromlist module : Instruction} {event : Event}
    (h : (Site.triple level fromlist module).Reported unit head later (.ok event)) :
    head level < unit.consts.length := by
  cases h with
  | importing hlevel hfromlist hmodule hstyle => exact (List.getElem?_eq_some_iff.1 hlevel).1

theorem Answered.congr {found : List Site} {results : List (Except Error Event)}
    (hfound : ∀ site ∈ found, head site.first = head' site.first ∧
      ∀ instruction ∈ site.others, later instruction = later' instruction)
    (h : Answered unit head later found results) : Answered unit head' later' found results := by
  induction h with
  | nil => exact .nil
  | event hsite hrest ih =>
    obtain ⟨⟨hfirst, hothers⟩, hfound⟩ := List.forall_mem_cons.1 hfound
    exact .event (hsite.congr hfirst hothers) (ih hfound)
  | error hsite =>
    obtain ⟨⟨hfirst, hothers⟩, -⟩ := List.forall_mem_cons.1 hfound
    exact .error (hsite.congr hfirst hothers)

end Congr

namespace Walker

/-! ## A walk takes operands as they stand -/

theorem reported_storeEvent (format : Format) (unit : CodeUnit) {instruction : Instruction}
    {offset : Nat} {opcode : UInt8} {tail : Bytes} (h : instruction = .read offset opcode tail)
    (hwhole : instruction.Whole) :
    (Site.store instruction).Reported unit Instruction.operand Instruction.operand
      ((start format unit).storeEvent offset tail) := by
  have hoffset : offset = instruction.offset := by rw [h, Instruction.read]
  have hcount : (start format unit).nameCount = unit.names.length := rfl
  rw [storeEvent, nameIndex_eq _ h, hcount, hoffset, if_neg (not_not_intro hwhole)]
  by_cases hout : instruction.Outside unit.names.length
  · rw [if_pos hout]
    exact .storeOutside hout.2
  · rw [if_neg hout]
    exact .store (Nat.lt_of_not_le fun hge => hout ⟨hwhole, hge⟩)

theorem reported_importEvent (format : Format) (unit : CodeUnit)
    {level fromlist module : Instruction} {offset : Nat} {opcode second third : UInt8}
    {tail : Bytes}
    (hlevel : level = .read offset opcode tail)
    (hfromlist : fromlist = .read (offset + 3) second (tail.drop 3))
    (hmodule : module = .read (offset + 6) third (tail.drop 6))
    (hwhole : (level.Whole ∧ fromlist.Whole) ∧ module.Whole) :
    (Site.triple level fromlist module).Reported unit Instruction.operand Instruction.operand
      ((start format unit).importEvent offset tail) := by
  have hsize : (start format unit).constants.size = unit.consts.length := List.size_toArray
  have hcount : (start format unit).nameCount = unit.names.length := rfl
  rw [importEvent_eq _ hlevel hfromlist hmodule hwhole.1, hsize, hcount,
    if_neg (not_not_intro hwhole.2)]
  by_cases hout₁ : level.Outside unit.consts.length
  · rw [if_pos hout₁]
    exact .levelOutside hout₁.2
  have hin₁ : level.operand < unit.consts.length :=
    Nat.lt_of_not_le fun hge => hout₁ ⟨hwhole.1.1, hge⟩
  by_cases hout₂ : fromlist.Outside unit.consts.length
  · rw [if_neg hout₁, if_pos hout₂]
    exact .fromlistOutside hin₁ hout₂.2
  have hin₂ : fromlist.operand < unit.consts.length :=
    Nat.lt_of_not_le fun hge => hout₂ ⟨hwhole.1.2, hge⟩
  rw [if_neg hout₁, if_neg hout₂]
  by_cases hout₃ : module.Outside unit.names.length
  · rw [if_pos hout₃]
    exact .moduleOutside hin₁ hin₂ hout₃.2
  have hin₃ : module.operand < unit.names.length :=
    Nat.lt_of_not_le fun hge => hout₃ ⟨hwhole.2, hge⟩
  have hconstant : unit.consts[level.operand]? = some unit.consts[level.operand] :=
    List.getElem?_eq_getElem hin₁
  have hgetD : (start format unit).constants.getD level.operand .none
      = unit.consts[level.operand] := by
    simp [start, hin₁]
  rw [if_neg hout₃, hgetD]
  rcases styleOf_cases level.offset unit.consts[level.operand] with
    ⟨style, hsome, hstyle⟩ | ⟨hnone, problem, hstyle⟩
  · rw [hstyle]
    exact .importing hconstant hin₂ hin₃ hsome
  · rw [hstyle]
    exact .noLevel hconstant hin₂ hin₃ hnone problem

section Steps

variable {format : Format} {unit : CodeUnit} {cursor : Nat} {opcode : UInt8} {tail : Bytes}

/-- The results of a walk from `cursor` on report the sites ahead by the operands in place, as long
as no instruction ahead is cut short. -/
def Answers (format : Format) (unit : CodeUnit) (cursor : Nat) (code : Bytes) : Prop :=
  (∀ instruction ∈ disassemble format cursor code, ¬instruction.Truncated format) →
    Answered unit Instruction.operand Instruction.operand
      (sites format (disassemble format cursor code)) ((start format unit).goOn cursor code).results

theorem answers_store (hregular : format.Regular) (hstore : format.IsStore opcode)
    (hrest : Answers format unit (cursor + 3) (tail.drop 2)) :
    Answers format unit cursor (opcode :: tail) := by
  have hargument := hregular.store_argument opcode hstore
  unfold Answers at hrest ⊢
  rw [disassemble_argument hargument, sites_cons_of_store hstore, List.forall_mem_cons]
  rintro ⟨hfirst, hlater⟩
  have hwhole : (Instruction.read cursor opcode tail).Whole :=
    Decidable.byContradiction fun hcut => hfirst ⟨hargument, hcut⟩
  have hreported := reported_storeEvent format unit rfl hwhole
  cases hevent : (start format unit).storeEvent cursor tail with
  | ok event =>
    rw [hevent] at hreported
    have hresults := results_of_store hstore hevent
    rw [hresults]
    exact .event hreported (hrest hlater)
  | error error =>
    rw [hevent] at hreported
    rw [results_of_store_error hstore hevent]
    exact .error hreported

theorem answers_import (hregular : format.Regular)
    (himport : (start format unit).startsImport opcode tail = true)
    (hrest : Answers format unit (cursor + 9) (tail.drop 8)) :
    Answers format unit cursor (opcode :: tail) := by
  obtain ⟨hopcode, hlength, hdisassemble⟩ := disassemble_import hregular himport cursor
  have hstore : ¬(start format unit).format.IsStore opcode := hopcode ▸ hregular.load_not_store
  unfold Answers at hrest ⊢
  rw [hdisassemble, sites_triple hregular rfl rfl rfl]
  simp only [List.forall_mem_cons]
  rintro ⟨-, -, hthird, hlater⟩
  have hlevel : (Instruction.read cursor format.loadConst tail).Whole :=
    Instruction.whole_read (by omega) _ _
  have hfromlist : (Instruction.read (cursor + 3) format.loadConst (tail.drop 3)).Whole := by
    apply Instruction.whole_read
    rw [List.length_drop]
    omega
  have hmodule : (Instruction.read (cursor + 6) format.importName (tail.drop 6)).Whole :=
    Decidable.byContradiction fun hcut => hthird ⟨hregular.import_argument, hcut⟩
  have hreported := reported_importEvent format unit rfl rfl rfl ⟨⟨hlevel, hfromlist⟩, hmodule⟩
  cases hevent : (start format unit).importEvent cursor tail with
  | ok event =>
    rw [hevent] at hreported
    have hresults := results_of_import hstore himport hevent
    rw [hresults]
    exact .event hreported (hrest hlater)
  | error error =>
    rw [hevent] at hreported
    rw [results_of_import_error hstore himport hevent]
    exact .error hreported

theorem answers_argument (hregular : format.Regular)
    (hother : (start format unit).Other opcode tail) (h : format.hasArgument opcode = true)
    (hrest : Answers format unit (cursor + 3) (tail.drop 2)) :
    Answers format unit cursor (opcode :: tail) := by
  unfold Answers at hrest ⊢
  rw [disassemble_argument h, sites_cons_of_none (siteAt?_of_other hregular hother cursor),
    List.forall_mem_cons]
  rintro ⟨hfirst, hlater⟩
  have hwhole : (Instruction.read cursor opcode tail).Whole :=
    Decidable.byContradiction fun hcut => hfirst ⟨h, hcut⟩
  match tail, hother, hrest, hlater, hwhole with
  | low :: high :: rest, hother, hrest, hlater, _ =>
    have hresults : ((start format unit).goOn cursor (opcode :: low :: high :: rest)).results
        = ((start format unit).goOn (cursor + argumentWidth) rest).results :=
      results_of_argument hother h
    rw [hresults]
    exact hrest hlater

theorem answers_plain (hregular : format.Regular)
    (hother : (start format unit).Other opcode tail) (h : ¬format.hasArgument opcode = true)
    (hrest : Answers format unit (cursor + 1) tail) :
    Answers format unit cursor (opcode :: tail) := by
  have hquiet : format.Quiet opcode := by
    refine ⟨hother.not_store, ?_⟩
    rintro rfl
    exact h hregular.load_argument
  unfold Answers at hrest ⊢
  rw [disassemble_plain h, sites_cons_of_none (siteAt?_of_quiet hquiet), results_of_plain hother h,
    List.forall_mem_cons]
  exact fun hwhole => hrest hwhole.2

theorem answers (hregular : format.Regular) (unit : CodeUnit) (cursor : Nat) (code : Bytes) :
    Answers format unit cursor code := by
  refine walkInduction format unit ?_ (answers_store hregular) (answers_import hregular)
    (answers_argument hregular) (answers_plain hregular) cursor code
  intro cursor _
  rw [results_nil]
  exact .nil

end Steps

end Walker

/-! ## Where an extension can stand -/

section Neighbours

variable {format : Format} {instructions : List Instruction} {site : Site}

theorem isChain_disassemble (format : Format) (offset : Nat) (code : Bytes) :
    (disassemble format offset code).IsChain fun first second =>
      format.hasArgument first.opcode = true → second.offset = first.offset + 3 := by
  refine (disassemble_induction (motive := fun offset instructions =>
    (∀ first ∈ instructions.head?, first.offset = offset) ∧
      instructions.IsChain fun first second =>
        format.hasArgument first.opcode = true → second.offset = first.offset + 3)
    ?_ ?_ offset code).2
  · exact fun _ => ⟨by simp, .nil⟩
  · rintro first next rest - hargument ⟨hhead, hchain⟩
    refine ⟨?_, List.isChain_cons.2 ⟨?_, hchain⟩⟩
    · rintro _ ⟨⟩
      rfl
    · intro second hsecond h
      rw [hhead second hsecond, hargument h]

theorem exists_of_mem_sites (h : site ∈ sites format instructions) :
    ∃ before first rest, instructions = before ++ first :: rest ∧
      siteAt? format first rest = some site := by
  induction instructions with
  | nil => cases h
  | cons first rest ih =>
    rw [sites, List.mem_append, Option.mem_toList] at h
    rcases h with hsite | hlater
    · exact ⟨[], first, rest, rfl, hsite⟩
    · obtain ⟨before, next, more, rfl, hsite⟩ := ih hlater
      exact ⟨first :: before, next, more, rfl, hsite⟩

theorem siteAt?_cases {first : Instruction} {rest : List Instruction}
    (h : siteAt? format first rest = some site) :
    (format.IsStore first.opcode ∧ site = .store first) ∨
    (first.opcode = format.loadConst ∧ ∃ second third more, rest = second :: third :: more ∧
      second.opcode = format.loadConst ∧ site = .triple first second third) := by
  unfold siteAt? at h
  split at h
  · rename_i hstore
    cases h
    exact .inl ⟨hstore, rfl⟩
  · split at h
    · rename_i second third more
      split at h
      · rename_i hopcodes
        cases h
        exact .inr ⟨hopcodes.1, second, third, more, rfl, hopcodes.2.1, rfl⟩
      · cases h
    · cases h

theorem operand_lt_of_whole {instruction : Instruction} (h : instruction.Whole) :
    instruction.operand < 0x10000 := by
  obtain ⟨low, high, hbytes⟩ := List.length_eq_two.1 h
  have hlow := low.toNat_lt
  have hhigh := high.toNat_lt
  simp only [Instruction.operand, hbytes, Word.decode]
  omega

theorem operand_first_lt (hregular : format.Regular)
    (hwhole : ∀ instruction ∈ instructions, ¬instruction.Truncated format)
    (h : site ∈ sites format instructions) : site.first.operand < 0x10000 := by
  obtain ⟨before, first, rest, rfl, hsite⟩ := exists_of_mem_sites h
  have hfirst : site.first = first ∧ format.hasArgument first.opcode = true := by
    rcases siteAt?_cases hsite with ⟨hstore, rfl⟩ | ⟨hload, second, third, more, -, -, rfl⟩
    · exact ⟨rfl, hregular.store_argument _ hstore⟩
    · exact ⟨rfl, hload ▸ hregular.load_argument⟩
  rw [hfirst.1]
  apply operand_lt_of_whole
  apply Decidable.byContradiction
  intro hcut
  exact hwhole first (by simp) ⟨hfirst.2, hcut⟩

theorem upperHalf_eq_zero (hdistinct : (instructions.map Instruction.offset).Nodup)
    {previous instruction : Instruction} (hprevious : previous ∈ instructions)
    (hoffset : instruction.offset = previous.offset + 3)
    (hopcode : previous.opcode ≠ format.extendedArg) :
    upperHalf format instructions instruction = 0 := by
  have hnone : instructions.find? (fun other =>
      other.opcode = format.extendedArg ∧ other.offset + 3 = instruction.offset) = none := by
    rw [List.find?_eq_none]
    intro other hother hextension
    obtain ⟨hextended, hbefore⟩ := of_decide_eq_true hextension
    have hsame : other = previous := by
      apply List.inj_on_of_nodup_map hdistinct hother hprevious
      omega
    exact hopcode (hsame ▸ hextended)
  rw [upperHalf, hnone]
  rfl

theorem upperHalf_others {offset : Nat} {code : Bytes} (hregular : format.Regular)
    (hload : format.loadConst ≠ format.extendedArg)
    (h : site ∈ sites format (disassemble format offset code)) {instruction : Instruction}
    (hother : instruction ∈ site.others) :
    upperHalf format (disassemble format offset code) instruction = 0 := by
  have hchain := isChain_disassemble format offset code
  have hdistinct : ((disassemble format offset code).map Instruction.offset).Nodup :=
    (offset_pairwise_disassemble format offset code).imp Nat.ne_of_lt
  obtain ⟨before, first, rest, hinstructions, hsite⟩ := exists_of_mem_sites h
  rcases siteAt?_cases hsite with ⟨-, rfl⟩ | ⟨hfirst, second, third, more, rfl, hsecond, rfl⟩
  · cases hother
  rw [hinstructions] at hchain hdistinct ⊢
  obtain ⟨-, hnext, hchain⟩ := List.isChain_append_cons_cons.1 hchain
  have hlast := (List.isChain_cons_cons.1 hchain).1
  have hothers : instruction = second ∨ instruction = third := by
    simpa [Site.others] using hother
  rcases hothers with rfl | rfl
  · have hoffset := hnext (hfirst ▸ hregular.load_argument)
    exact upperHalf_eq_zero hdistinct (by simp) hoffset (hfirst ▸ hload)
  · have hoffset := hlast (hsecond ▸ hregular.load_argument)
    exact upperHalf_eq_zero hdistinct (by simp) hoffset (hsecond ▸ hload)

end Neighbours

theorem loadConst_ne_extendedArg {format : Format} (h : format ∈ Format.supported) :
    format.loadConst ≠ format.extendedArg := by
  have h : format = .v26 ∨ format = .v27 := by simpa [Format.supported] using h
  rcases h with rfl | rfl <;> decide

namespace Walker

/-- Over whole instructions, a walk reports every site by the operands that are meant, extensions
included, save for the one in front: the name of a store and the level of an import are taken
without the upper half. So all is reported as meant if no site has an extension with an upper half
in front of it. -/
theorem results_read_operands {format : Format} (hformat : format ∈ Format.supported)
    (unit : CodeUnit)
    (hwhole : ∀ instruction ∈ disassemble format 0 unit.code, ¬instruction.Truncated format) :
    let instructions := disassemble format 0 unit.code
    let full := fullOperand format instructions
    Answered unit (full · % 0x10000) full (sites format instructions)
      (start format unit).results ∧
    ((∀ site ∈ sites format instructions, upperHalf format instructions site.first = 0) →
      Answered unit full full (sites format instructions) (start format unit).results) := by
  intro instructions full
  have hregular := Format.regular_of_supported hformat
  have hanswered := answers hregular unit 0 unit.code hwhole
  have hothers (site : Site) (hsite : site ∈ sites format instructions) (instruction : Instruction)
      (hother : instruction ∈ site.others) : instruction.operand = full instruction := by
    have hupper : upperHalf format instructions instruction = 0 :=
      upperHalf_others hregular (loadConst_ne_extendedArg hformat) hsite hother
    change _ = upperHalf format instructions instruction * 0x10000 + instruction.operand
    omega
  constructor
  · refine hanswered.congr fun site hsite => ⟨?_, hothers site hsite⟩
    have hlower := operand_first_lt hregular hwhole hsite
    change _ = (upperHalf format instructions site.first * 0x10000 + site.first.operand) % 0x10000
    omega
  · intro hnone
    refine hanswered.congr fun site hsite => ⟨?_, hothers site hsite⟩
    have hupper := hnone site hsite
    change _ = upperHalf format instructions site.first * 0x10000 + site.first.operand
    omega

/-- An import whose level is meant to be the constant with the index 65536. -/
def extendedUnit : CodeUnit where
  marker := 62211
  code := [145, 1, 0, 100, 0, 0, 100, 1, 0, 108, 0, 0]
  consts := [.int 0, .none]
  names := ["os"]

/-- An import and a store, behind a load of the name with the index 65536. -/
def extendedLoadUnit : CodeUnit where
  marker := 62211
  code := [145, 1, 0, 101, 0, 0, 100, 0, 0, 100, 1, 0, 108, 0, 0, 90, 0, 0]
  consts := [.int 0, .none]
  names := ["os"]

theorem results_read_operands_extendedUnit :
    let instructions := disassemble .v27 0 extendedUnit.code
    let others := disassemble .v27 0 extendedLoadUnit.code
    let full := fullOperand .v27 instructions
    let otherFull := fullOperand .v27 others
    Format.v27 ∈ Format.supported ∧
    (∀ instruction ∈ instructions, ¬instruction.Truncated .v27) ∧
    Answered extendedUnit (full · % 0x10000) full (sites .v27 instructions)
      (start .v27 extendedUnit).results ∧
    (∀ instruction ∈ others, ¬instruction.Truncated .v27) ∧
    (∀ site ∈ sites .v27 others, upperHalf .v27 others site.first = 0) ∧
    Answered extendedLoadUnit otherFull otherFull (sites .v27 others)
      (start .v27 extendedLoadUnit).results := by
  have hformat : Format.v27 ∈ Format.supported := by decide
  have hwhole : ∀ instruction ∈ disassemble .v27 0 extendedUnit.code,
      ¬instruction.Truncated .v27 := by decide
  have hothers : ∀ instruction ∈ disassemble .v27 0 extendedLoadUnit.code,
      ¬instruction.Truncated .v27 := by decide
  have hnone : ∀ site ∈ sites .v27 (disassemble .v27 0 extendedLoadUnit.code),
      upperHalf .v27 (disassemble .v27 0 extendedLoadUnit.code) site.first = 0 := by
    have hsites : sites .v27 (disassemble .v27 0 extendedLoadUnit.code)
        = [.triple ⟨6, 100, [0, 0]⟩ ⟨9, 100, [1, 0]⟩ ⟨12, 108, [0, 0]⟩, .store ⟨15, 90, [0, 0]⟩] :=
      rfl
    rw [hsites]
    simp only [List.forall_mem_cons]
    exact ⟨by decide, by decide, by simp⟩
  exact ⟨hformat, hwhole, (results_read_operands hformat extendedUnit hwhole).1, hothers, hnone,
    (results_read_operands hformat extendedLoadUnit hothers).2 hnone⟩

/-- A walk reports an absolute import, by the constant at index zero, although the level that is
meant is outside the table. -/
theorem extended_level_misread :
    let instructions := disassemble .v27 0 extendedUnit.code
    let full := fullOperand .v27 instructions
    (∀ instruction ∈ instructions, ¬instruction.Truncated .v27) ∧
    (start .v27 extendedUnit).results = [.ok (.importing 3 .absolute 1 0)] ∧
    ¬Answered extendedUnit full full (sites .v27 instructions)
      (start .v27 extendedUnit).results := by
  intro instructions full
  have hextension : (start .v27 extendedUnit).results
      = ((start .v27 extendedUnit).goOn 3 (extendedUnit.code.drop 3)).results := by
    change ((start .v27 extendedUnit).goOn 0
      (145 :: 1 :: 0 :: extendedUnit.code.drop 3)).results = _
    exact results_of_argument ⟨by decide, by decide⟩ (by decide)
  have himport : ((start .v27 extendedUnit).goOn 3 (extendedUnit.code.drop 3)).results
      = .ok (.importing 3 .absolute 1 0)
        :: ((start .v27 extendedUnit).goOn (3 + importWidth) []).results := by
    change ((start .v27 extendedUnit).goOn 3 (100 :: extendedUnit.code.drop 4)).results = _
    exact results_of_import (by decide) (by decide) rfl
  have hresults : (start .v27 extendedUnit).results = [.ok (.importing 3 .absolute 1 0)] := by
    rw [hextension, himport, results_nil]
  refine ⟨by decide, hresults, ?_⟩
  rw [hresults]
  intro hanswered
  have hsites : sites .v27 instructions
      = [.triple ⟨3, 100, [0, 0]⟩ ⟨6, 100, [1, 0]⟩ ⟨9, 108, [0, 0]⟩] := rfl
  rw [hsites] at hanswered
  have houtside : extendedUnit.consts.length ≤ full ⟨3, 100, [0, 0]⟩ := by decide
  cases hanswered with
  | event hsite hrest =>
    have hinside := hsite.level_lt
    omega

end Walker

end ImportAtlas
