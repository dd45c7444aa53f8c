import ImportAtlas.Proofs.Code.Walk

/-!
# Linear disassembly

The textbook reading of an instruction buffer: cut it into instructions from the
first byte on, then look at every instruction and at every three in a row. Which
stores and imports are there, which of them are at fault and what is left over at
the end is said here of the list of instructions alone, and `Accounts` says what
results such a list calls for. How a walk comes to them is not looked at.
-/

namespace ImportAtlas

/-- One instruction of a buffer, with as much of its operand as the buffer holds. -/
structure Instruction where
  offset : Nat
  opcode : UInt8
  argument : Bytes
  deriving DecidableEq, Repr

namespace Instruction

def read (offset : Nat) (opcode : UInt8) (tail : Bytes) : Instruction :=
  ⟨offset, opcode, tail.take 2⟩

def operand (instruction : Instruction) : Nat :=
  Word.decode instruction.argument

def Whole (instruction : Instruction) : Prop :=
  instruction.argument.length = 2

def Outside (size : Nat) (instruction : Instruction) : Prop :=
  instruction.Whole ∧ size ≤ instruction.operand

def Truncated (format : Format) (instruction : Instruction) : Prop :=
  format.hasArgument instruction.opcode = true ∧ ¬instruction.Whole

instance (instruction : Instruction) : Decidable instruction.Whole :=
  inferInstanceAs (Decidable (_ = _))

instance (size : Nat) (instruction : Instruction) : Decidable (instruction.Outside size) :=
  inferInstanceAs (Decidable (_ ∧ _))

instance (format : Format) (instruction : Instruction) :
    Decidable (instruction.Truncated format) :=
  inferInstanceAs (Decidable (_ ∧ _))

end Instruction

/-- The instructions of a buffer whose first byte is at `offset`. -/
def disassemble (format : Format) : (offset : Nat) → Bytes → List Instruction
  | _, [] => []
  | offset, opcode :: tail =>
    if format.hasArgument opcode then
      match tail with
      | low :: high :: rest =>
        ⟨offset, opcode, [low, high]⟩ :: disassemble format (offset + 3) rest
      | short => [⟨offset, opcode, short⟩]
    else ⟨offset, opcode, []⟩ :: disassemble format (offset + 1) tail

def cut? (format : Format) (instructions : List Instruction) : Option Instruction :=
  instructions.getLast?.filter (·.Truncated format)

/-! ## Stores and imports among instructions -/

/-- The style a level stands for: implicit for minus one, absolute for zero, relative above. -/
def ImportStyle.ofValue? (level : Int) : Option ImportStyle :=
  if level = -1 then some .implicit
  else if level = 0 then some .absolute
  else if 1 ≤ level ∧ level < 0x100000000 then some (.relative (UInt32.ofNat level.toNat))
  else none

def ImportStyle.ofConstant? : Constant → Option ImportStyle
  | .none => some .implicit
  | .int level => ofValue? level.toInt
  | .bool level => ofValue? level.toInt
  | _ => none

/-- Instructions that a walk must not step over. -/
inductive Site where
  | store (instruction : Instruction)
  | triple (level fromlist module : Instruction)

namespace Site

def Complete : Site → Prop
  | .store instruction => instruction.Whole
  | .triple level fromlist module => level.Whole ∧ fromlist.Whole ∧ module.Whole

def Bad (unit : CodeUnit) : Site → Prop
  | .store instruction => instruction.Outside unit.names.length
  | .triple level fromlist module =>
    level.Outside unit.consts.length ∨ fromlist.Outside unit.consts.length ∨
      module.Outside unit.names.length ∨
      ∃ constant ∈ unit.consts[level.operand]?, ImportStyle.ofConstant? constant = none

instance : DecidablePred Complete
  | .store _ => inferInstanceAs (Decidable (Instruction.Whole _))
  | .triple _ _ _ => inferInstanceAs (Decidable (_ ∧ _))

instance (unit : CodeUnit) : DecidablePred (Bad unit)
  | .store _ => inferInstanceAs (Decidable (Instruction.Outside _ _))
  | .triple _ _ _ => inferInstanceAs (Decidable (_ ∨ _))

def event? (unit : CodeUnit) : Site → Option Event
  | .store instruction => some (.store instruction.offset instruction.operand)
  | .triple level fromlist module => do
    let style ← ImportStyle.ofConstant? (← unit.consts[level.operand]?)
    return .importing level.offset style fromlist.operand module.operand

/-- The error says what is wrong with an instruction of the site, and where that is. -/
inductive Blames (unit : CodeUnit) : Site → Error → Prop
  | store {instruction : Instruction} (h : instruction.Outside unit.names.length) :
      Blames unit (.store instruction)
        (.operandOutside instruction.offset instruction.operand .names)
  | level {level fromlist module : Instruction} (h : level.Outside unit.consts.length) :
      Blames unit (.triple level fromlist module)
        (.operandOutside level.offset level.operand .constants)
  | fromlist {level fromlist module : Instruction} (h : fromlist.Outside unit.consts.length) :
      Blames unit (.triple level fromlist module)
        (.operandOutside fromlist.offset fromlist.operand .constants)
  | module {level fromlist module : Instruction} (h : module.Outside unit.names.length) :
      Blames unit (.triple level fromlist module)
        (.operandOutside module.offset module.operand .names)
  | truncated {level fromlist module : Instruction} (h : ¬module.Whole) :
      Blames unit (.triple level fromlist module)
        (.truncatedInstruction module.offset unit.code.length)
  | constant {level fromlist module : Instruction} {constant : Constant}
      (hconstant : unit.consts[level.operand]? = some constant)
      (h : ImportStyle.ofConstant? constant = none) (problem : ConstantProblem) :
      Blames unit (.triple level fromlist module) (.unexpectedConstant level.offset problem)

end Site

def siteAt? (format : Format) (first : Instruction) (rest : List Instruction) : Option Site :=
  if format.IsStore first.opcode then some (.store first)
  else
    match rest with
    | second :: third :: _ =>
      if first.opcode = format.loadConst ∧ second.opcode = format.loadConst
          ∧ third.opcode = format.importName then
        some (.triple first second third)
      else none
    | _ => none

/-- Every store and every three instructions in a row that make an import. -/
def sites (format : Format) : List Instruction → List Site
  | [] => []
  | first :: rest => (siteAt? format first rest).toList ++ sites format rest

/-! ## Accounting for sites -/

/-- A run of results that accounts for sites: `events` and then `ending`, which has an error
if a site is bad, or else if an instruction is cut short, and is empty otherwise. -/
structure Accounts (unit : CodeUnit) (found : List Site) (cut : Option Instruction)
    (events : List Event) (ending : List (Except Error Event)) : Prop where
  /-- One event for each complete site before the first bad one. -/
  events_eq : ((found.takeWhile (¬·.Bad unit)).filter (·.Complete)).map (Site.event? unit)
    = events.map some
  of_bad : ∀ site, found.find? (·.Bad unit) = some site →
    ∃ error, site.Blames unit error ∧ ending = [.error error]
  of_cut : found.find? (·.Bad unit) = none → ending = cut.toList.map fun instruction =>
    .error (.truncatedInstruction instruction.offset unit.code.length)

def Accounted (unit : CodeUnit) (found : List Site) (cut : Option Instruction)
    (results : List (Except Error Event)) : Prop :=
  ∃ events ending, results = events.map .ok ++ ending ∧ Accounts unit found cut events ending

namespace Accounted

variable {unit : CodeUnit} {site : Site} {found : List Site} {cut : Option Instruction}

theorem nil (cut : Option Instruction) :
    Accounted unit [] cut (cut.toList.map fun instruction =>
      .error (.truncatedInstruction instruction.offset unit.code.length)) := by
  refine ⟨[], _, rfl, rfl, ?_, fun _ => rfl⟩
  intro site hsite
  cases hsite

theorem good {results : List (Except Error Event)} {event : Event} (hgood : ¬site.Bad unit)
    (hcomplete : site.Complete) (hevent : site.event? unit = some event)
    (h : Accounted unit found cut results) :
    Accounted unit (site :: found) cut (.ok event :: results) := by
  obtain ⟨events, ending, rfl, hevents, hbad, hcut⟩ := h
  have hfind : (site :: found).find? (·.Bad unit) = found.find? (·.Bad unit) := by
    simp [hgood]
  refine ⟨event :: events, ending, rfl, ?_, ?_, ?_⟩
  · simpa [hgood, hcomplete, hevent] using hevents
  · rwa [hfind]
  · rwa [hfind]

theorem bad {error : Error} (hbad : site.Bad unit) (herror : site.Blames unit error) :
    Accounted unit (site :: found) cut [.error error] := by
  have hfind : (site :: found).find? (·.Bad unit) = some site := by simp [hbad]
  refine ⟨[], [.error error], rfl, ?_, ?_, ?_⟩
  · simp [hbad]
  · intro other hother
    rw [hfind] at hother
    cases hother
    exact ⟨error, herror, rfl⟩
  · intro hnone
    rw [hfind] at hnone
    cases hnone

theorem incomplete {instruction : Instruction} (hgood : ¬site.Bad unit)
    (hcomplete : ¬site.Complete) :
    Accounted unit [site] (some instruction)
      [.error (.truncatedInstruction instruction.offset unit.code.length)] := by
  refine ⟨[], _, rfl, ?_, ?_, fun _ => rfl⟩
  · simp [hgood, hcomplete]
  · intro other hother
    simp [hgood] at hother

end Accounted

/-! ## Sites of a disassembly -/

/-- The opcodes of stores and imports have operands and are told apart. -/
structure Format.Regular (format : Format) : Prop where
  store_argument : ∀ opcode, format.IsStore opcode → format.hasArgument opcode = true
  load_argument : format.hasArgument format.loadConst = true
  import_argument : format.hasArgument format.importName = true
  load_not_store : ¬format.IsStore format.loadConst
  import_quiet : format.Quiet format.importName

theorem Format.regular_of_supported {format : Format} (h : format ∈ Format.supported) :
    format.Regular := by
  have h : format = .v26 ∨ format = .v27 := by simpa [Format.supported] using h
  have hstore (opcode : UInt8) (hstore : opcode = 90 ∨ opcode = 97) : (90 : UInt8) ≤ opcode := by
    rcases hstore with rfl | rfl <;> decide
  rcases h with rfl | rfl
  · exact ⟨fun opcode h => decide_eq_true (hstore opcode h), by decide, by decide, by decide,
      by decide⟩
  · exact ⟨fun opcode h => decide_eq_true (hstore opcode h), by decide, by decide, by decide,
      by decide⟩

section Instructions

variable {format : Format} {first : Instruction} {rest : List Instruction}

theorem cut?_cons (h : ¬first.Truncated format) :
    cut? format (first :: rest) = cut? format rest := by
  unfold cut?
  cases rest with
  | nil => simp [h]
  | cons second rest => rw [List.getLast?_cons_cons]

theorem cut?_singleton (h : first.Truncated format) : cut? format [first] = some first := by
  simp [cut?, h]

theorem sites_cons_of_store (h : format.IsStore first.opcode) :
    sites format (first :: rest) = .store first :: sites format rest := by
  simp [sites, siteAt?, h]

theorem sites_cons_of_none (h : siteAt? format first rest = none) :
    sites format (first :: rest) = sites format rest := by
  simp [sites, h]

theorem siteAt?_of_quiet (h : format.Quiet first.opcode) :
    siteAt? format first rest = none := by
  unfold siteAt?
  rw [if_neg h.1]
  split
  · exact if_neg fun htriple => h.2 htriple.1
  · rfl

/-- No import starts inside another: its second instruction is followed by no load, and its
third is none. -/
theorem sites_triple (hregular : format.Regular) {second third : Instruction}
    (hfirst : first.opcode = format.loadConst) (hsecond : second.opcode = format.loadConst)
    (hthird : third.opcode = format.importName) :
    sites format (first :: second :: third :: rest)
      = .triple first second third :: sites format rest := by
  have houter : siteAt? format first (second :: third :: rest)
      = some (.triple first second third) := by
    unfold siteAt?
    rw [if_neg (hfirst ▸ hregular.load_not_store)]
    exact if_pos ⟨hfirst, hsecond, hthird⟩
  have hquiet : format.Quiet third.opcode := hthird ▸ hregular.import_quiet
  have hinner : siteAt? format second (third :: rest) = none := by
    unfold siteAt?
    rw [if_neg (hsecond ▸ hregular.load_not_store)]
    split
    · rename_i hrest
      injection hrest with hhead
      subst hhead
      exact if_neg fun htriple => hquiet.2 htriple.2.1
    · rfl
  rw [sites, houter, sites_cons_of_none hinner, sites_cons_of_none (siteAt?_of_quiet hquiet)]
  rfl

end Instructions

section Disassemble

variable {format : Format} {opcode : UInt8}

theorem disassemble_argument (h : format.hasArgument opcode = true) (offset : Nat) (tail : Bytes) :
    disassemble format offset (opcode :: tail)
      = .read offset opcode tail :: disassemble format (offset + 3) (tail.drop 2) := by
  match tail with
  | [] | [_] | _ :: _ :: _ => simp [disassemble, Instruction.read, h]

theorem disassemble_plain (h : ¬format.hasArgument opcode = true) (offset : Nat) (tail : Bytes) :
    disassemble format offset (opcode :: tail)
      = ⟨offset, opcode, []⟩ :: disassemble format (offset + 1) tail := by
  rw [disassemble.eq_def]
  exact if_neg h

theorem opcode_head?_disassemble (format : Format) (offset : Nat) (code : Bytes) :
    (disassemble format offset code).head?.map Instruction.opcode = code.head? := by
  cases code with
  | nil => rfl
  | cons opcode tail =>
    by_cases h : format.hasArgument opcode = true
    · rw [disassemble_argument h]
      rfl
    · rw [disassemble_plain h]
      rfl

end Disassemble

/-! ## The order of events -/

def Site.offset : Site → Nat
  | .store instruction => instruction.offset
  | .triple level _ _ => level.offset

theorem Site.offset_of_event? {unit : CodeUnit} {site : Site} {event : Event}
    (h : site.event? unit = some event) : event.offset = site.offset := by
  cases site with
  | store instruction =>
    cases h
    rfl
  | triple level fromlist module =>
    simp only [Site.event?, Option.bind_eq_bind, Option.bind_eq_some_iff] at h
    obtain ⟨constant, -, style, -, h⟩ := h
    cases h
    rfl

theorem map_offset_of_event? {unit : CodeUnit} {found : List Site} {events : List Event}
    (h : found.map (Site.event? unit) = events.map some) :
    events.map Event.offset = found.map Site.offset := by
  induction found generalizing events with
  | nil =>
    cases events with
    | nil => rfl
    | cons event events => cases h
  | cons site found ih =>
    cases events with
    | nil => cases h
    | cons event events =>
      injection h with hevent hevents
      rw [List.map_cons, List.map_cons, ih hevents, Site.offset_of_event? hevent]

theorem offset_of_siteAt? {format : Format} {first : Instruction} {rest : List Instruction}
    {site : Site} (h : siteAt? format first rest = some site) : site.offset = first.offset := by
  unfold siteAt? at h
  split at h
  · cases h
    rfl
  · split at h
    · split at h
      · cases h
        rfl
      · cases h
    · cases h

theorem offset_sublist_sites (format : Format) (instructions : List Instruction) :
    ((sites format instructions).map Site.offset).Sublist
      (instructions.map Instruction.offset) := by
  induction instructions with
  | nil => exact .slnil
  | cons first rest ih =>
    rw [sites]
    cases hsite : siteAt? format first rest with
    | none => exact ih.cons _
    | some site =>
      have hoffset := offset_of_siteAt? hsite
      simp only [Option.toList_some, List.singleton_append, List.map_cons, hoffset]
      exact ih.cons_cons _

/-- One instruction at `offset` after another: behind an operand the next one is three bytes further
on. -/
theorem disassemble_induction {format : Format} {motive : Nat → List Instruction → Prop}
    (nil : ∀ offset, motive offset [])
    (cons : ∀ first next rest, first.offset < next →
      (format.hasArgument first.opcode = true → next = first.offset + 3) →
      motive next rest → motive first.offset (first :: rest))
    (offset : Nat) (code : Bytes) : motive offset (disassemble format offset code) := by
  induction hlength : code.length using Nat.strongRecOn generalizing offset code with
  | ind length ih =>
    subst hlength
    cases code with
    | nil => exact nil offset
    | cons opcode tail =>
      by_cases h : format.hasArgument opcode = true
      · have hshorter : (tail.drop 2).length < (opcode :: tail).length := by
          rw [List.length_drop, List.length_cons]
          omega
        rw [disassemble_argument h]
        exact cons (.read offset opcode tail) (offset + 3) _ (Nat.lt_add_of_pos_right (by decide))
          (fun _ => rfl) (ih _ hshorter _ _ rfl)
      · rw [disassemble_plain h]
        exact cons ⟨offset, opcode, []⟩ (offset + 1) _ (Nat.lt_succ_self offset)
          (fun hargument => absurd hargument h) (ih _ (Nat.lt_succ_self _) _ _ rfl)

theorem offset_pairwise_disassemble (format : Format) (offset : Nat) (code : Bytes) :
    ((disassemble format offset code).map Instruction.offset).Pairwise (· < ·) := by
  rw [List.pairwise_map]
  refine (disassemble_induction (motive := fun offset instructions =>
    (∀ instruction ∈ instructions, offset ≤ instruction.offset) ∧
      instructions.Pairwise (·.offset < ·.offset)) ?_ ?_ offset code).2
  · exact fun _ => ⟨List.forall_mem_nil _, .nil⟩
  · rintro first next rest hnext - ⟨hlater, hpairwise⟩
    have hbehind : ∀ instruction ∈ rest, first.offset < instruction.offset :=
      fun instruction hmem => Nat.lt_of_lt_of_le hnext (hlater instruction hmem)
    refine ⟨List.forall_mem_cons.2 ⟨Nat.le_refl _, ?_⟩, .cons hbehind hpairwise⟩
    exact fun instruction hmem => Nat.le_of_lt (hbehind instruction hmem)

theorem Accounts.offset_pairwise {unit : CodeUnit} {format : Format} {offset : Nat} {code : Bytes}
    {cut : Option Instruction} {events : List Event} {ending : List (Except Error Event)}
    (h : Accounts unit (sites format (disassemble format offset code)) cut events ending) :
    (events.map Event.offset).Pairwise (· < ·) := by
  rw [map_offset_of_event? h.events_eq]
  refine List.Pairwise.sublist ?_ (offset_pairwise_disassemble format offset code)
  refine List.Sublist.trans ?_ (offset_sublist_sites format _)
  apply List.Sublist.map
  exact List.filter_sublist.trans (List.takeWhile_sublist _)

end ImportAtlas
