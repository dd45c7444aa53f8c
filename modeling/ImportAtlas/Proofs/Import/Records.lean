import ImportAtlas.Import.Extract
import ImportAtlas.Proofs.Code.LineTable
import ImportAtlas.Proofs.Code.Progress
import Mathlib.Data.List.Forall2

/-!
# Records of one unit

The records of a unit are said without the steps that make them: there is one
for each event that is an import, in the order of the events, with the names
that a constant of the unit lists. Lines do not go back, for the offsets of
events grow and a line table only moves forward. A unit has all of its records
or none.
-/

namespace ImportAtlas

/-- `constant.Lists names`: the constant stands for no list of names, is a name, or is a tuple or
list of names. -/
inductive Constant.Lists : Constant → Option (List String) → Prop where
  | none : Lists .none Option.none
  | str (name : String) : Lists (.str name) (some [name])
  | unicode (name : String) : Lists (.unicode name) (some [name])
  | tuple {items : List Constant} {names : List String}
      (h : items.map text? = names.map some) : Lists (.tuple items) (some names)
  | list {items : List Constant} {names : List String}
      (h : items.map text? = names.map some) : Lists (.list items) (some names)

def ImportStyle.level : ImportStyle → Nat
  | .relative level => level.toNat
  | .implicit | .absolute => 0

def Event.isImport : Event → Bool
  | .importing _ _ _ _ => true
  | .store _ _ => false

/-- `record` is what a unit says about one of its import events. -/
inductive Describes (unit : CodeUnit) (source : Option SourceText) :
    Event → ImportRecord → Prop where
  | mk {offset fromlist module : Nat} {style : ImportStyle} {name : String} {constant : Constant}
      {names : Option (List String)} (hname : unit.names[module]? = some name)
      (hconstant : unit.consts[fromlist]? = some constant) (hnames : constant.Lists names) :
      Describes unit source (.importing offset style fromlist module) {
        lineNumber := unit.lineTable.lineAt offset
        sourceLine := source.bind (·.line? (unit.lineTable.lineAt offset))
        module := String.ofList (List.replicate style.level '.') ++ name
        fromlist := names.map (·.filter (· != "*"))
        style }

/-! ## Succeeding on all members of a list -/

section MapM

variable {α β : Type} {f : α → Except Error β} {items : List α}

theorem mapM_eq_ok_iff {found : List β} :
    items.mapM f = .ok found ↔ List.Forall₂ (fun item value => f item = .ok value) items found := by
  induction items generalizing found with
  | nil =>
    rw [List.mapM_nil, List.forall₂_nil_left_iff]
    exact ⟨fun h => (Except.ok.inj h).symm, fun h => congrArg _ h.symm⟩
  | cons item items ih =>
    rw [List.mapM_cons, List.forall₂_cons_left_iff]
    cases hitem : f item with
    | error error => simp [bind, Except.bind]
    | ok value =>
      cases hitems : items.mapM f with
      | error error => simp [bind, Except.bind, ← ih, hitems]
      | ok values => simp [bind, Except.bind, pure, Except.pure, ← ih, hitems, eq_comm]

theorem exists_mapM_eq_ok (h : ∀ item ∈ items, ∃ value, f item = .ok value) :
    ∃ found, items.mapM f = .ok found := by
  induction items with
  | nil => exact ⟨[], rfl⟩
  | cons item items ih =>
    obtain ⟨hitem, hitems⟩ := List.forall_mem_cons.1 h
    obtain ⟨value, hvalue⟩ := hitem
    obtain ⟨values, hvalues⟩ := ih hitems
    exact ⟨value :: values, by rw [List.mapM_cons, hvalue, hvalues]; rfl⟩

theorem exists_mem_of_forall₂ {related : α → β → Prop} {values : List β}
    (h : List.Forall₂ related items values) {item : α} (hitem : item ∈ items) :
    ∃ value ∈ values, related item value := by
  induction h with
  | nil => cases hitem
  | @cons first value items values hrelated _ ih =>
    rcases List.mem_cons.1 hitem with rfl | hlater
    · exact ⟨value, List.mem_cons_self, hrelated⟩
    · obtain ⟨found, hfound, hrelated⟩ := ih hlater
      exact ⟨found, List.mem_cons_of_mem _ hfound, hrelated⟩

end MapM

/-! ## One event -/

theorem fromlistEntry_eq_ok_iff {offset : Nat} {item : Constant} {name : String} :
    fromlistEntry offset item = .ok name ↔ item.text? = some name := by
  unfold fromlistEntry
  cases item.text? <;> simp

theorem mapM_fromlistEntry (offset : Nat) {items : List Constant} {names : List String} :
    items.mapM (fromlistEntry offset) = .ok names ↔ items.map Constant.text? = names.map some := by
  simp only [mapM_eq_ok_iff, fromlistEntry_eq_ok_iff, ← List.forall₂_eq_eq_eq,
    List.forall₂_map_left_iff, List.forall₂_map_right_iff]

theorem bind_mapM_fromlistEntry {offset : Nat} {items : List Constant}
    {fromlist : Option (List String)} :
    (do
      let names ← items.mapM (fromlistEntry offset)
      return some (names.filter (· != wildcard)) : Except Error (Option (List String))) =
        .ok fromlist ↔
      ∃ names : List String, items.map Constant.text? = names.map some ∧
        fromlist = some (names.filter (· != "*")) := by
  simp only [← mapM_fromlistEntry offset]
  cases items.mapM (fromlistEntry offset) with
  | error error => simp [bind, Except.bind]
  | ok names => simp [bind, Except.bind, pure, Except.pure, wildcard, eq_comm]

theorem fromlistOf_eq_ok_iff {offset : Nat} {constant : Constant}
    {fromlist : Option (List String)} :
    fromlistOf offset constant = .ok fromlist ↔
      ∃ names, constant.Lists names ∧ fromlist = names.map (·.filter (· != "*")) := by
  constructor
  · intro h
    cases constant with
    | none =>
      cases h
      exact ⟨_, .none, rfl⟩
    | str name =>
      cases h
      exact ⟨_, .str name, rfl⟩
    | unicode name =>
      cases h
      exact ⟨_, .unicode name, rfl⟩
    | tuple items =>
      obtain ⟨names, hnames, hfromlist⟩ := bind_mapM_fromlistEntry.1 h
      exact ⟨_, .tuple hnames, hfromlist⟩
    | list items =>
      obtain ⟨names, hnames, hfromlist⟩ := bind_mapM_fromlistEntry.1 h
      exact ⟨_, .list hnames, hfromlist⟩
    | _ => cases h
  · rintro ⟨names, hlists, rfl⟩
    cases hlists with
    | none | str | unicode => rfl
    | tuple hnames => exact bind_mapM_fromlistEntry.2 ⟨_, hnames, rfl⟩
    | list hnames => exact bind_mapM_fromlistEntry.2 ⟨_, hnames, rfl⟩

theorem moduleName_eq (style : ImportStyle) (name : String) :
    moduleName style name = String.ofList (List.replicate style.level '.') ++ name := by
  cases style with
  | relative level => rfl
  | implicit | absolute => simp [moduleName, ImportStyle.level]

def CodeUnit.recordOf (unit : CodeUnit) (source : Option SourceText) (event : Event) :
    Except Error (Option ImportRecord) :=
  ImportAtlas.recordOf unit.names.toArray unit.consts.toArray unit.lineTable source event

section Events

variable {unit : CodeUnit} {source : Option SourceText} {event : Event}

/-- A record is made of an import event exactly if the unit describes it. -/
theorem recordOf_importing {offset fromlist module : Nat} {style : ImportStyle}
    (htables : (Event.importing offset style fromlist module).InTables unit.names.length
      unit.consts.length) {found : Option ImportRecord} :
    unit.recordOf source (.importing offset style fromlist module) = .ok found ↔
      ∃ record, found = some record ∧
        Describes unit source (.importing offset style fromlist module) record := by
  obtain ⟨hfromlist, hmodule⟩ := htables
  have hname : unit.names.toArray.getD module "" = unit.names[module] := by simp [hmodule]
  have hconstant : unit.consts.toArray.getD fromlist .none = unit.consts[fromlist] := by
    simp [hfromlist]
  rw [CodeUnit.recordOf, recordOf, hname, hconstant, moduleName_eq]
  constructor
  · intro h
    cases hnames : fromlistOf offset unit.consts[fromlist] with
    | error error =>
      rw [hnames] at h
      cases h
    | ok names =>
      obtain ⟨listed, hlists, rfl⟩ := fromlistOf_eq_ok_iff.1 hnames
      rw [hnames] at h
      cases h
      exact ⟨_, rfl, .mk (List.getElem?_eq_getElem hmodule) (List.getElem?_eq_getElem hfromlist)
        hlists⟩
  · rintro ⟨record, rfl, hdescribes⟩
    cases hdescribes with
    | mk hname hconstant hlists =>
      rw [List.getElem?_eq_getElem hmodule] at hname
      rw [List.getElem?_eq_getElem hfromlist] at hconstant
      cases hname
      cases hconstant
      rw [fromlistOf_eq_ok_iff.2 ⟨_, hlists, rfl⟩]
      rfl

/-- Going through events that are not beyond the tables gives the records of the imports among
them. -/
theorem forall₂_describes {events : List Event} {found : List (Option ImportRecord)}
    (htables : ∀ event ∈ events, event.InTables unit.names.length unit.consts.length)
    (h : List.Forall₂ (fun event value => unit.recordOf source event = .ok value) events found) :
    List.Forall₂ (Describes unit source) (events.filter Event.isImport) (found.filterMap id) := by
  induction h with
  | nil => exact .nil
  | @cons event value events found hvalue _ ih =>
    obtain ⟨hevent, hevents⟩ := List.forall_mem_cons.1 htables
    cases event with
    | store offset name =>
      cases hvalue
      exact ih hevents
    | importing offset style fromlist module =>
      obtain ⟨record, rfl, hdescribes⟩ := (recordOf_importing hevent).1 hvalue
      exact .cons hdescribes (ih hevents)

end Events

/-! ## All events -/

section Extract

variable {format : Format} {source : Option SourceText} {unit : CodeUnit}

theorem extract_eq (format : Format) (source : Option SourceText) (unit : CodeUnit) :
    extract format source unit = (do
      let found ← (Walker.start format unit).results.mapM fun result => do
        unit.recordOf source (← result)
      return found.filterMap id) := by
  rw [Walker.results, List.mapM_map]
  rfl

theorem inTables_of_mem_results (format : Format) {event : Event}
    (h : .ok event ∈ (Walker.start format unit).results) :
    event.InTables unit.names.length unit.consts.length := by
  obtain ⟨item, hitem, hresult⟩ := List.mem_map.1 h
  exact inTables_of_mem_run hitem hresult

theorem exists_eq_map_ok {α β : Type} {f : α → Except Error β} {results : List (Except Error α)}
    {found : List β}
    (h : List.Forall₂ (fun result value => (do f (← result)) = Except.ok value) results found) :
    ∃ items, results = items.map .ok ∧
      List.Forall₂ (fun item value => f item = .ok value) items found := by
  induction h with
  | nil => exact ⟨[], rfl, .nil⟩
  | @cons result value results found hvalue _ ih =>
    obtain ⟨items, rfl, hitems⟩ := ih
    cases result with
    | error error => cases hvalue
    | ok item => exact ⟨item :: items, rfl, .cons hvalue hitems⟩

theorem extract_eq_ok {records : List ImportRecord}
    (h : extract format source unit = .ok records) :
    ∃ events : List Event, (Walker.start format unit).results = events.map .ok ∧
      List.Forall₂ (Describes unit source) (events.filter Event.isImport) records := by
  rw [extract_eq] at h
  cases hfound : (Walker.start format unit).results.mapM fun result => do
      unit.recordOf source (← result) with
  | error error =>
    rw [hfound] at h
    cases h
  | ok found =>
    rw [hfound] at h
    cases h
    obtain ⟨events, hresults, hevents⟩ := exists_eq_map_ok (mapM_eq_ok_iff.1 hfound)
    refine ⟨events, hresults, forall₂_describes ?_ hevents⟩
    intro event hevent
    apply inTables_of_mem_results format
    rw [hresults]
    exact List.mem_map_of_mem hevent

/-- Why a unit has no records: an error of the walk, or an import with a constant that is no list
of names. -/
def Unlisted (format : Format) (unit : CodeUnit) : Prop :=
  (∃ error, .error error ∈ (Walker.start format unit).results) ∨
    ∃ offset style fromlist module constant,
      .ok (.importing offset style fromlist module) ∈ (Walker.start format unit).results ∧
        unit.consts[fromlist]? = some constant ∧ ∀ names, ¬constant.Lists names

theorem exists_recordOf (h : ¬Unlisted format unit) (source : Option SourceText) {event : Event}
    (hevent : .ok event ∈ (Walker.start format unit).results) :
    ∃ value, unit.recordOf source event = .ok value := by
  have htables := inTables_of_mem_results format hevent
  cases event with
  | store offset name => exact ⟨none, rfl⟩
  | importing offset style fromlist module =>
    have hconstant := List.getElem?_eq_getElem htables.1
    have hname := List.getElem?_eq_getElem htables.2
    by_cases hlisted : ∃ names, (unit.consts.get ⟨fromlist, htables.1⟩).Lists names
    · obtain ⟨names, hlists⟩ := hlisted
      exact ⟨_, (recordOf_importing htables).2 ⟨_, rfl, .mk hname hconstant hlists⟩⟩
    · have hnone := not_exists.1 hlisted
      exact absurd (.inr ⟨_, _, _, _, _, hevent, hconstant, hnone⟩) h

theorem exists_extract_eq_ok (h : ¬Unlisted format unit) (source : Option SourceText) :
    ∃ records, extract format source unit = .ok records := by
  have hresults : ∀ result ∈ (Walker.start format unit).results,
      ∃ value, (do unit.recordOf source (← result)) = Except.ok value := by
    intro result hresult
    cases result with
    | error error => exact absurd (.inl ⟨error, hresult⟩) h
    | ok event => exact exists_recordOf h source hresult
  obtain ⟨found, hfound⟩ := exists_mapM_eq_ok hresults
  exact ⟨found.filterMap id, by rw [extract_eq, hfound]; rfl⟩

theorem not_unlisted_of_extract {records : List ImportRecord}
    (h : extract format source unit = .ok records) : ¬Unlisted format unit := by
  obtain ⟨events, hresults, hrecords⟩ := extract_eq_ok h
  rintro (⟨error, herror⟩ | ⟨offset, style, fromlist, module, constant, hevent, hconstant, hnone⟩)
  · rw [hresults] at herror
    simp at herror
  · rw [hresults] at hevent
    have hmem : .importing offset style fromlist module ∈ events.filter Event.isImport := by
      simpa [Event.isImport] using hevent
    obtain ⟨record, -, hdescribes⟩ := exists_mem_of_forall₂ hrecords hmem
    cases hdescribes with
    | mk _ hfound hlists =>
      rw [hconstant] at hfound
      cases hfound
      exact hnone _ hlists

end Extract

section Describes

variable {unit : CodeUnit} {source : Option SourceText} {event : Event} {record : ImportRecord}

theorem Describes.lineNumber_eq (h : Describes unit source event record) :
    record.lineNumber = unit.lineTable.lineAt event.offset := by
  cases h
  rfl

theorem Describes.wildcard_notMem (h : Describes unit source event record) {names : List String}
    (hnames : record.fromlist = some names) : "*" ∉ names := by
  cases h with
  | mk _ _ _ =>
    obtain ⟨listed, -, rfl⟩ := Option.map_eq_some_iff.1 hnames
    simp

theorem Describes.module_eq (h : Describes unit source event record) :
    ∃ name ∈ unit.names,
      record.module = String.ofList (List.replicate record.style.level '.') ++ name := by
  cases h with
  | mk hname _ _ => exact ⟨_, List.mem_of_getElem? hname, rfl⟩

end Describes

theorem pairwise_lineNumber {unit : CodeUnit} {source : Option SourceText} {events : List Event}
    {records : List ImportRecord} (h : List.Forall₂ (Describes unit source) events records)
    (horder : events.Pairwise fun event next => event.offset < next.offset) :
    (records.map (·.lineNumber)).Pairwise (· ≤ ·) := by
  have hlines : events.map (fun event => unit.lineTable.lineAt event.offset) =
      records.map (·.lineNumber) := by
    rw [← List.forall₂_eq_eq_eq, List.forall₂_map_left_iff, List.forall₂_map_right_iff]
    exact h.imp fun event record hdescribes => hdescribes.lineNumber_eq.symm
  rw [← hlines, List.pairwise_map]
  apply horder.imp
  intro event next hlt
  exact LineTable.lineAt_decode_mono _ _ (Nat.le_of_lt hlt)

/-- The records of a unit are those of the import events of its walk, in their order, with lines
that do not go back and never come before the first line of the unit, without the wildcard among
their names, and with one dot before the module for each level. A unit has no records at all
exactly if its walk has an error or an import has a constant that is no list of names. -/
theorem extract_in_order (format : Format) (source : Option SourceText) (unit : CodeUnit) :
    (∀ records, extract format source unit = .ok records →
      ∃ events : List Event, (Walker.start format unit).results = events.map .ok ∧
        List.Forall₂ (Describes unit source) (events.filter Event.isImport) records ∧
        (records.map (·.lineNumber)).Pairwise (· ≤ ·) ∧
        ∀ record ∈ records, unit.firstLine ≤ record.lineNumber ∧
          (∀ names, record.fromlist = some names → "*" ∉ names) ∧
          ∃ name ∈ unit.names,
            record.module = String.ofList (List.replicate record.style.level '.') ++ name) ∧
      ((∃ error, extract format source unit = .error error) ↔ Unlisted format unit) := by
  constructor
  · intro records h
    obtain ⟨events, hresults, hrecords⟩ := extract_eq_ok h
    have horder := (Walker.pairwise_offset hresults).filter Event.isImport
    refine ⟨events, hresults, hrecords, pairwise_lineNumber hrecords horder, ?_⟩
    intro record hrecord
    obtain ⟨event, -, hdescribes⟩ := exists_mem_of_forall₂ hrecords.flip hrecord
    refine ⟨?_, fun names => hdescribes.wildcard_notMem, hdescribes.module_eq⟩
    rw [hdescribes.lineNumber_eq]
    exact LineTable.firstLine_le_lineAt_decode _ _ _
  · constructor
    · rintro ⟨error, herror⟩
      by_cases hlisted : Unlisted format unit
      · exact hlisted
      · obtain ⟨records, hrecords⟩ := exists_extract_eq_ok hlisted source
        rw [herror] at hrecords
        cases hrecords
    · intro hunlisted
      cases hextract : extract format source unit with
      | error error => exact ⟨error, rfl⟩
      | ok records => exact absurd hunlisted (not_unlisted_of_extract hextract)

/-- An import of all names of a module two packages up, a store, and a plain import one line
further down, whose constant is `names`. -/
def climbingUnit (names : Constant) : CodeUnit where
  marker := 62211
  code := [100, 0, 0, 100, 1, 0, 108, 0, 0, 90, 0, 0, 100, 2, 0, 100, 3, 0, 108, 1, 0]
  consts := [.int 2, .tuple [.str "*"], .int (-1), names]
  names := ["pkg", "os"]
  firstLine := 7
  lnotab := [12, 1]

theorem extract_in_order_climbingUnit :
    (∃ records, extract .v27 none (climbingUnit .none) = .ok records ∧
      records.map (·.module) = ["..pkg", "os"] ∧ records.map (·.lineNumber) = [7, 8] ∧
      ∃ events : List Event, (Walker.start .v27 (climbingUnit .none)).results = events.map .ok ∧
        List.Forall₂ (Describes (climbingUnit .none) none) (events.filter Event.isImport) records) ∧
      Unlisted .v27 (climbingUnit (.int 0)) := by
  constructor
  · have hmodules : ((extract .v27 none (climbingUnit .none)).toOption.map fun records =>
        (records.map (·.module), records.map (·.lineNumber))) = some (["..pkg", "os"], [7, 8]) := by
      decide +kernel
    cases hextract : extract .v27 none (climbingUnit .none) with
    | error error =>
      rw [hextract] at hmodules
      cases hmodules
    | ok records =>
      rw [hextract] at hmodules
      have hpair := Prod.mk.inj (Option.some.inj hmodules)
      obtain ⟨events, hresults, hrecords, -⟩ := (extract_in_order .v27 none _).1 records hextract
      exact ⟨records, rfl, hpair.1, hpair.2, events, hresults, hrecords⟩
  · apply (extract_in_order .v27 none _).2.1
    have hfails : (extract .v27 none (climbingUnit (.int 0))).isOk = false := by decide +kernel
    cases hextract : extract .v27 none (climbingUnit (.int 0)) with
    | error error => exact ⟨error, rfl⟩
    | ok records =>
      rw [hextract] at hfails
      cases hfails

end ImportAtlas
