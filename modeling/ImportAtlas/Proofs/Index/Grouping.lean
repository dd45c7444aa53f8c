import ImportAtlas.Index.Basic
import ImportAtlas.Proofs.Index.Keyed

/-!
# The index as a grouping of records

Merging the outcomes of some files groups the records found in them by module,
then by file, and keeps the order of records in each group. The invariant
`Groups` says so of the modules after any number of records. One record keeps it
(`Groups.step`), hence a run of records does.
-/

namespace ImportAtlas.ImportIndex

open Std

abbrev Located := Path × ImportRecord

def located (outcomes : List (Path × Except Error ScanResult)) : List Located :=
  outcomes.flatMap fun (path, outcome) =>
    match outcome with
    | .ok result => result.records.map (path, ·)
    | .error _ => []

/-- What an outcome reports: the file as a whole, or the units that failed in it. -/
def reported : Path × Except Error ScanResult → List FileFailure
  | (path, .error error) => [{ path, error, unit := none }]
  | (path, .ok result) =>
    result.failures.map fun failure => { path, error := failure.error, unit := some failure.unit }

/-- The occurrences of a module in a file, taken from the records themselves. -/
def occurrencesAmong (records : List Located) (module : String) (path : Path) : List Occurrence :=
  (records.filter fun entry =>
    entry.1.components = path.components ∧ entry.2.topLevel = module).map (·.2.occurrence)

def stored (modules : ModuleFiles) (module : String) (path : Path) : List Occurrence :=
  ((modules.get? module).bind (·.get? path)).getD []

structure FilesGrouped (files : FileOccurrences) : Prop where
  ne_nil : files.entries ≠ []
  occurs : ∀ file ∈ files.entries, file.2 ≠ []

/-- Modules that group the records, those of ignored modules left out. -/
structure Groups (ignore : List String) (records : List Located) (modules : ModuleFiles) :
    Prop where
  files : ∀ entry ∈ modules.entries, FilesGrouped entry.2
  stored_eq : ∀ module path, stored modules module path =
    if module ∈ ignore then [] else occurrencesAmong records module path
  total : (modules.entries.map fun entry => countIn entry.2).sum =
    (records.filter fun entry => entry.2.topLevel ∉ ignore).length

theorem countIn_eq_sum (files : FileOccurrences) :
    countIn files = (files.entries.map fun file => file.2.length).sum := by
  unfold countIn
  induction files.entries with
  | nil => rfl
  | cons file rest ih =>
    rw [List.map_cons, List.sum_cons, ← ih, List.foldr_cons]

/-! ## One record -/

section Step

variable {ignore : List String} {path : Path} {record : ImportRecord}

/-- The occurrence a record adds to those of one module in one file. -/
def addedAt (path : Path) (record : ImportRecord) (module : String) (asked : Path) :
    List Occurrence :=
  if path.components = asked.components ∧ record.topLevel = module then [record.occurrence] else []

theorem addedAt_of_ne {module : String} (h : record.topLevel ≠ module) (asked : Path) :
    addedAt path record module asked = [] :=
  if_neg fun hboth => h hboth.2

theorem occurrencesAmong_snoc (records : List Located) (module : String) (asked : Path) :
    occurrencesAmong (records ++ [(path, record)]) module asked =
      occurrencesAmong records module asked ++ addedAt path record module asked := by
  unfold occurrencesAmong addedAt
  rw [List.filter_append, List.map_append]
  congr 1
  by_cases h : path.components = asked.components ∧ record.topLevel = module
  · rw [if_pos h, List.filter_cons_of_pos (by simpa using h)]
    rfl
  · rw [if_neg h, List.filter_cons_of_neg (by simpa using h)]
    rfl

def addOccurrence (path : Path) (occurrence : Occurrence) (files : FileOccurrences) :
    FileOccurrences :=
  files.alter path fun occurrences => occurrences.getD [] ++ [occurrence]

theorem addRecord_of_mem {modules : ModuleFiles} (h : record.topLevel ∈ ignore) :
    addRecord ignore path modules record = modules := by
  rw [addRecord, if_pos (by simpa using h)]

theorem addRecord_of_notMem {modules : ModuleFiles} (h : record.topLevel ∉ ignore) :
    addRecord ignore path modules record =
      modules.alter record.topLevel fun files =>
        addOccurrence path record.occurrence (files.getD .empty) := by
  rw [addRecord, if_neg (by simpa using h)]
  rfl

theorem filesGrouped_addOccurrence {files : FileOccurrences} (occurrence : Occurrence)
    (hoccurs : ∀ file ∈ files.entries, file.2 ≠ []) :
    FilesGrouped (addOccurrence path occurrence files) where
  ne_nil := Keyed.alter_ne_nil _ _ _
  occurs := by
    apply Keyed.forall_alter (P := (· ≠ [])) hoccurs
    · simp
    · intro occurrences _
      simp

theorem countIn_addOccurrence (occurrence : Occurrence) (files : FileOccurrences) :
    countIn (addOccurrence path occurrence files) = countIn files + 1 := by
  rw [countIn_eq_sum, countIn_eq_sum]
  apply Keyed.sum_alter
  intro old
  cases old with
  | none => rfl
  | some occurrences => simp

theorem get?_addOccurrence (files : FileOccurrences) (occurrence : Occurrence) (asked : Path) :
    ((addOccurrence path occurrence files).get? asked).getD [] =
      (files.get? asked).getD [] ++
        if path.components = asked.components then [occurrence] else [] := by
  rw [addOccurrence, Keyed.Map.get?_alter]
  by_cases h : path.components = asked.components
  · have heq : asked.compare path = .eq := Path.compare_eq_iff.2 h.symm
    have hsame : files.get? asked = files.get? path := Keyed.get?_congr heq _
    rw [if_pos heq, if_pos h, hsame, Option.getD_some]
  · have hne : asked.compare path ≠ .eq := fun heq => h (Path.compare_eq_iff.1 heq).symm
    rw [if_neg hne, if_neg h, List.append_nil]

namespace Groups

variable {records : List Located} {modules : ModuleFiles}

theorem stored_addRecord (h : record.topLevel ∉ ignore) (module : String) (asked : Path) :
    stored (addRecord ignore path modules record) module asked =
      stored modules module asked ++ addedAt path record module asked := by
  rw [addRecord_of_notMem h, stored, Keyed.Map.get?_alter]
  by_cases hmodule : record.topLevel = module
  · subst hmodule
    rw [if_pos compare_self, Option.bind_some, get?_addOccurrence, addedAt, stored]
    cases modules.get? record.topLevel with
    | none => simp [Keyed.Map.empty, Keyed.Map.get?, Keyed.get?]
    | some files => simp
  · have hne : compare module record.topLevel ≠ .eq :=
      fun heq => hmodule (LawfulEqOrd.eq_of_compare heq).symm
    rw [if_neg hne, addedAt_of_ne hmodule, List.append_nil, stored]

theorem step (hgroups : Groups ignore records modules) (path : Path) (record : ImportRecord) :
    Groups ignore (records ++ [(path, record)]) (addRecord ignore path modules record) := by
  by_cases h : record.topLevel ∈ ignore
  · -- Nothing is stored, and nothing of this module is expected.
    rw [addRecord_of_mem h]
    refine ⟨hgroups.files, ?_, ?_⟩
    · intro module asked
      rw [hgroups.stored_eq, occurrencesAmong_snoc]
      by_cases hmodule : module ∈ ignore
      · rw [if_pos hmodule, if_pos hmodule]
      · have hne : record.topLevel ≠ module := fun heq => hmodule (heq ▸ h)
        rw [if_neg hmodule, if_neg hmodule, addedAt_of_ne hne, List.append_nil]
    · simpa [h] using hgroups.total
  · refine ⟨?_, ?_, ?_⟩
    · rw [addRecord_of_notMem h]
      apply Keyed.forall_alter hgroups.files
      · exact filesGrouped_addOccurrence _ fun _ hmem => nomatch hmem
      · intro files hfiles
        exact filesGrouped_addOccurrence _ hfiles.occurs
    · intro module asked
      rw [stored_addRecord h, hgroups.stored_eq, occurrencesAmong_snoc]
      by_cases hmodule : module ∈ ignore
      · have hne : record.topLevel ≠ module := fun heq => h (heq ▸ hmodule)
        rw [if_pos hmodule, if_pos hmodule, addedAt_of_ne hne, List.append_nil]
      · rw [if_neg hmodule, if_neg hmodule]
    · have hcount : ∀ old : Option FileOccurrences,
          countIn (addOccurrence path record.occurrence (old.getD .empty)) =
            (old.map countIn).getD 0 + 1 := by
        intro old
        rw [countIn_addOccurrence]
        cases old with
        | none => rfl
        | some files => rfl
      rw [addRecord_of_notMem h]
      refine (Keyed.sum_alter hcount record.topLevel modules.entries).trans ?_
      rw [hgroups.total]
      simp [h]

theorem nil (ignore : List String) : Groups ignore [] .empty where
  files := fun _ hmem => nomatch hmem
  stored_eq := by
    intro module path
    split <;> rfl
  total := rfl

theorem run (hgroups : Groups ignore records modules) (added : List Located) :
    Groups ignore (records ++ added)
      (added.foldl (fun modules entry => addRecord ignore entry.1 modules entry.2) modules) := by
  induction added generalizing records modules with
  | nil => rwa [List.append_nil]
  | cons entry added ih =>
    have hrun := ih (hgroups.step entry.1 entry.2)
    rwa [List.append_assoc] at hrun

end Groups

end Step

/-! ## All outcomes -/

/-- Merging is adding the located records one by one; failures and files only add up. -/
theorem foldl_merge (ignore : List String) (outcomes : List (Path × Except Error ScanResult))
    (index : ImportIndex) :
    outcomes.foldl (fun index (path, outcome) => index.merge ignore path outcome) index =
      { modules := (located outcomes).foldl
          (fun modules entry => addRecord ignore entry.1 modules entry.2) index.modules
        failures := index.failures ++ outcomes.flatMap reported
        filesScanned := index.filesScanned + outcomes.length } := by
  induction outcomes generalizing index with
  | nil => simp [located]
  | cons first rest ih =>
    obtain ⟨path, outcome⟩ := first
    rw [List.foldl_cons, ih]
    cases outcome with
    | error error =>
      simp [merge, located, reported]
      omega
    | ok result =>
      simp [merge, located, reported, List.foldl_append, List.foldl_map]
      omega

theorem ofOutcomes_eq (ignore : List String) (outcomes : List (Path × Except Error ScanResult)) :
    ofOutcomes ignore outcomes =
      { modules := (located outcomes).foldl
          (fun modules entry => addRecord ignore entry.1 modules entry.2) .empty
        failures := outcomes.flatMap reported
        filesScanned := outcomes.length } := by
  rw [ofOutcomes, foldl_merge]
  simp [empty]

theorem groups_ofOutcomes (ignore : List String)
    (outcomes : List (Path × Except Error ScanResult)) :
    Groups ignore (located outcomes) (ofOutcomes ignore outcomes).modules := by
  rw [ofOutcomes_eq]
  exact (Groups.nil ignore).run (located outcomes)

theorem map_count_names (index : ImportIndex) :
    index.names.map index.count = index.modules.entries.map fun entry => countIn entry.2 := by
  rw [names, Keyed.Map.keys, List.map_map]
  apply List.map_congr_left
  intro entry hmem
  show ((index.modules.get? entry.1).map countIn).getD 0 = countIn entry.2
  rw [Keyed.Map.get?_of_mem hmem, Option.map_some, Option.getD_some]

/--
The index holds the records of the scanned files exactly: under each module and
file the occurrences in the order of the records, nothing else, and nothing of
an ignored module; failures do not depend on what is ignored.
-/
theorem ofOutcomes_groups_records (ignore : List String)
    (outcomes : List (Path × Except Error ScanResult)) :
    let index := ofOutcomes ignore outcomes
    (∀ module path,
      ((index.files? module).bind (·.get? path)).getD [] =
        if module ∈ ignore then [] else occurrencesAmong (located outcomes) module path) ∧
    (∀ entry ∈ index.modules.entries,
      entry.2.entries ≠ [] ∧ ∀ file ∈ entry.2.entries, file.2 ≠ []) ∧
    (index.names.Pairwise fun a b => compare a b = .lt) ∧
    (∀ entry ∈ index.modules.entries,
      entry.2.keys.Pairwise fun a b => Path.compare a b = .lt) ∧
    index.filesScanned = outcomes.length ∧
    index.failures = outcomes.flatMap reported ∧
    (index.names.map index.count).sum =
      ((located outcomes).filter fun entry => entry.2.topLevel ∉ ignore).length := by
  intro index
  have hgroups : Groups ignore (located outcomes) index.modules := groups_ofOutcomes ignore outcomes
  refine ⟨hgroups.stored_eq, ?_, index.modules.pairwise_keys, ?_, ?_, ?_, ?_⟩
  · intro entry hmem
    have hfiles := hgroups.files entry hmem
    exact ⟨hfiles.ne_nil, hfiles.occurs⟩
  · intro entry _
    exact entry.2.pairwise_keys
  · exact congrArg ImportIndex.filesScanned (ofOutcomes_eq ignore outcomes)
  · exact congrArg ImportIndex.failures (ofOutcomes_eq ignore outcomes)
  · rw [map_count_names]
    exact hgroups.total

end ImportAtlas.ImportIndex
