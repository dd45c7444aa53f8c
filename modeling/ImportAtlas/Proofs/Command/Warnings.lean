import ImportAtlas.Command.Run
import ImportAtlas.Proofs.File.Discovery
import ImportAtlas.Proofs.Index.Permutation
import Mathlib.Data.Finset.Card

/-!
# What a warning counts

A report that could not take in every file says how many files it is about and
how many were scanned. The first number counts changes of path along the list of
failures. It is the number of different paths, since all failures of one file
stand together and no path comes back: files and entries that could not be looked
at are found under different paths. The second number counts only files that were
tried. Entries that could not be looked at are not among them, so the first
number can be the larger one.
-/

namespace ImportAtlas

/-- The index of what was found below a root: the outcomes of the files, then the entries that could
not be looked at. -/
def ImportIndex.ofSources (ignore : List String) (sources : SourceFiles)
    (outcome : Path → Except Error ScanResult) : ImportIndex :=
  (ofOutcomes ignore (sources.files.map fun path => (path, outcome path))).addUnreadable
    sources.unreadable

theorem Scanner.scanRoot_eq {tree : FileTree} {root : Path} {sources : SourceFiles}
    (h : tree.sourceFiles root = .ok sources) (scanner : Scanner) :
    scanner.scanRoot tree root = .ok (.ofSources scanner.ignore sources
      (scanFile tree scanner.compiler scanner.format)) := by
  unfold scanRoot
  rw [h]
  rfl

def isClean : Except Error ScanResult → Bool
  | .ok result => result.isComplete
  | .error _ => false

namespace Command

/-! ## Changes of path -/

theorem countFiles_append {front back : List FileFailure}
    (h : ∀ first ∈ front, ∀ second ∈ back, first.path.components ≠ second.path.components) :
    countFiles (front ++ back) = countFiles front + countFiles back := by
  fun_induction countFiles front with
  | case1 => simp
  | case2 first =>
    cases back with
    | nil => rfl
    | cons second back =>
      have hne := h first (by simp) second (by simp)
      simp [countFiles, Path.same, hne]
  | case3 first second rest ih =>
    have hrest := ih fun other hother => h other (List.mem_cons_of_mem _ hother)
    simp only [List.cons_append] at hrest
    simp only [List.cons_append, countFiles, hrest]
    omega

theorem countFiles_eq_one {failures : List FileFailure} {path : Path} (hne : failures ≠ [])
    (h : ∀ failure ∈ failures, failure.path = path) : countFiles failures = 1 := by
  fun_induction countFiles failures with
  | case1 => exact absurd rfl hne
  | case2 => rfl
  | case3 first second rest ih =>
    have hfirst := h first (by simp)
    have hsecond := h second (by simp)
    have hsame : first.path.same second.path = true := by simp [Path.same, hfirst, hsecond]
    rw [if_pos hsame, ih (by simp) fun failure hmem => h failure (List.mem_cons_of_mem _ hmem)]

/-- Failures in blocks, each with the path that all of its failures have and no other block has. -/
structure Separate (blocks : List (Path × List FileFailure)) : Prop where
  paths : ∀ block ∈ blocks, ∀ failure ∈ block.2, failure.path = block.1
  distinct : (blocks.map (·.1.components)).Nodup

namespace Separate

variable {blocks : List (Path × List FileFailure)}

theorem countFiles_eq (h : Separate blocks) :
    countFiles (blocks.flatMap Prod.snd) = (blocks.filter (!·.2.isEmpty)).length := by
  obtain ⟨hpaths, hdistinct⟩ := h
  induction blocks with
  | nil => rfl
  | cons block blocks ih =>
    obtain ⟨hblock, hpaths⟩ := List.forall_mem_cons.1 hpaths
    rw [List.map_cons, List.nodup_cons] at hdistinct
    have happart : ∀ first ∈ block.2, ∀ second ∈ blocks.flatMap Prod.snd,
        first.path.components ≠ second.path.components := by
      intro first hfirst second hsecond heq
      obtain ⟨other, hother, hmem⟩ := List.mem_flatMap.1 hsecond
      rw [hblock first hfirst, hpaths other hother second hmem] at heq
      exact hdistinct.1 (heq ▸ List.mem_map_of_mem hother)
    rw [List.flatMap_cons, countFiles_append happart, ih hpaths hdistinct.2]
    by_cases hempty : block.2 = []
    · rw [hempty, List.filter_cons_of_neg (by simp [hempty])]
      simp [countFiles]
    · rw [countFiles_eq_one hempty hblock, List.filter_cons_of_pos (by simpa using hempty),
        List.length_cons]
      omega

theorem card_eq {κ : Type} [DecidableEq κ] {key : Path → κ} (h : Separate blocks)
    (hkey : (blocks.map (key ·.1)).Nodup) :
    ((blocks.flatMap Prod.snd).map (key ·.path)).toFinset.card
      = (blocks.filter (!·.2.isEmpty)).length := by
  have hkept : ((blocks.filter (!·.2.isEmpty)).map (key ·.1)).Nodup :=
    hkey.sublist (List.filter_sublist.map _)
  have hsame : ((blocks.flatMap Prod.snd).map (key ·.path)).toFinset
      = ((blocks.filter (!·.2.isEmpty)).map (key ·.1)).toFinset := by
    ext value
    simp only [List.mem_toFinset, List.mem_map, List.mem_flatMap, List.mem_filter]
    constructor
    · rintro ⟨failure, ⟨block, hblock, hmem⟩, rfl⟩
      refine ⟨block, ⟨hblock, ?_⟩, by rw [h.paths block hblock failure hmem]⟩
      simpa using List.ne_nil_of_mem hmem
    · rintro ⟨block, ⟨hblock, hne⟩, rfl⟩
      obtain ⟨failure, hmem⟩ := List.exists_mem_of_ne_nil block.2 (by simpa using hne)
      exact ⟨failure, ⟨block, hblock, hmem⟩, by rw [h.paths block hblock failure hmem]⟩
  calc ((blocks.flatMap Prod.snd).map (key ·.path)).toFinset.card
    _ = ((blocks.filter (!·.2.isEmpty)).map (key ·.1)).toFinset.card := by rw [hsame]
    _ = ((blocks.filter (!·.2.isEmpty)).map (key ·.1)).length := List.toFinset_card_of_nodup hkept
    _ = (blocks.filter (!·.2.isEmpty)).length := by rw [List.length_map]

end Separate

/-! ## Failures of an index -/

/-- The failures of an index in blocks: those of each file, then each entry that could not be looked
at. -/
def blocksOf (sources : SourceFiles) (outcome : Path → Except Error ScanResult) :
    List (Path × List FileFailure) :=
  sources.files.map (fun path => (path, ImportIndex.reported (path, outcome path)))
    ++ sources.unreadable.map fun entry => (entry.1, [{ path := entry.1, error := entry.2 }])

section Blocks

variable (ignore : List String) (sources : SourceFiles) (outcome : Path → Except Error ScanResult)

theorem failures_ofSources :
    (ImportIndex.ofSources ignore sources outcome).failures
      = (blocksOf sources outcome).flatMap Prod.snd := by
  unfold ImportIndex.ofSources ImportIndex.addUnreadable blocksOf
  rw [ImportIndex.ofOutcomes_eq, List.flatMap_append, List.flatMap_map, List.flatMap_map,
    List.flatMap_map, ← List.map_eq_flatMap]

theorem map_fst_blocksOf :
    (blocksOf sources outcome).map Prod.fst = sources.files ++ sources.unreadable.map Prod.fst := by
  simp [blocksOf, Function.comp_def]

theorem isEmpty_reported (path : Path) (result : Except Error ScanResult) :
    (ImportIndex.reported (path, result)).isEmpty = isClean result := by
  cases result with
  | error error => rfl
  | ok result => simp [ImportIndex.reported, isClean, ScanResult.isComplete]

theorem length_filter_blocksOf :
    ((blocksOf sources outcome).filter (!·.2.isEmpty)).length
      = (sources.files.filter fun path => !isClean (outcome path)).length
        + sources.unreadable.length := by
  rw [blocksOf, List.filter_append, List.length_append, List.filter_map, List.filter_map,
    List.length_map, List.length_map]
  simp [Function.comp_def, isEmpty_reported]

variable {sources}

theorem separate_blocksOf
    (hdistinct : ((sources.files ++ sources.unreadable.map Prod.fst).map Path.components).Nodup) :
    Separate (blocksOf sources outcome) where
  paths := by
    intro block hblock failure hfailure
    rcases List.mem_append.1 hblock with hfile | hentry
    · obtain ⟨path, -, rfl⟩ := List.mem_map.1 hfile
      exact ImportIndex.path_of_mem_reported hfailure
    · obtain ⟨entry, -, rfl⟩ := List.mem_map.1 hentry
      rw [List.mem_singleton.1 hfailure]
  distinct := by
    rw [← map_fst_blocksOf sources outcome, List.map_map] at hdistinct
    exact hdistinct

end Blocks

/-- The number of files shown is the number of different paths, told apart by their components or
by their spelling. -/
def CountsPaths (failures : List FileFailure) : Prop :=
  countFiles failures = (failures.map (·.path.components)).toFinset.card ∧
    countFiles failures = (failures.map (·.path)).toFinset.card

theorem countsPaths_ofSources {sources : SourceFiles}
    (hdistinct : ((sources.files ++ sources.unreadable.map Prod.fst).map Path.components).Nodup)
    (ignore : List String) (outcome : Path → Except Error ScanResult) :
    CountsPaths (ImportIndex.ofSources ignore sources outcome).failures := by
  have hseparate := separate_blocksOf outcome hdistinct
  have hspelled : ((blocksOf sources outcome).map (id ·.1)).Nodup := by
    change ((blocksOf sources outcome).map Prod.fst).Nodup
    rw [map_fst_blocksOf]
    exact hdistinct.of_map _
  rw [CountsPaths, failures_ofSources, hseparate.countFiles_eq]
  exact ⟨(hseparate.card_eq hseparate.distinct).symm, (hseparate.card_eq hspelled).symm⟩

/-- The number of files that a report says could not be scanned in full is the number of different
paths among the failures. This does not depend on how the files come to their outcomes, nor on which
entries a walk fails at and in what order, as long as it reports no path twice and no file that it
found. -/
theorem countFiles_scanRoot {tree : FileTree} {root : Path} {sources : SourceFiles}
    (hproper : tree.root.Proper) (hsources : tree.sourceFiles root = .ok sources) :
    (∀ scanner : Scanner, ∃ index, scanner.scanRoot tree root = .ok index ∧
      CountsPaths index.failures) ∧
    ∀ ignore outcome unreadable, (unreadable.map (·.1.components)).Nodup →
      (∀ path ∈ sources.files, path.components ∉ unreadable.map (·.1.components)) →
      CountsPaths (ImportIndex.ofSources ignore { sources with unreadable } outcome).failures := by
  have hdistinct := FileTree.nodup_sourceFiles hproper hsources
  constructor
  · intro scanner
    exact ⟨_, Scanner.scanRoot_eq hsources scanner, countsPaths_ofSources hdistinct _ _⟩
  · intro ignore outcome unreadable honce hother
    apply countsPaths_ofSources
    rw [List.map_append, List.nodup_append] at hdistinct ⊢
    refine ⟨hdistinct.1, by rwa [List.map_map], ?_⟩
    rintro first hfirst second hsecond rfl
    obtain ⟨path, hpath, rfl⟩ := List.mem_map.1 hfirst
    rw [List.map_map] at hsecond
    exact hother path hpath hsecond

/-- A source without a compiled file, and a link that leads nowhere. -/
def strayEntries : List (String × Node) :=
  [("a.py", .file { content := [] }), ("ghost.py", .link ⟨"gone.py"⟩)]

def strayTree : FileTree where
  root := .directory [("proj", .directory strayEntries)]
  working := []

theorem proper_strayTree : strayTree.root.Proper := by
  refine .directory ⟨by decide +kernel, by decide +kernel⟩ (List.forall_mem_singleton.2 ?_)
  apply Node.Proper.directory ⟨by decide +kernel, by decide +kernel⟩
  simp only [strayEntries, List.forall_mem_cons]
  exact ⟨.of_leaf rfl, .of_leaf rfl, by simp⟩

def straySources : SourceFiles where
  files := [⟨"./proj/a.py"⟩]
  unreadable := [(⟨"./proj/ghost.py"⟩, .unreadable ⟨"./proj/ghost.py"⟩ .notFound)]

theorem sourceFiles_strayTree : strayTree.sourceFiles ⟨"./proj"⟩ = .ok straySources := by
  have hfind : strayTree.find ⟨"./proj"⟩ = .ok (.directory strayEntries) := by rfl
  have hmet : strayTree.met (.directory strayEntries) ⟨"./proj"⟩
      = [(⟨"./proj/a.py"⟩, none),
        (⟨"./proj/ghost.py"⟩, some (.unreadable ⟨"./proj/ghost.py"⟩ .notFound))] := by
    decide +kernel
  rw [FileTree.sourceFiles_directory hfind, hmet]
  simp [FileTree.sourcesOf, FileTree.failuresOf, straySources]

theorem countFiles_scanRoot_strayTree :
    strayTree.root.Proper ∧ strayTree.sourceFiles ⟨"./proj"⟩ = .ok straySources ∧
    (∀ scanner : Scanner, ∃ index, scanner.scanRoot strayTree ⟨"./proj"⟩ = .ok index ∧
      CountsPaths index.failures) ∧
    ∀ ignore outcome unreadable, (unreadable.map (·.1.components)).Nodup →
      (∀ path ∈ straySources.files, path.components ∉ unreadable.map (·.1.components)) →
      CountsPaths
        (ImportIndex.ofSources ignore { straySources with unreadable } outcome).failures :=
  ⟨proper_strayTree, sourceFiles_strayTree,
    countFiles_scanRoot proper_strayTree sourceFiles_strayTree⟩

/-! ## The warning -/

def warningLine (failed scanned : Nat) : String :=
  "warning: " ++ toString failed ++ " of " ++ toString scanned
    ++ " files could not be fully scanned"

theorem pieces_warningLine (failed scanned : Nat) :
    Text.pieces ' ' (warningLine failed scanned).toList
      = "warning:".toList :: (toString failed).toList :: "of".toList :: (toString scanned).toList
        :: Text.pieces ' ' "files could not be fully scanned".toList := by
  have htext : (warningLine failed scanned).toList
      = "warning:".toList ++ ' ' :: ((toString failed).toList ++ ' ' :: ("of".toList
        ++ ' ' :: ((toString scanned).toList
          ++ ' ' :: "files could not be fully scanned".toList))) := by
    simp [warningLine]
  have hfailed := Text.notMem_toString (show ' '.isDigit = false by decide) failed
  have hscanned := Text.notMem_toString (show ' '.isDigit = false by decide) scanned
  rw [htext, Text.pieces_append_cons (by decide), Text.pieces_append_cons hfailed,
    Text.pieces_append_cons (by decide), Text.pieces_append_cons hscanned]

theorem warningLine_inj {failed scanned failed' scanned' : Nat}
    (h : warningLine failed scanned = warningLine failed' scanned') :
    failed = failed' ∧ scanned = scanned' := by
  have hpieces := congrArg (fun line => Text.pieces ' ' line.toList) h
  simp only [pieces_warningLine, List.cons.injEq, true_and, and_true, String.toList_inj] at hpieces
  exact ⟨Text.toString_inj hpieces.1, Text.toString_inj hpieces.2⟩

/-! ## The lines that a report prints -/

def reportRoot (context : Context) (request : ReportRequest) : Path :=
  context.resolve (request.root.getD context.settings.cwd)

def reportScanner (context : Context) (request : ReportRequest) (project : ProjectSettings)
    (format : Format) : Scanner where
  compiler := Context.compiler { context with settings := context.settings.withProject project }
    request.sibling
  format := format
  ignore := project.ignore ++ request.ignore

def IsComplaint (line : String) : Prop :=
  line = "Error" ∨ ∃ cause : Error, line = "error: " ++ cause.message

theorem isComplaint_of_mem_complain {context : Context} {status : Nat} {document : Json.Value}
    {cause : Error} {line : String} (h : line ∈ (context.complain status document cause).notes) :
    IsComplaint line := by
  unfold Context.complain at h
  split at h
  · cases h
  · exact .inr ⟨cause, List.mem_singleton.1 h⟩

theorem mem_notes_deliverReport {context : Context} {request : ReportRequest} {root : Path}
    {required : List String} {index : ImportIndex} {line : String}
    (h : line ∈ (deliverReport context request root required index).notes) :
    IsComplaint line ∨ line ∈ warnings index := by
  have hnotes : line ∈ (if context.settings.json then [] else warnings index) →
      line ∈ warnings index := by
    intro hmem
    split at hmem
    · cases hmem
    · exact hmem
  unfold deliverReport at h
  dsimp only at h
  split at h
  · exact .inr (hnotes h)
  · split at h
    · exact .inr (hnotes h)
    · exact .inl (.inl (List.mem_singleton.1 h))

/-- A report either complains or warns of what the scan of its root left out. -/
theorem mem_notes_runReport {context : Context} {request : ReportRequest} {line : String}
    (h : line ∈ (runReport context request).notes) :
    IsComplaint line ∨ ∃ project format index,
      ProjectSettings.find context.tree (reportRoot context request) = .ok project ∧
      Format.named (context.settings.withProject project).format = .ok format ∧
      (reportScanner context request project format).scanRoot context.tree
        (reportRoot context request) = .ok index ∧
      line ∈ warnings index := by
  unfold runReport at h
  unfold reportRoot reportScanner
  generalize context.resolve (request.root.getD context.settings.cwd) = root at h ⊢
  dsimp only at h
  split at h
  · exact .inl (isComplaint_of_mem_complain h)
  · rename_i project hproject
    unfold Context.withFormat at h
    split at h
    · rename_i format hformat
      dsimp only at h
      generalize (if request.required.isEmpty then project.required else request.required)
        = required at h
      split at h
      · exact .inl (isComplaint_of_mem_complain h)
      · rename_i index hscan
        refine (mem_notes_deliverReport h).imp id fun hwarning => ?_
        exact ⟨project, format, index, hproject, hformat, hscan, hwarning⟩
    · exact .inl (isComplaint_of_mem_complain h)

theorem notes_runReport {context : Context} {request : ReportRequest} {project : ProjectSettings}
    {format : Format} {index : ImportIndex} (hjson : context.settings.json = false)
    (houtput : request.output = none)
    (hproject : ProjectSettings.find context.tree (reportRoot context request) = .ok project)
    (hformat : Format.named (context.settings.withProject project).format = .ok format)
    (hscan : (reportScanner context request project format).scanRoot context.tree
      (reportRoot context request) = .ok index) :
    (runReport context request).notes = warnings index := by
  have hplain : (context.settings.withProject project).json = false := hjson
  unfold reportRoot at hproject hscan
  unfold reportScanner at hscan
  unfold runReport Context.withFormat deliverReport
  simp only [hproject, hformat, hscan, houtput, hplain]
  rfl

theorem head?_warningLine (failed scanned : Nat) :
    (warningLine failed scanned).toList.head? = some 'w' := by
  simp [warningLine]

theorem not_isComplaint_warningLine (failed scanned : Nat) :
    ¬IsComplaint (warningLine failed scanned) := by
  have hhead := head?_warningLine failed scanned
  rintro (h | ⟨cause, h⟩)
  · rw [h] at hhead
    exact absurd hhead (by decide)
  · rw [h] at hhead
    simp at hhead

theorem mem_warnings_iff {index : ImportIndex} {failed scanned : Nat} :
    warningLine failed scanned ∈ warnings index ↔
      index.failures ≠ [] ∧ failed = countFiles index.failures ∧ scanned = index.filesScanned := by
  unfold warnings
  by_cases hempty : index.failures = []
  · simp [hempty]
  rw [if_neg (by simpa using hempty), List.mem_cons]
  constructor
  · rintro (hline | hfailure)
    · exact ⟨hempty, warningLine_inj hline⟩
    · obtain ⟨failure, -, hline⟩ := List.mem_map.1 hfailure
      have hhead := head?_warningLine failed scanned
      rw [← hline] at hhead
      simp at hhead
  · rintro ⟨-, rfl, rfl⟩
    exact .inl rfl

/-! ## Both numbers -/

section Numbers

variable {sources : SourceFiles}

/-- Every file that was found is clean or counted, and so is every entry that was not looked at. -/
theorem countFiles_add_clean
    (hdistinct : ((sources.files ++ sources.unreadable.map Prod.fst).map Path.components).Nodup)
    (ignore : List String) (outcome : Path → Except Error ScanResult) :
    countFiles (ImportIndex.ofSources ignore sources outcome).failures
        + (sources.files.filter fun path => isClean (outcome path)).length
      = sources.files.length + sources.unreadable.length := by
  have hsplit := List.length_eq_length_filter_add (l := sources.files) (isClean <| outcome ·)
  rw [failures_ofSources, (separate_blocksOf outcome hdistinct).countFiles_eq,
    length_filter_blocksOf]
  omega

theorem filesScanned_ofSources (ignore : List String) (sources : SourceFiles)
    (outcome : Path → Except Error ScanResult) :
    (ImportIndex.ofSources ignore sources outcome).filesScanned = sources.files.length := by
  unfold ImportIndex.ofSources ImportIndex.addUnreadable
  rw [ImportIndex.ofOutcomes_eq, List.length_map]

end Numbers

/-- Of the two numbers in the warning that a report prints, the second counts the files that were
found, the first those of them that were not scanned in full and also the entries that could not be
looked at. So the first is not the larger one exactly if at least as many files were scanned in full
as entries could not be looked at. -/
theorem report_warning_counts {context : Context} {request : ReportRequest} {failed scanned : Nat}
    (hproper : context.tree.root.Proper)
    (h : warningLine failed scanned ∈ (runReport context request).notes) :
    ∃ project format sources,
      ProjectSettings.find context.tree (reportRoot context request) = .ok project ∧
      Format.named (context.settings.withProject project).format = .ok format ∧
      context.tree.sourceFiles (reportRoot context request) = .ok sources ∧
      let scanner := reportScanner context request project format
      let clean := sources.files.filter fun path =>
        isClean (scanFile context.tree scanner.compiler scanner.format path)
      scanned = sources.files.length ∧
      failed + clean.length = sources.files.length + sources.unreadable.length ∧
      (failed ≤ scanned ↔ sources.unreadable.length ≤ clean.length) := by
  rcases mem_notes_runReport h with
    hcomplaint | ⟨project, format, index, hproject, hformat, hscan, hline⟩
  · exact absurd hcomplaint (not_isComplaint_warningLine failed scanned)
  · cases hsources : context.tree.sourceFiles (reportRoot context request) with
    | error cause =>
      rw [Scanner.scanRoot, hsources] at hscan
      cases hscan
    | ok sources =>
      refine ⟨project, format, sources, hproject, hformat, rfl, ?_⟩
      dsimp only
      generalize reportScanner context request project format = scanner at hscan ⊢
      obtain ⟨-, rfl, rfl⟩ := mem_warnings_iff.1 hline
      rw [Scanner.scanRoot_eq hsources] at hscan
      cases hscan
      have hdistinct := FileTree.nodup_sourceFiles hproper hsources
      have hcount := countFiles_add_clean hdistinct scanner.ignore
        (scanFile context.tree scanner.compiler scanner.format)
      rw [filesScanned_ofSources]
      exact ⟨rfl, hcount, by omega⟩

def strayRequest : ReportRequest where
  root := some ⟨"proj"⟩
  required := []
  ignore := []
  kind := .imports
  flags := {}
  sibling := true
  output := none

def strayContext : Context where
  tree := strayTree
  pid := 7
  settings := Settings.ofFlags ⟨"."⟩ {}

def strayIndex : ImportIndex :=
  .ofSources [] straySources (scanFile strayTree .sibling .v27)

theorem notes_strayTree : (runReport strayContext strayRequest).notes = warnings strayIndex := by
  have hroot : reportRoot strayContext strayRequest = ⟨"./proj"⟩ := by decide +kernel
  have hproject : ProjectSettings.find strayTree (reportRoot strayContext strayRequest)
      = .ok {} := by
    rw [hroot]
    rfl
  have hformat : Format.named (strayContext.settings.withProject {}).format = .ok .v27 := by rfl
  have hscan : (reportScanner strayContext strayRequest {} .v27).scanRoot strayTree
      (reportRoot strayContext strayRequest) = .ok strayIndex := by
    rw [hroot]
    exact Scanner.scanRoot_eq sourceFiles_strayTree _
  exact notes_runReport rfl rfl hproject hformat hscan

theorem warns_strayTree : warningLine 2 1 ∈ (runReport strayContext strayRequest).notes := by
  have hcount : 2 = countFiles strayIndex.failures := by decide +kernel
  have hfailures : strayIndex.failures ≠ [] := by decide +kernel
  rw [notes_strayTree]
  exact mem_warnings_iff.2 ⟨hfailures, hcount, rfl⟩

theorem report_warning_counts_strayTree :
    strayContext.tree.root.Proper ∧
    warningLine 2 1 ∈ (runReport strayContext strayRequest).notes ∧
    ∃ project format sources,
      ProjectSettings.find strayContext.tree (reportRoot strayContext strayRequest) = .ok project ∧
      Format.named (strayContext.settings.withProject project).format = .ok format ∧
      strayContext.tree.sourceFiles (reportRoot strayContext strayRequest) = .ok sources ∧
      let scanner := reportScanner strayContext strayRequest project format
      let clean := sources.files.filter fun path =>
        isClean (scanFile strayContext.tree scanner.compiler scanner.format path)
      1 = sources.files.length ∧
      2 + clean.length = sources.files.length + sources.unreadable.length ∧
      (2 ≤ 1 ↔ sources.unreadable.length ≤ clean.length) := by
  have hproper : strayContext.tree.root.Proper := proper_strayTree
  exact ⟨hproper, warns_strayTree, report_warning_counts hproper warns_strayTree⟩

/-- A report says that two files of one could not be fully scanned: the only source and the link. -/
theorem more_failed_than_scanned :
    strayTree.root.Proper ∧ ∃ outcome,
      respond strayTree 7 ⟨"."⟩ ["report", "--pyc", "proj"] = .done outcome ∧
      "warning: 2 of 1 files could not be fully scanned" ∈ outcome.notes := by
  have hread : CommandLine.read ["report", "--pyc", "proj"]
      = .ok { json := false, verbosity := 0, cwd := none, request := .report strayRequest } := rfl
  have hline : "warning: 2 of 1 files could not be fully scanned" = warningLine 2 1 := by
    decide +kernel
  refine ⟨proper_strayTree, runReport strayContext strayRequest, ?_, ?_⟩
  · unfold respond
    rw [hread]
    rfl
  · rw [hline]
    exact warns_strayTree

end Command

end ImportAtlas
