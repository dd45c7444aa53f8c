import ImportAtlas.Proofs.Index.Grouping
import ImportAtlas.Report.Dependencies
import ImportAtlas.Report.Rank
import Mathlib.Data.List.Pairwise

/-!
# The index and the order of files

Files may be scanned in any order. Records of different files go under different
paths, so adding them commutes, whether they meet in one module or not; hence so
does merging whole files, and an index does not depend on the order of its files.
Failures alone are kept in that order.
-/

namespace ImportAtlas.ImportIndex

open Std

section Runs

variable {α β : Type} {step : β → α → β} {xs : List α}

theorem foldl_comm_step {y : α}
    (h : ∀ x ∈ xs, ∀ state, step (step state x) y = step (step state y) x) (state : β) :
    step (xs.foldl step state) y = xs.foldl step (step state y) := by
  induction xs generalizing state with
  | nil => rfl
  | cons x xs ih =>
    have hx := h x List.mem_cons_self state
    have hrest := ih (fun other hother => h other (List.mem_cons_of_mem _ hother)) (step state x)
    rw [List.foldl_cons, List.foldl_cons, hrest, hx]

theorem foldl_comm {ys : List α}
    (h : ∀ x ∈ xs, ∀ y ∈ ys, ∀ state, step (step state x) y = step (step state y) x) (state : β) :
    ys.foldl step (xs.foldl step state) = xs.foldl step (ys.foldl step state) := by
  induction ys generalizing state with
  | nil => rfl
  | cons y ys ih =>
    have hy := foldl_comm_step (fun x hx => h x hx y List.mem_cons_self) state
    rw [List.foldl_cons, List.foldl_cons, hy]
    exact ih (fun x hx other hother => h x hx other (List.mem_cons_of_mem _ hother)) (step state y)

end Runs

section Records

variable {ignore : List String} {path other : Path}

theorem addOccurrence_comm (hpaths : path.components ≠ other.components)
    (occurrence later : Occurrence) (files : FileOccurrences) :
    addOccurrence path occurrence (addOccurrence other later files) =
      addOccurrence other later (addOccurrence path occurrence files) := by
  have hne : path.compare other ≠ .eq := fun heq => hpaths (Path.compare_eq_iff.1 heq)
  exact Keyed.Map.alter_comm hne files _ _

theorem addRecord_comm (hpaths : path.components ≠ other.components)
    (record later : ImportRecord) (modules : ModuleFiles) :
    addRecord ignore other (addRecord ignore path modules record) later =
      addRecord ignore path (addRecord ignore other modules later) record := by
  by_cases hrecord : record.topLevel ∈ ignore
  · rw [addRecord_of_mem hrecord, addRecord_of_mem hrecord]
  by_cases hlater : later.topLevel ∈ ignore
  · rw [addRecord_of_mem hlater, addRecord_of_mem hlater]
  rw [addRecord_of_notMem hrecord, addRecord_of_notMem hlater, addRecord_of_notMem hrecord,
    addRecord_of_notMem hlater]
  by_cases hmodule : record.topLevel = later.topLevel
  · -- Both records change one module, at different files of it.
    rw [hmodule, Keyed.Map.alter_alter_self, Keyed.Map.alter_alter_self]
    congr 1
    funext files
    exact (addOccurrence_comm hpaths _ _ _).symm
  · have hne : compare later.topLevel record.topLevel ≠ .eq :=
      fun heq => hmodule (LawfulEqOrd.eq_of_compare heq).symm
    exact Keyed.Map.alter_comm hne modules _ _

end Records

/-! ## Files in another order -/

abbrev Outcome := Path × Except Error ScanResult

def addOutcome (ignore : List String) (modules : ModuleFiles) (outcome : Outcome) : ModuleFiles :=
  (located [outcome]).foldl (fun modules entry => addRecord ignore entry.1 modules entry.2) modules

theorem modules_ofOutcomes (ignore : List String) (outcomes : List Outcome) :
    (ofOutcomes ignore outcomes).modules = outcomes.foldl (addOutcome ignore) .empty := by
  have hlocated : located outcomes = outcomes.flatMap fun outcome => located [outcome] := by
    simp [located]
  rw [ofOutcomes_eq, hlocated, List.foldl_flatMap]
  rfl

theorem fst_of_mem_located {outcome : Outcome} {entry : Located} (h : entry ∈ located [outcome]) :
    entry.1 = outcome.1 := by
  obtain ⟨path, result⟩ := outcome
  cases result with
  | error error => simp [located] at h
  | ok result =>
    simp only [located, List.flatMap_cons, List.flatMap_nil, List.append_nil, List.mem_map] at h
    obtain ⟨record, -, rfl⟩ := h
    rfl

theorem addOutcome_comm {ignore : List String} {outcome other : Outcome}
    (hpaths : outcome.1.components ≠ other.1.components) (modules : ModuleFiles) :
    addOutcome ignore (addOutcome ignore modules outcome) other =
      addOutcome ignore (addOutcome ignore modules other) outcome := by
  apply foldl_comm
  intro entry hentry later hlater state
  have hdistinct : entry.1.components ≠ later.1.components := by
    rw [fst_of_mem_located hentry, fst_of_mem_located hlater]
    exact hpaths
  exact addRecord_comm hdistinct entry.2 later.2 state

theorem modules_of_perm {ignore : List String} {outcomes others : List Outcome}
    (hperm : outcomes.Perm others)
    (hdistinct : outcomes.Pairwise fun a b => a.1.components ≠ b.1.components) :
    (ofOutcomes ignore outcomes).modules = (ofOutcomes ignore others).modules := by
  rw [modules_ofOutcomes, modules_ofOutcomes]
  apply hperm.foldl_eq'
  intro first hfirst second hsecond modules
  by_cases hsame : first = second
  · rw [hsame]
  · have hsymm : Symm fun a b : Outcome => a.1.components ≠ b.1.components :=
      ⟨fun _ _ h => h.symm⟩
    exact addOutcome_comm (hdistinct.forall hfirst hsecond hsame) modules

theorem path_of_mem_reported {outcome : Outcome} {failure : FileFailure}
    (h : failure ∈ reported outcome) : failure.path = outcome.1 := by
  obtain ⟨path, result⟩ := outcome
  cases result with
  | error error => rw [List.mem_singleton.1 h]
  | ok result =>
    obtain ⟨cause, -, rfl⟩ := List.mem_map.1 h
    rfl

theorem rank_congr {index other : ImportIndex} (h : index.modules = other.modules) :
    index.rank = other.rank := by
  unfold rank names count files?
  rw [h]

theorem dependencies_congr {index other : ImportIndex} (h : index.modules = other.modules)
    (required : List String) : index.dependencies required = other.dependencies required := by
  have hcontains : index.contains = other.contains := by
    funext module
    unfold contains files?
    rw [h]
  unfold dependencies names
  rw [h, hcontains]

/--
The index of files with pairwise different components does not depend on their
order, however each file is scanned: the modules with their files and occurrences,
the number of files and the reports are the same. The failures are those of the
files one after another, each file's own together and in the order of its scan.
-/
theorem ofOutcomes_order_independent (ignore : List String)
    (scanned : Path → Except Error ScanResult) {files others : List Path}
    (hperm : files.Perm others)
    (hdistinct : files.Pairwise fun a b => a.components ≠ b.components) :
    let first := ofOutcomes ignore (files.map fun path => (path, scanned path))
    let second := ofOutcomes ignore (others.map fun path => (path, scanned path))
    first.modules = second.modules ∧
    first.filesScanned = second.filesScanned ∧
    first.rank = second.rank ∧
    (∀ required, first.dependencies required = second.dependencies required) ∧
    first.failures.Perm second.failures ∧
    ∃ own : Path → List FileFailure, (∀ path, ∀ failure ∈ own path, failure.path = path) ∧
      first.failures = files.flatMap own ∧ second.failures = others.flatMap own := by
  intro first second
  have hmodules : first.modules = second.modules := by
    apply modules_of_perm (hperm.map _)
    exact List.pairwise_map.2 hdistinct
  have hfailures (paths : List Path) :
      (ofOutcomes ignore (paths.map fun path => (path, scanned path))).failures =
        paths.flatMap fun path => reported (path, scanned path) := by
    rw [ofOutcomes_eq, List.flatMap_map]
  have hcount (paths : List Path) :
      (ofOutcomes ignore (paths.map fun path => (path, scanned path))).filesScanned =
        paths.length := by
    rw [ofOutcomes_eq, List.length_map]
  refine ⟨hmodules, ?_, rank_congr hmodules, dependencies_congr hmodules, ?_, ?_⟩
  · rw [hcount, hcount, hperm.length_eq]
  · rw [hfailures, hfailures]
    exact hperm.flatMap_right _
  · refine ⟨fun path => reported (path, scanned path), ?_, hfailures files, hfailures others⟩
    intro path failure hfailure
    exact path_of_mem_reported hfailure

/-- Two files that import one module between them, with a failed unit in the first and nothing of
an ignored module; every other file fails as a whole. -/
def sharingScan (path : Path) : Except Error ScanResult :=
  if path = ⟨"a.py"⟩ then
    .ok {
      records := [⟨1, none, "os.path", none, .implicit⟩, ⟨2, none, "sys", none, .implicit⟩]
      failures := [⟨"f", 3, .truncatedInstruction 0 1⟩, ⟨"g", 4, .truncatedInstruction 2 3⟩] }
  else if path = ⟨"b.py"⟩ then .ok { records := [⟨7, some "import os", "os", none, .absolute⟩] }
  else .error (.unreadable path .notFound)

def sharingIndex (files : List Path) : ImportIndex :=
  ofOutcomes ["sys"] (files.map fun path => (path, sharingScan path))

theorem ofOutcomes_order_independent_sharingScan :
    let files : List Path := [⟨"b.py"⟩, ⟨"c.py"⟩, ⟨"a.py"⟩]
    let others : List Path := [⟨"a.py"⟩, ⟨"b.py"⟩, ⟨"c.py"⟩]
    files.Perm others ∧ (files.Pairwise fun a b => a.components ≠ b.components) ∧
    (sharingIndex files).modules = (sharingIndex others).modules ∧
    (sharingIndex files).rank = (sharingIndex others).rank ∧
    (sharingIndex files).failures.Perm (sharingIndex others).failures := by
  intro files others
  have hperm : files.Perm others := by decide
  have hdistinct : files.Pairwise fun a b => a.components ≠ b.components := by decide
  obtain ⟨hmodules, -, hrank, -, hfailures, -⟩ :=
    ofOutcomes_order_independent ["sys"] sharingScan hperm hdistinct
  exact ⟨hperm, hdistinct, hmodules, hrank, hfailures⟩

end ImportAtlas.ImportIndex
