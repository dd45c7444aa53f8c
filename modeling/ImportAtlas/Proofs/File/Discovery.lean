import ImportAtlas.File.Discovery
import ImportAtlas.File.Order
import ImportAtlas.Proofs.File.Below
import ImportAtlas.Proofs.Index.Keyed

/-!
# What counts as a source

Which paths are sources is said here by where an entry stands and what it is,
without the walk that finds them. The main statement is that the walk finds
exactly those, in strict order of paths, and keeps the links that lead nowhere
apart.
-/

namespace ImportAtlas

/-- `path` shows an entry of `top`, which itself is shown as `root`, and no directory between the
two is excluded. -/
def Visible (top : Node) (root path : Path) (entry : Node) : Prop :=
  ∃ location, location ≠ [] ∧ path = root.below location ∧ top.at? location = some entry ∧
    ∀ ancestor ∈ location.dropLast,
      ancestor ∉ [".git", "__pycache__", ".tox", ".venv", "venv", "build", "dist"]

/-- A source below `top`: a file, or a link that leads to one, with the extension of sources. -/
inductive IsSource (tree : FileTree) (top : Node) (root path : Path) : Prop where
  | file {held : RegularFile} (hpath : path.extension? = some "py")
      (hvisible : Visible top root path (.file held))
  | link {target : Path} {held : RegularFile} (hpath : path.extension? = some "py")
      (hvisible : Visible top root path (.link target))
      (hfind : tree.find path = .ok (.file held))

inductive IsBroken (tree : FileTree) (top : Node) (root path : Path) : Error → Prop where
  | link {target : Path} {cause : SystemError} (hpath : path.extension? = some "py")
      (hvisible : Visible top root path (.link target)) (hfind : tree.find path = .error cause) :
      IsBroken tree top root path (.unreadable path cause)

namespace Node

variable {top entry : Node} {root path : Path}

theorem visible_of_mem_descendants (hproper : top.Proper)
    (h : (path, entry) ∈ top.descendants (excludedDirectories.contains ·) root) :
    Visible top root path entry := by
  obtain ⟨name, rest, hpath, hat, hancestors⟩ := exists_location hproper h
  refine ⟨name :: rest, List.cons_ne_nil _ _, hpath, hat, ?_⟩
  intro ancestor hancestor
  simpa [excludedDirectories] using hancestors ancestor hancestor

theorem mem_descendants_of_visible (hopen : top.Readable root) (hleaf : entry.isDirectory = false)
    (h : Visible top root path entry) :
    (path, entry) ∈ top.descendants (excludedDirectories.contains ·) root := by
  obtain ⟨location, hne, rfl, hat, hancestors⟩ := h
  apply mem_descendants hne hat hleaf _ hopen
  intro ancestor hancestor
  simpa [excludedDirectories] using hancestors ancestor hancestor

end Node

namespace FileTree

variable {tree : FileTree} {top node : Node} {root path shown : Path}

theorem text_ne_empty_of_find (h : tree.find path = .ok node) : path.text ≠ "" := by
  obtain ⟨location, hlocate, -⟩ := except_bind_eq_ok h
  obtain ⟨_, hcheck, -⟩ := except_bind_eq_ok hlocate
  intro hempty
  unfold Path.check at hcheck
  split at hcheck
  · cases hcheck
  · rw [hempty] at hcheck
    cases hcheck

/-! ## One entry -/

theorem isSourcePath_iff : isSourcePath path = true ↔ path.extension? = some "py" := by
  simp [isSourcePath]

theorem classify_path {error : Option Error} (h : tree.classify path node = some (shown, error)) :
    shown = path := by
  cases node <;> grind [classify]

theorem classify_eq_source_iff :
    tree.classify path node = some (shown, none) ↔
      shown = path ∧ path.extension? = some "py" ∧
        ((∃ held, node = .file held) ∨
          ∃ target held, node = .link target ∧ tree.find path = .ok (.file held)) := by
  rw [← isSourcePath_iff]
  cases node with
  | directory entries => grind [classify]
  | file held => grind [classify]
  | link target => cases hfind : tree.find path <;> grind [classify]

theorem classify_eq_broken_iff {error : Error}
    (hopen : node.isDirectory = true → path.isTooLong = false) :
    tree.classify path node = some (shown, some error) ↔
      shown = path ∧ path.extension? = some "py" ∧
        ∃ target cause, node = .link target ∧ tree.find path = .error cause ∧
          error = .unreadable path cause := by
  rw [← isSourcePath_iff]
  cases node with
  | directory entries => grind [classify, Node.isDirectory]
  | file held => grind [classify]
  | link target => cases hfind : tree.find path <;> grind [classify]

/-! ## All entries -/

def met (tree : FileTree) (top : Node) (root : Path) : List (Path × Option Error) :=
  (top.descendants (excludedDirectories.contains ·) root).filterMap fun (path, node) =>
    tree.classify path node

theorem mem_met {error : Option Error} : (shown, error) ∈ tree.met top root ↔
    ∃ path node, (path, node) ∈ top.descendants (excludedDirectories.contains ·) root ∧
      tree.classify path node = some (shown, error) := by
  simp [met]

section

variable (hproper : top.Proper) (hopen : top.Readable root)

include hproper hopen

theorem mem_met_none_iff : (path, none) ∈ tree.met top root ↔ IsSource tree top root path := by
  rw [mem_met]
  constructor
  · rintro ⟨path, node, hmem, hclassify⟩
    have hvisible := Node.visible_of_mem_descendants hproper hmem
    obtain ⟨rfl, hpath, ⟨held, rfl⟩ | ⟨target, held, rfl, hfind⟩⟩ :=
      classify_eq_source_iff.1 hclassify
    · exact .file hpath hvisible
    · exact .link hpath hvisible hfind
  · rintro (⟨hpath, hvisible⟩ | ⟨hpath, hvisible, hfind⟩)
    · refine ⟨path, _, Node.mem_descendants_of_visible hopen rfl hvisible, ?_⟩
      exact classify_eq_source_iff.2 ⟨rfl, hpath, .inl ⟨_, rfl⟩⟩
    · refine ⟨path, _, Node.mem_descendants_of_visible hopen rfl hvisible, ?_⟩
      exact classify_eq_source_iff.2 ⟨rfl, hpath, .inr ⟨_, _, rfl, hfind⟩⟩

theorem mem_met_some_iff {error : Error} :
    (path, some error) ∈ tree.met top root ↔ IsBroken tree top root path error := by
  rw [mem_met]
  constructor
  · rintro ⟨path, node, hmem, hclassify⟩
    have hvisible := Node.visible_of_mem_descendants hproper hmem
    have hdirectory : node.isDirectory = true → path.isTooLong = false := by
      intro hnode
      obtain ⟨location, -, rfl, hat, -⟩ := hvisible
      obtain ⟨entries, rfl⟩ := Node.isDirectory_iff.1 hnode
      exact hopen location entries hat
    obtain ⟨rfl, hpath, target, cause, rfl, hfind, rfl⟩ :=
      (classify_eq_broken_iff hdirectory).1 hclassify
    exact .link hpath hvisible hfind
  · rintro ⟨hpath, hvisible, hfind⟩
    refine ⟨path, _, Node.mem_descendants_of_visible hopen rfl hvisible, ?_⟩
    exact (classify_eq_broken_iff (by simp [Node.isDirectory])).2
      ⟨rfl, hpath, _, _, rfl, hfind, rfl⟩

end

theorem sublist_map_filterMap {α β γ : Type} {choose : α → Option β} {key : α → γ} {kept : β → γ}
    (h : ∀ item chosen, choose item = some chosen → kept chosen = key item) (items : List α) :
    ((items.filterMap choose).map kept).Sublist (items.map key) := by
  induction items with
  | nil => exact .slnil
  | cons item items ih =>
    cases hchosen : choose item with
    | none =>
      rw [List.filterMap_cons_none hchosen]
      exact ih.cons _
    | some chosen =>
      rw [List.filterMap_cons_some hchosen, List.map_cons, List.map_cons, h item chosen hchosen]
      exact ih.cons_cons _

theorem nodup_met (tree : FileTree) (hproper : top.Proper) (hroot : root.text ≠ "") :
    ((tree.met top root).map (·.1.components)).Nodup := by
  apply List.Nodup.sublist _ (Node.nodup_descendants (excludedDirectories.contains ·) hproper hroot)
  apply sublist_map_filterMap
  rintro ⟨path, node⟩ ⟨shown, error⟩ hclassify
  exact congrArg Path.components (classify_path hclassify)

/-! ## The two lists -/

def sourcesOf (met : List (Path × Option Error)) : List Path :=
  met.filterMap fun (path, error) => if error.isNone then some path else none

def failuresOf (met : List (Path × Option Error)) : List (Path × Error) :=
  met.filterMap fun (path, error) => error.map (path, ·)

theorem sourceFiles_directory {entries : List (String × Node)}
    (h : tree.find root = .ok (.directory entries)) :
    tree.sourceFiles root = .ok {
      files := (sourcesOf (tree.met (.directory entries) root)).mergeSort
        fun a b => (a.compare b).isLE
      unreadable := failuresOf (tree.met (.directory entries) root) } := by
  unfold sourceFiles
  rw [h]
  rfl

section

variable {met : List (Path × Option Error)}

theorem mem_sourcesOf : path ∈ sourcesOf met ↔ (path, none) ∈ met := by
  simp [sourcesOf]

theorem mem_failuresOf {error : Error} :
    (path, error) ∈ failuresOf met ↔ (path, some error) ∈ met := by
  simp [failuresOf]

variable (hdistinct : (met.map (·.1.components)).Nodup)

include hdistinct

theorem nodup_sourcesOf : ((sourcesOf met).map Path.components).Nodup := by
  apply List.Nodup.sublist _ hdistinct
  apply sublist_map_filterMap
  rintro ⟨path, _ | error⟩ shown hsome
  · cases hsome
    rfl
  · cases hsome

theorem nodup_failuresOf : ((failuresOf met).map Prod.fst).Nodup := by
  have hcomponents : ((failuresOf met).map (·.1.components)).Nodup := by
    apply List.Nodup.sublist _ hdistinct
    apply sublist_map_filterMap
    rintro ⟨path, _ | error⟩ failure hsome
    · cases hsome
    · cases hsome
      rfl
  apply List.Nodup.of_map Path.components
  rwa [List.map_map]

theorem notMem_failuresOf (hpath : path ∈ sourcesOf met) :
    path ∉ (failuresOf met).map Prod.fst := by
  intro hfailure
  obtain ⟨⟨shown, error⟩, hmem, rfl⟩ := List.mem_map.1 hfailure
  have hsame := List.inj_on_of_nodup_map hdistinct (mem_sourcesOf.1 hpath)
    (mem_failuresOf.1 hmem) rfl
  cases hsame

end

theorem perm_met (met : List (Path × Option Error)) :
    (sourcesOf met ++ (failuresOf met).map Prod.fst).Perm (met.map Prod.fst) := by
  induction met with
  | nil => exact .nil
  | cons entry met ih =>
    obtain ⟨path, error⟩ := entry
    cases error with
    | none => exact ih.cons path
    | some error => exact List.perm_middle.trans (ih.cons path)

/-- No two of the sources and failures found below a root have the same components. -/
theorem nodup_sourceFiles {found : SourceFiles} (hproper : tree.root.Proper)
    (h : tree.sourceFiles root = .ok found) :
    ((found.files ++ found.unreadable.map Prod.fst).map Path.components).Nodup := by
  cases hroot : tree.find root with
  | error cause =>
    rw [sourceFiles, hroot] at h
    cases h
  | ok top =>
    obtain ⟨location, -, hat⟩ := except_bind_eq_ok hroot
    have htop : top.Proper := by
      cases hnode : tree.root.at? location with
      | none =>
        rw [hnode] at hat
        cases hat
      | some node =>
        rw [hnode] at hat
        cases hat
        exact hproper.of_at? hnode
    have hmet := nodup_met tree htop (text_ne_empty_of_find hroot)
    have hsplit : ((sourcesOf (tree.met top root)
        ++ (failuresOf (tree.met top root)).map Prod.fst).map Path.components).Nodup := by
      rw [((perm_met _).map Path.components).nodup_iff, List.map_map]
      exact hmet
    rw [sourceFiles, hroot] at h
    cases top with
    | file held =>
      cases h
      simp
    | link target | directory entries =>
      cases h
      refine (List.Perm.nodup_iff (.map _ (.append_right _ ?_))).2 hsplit
      exact List.mergeSort_perm _ _

theorem pairwise_lt_mergeSort {paths : List Path} (h : (paths.map Path.components).Nodup) :
    (paths.mergeSort fun a b => (a.compare b).isLE).Pairwise fun a b => a.compare b = .lt := by
  apply Keyed.pairwise_lt_mergeSort
  apply (List.pairwise_map.1 h).imp
  intro a b hne heq
  exact hne (Path.compare_eq_iff.1 heq)

/-- Below a directory that can be walked, exactly the sources are found, in strict order of their
components, and exactly the broken links are reported, each once and none of them a source. -/
theorem sourceFiles_exactly {entries : List (String × Node)}
    (hroot : tree.find root = .ok (.directory entries)) (hproper : (Node.directory entries).Proper)
    (hopen : (Node.directory entries).Readable root) :
    ∃ found, tree.sourceFiles root = .ok found ∧
      (found.files.Pairwise fun a b => a.compare b = .lt) ∧
      (∀ path, path ∈ found.files ↔ IsSource tree (.directory entries) root path) ∧
      (found.unreadable.map Prod.fst).Nodup ∧
      (∀ path error, (path, error) ∈ found.unreadable ↔
        IsBroken tree (.directory entries) root path error) ∧
      ∀ path ∈ found.files, path ∉ found.unreadable.map Prod.fst := by
  have hdistinct := nodup_met tree hproper (text_ne_empty_of_find hroot)
  refine ⟨_, sourceFiles_directory hroot, pairwise_lt_mergeSort (nodup_sourcesOf hdistinct), ?_,
    nodup_failuresOf hdistinct, ?_, ?_⟩
  · intro path
    rw [List.mem_mergeSort, mem_sourcesOf]
    exact mem_met_none_iff hproper hopen
  · intro path error
    rw [mem_failuresOf]
    exact mem_met_some_iff hproper hopen
  · intro path hpath
    rw [List.mem_mergeSort] at hpath
    exact notMem_failuresOf hdistinct hpath

/-- Entries of every kind below a directory that itself has the name of an excluded one. -/
def mixedEntries : List (String × Node) := [
  ("a", .directory [("b.py", .file { content := [] })]),
  ("a.py", .file { content := [] }),
  ("dist", .directory [("c.py", .file { content := [] })]),
  ("gone.py", .link ⟨"nowhere"⟩),
  ("l.py", .link ⟨"a.py"⟩),
  ("m.py", .link ⟨"a"⟩),
  ("p.py", .directory [("d.py", .file { content := [] })]),
  ("venv", .file { content := [] })]

def mixedTree : FileTree where
  root := .directory [("build", .directory mixedEntries)]
  working := []

theorem sourceFiles_exactly_mixedTree :
    mixedTree.find ⟨"build"⟩ = .ok (.directory mixedEntries) ∧
      (Node.directory mixedEntries).Proper ∧ (Node.directory mixedEntries).Readable ⟨"build"⟩ ∧
      ∃ found, mixedTree.sourceFiles ⟨"build"⟩ = .ok found ∧
        (found.files.Pairwise fun a b => a.compare b = .lt) ∧
        (∀ path, path ∈ found.files ↔
          IsSource mixedTree (.directory mixedEntries) ⟨"build"⟩ path) ∧
        (found.unreadable.map Prod.fst).Nodup ∧
        (∀ path error, (path, error) ∈ found.unreadable ↔
          IsBroken mixedTree (.directory mixedEntries) ⟨"build"⟩ path error) ∧
        ∀ path ∈ found.files, path ∉ found.unreadable.map Prod.fst := by
  have hfind : mixedTree.find ⟨"build"⟩ = .ok (.directory mixedEntries) := by rfl
  have hproper : (Node.directory mixedEntries).Proper := by
    apply Node.Proper.directory ⟨by decide +kernel, by decide +kernel⟩
    simp only [mixedEntries, List.forall_mem_cons]
    refine ⟨?_, .of_leaf rfl, ?_, .of_leaf rfl, .of_leaf rfl, .of_leaf rfl, ?_, .of_leaf rfl,
      by simp⟩
    all_goals
      refine .directory ⟨by decide +kernel, by decide +kernel⟩ ?_
      exact List.forall_mem_singleton.2 (.of_leaf rfl)
  have hopen : (Node.directory mixedEntries).Readable ⟨"build"⟩ := by
    apply Node.Readable.directory (by decide +kernel)
    simp only [mixedEntries, List.forall_mem_cons]
    refine ⟨?_, .of_leaf rfl, ?_, .of_leaf rfl, .of_leaf rfl, .of_leaf rfl, ?_, .of_leaf rfl,
      by simp⟩
    all_goals
      refine .directory (by decide +kernel) ?_
      exact List.forall_mem_singleton.2 (.of_leaf rfl)
  exact ⟨hfind, hproper, hopen, sourceFiles_exactly hfind hproper hopen⟩

end FileTree

end ImportAtlas
