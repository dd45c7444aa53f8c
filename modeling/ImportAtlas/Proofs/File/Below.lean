import ImportAtlas.Proofs.File.Tree
import Mathlib.Data.List.Nodup

/-!
# Paths below a directory

An entry below a directory is shown under the path of the directory and the
names that lead to it. Where names are names of entries, the path has one
component more for each of them, however the directory was spelled; so two
entries never share a path, and walking down a tree shows each of its entries
once.
-/

namespace ImportAtlas

namespace Path

structure IsEntry (name : String) : Prop where
  isName : IsName name
  slash : '/' ∉ name.toList

instance (part : String) : Decidable (IsName part) :=
  inferInstanceAs (Decidable (_ ∧ _))

instance (name : String) : Decidable (IsEntry name) :=
  decidable_of_iff (IsName name ∧ '/' ∉ name.toList) ⟨fun h => ⟨h.1, h.2⟩, fun h => ⟨h.1, h.2⟩⟩

theorem IsEntry.ne_empty {name : String} (h : IsEntry name) : name ≠ "" := by
  rintro rfl
  exact absurd h.isName.1 (by decide)

theorem IsEntry.not_isAbsolute {name : String} (h : IsEntry name) :
    (Path.mk name).isAbsolute = false := by
  unfold isAbsolute
  cases hchars : name.toList with
  | nil => rfl
  | cons first rest =>
    have hslash := h.slash
    rw [hchars, List.mem_cons, not_or] at hslash
    simpa using Ne.symm hslash.1

/-- The component before the parts of a path: that of the root, or of a leading `.`. -/
def lead (path : Path) : List Component :=
  if path.isAbsolute then [.root] else if path.parts.head? = some "." then [.current] else []

theorem components_eq (path : Path) :
    path.components = path.lead ++ bodyComponents path.parts := by
  unfold components lead
  split
  · rfl
  · split
    · rename_i rest hparts
      rw [hparts]
      -- The leading `.` is idle, so the parts spell no component for it.
      simp [bodyComponents, isIdle]
    · rename_i hparts
      have hhead : path.parts.head? ≠ some "." := by
        intro hhead
        obtain ⟨rest, hrest⟩ := List.head?_eq_some_iff.1 hhead
        exact hparts rest hrest
      rw [if_neg hhead, List.nil_append]

theorem bodyComponents_append (front back : List String) :
    bodyComponents (front ++ back) = bodyComponents front ++ bodyComponents back := by
  simp [bodyComponents]

theorem bodyComponents_entry {name : String} (h : IsEntry name) :
    bodyComponents [name] = [.normal name] := by
  simp [bodyComponents, h.isName.1, h.isName.2]

section Join

variable {base : Path} {name : String}

theorem toList_text {front : List String} {last : String} (h : base.parts = front ++ [last]) :
    base.text.toList = (front.map String.toList).flatMap (· ++ ['/']) ++ last.toList := by
  have hbase : base = ofParts (front ++ [last]) := by rw [← h, ofParts_parts]
  rw [ofParts, ofLeadAndBody_concat] at hbase
  simp [hbase]

theorem append_eq_ofParts {front : List String} {last : String} (h : base.parts = front ++ [last])
    (name : String) : Path.mk (base.text ++ name) = ofParts (front ++ [last ++ name]) := by
  rw [ofParts, ofLeadAndBody_concat]
  apply congrArg Path.mk
  apply String.ext
  simp [toList_text h]

theorem append_slash_eq_ofParts (base : Path) (name : String) :
    Path.mk (base.text ++ "/" ++ name) = ofParts (base.parts ++ [name]) := by
  have hparts := (List.dropLast_concat_getLast base.parts_ne_nil).symm
  rw [ofParts, ofLeadAndBody_concat]
  apply congrArg Path.mk
  apply String.ext
  rw [hparts]
  simp [toList_text hparts]

theorem parts_join (hbase : base.text ≠ "") (hname : IsEntry name) :
    ∃ front, front ≠ [] ∧ (base.parts = front ∨ base.parts = front ++ [""]) ∧
      (base.join ⟨name⟩).parts = front ++ [name] := by
  have hslash := hname.slash
  obtain ⟨front, last, hparts⟩ : ∃ front last, base.parts = front ++ [last] :=
    ⟨_, _, (List.dropLast_concat_getLast base.parts_ne_nil).symm⟩
  have htext := toList_text hparts
  unfold join
  rw [if_neg (by simp [hname.not_isAbsolute])]
  split
  · rename_i hend
    have hend : base.text.toList.getLast? = some '/' := by simpa [hbase] using hend
    have hlast : last = "" := by
      by_contra hlast
      have hmem : '/' ∈ last.toList := by
        apply List.mem_of_getLast?
        rw [htext, List.getLast?_append_of_ne_nil _ (by simpa using hlast)] at hend
        exact hend
      exact base.slash_notMem_of_mem_parts (by simp [hparts]) hmem
    subst hlast
    refine ⟨front, ?_, .inr hparts, ?_⟩
    · rintro rfl
      apply hbase
      apply String.ext
      simpa using htext
    · rw [append_eq_ofParts hparts, String.empty_append]
      exact parts_ofParts_concat hparts hslash
  · refine ⟨base.parts, base.parts_ne_nil, .inl rfl, ?_⟩
    rw [append_slash_eq_ofParts]
    apply parts_ofParts (by simp)
    intro part hpart
    rcases List.mem_append.1 hpart with hpart | hpart
    · exact base.slash_notMem_of_mem_parts hpart
    · rwa [List.mem_singleton.1 hpart]

theorem text_join_ne_empty (hname : IsEntry name) : (base.join ⟨name⟩).text ≠ "" := by
  have hne := hname.ne_empty
  unfold join
  split
  · exact hne
  · split <;> simp [hne]

theorem isAbsolute_join (hbase : base.text ≠ "") (hname : IsEntry name) :
    (base.join ⟨name⟩).isAbsolute = base.isAbsolute := by
  have hchars : base.text.toList ≠ [] := by simpa using hbase
  obtain ⟨first, rest, hfirst⟩ := List.exists_cons_of_ne_nil hchars
  unfold join
  rw [if_neg (by simp [hname.not_isAbsolute])]
  split <;> simp [isAbsolute, hfirst]

theorem components_join (hbase : base.text ≠ "") (hname : IsEntry name) :
    (base.join ⟨name⟩).components = base.components ++ [.normal name] := by
  obtain ⟨front, hfront, hparts, hjoin⟩ := parts_join hbase hname
  obtain ⟨first, rest, rfl⟩ := List.exists_cons_of_ne_nil hfront
  have hlead : (base.join ⟨name⟩).lead = base.lead := by
    unfold lead
    rw [isAbsolute_join hbase hname, hjoin]
    rcases hparts with hparts | hparts <;> rw [hparts] <;> rfl
  have hbody : bodyComponents base.parts = bodyComponents (first :: rest) := by
    rcases hparts with hparts | hparts
    · rw [hparts]
    · rw [hparts, bodyComponents_append]
      simp [bodyComponents, isIdle]
  rw [components_eq, components_eq, hlead, hjoin, hbody, bodyComponents_append,
    bodyComponents_entry hname, List.append_assoc]

end Join

/-- The path under which the entry at `location` below `root` is shown. -/
def below (root : Path) (location : Location) : Path :=
  location.foldl (fun path name => path.join ⟨name⟩) root

theorem components_below {root : Path} (hroot : root.text ≠ "") {location : Location}
    (h : ∀ name ∈ location, IsEntry name) :
    (root.below location).components = root.components ++ location.map .normal := by
  induction location generalizing root with
  | nil => simp [below]
  | cons name rest ih =>
    obtain ⟨hname, hrest⟩ := List.forall_mem_cons.1 h
    change ((root.join ⟨name⟩).below rest).components = _
    rw [ih (text_join_ne_empty hname) hrest, components_join hroot hname]
    simp

end Path

namespace Node

/-- A fact about a directory may be taken from its entries. -/
@[elab_as_elim]
theorem entriesInduction {motive : Node → Prop} (file : ∀ held, motive (.file held))
    (link : ∀ target, motive (.link target))
    (directory : ∀ entries, (∀ name child, (name, child) ∈ entries → motive child) →
      motive (.directory entries)) (node : Node) : motive node := by
  match node with
  | .file held => exact file held
  | .link target => exact link target
  | .directory entries =>
    apply directory
    intro name child hmem
    exact entriesInduction file link directory child
termination_by sizeOf node
decreasing_by
  have hlt := List.sizeOf_lt_of_mem hmem
  simp only [Prod.mk.sizeOf_spec, Node.directory.sizeOf_spec] at hlt ⊢
  omega

structure ProperEntries (entries : List (String × Node)) : Prop where
  distinct : (entries.map Prod.fst).Nodup
  names : ∀ entry ∈ entries, Path.IsEntry entry.1

def Proper (node : Node) : Prop :=
  ∀ location entries, node.at? location = some (.directory entries) → ProperEntries entries

theorem mem_of_lookup {entries : List (String × Node)} {name : String} {child : Node}
    (h : entries.lookup name = some child) : (name, child) ∈ entries := by
  obtain ⟨front, back, rfl, -⟩ := List.lookup_eq_some_iff.1 h
  simp

theorem lookup_of_mem {entries : List (String × Node)} {name : String} {child : Node}
    (hdistinct : (entries.map Prod.fst).Nodup) (h : (name, child) ∈ entries) :
    entries.lookup name = some child := by
  obtain ⟨front, back, rfl⟩ := List.append_of_mem h
  rw [List.lookup_eq_some_iff]
  refine ⟨front, back, rfl, ?_⟩
  intro entry hentry
  rw [List.map_append, List.nodup_append] at hdistinct
  have hne := hdistinct.2.2 entry.1 (List.mem_map_of_mem hentry) name (by simp)
  simpa using Ne.symm hne

namespace Proper

variable {entries : List (String × Node)} {name : String} {child : Node}

theorem top (h : (directory entries).Proper) : ProperEntries entries :=
  h [] entries rfl

theorem of_mem (h : (directory entries).Proper) (hmem : (name, child) ∈ entries) :
    child.Proper := by
  intro location inner hinner
  apply h (name :: location)
  rw [at?, lookup_of_mem h.top.distinct hmem]
  exact hinner

theorem of_at? {node found : Node} {location : Location} (h : node.Proper)
    (hfound : node.at? location = some found) : found.Proper := by
  intro further inner hinner
  apply h (location ++ further)
  rw [at?_append, hfound]
  exact hinner

theorem directory (htop : ProperEntries entries)
    (hinner : ∀ entry ∈ entries, entry.2.Proper) : (directory entries).Proper := by
  intro location inner hfound
  cases location with
  | nil =>
    cases hfound
    exact htop
  | cons name rest =>
    rw [at?] at hfound
    obtain ⟨child, hchild, hrest⟩ := Option.bind_eq_some_iff.1 hfound
    exact hinner (name, child) (mem_of_lookup hchild) rest inner hrest

theorem names_of_at? {node found : Node} {location : Location} (h : node.Proper)
    (hfound : node.at? location = some found) : ∀ name ∈ location, Path.IsEntry name := by
  induction location generalizing node with
  | nil => simp
  | cons name rest ih =>
    cases node with
    | directory entries =>
      rw [at?] at hfound
      obtain ⟨child, hchild, hrest⟩ := Option.bind_eq_some_iff.1 hfound
      have hmem := mem_of_lookup hchild
      exact List.forall_mem_cons.2 ⟨h.top.names _ hmem, ih (h.of_mem hmem) hrest⟩
    | file held => cases hfound
    | link target => cases hfound

end Proper

theorem isDirectory_iff {node : Node} :
    node.isDirectory = true ↔ ∃ entries, node = .directory entries := by
  cases node <;> simp [isDirectory]

theorem isDirectory_of_at? {node found : Node} {name : String} {rest : Location}
    (h : node.at? (name :: rest) = some found) : node.isDirectory = true := by
  cases node with
  | directory entries => rfl
  | file held => cases h
  | link target => cases h

theorem eq_nil_of_at? {node found : Node} {location : Location} (hleaf : node.isDirectory = false)
    (h : node.at? location = some found) : location = [] ∧ found = node := by
  cases location with
  | nil => exact ⟨rfl, (Option.some.inj h).symm⟩
  | cons name rest =>
    rw [isDirectory_of_at? h] at hleaf
    cases hleaf

theorem Proper.of_leaf {node : Node} (hleaf : node.isDirectory = false) : node.Proper := by
  intro location entries hfound
  obtain ⟨-, rfl⟩ := eq_nil_of_at? hleaf hfound
  cases hleaf

/-! ## Walking down -/

/-- All directories from a node on, itself shown as `root`, can be opened under their paths. -/
def Readable (root : Path) (node : Node) : Prop :=
  ∀ location entries, node.at? location = some (.directory entries) →
    (root.below location).isTooLong = false

namespace Readable

variable {root : Path}

theorem of_leaf {node : Node} (hleaf : node.isDirectory = false) : node.Readable root := by
  intro location entries hfound
  obtain ⟨-, rfl⟩ := eq_nil_of_at? hleaf hfound
  cases hleaf

theorem directory {entries : List (String × Node)} (htop : root.isTooLong = false)
    (hinner : ∀ entry ∈ entries, entry.2.Readable (root.join ⟨entry.1⟩)) :
    (directory entries).Readable root := by
  intro location inner hfound
  cases location with
  | nil => exact htop
  | cons name rest =>
    rw [at?] at hfound
    obtain ⟨child, hchild, hrest⟩ := Option.bind_eq_some_iff.1 hfound
    exact hinner (name, child) (mem_of_lookup hchild) rest inner hrest

theorem of_lookup {entries : List (String × Node)} {name : String} {child : Node}
    (h : (Node.directory entries).Readable root) (hchild : entries.lookup name = some child) :
    child.Readable (root.join ⟨name⟩) := by
  intro location inner hinner
  apply h (name :: location) inner
  rw [at?, hchild]
  exact hinner

theorem not_isTooLong {node : Node} (h : node.Readable root) (hnode : node.isDirectory = true) :
    root.isTooLong = false := by
  obtain ⟨entries, rfl⟩ := isDirectory_iff.1 hnode
  exact h [] entries rfl

end Readable

def shown (skip : String → Bool) (path : Path) (entry : String × Node) : List (Path × Node) :=
  if entry.2.isDirectory && skip entry.1 then []
  else (path.join ⟨entry.1⟩, entry.2) ::
    if (path.join ⟨entry.1⟩).isTooLong then []
    else entry.2.descendants skip (path.join ⟨entry.1⟩)

theorem descendants_directory (skip : String → Bool) (path : Path)
    (entries : List (String × Node)) :
    (directory entries).descendants skip path = entries.flatMap (shown skip path) := by
  rw [descendants]
  induction entries with
  | nil => rw [entryDescendants, List.flatMap_nil]
  | cons entry entries ih => rw [entryDescendants, List.flatMap_cons, ih, shown]

section Walk

variable {skip : String → Bool} {root path : Path} {node found : Node}

theorem mem_shown {entry : String × Node} (h : (path, found) ∈ shown skip root entry) :
    (entry.2.isDirectory && skip entry.1) = false ∧
      (path = root.join ⟨entry.1⟩ ∧ found = entry.2 ∨
        (path, found) ∈ entry.2.descendants skip (root.join ⟨entry.1⟩)) := by
  unfold shown at h
  split at h
  · cases h
  · rename_i hskip
    refine ⟨by simpa using hskip, ?_⟩
    rcases List.mem_cons.1 h with hself | hbelow
    · exact .inl (Prod.mk.inj hself)
    · split at hbelow
      · cases hbelow
      · exact .inr hbelow

/-- Whatever is shown stands at a location below, in no directory that is left out. -/
theorem exists_location (hproper : node.Proper) (h : (path, found) ∈ node.descendants skip root) :
    ∃ name rest, path = root.below (name :: rest) ∧ node.at? (name :: rest) = some found ∧
      ∀ ancestor ∈ (name :: rest).dropLast, skip ancestor = false := by
  induction node using entriesInduction generalizing root with
  | file held | link target =>
    rw [descendants] at h
    cases h
  | directory entries ih =>
    rw [descendants_directory] at h
    obtain ⟨⟨name, child⟩, hmem, hshown⟩ := List.mem_flatMap.1 h
    have hlookup := lookup_of_mem hproper.top.distinct hmem
    obtain ⟨hskip, ⟨rfl, rfl⟩ | hbelow⟩ := mem_shown hshown
    · refine ⟨name, [], rfl, ?_, by simp⟩
      rw [at?, hlookup]
      simp [at?]
    · obtain ⟨next, rest, rfl, hat, hancestors⟩ := ih name child hmem (hproper.of_mem hmem) hbelow
      refine ⟨name, next :: rest, rfl, ?_, ?_⟩
      · rw [at?, hlookup]
        exact hat
      · have hname : skip name = false := by
          rw [isDirectory_of_at? hat] at hskip
          simpa using hskip
        rw [List.dropLast_cons_cons]
        exact List.forall_mem_cons.2 ⟨hname, hancestors⟩

/-- What is no directory is shown, if it stands in no directory that is left out and the directories
above it can be opened. -/
theorem mem_descendants {location : Location} (hne : location ≠ [])
    (hfound : node.at? location = some found) (hleaf : found.isDirectory = false)
    (hskip : ∀ ancestor ∈ location.dropLast, skip ancestor = false) (hopen : node.Readable root) :
    (root.below location, found) ∈ node.descendants skip root := by
  induction location generalizing node root with
  | nil => exact absurd rfl hne
  | cons name rest ih =>
    cases node with
    | file held => cases hfound
    | link target => cases hfound
    | directory entries =>
      rw [at?] at hfound
      obtain ⟨child, hchild, hrest⟩ := Option.bind_eq_some_iff.1 hfound
      rw [descendants_directory]
      refine List.mem_flatMap.2 ⟨(name, child), mem_of_lookup hchild, ?_⟩
      cases rest with
      | nil =>
        obtain rfl : child = found := by simpa [at?] using hrest
        simp [shown, hleaf, Path.below]
      | cons next rest =>
        rw [List.dropLast_cons_cons] at hskip
        obtain ⟨hname, hancestors⟩ := List.forall_mem_cons.1 hskip
        have hbelow := hopen.of_lookup hchild
        have hlong := hbelow.not_isTooLong (isDirectory_of_at? hrest)
        have hmem := ih (List.cons_ne_nil _ _) hrest hancestors hbelow
        simp only [shown, hname, hlong, Bool.and_false, Bool.false_eq_true, if_false]
        exact List.mem_cons_of_mem _ hmem

theorem components_of_mem_shown {entries : List (String × Node)} {entry : String × Node}
    (hproper : (directory entries).Proper) (hroot : root.text ≠ "") (hentry : entry ∈ entries)
    (h : (path, found) ∈ shown skip root entry) :
    ∃ rest, path.components = root.components ++ .normal entry.1 :: rest := by
  have hname := hproper.top.names entry hentry
  obtain ⟨-, ⟨rfl, -⟩ | hbelow⟩ := mem_shown h
  · exact ⟨[], Path.components_join hroot hname⟩
  · have hchild : entry.2.Proper := hproper.of_mem hentry
    obtain ⟨next, rest, rfl, hat, -⟩ := exists_location hchild hbelow
    rw [Path.components_below (Path.text_join_ne_empty hname) (hchild.names_of_at? hat),
      Path.components_join hroot hname]
    exact ⟨_, by rw [List.append_assoc]; rfl⟩

theorem nodup_descendants (skip : String → Bool) (hproper : node.Proper) (hroot : root.text ≠ "") :
    ((node.descendants skip root).map (·.1.components)).Nodup := by
  induction node using entriesInduction generalizing root with
  | file held | link target =>
    rw [descendants]
    exact List.nodup_nil
  | directory entries ih =>
    rw [descendants_directory, List.map_flatMap, List.nodup_flatMap]
    constructor
    · rintro ⟨name, child⟩ hmem
      have hname := hproper.top.names _ hmem
      have hchild : child.Proper := hproper.of_mem hmem
      unfold shown
      split
      · exact List.nodup_nil
      split
      · exact List.nodup_singleton _
      · rw [List.map_cons, List.nodup_cons]
        refine ⟨?_, ih name child hmem hchild (Path.text_join_ne_empty hname)⟩
        -- What is below an entry has more components than the entry.
        intro hself
        obtain ⟨⟨path, found⟩, hbelow, hpath⟩ := List.mem_map.1 hself
        obtain ⟨next, rest, rfl, hat, -⟩ := exists_location hchild hbelow
        rw [Path.components_below (Path.text_join_ne_empty hname) (hchild.names_of_at? hat)]
          at hpath
        simp at hpath
    · have hdistinct := List.pairwise_map.1 hproper.top.distinct
      apply hdistinct.imp_of_mem
      intro first second hfirst hsecond hne
      apply List.disjoint_left.2
      intro components hleft hright
      obtain ⟨⟨path, found⟩, hpath, rfl⟩ := List.mem_map.1 hleft
      obtain ⟨⟨other, another⟩, hother, hsame⟩ := List.mem_map.1 hright
      obtain ⟨rest, hrest⟩ := components_of_mem_shown hproper hroot hfirst hpath
      obtain ⟨tail, htail⟩ := components_of_mem_shown hproper hroot hsecond hother
      simp only [hrest, htail] at hsame
      have hnames := (List.cons.inj (List.append_cancel_left hsame)).1
      exact hne (Path.Component.normal.inj hnames).symm

end Walk

end Node

end ImportAtlas
