import ImportAtlas.Proofs.File.Replace

/-!
# All or nothing

A replacement is compared with the tree before it, entry by entry. Where its
temporary name is free, a replacement that succeeds changes the one entry its
path names. One that fails changes nothing, with one exception: if writing or
syncing fails, the temporary file stays.
-/

namespace ImportAtlas.FileTree

open Node

/-- `after` has a file or nothing at one location, and all else as `before`. -/
structure DiffersAt (before after : FileTree) (location : Location) (held : Option RegularFile) :
    Prop where
  working : after.working = before.working
  faces : ∀ other, after.root.faceAt other =
    if other = location then held.map .file else before.root.faceAt other

structure Same (before after : FileTree) : Prop where
  working : after.working = before.working
  faces : ∀ location, after.root.faceAt location = before.root.faceAt location

/-- The path leads to the directory of the entry it names without passing that entry. -/
def PassesBy (tree : FileTree) (path : Path) (target : RenameTarget) : Prop :=
  locateFrom (tree.remove (target.directory ++ [target.name])).root true maxLinks
    (tree.origin path) path.directorySteps = .ok target.directory

def Unused (tree : FileTree) (path : Path) : Prop :=
  ∀ location, tree.locate false path = .ok location → tree.root.faceAt location = none

theorem Same.refl (tree : FileTree) : Same tree tree :=
  ⟨rfl, fun _ => rfl⟩

namespace DiffersAt

variable {before first second : FileTree} {location : Location} {one two : Option RegularFile}

theorem origin_eq (h : DiffersAt before first location one) (path : Path) :
    first.origin path = before.origin path := by
  rw [origin, origin, h.working]

theorem leads (hfirst : DiffersAt before first location one)
    (hsecond : DiffersAt before second location two) {links left : Nat} {here there : Location}
    {steps : List Path.Step} (h : Leads first.root links here steps there left) :
    Leads second.root links here steps there left := by
  refine h.mono ?_
  intro other face hface hkind
  rw [hfirst.faces] at hface
  rw [hsecond.faces]
  by_cases hother : other = location
  · rw [if_pos hother] at hface
    obtain ⟨file, -, rfl⟩ := Option.map_eq_some_iff.1 hface
    exact absurd rfl (hkind file)
  · rw [if_neg hother] at hface ⊢
    exact hface

theorem of_free (hfree : before.root.faceAt location = none) :
    DiffersAt before before location none := by
  refine ⟨rfl, ?_⟩
  intro other
  by_cases hother : other = location
  · rw [if_pos hother, hother, hfree]
    rfl
  · rw [if_neg hother]

end DiffersAt

section Create

variable {tree created : FileTree} {path : Path} {location : Location}

theorem located_of_unused (hunused : Unused tree path)
    (h : tree.create path = .ok (created, location)) :
    tree.locate false path = .ok location ∧ tree.root.faceAt location = none := by
  obtain ⟨parent, last, held, -, -, hold, -⟩ := create_eq_ok h
  obtain ⟨found, hlocate, hfound⟩ := except_bind_eq_ok h
  obtain rfl : found = location := by
    split at hfound <;> cases hfound
    · rfl
    · rfl
  obtain ⟨_, hcheck, hsteps⟩ := except_bind_eq_ok hlocate
  have hparts := (List.dropLast_concat_getLast path.parts_ne_nil).symm
  rw [Path.steps_eq hparts] at hsteps
  obtain ⟨there, left, hleads, hlast⟩ := exists_leads _ hsteps
  obtain ⟨name, hname, -⟩ := (locateFrom_last hlast).resolve_left hold
  rw [hname] at hlast
  obtain ⟨hshort, hcases⟩ := locateFrom_enter_last hlast
  have hentry : tree.locate false path = .ok (there ++ [name]) := by
    rw [locate_of_check hcheck, Path.steps_eq hparts, hname]
    exact locateFrom_unfollowed hleads hshort
  have hnone := hunused _ hentry
  rcases hcases with ⟨rfl, -⟩ | ⟨target, fewer, -, hlink, -⟩
  · exact ⟨hentry, hnone⟩
  · rw [hnone] at hlink
    cases hlink

theorem differsAt_create (h : tree.create path = .ok (created, location)) :
    ∃ held, DiffersAt tree created location (some held) := by
  obtain ⟨parent, name, held, rfl, hparent, hold, rfl⟩ := create_eq_ok h
  exact ⟨held, rfl, faceAt_putAt_file hparent hold held⟩

theorem differsAt_writeAt (h : tree.create path = .ok (created, location)) (bytes : Bytes) :
    ∃ held, DiffersAt tree (created.writeAt location bytes) location (some held) := by
  obtain ⟨parent, name, held, -, -, hworking, -, hfaces⟩ := faceAt_writeAt_create h bytes
  exact ⟨held, hworking, hfaces⟩

theorem same_remove (h : tree.create path = .ok (created, location))
    (hfree : tree.root.faceAt location = none) (bytes : Bytes) :
    Same tree ((created.writeAt location bytes).remove location) := by
  obtain ⟨parent, name, held, rfl, -, hworking, hparent, hfaces⟩ := faceAt_writeAt_create h bytes
  refine ⟨hworking, ?_⟩
  intro other
  refine (faceAt_eraseAt ?_ ?_ other).trans ?_
  · rw [hfaces, if_neg (by simp), hparent]
  · rw [hfaces, if_pos rfl]
    exact fun h => nomatch h
  · rw [hfaces]
    by_cases hother : other = parent ++ [name]
    · rw [if_pos hother, hother, hfree]
    · rw [if_neg hother, if_neg hother]

end Create

theorem eq_some_of_step {fault : Option SystemError} {cause : SystemError}
    (h : step fault = .error cause) : fault = some cause := by
  cases fault with
  | none => cases h
  | some error =>
    cases h
    rfl

section Replace

variable {tree after : FileTree} {medium : Medium} {pid : Nat} {path : Path} {bytes : Bytes}
  {cause : SystemError}

/-- The ways in which a replacement fails, and what each leaves. -/
theorem replace_eq_error (h : tree.replace medium pid path bytes = (.error cause, after)) :
    after = tree ∨ ∃ created temporary,
      tree.create (temporaryPath pid path) = .ok (created, temporary) ∧
        (medium.write = some cause ∧ after = created ∨
          medium.sync = some cause ∧ after = created.writeAt temporary bytes ∨
          after = (created.writeAt temporary bytes).remove temporary) := by
  unfold replace at h
  split at h
  · cases h
    exact .inl rfl
  rename_i created temporary hcreate
  refine .inr ⟨created, temporary, eq_ok_of_step hcreate, ?_⟩
  split at h
  · rename_i hwrite
    cases h
    exact .inl ⟨eq_some_of_step hwrite, rfl⟩
  simp only at h
  split at h
  · rename_i hsync
    cases h
    exact .inr (.inl ⟨eq_some_of_step hsync, rfl⟩)
  split at h
  · cases h
    exact .inr (.inr rfl)
  · cases h

/-- With an unused name, a replacement that fails leaves all as it was, or the medium failed at
writing or syncing and the temporary file is left. -/
theorem same_of_error (hunused : Unused tree (temporaryPath pid path))
    (h : tree.replace medium pid path bytes = (.error cause, after)) :
    Same tree after ∨ (medium.write = some cause ∨ medium.sync = some cause) ∧
      ∃ temporary held, tree.locate false (temporaryPath pid path) = .ok temporary ∧
        DiffersAt tree after temporary (some held) := by
  obtain rfl | ⟨created, temporary, hcreate, hleft⟩ := replace_eq_error h
  · exact .inl (.refl _)
  obtain ⟨hlocate, hfree⟩ := located_of_unused hunused hcreate
  rcases hleft with ⟨hwrite, rfl⟩ | ⟨hsync, rfl⟩ | rfl
  · obtain ⟨held, hdiffers⟩ := differsAt_create hcreate
    exact .inr ⟨.inl hwrite, temporary, held, hlocate, hdiffers⟩
  · obtain ⟨held, hdiffers⟩ := differsAt_writeAt hcreate bytes
    exact .inr ⟨.inr hsync, temporary, held, hlocate, hdiffers⟩
  · exact .inl (same_remove hcreate hfree bytes)

theorem RenamesTo.of_differsAt {added : FileTree} {target : RenameTarget} {location : Location}
    {held : RegularFile} (hadded : DiffersAt tree added location (some held))
    (hfree : tree.root.faceAt location = none) (h : RenamesTo added path target) :
    RenamesTo tree path target := by
  obtain ⟨left, hleads⟩ := leads_of_locateFrom h.located h.directory
  have hleads := hadded.leads (.of_free hfree) hleads
  rw [hadded.origin_eq] at hleads
  refine ⟨h.check, h.parts, h.step, h.short, hleads.locateFrom_eq, hleads.directory, ?_⟩
  intro hdirectory
  apply h.free
  rw [hadded.faces, if_neg, hdirectory]
  intro hsame
  rw [hsame, hfree] at hdirectory
  cases hdirectory

theorem differsAt_of_ok (hunused : Unused tree (temporaryPath pid path))
    (h : tree.replace medium pid path bytes = (.ok (), after)) :
    ∃ target held, RenamesTo tree path target ∧ held.content = bytes ∧
      DiffersAt tree after (target.directory ++ [target.name]) (some held) := by
  obtain ⟨created, written, temporary, target, held, hcreate, hcontent, hworking, hafter, hrenames,
    hwritten, hfaces⟩ := replace_eq_ok h
  have hfree := (located_of_unused hunused hcreate).2
  refine ⟨target, held, hrenames.of_differsAt ⟨hworking, hwritten⟩ hfree, hcontent, hafter, ?_⟩
  intro location
  rw [hfaces, Option.map_some]
  by_cases htemporary : location = temporary
  · rw [if_pos htemporary, htemporary, hfree]
  · rw [if_neg htemporary]

/-- What was written is read back exactly if the path does not pass the entry it replaces. -/
theorem read_iff_passesBy (h : tree.replace medium pid path bytes = (.ok (), after))
    {target : RenameTarget} {held : RegularFile} (hrenames : RenamesTo tree path target)
    (hdiffers : DiffersAt tree after (target.directory ++ [target.name]) (some held)) :
    after.read path = .ok bytes ↔ PassesBy tree path target := by
  have hremoved : DiffersAt tree (tree.remove (target.directory ++ [target.name]))
      (target.directory ++ [target.name]) none :=
    ⟨rfl, faceAt_eraseAt hrenames.directory hrenames.free⟩
  constructor
  · intro hread
    obtain ⟨-, -, there, left, -, -, hafter⟩ := leads_of_read hread
    rw [hdiffers.origin_eq] at hafter
    have hleads := hdiffers.leads hremoved hafter
    have hbefore : Leads tree.root maxLinks (tree.origin path) path.directorySteps there left := by
      refine hleads.mono ?_
      intro location face hface _
      rw [hremoved.faces] at hface
      split at hface
      · cases hface
      · exact hface
    have hthere := hbefore.locateFrom_eq
    rw [hrenames.located] at hthere
    rw [← Except.ok.inj hthere] at hleads
    exact hleads.locateFrom_eq
  · intro hpasses
    have hdirectory : (tree.remove (target.directory ++ [target.name])).root.faceAt
        target.directory = some .directory := by
      rw [hremoved.faces, if_neg (by simp), hrenames.directory]
    obtain ⟨left, hleads⟩ := leads_of_locateFrom hpasses hdirectory
    have hafter := hremoved.leads hdiffers hleads
    rw [← hdiffers.origin_eq] at hafter
    exact read_of_replace h hafter

/-- Where its temporary name is unused, a replacement that succeeds makes the entry that its path
names a file with the content, and changes nothing else; the content is read back unless the path
passes that entry. A replacement that fails changes nothing, unless it is writing or syncing that
failed, which leaves the temporary file and changes nothing else. -/
theorem replace_outcome (medium : Medium) (bytes : Bytes)
    (hunused : Unused tree (temporaryPath pid path)) :
    (∀ after, tree.replace medium pid path bytes = (.ok (), after) →
      ∃ target held, RenamesTo tree path target ∧ held.content = bytes ∧
        DiffersAt tree after (target.directory ++ [target.name]) (some held) ∧
        (after.read path = .ok bytes ↔ PassesBy tree path target)) ∧
      ∀ cause after, tree.replace medium pid path bytes = (.error cause, after) →
        Same tree after ∨ (medium.write = some cause ∨ medium.sync = some cause) ∧
          ∃ temporary held, tree.locate false (temporaryPath pid path) = .ok temporary ∧
            DiffersAt tree after temporary (some held) := by
  constructor
  · intro after h
    obtain ⟨target, held, hrenames, hcontent, hdiffers⟩ := differsAt_of_ok hunused h
    exact ⟨target, held, hrenames, hcontent, hdiffers, read_iff_passesBy h hrenames hdiffers⟩
  · intro cause after h
    exact same_of_error hunused h

end Replace

/-- A file, a directory, and a link to the directory that holds all three. -/
def loopedTree : FileTree where
  root := .directory [
    ("a", .file { content := [0x61] }), ("d", .directory []), ("l", .link ⟨"."⟩)]
  working := []

theorem replace_outcome_loopedTree :
    Unused loopedTree (temporaryPath 7 ⟨"l/l"⟩) ∧
      (∃ after target held, loopedTree.replace .sound 7 ⟨"l/l"⟩ [0x62] = (.ok (), after) ∧
        RenamesTo loopedTree ⟨"l/l"⟩ target ∧ held.content = [0x62] ∧
        DiffersAt loopedTree after (target.directory ++ [target.name]) (some held) ∧
        (after.read ⟨"l/l"⟩ = .ok [0x62] ↔ PassesBy loopedTree ⟨"l/l"⟩ target)) ∧
      ∃ cause after, loopedTree.replace { rename := some .permissionDenied } 7 ⟨"l/l"⟩ [0x62] =
          (.error cause, after) ∧ Same loopedTree after := by
  have hlocate : (loopedTree.locate false (temporaryPath 7 ⟨"l/l"⟩)).toOption =
      some [".l.tmp.7"] := by decide +kernel
  have hok : (loopedTree.replace .sound 7 ⟨"l/l"⟩ [0x62]).1.isOk = true := by decide +kernel
  have herror : (loopedTree.replace { rename := some .permissionDenied } 7 ⟨"l/l"⟩
      [0x62]).1.isOk = false := by decide +kernel
  have hunused : Unused loopedTree (temporaryPath 7 ⟨"l/l"⟩) := by
    intro location h
    rw [h] at hlocate
    rw [Option.some.inj hlocate]
    decide +kernel
  refine ⟨hunused, ?_, ?_⟩
  · have houtcome := (replace_outcome .sound [0x62] hunused).1
    cases hreplace : loopedTree.replace .sound 7 ⟨"l/l"⟩ [0x62] with
    | mk result after =>
      rw [hreplace] at hok
      cases result with
      | error cause => cases hok
      | ok done =>
        obtain ⟨target, held, hchanged⟩ := houtcome after hreplace
        exact ⟨after, target, held, rfl, hchanged⟩
  · have houtcome := (replace_outcome { rename := some .permissionDenied } [0x62] hunused).2
    cases hreplace : loopedTree.replace { rename := some .permissionDenied } 7 ⟨"l/l"⟩ [0x62] with
    | mk result after =>
      rw [hreplace] at herror
      cases result with
      | ok done => cases herror
      | error cause =>
        refine ⟨cause, after, rfl, (houtcome cause after hreplace).resolve_right ?_⟩
        rintro ⟨hfault | hfault, -⟩
        · cases hfault
        · cases hfault

/-- A write that fails leaves the temporary file, and a path that passes the link it replaces leads
nowhere afterwards. -/
theorem replace_leaves_temporary :
    (loopedTree.replace { write := some .noSpace } 7 ⟨"a"⟩ [0x62]).1.isOk = false ∧
      loopedTree.root.faceAt [".a.tmp.7"] = none ∧
      (loopedTree.replace { write := some .noSpace } 7 ⟨"a"⟩ [0x62]).2.root.faceAt [".a.tmp.7"] =
        some (.file { content := [] }) ∧
      (loopedTree.replace .sound 7 ⟨"l/l"⟩ [0x62]).1.isOk = true ∧
      ((loopedTree.replace .sound 7 ⟨"l/l"⟩ [0x62]).2.read ⟨"l/l"⟩).isOk = false := by
  decide +kernel

end ImportAtlas.FileTree
