import ImportAtlas.File.Replace
import ImportAtlas.Proofs.File.Tree

/-!
# What a replacement leaves

Each operation behind a replacement is described by what is seen in the tree
after it, location by location; so a replacement that succeeds is seen as a file
with the new content, no temporary file, and nothing else that changed. The main
statement is that the content is read back under the path it was written to, as
long as the path still leads to its directory.
-/

namespace ImportAtlas.FileTree

open Node

/-- A file is created as an entry of a directory, where no directory stands. -/
theorem create_eq_ok {tree created : FileTree} {path : Path} {location : Location}
    (h : tree.create path = .ok (created, location)) :
    ∃ parent name held, location = parent ++ [name] ∧
      tree.root.faceAt parent = some .directory ∧
      tree.root.faceAt location ≠ some .directory ∧
      created = tree.putNode location (.file held) := by
  obtain ⟨found, hlocate, h⟩ := except_bind_eq_ok h
  obtain ⟨-, -, hsteps⟩ := except_bind_eq_ok hlocate
  have hfound : tree.root.faceAt found ≠ some .directory := by
    intro hdirectory
    obtain ⟨entries, hentries⟩ := faceAt_eq_directory.1 hdirectory
    rw [hentries] at h
    cases h
  have hends := locateFrom_ends path.steps_ne_nil hsteps
  obtain ⟨parent, name, rfl, hparent⟩ := hends.resolve_left hfound
  split at h
  · cases h
  · cases h
    exact ⟨parent, name, _, rfl, hparent, hfound, rfl⟩
  · cases h
    exact ⟨parent, name, _, rfl, hparent, hfound, rfl⟩

theorem faceAt_writeAt_create {tree created : FileTree} {path : Path} {location : Location}
    (h : tree.create path = .ok (created, location)) (bytes : Bytes) :
    ∃ parent name held, location = parent ++ [name] ∧ held.content = bytes ∧
      (created.writeAt location bytes).working = tree.working ∧
      tree.root.faceAt parent = some .directory ∧
      ∀ other, (created.writeAt location bytes).root.faceAt other =
        if other = location then some (.file held) else tree.root.faceAt other := by
  obtain ⟨parent, name, held, rfl, hparent, hold, rfl⟩ := create_eq_ok h
  have hcreated := faceAt_putAt_file hparent hold held
  have hheld : (tree.putNode (parent ++ [name]) (.file held)).root.at? (parent ++ [name]) =
      some (.file held) := by
    rw [← faceAt_eq_file]
    exact (hcreated _).trans (if_pos rfl)
  unfold writeAt
  rw [hheld]
  refine ⟨parent, name, { held with content := bytes }, rfl, rfl, rfl, hparent, ?_⟩
  intro other
  have hparent' : (tree.putNode (parent ++ [name]) (.file held)).root.faceAt parent =
      some .directory := by
    rw [← hparent]
    exact (hcreated parent).trans (if_neg (by simp))
  have hold' : (tree.putNode (parent ++ [name]) (.file held)).root.faceAt (parent ++ [name]) ≠
      some .directory := by
    rw [faceAt_eq_file.2 hheld]
    exact fun h => nomatch h
  refine (faceAt_putAt_file hparent' hold' _ other).trans ?_
  by_cases hother : other = parent ++ [name]
  · rw [if_pos hother, if_pos hother]
  · rw [if_neg hother, if_neg hother]
    exact (hcreated other).trans (if_neg hother)

/-- A path ends in a name of a directory, under which no directory stands. -/
structure RenamesTo (tree : FileTree) (path : Path) (target : RenameTarget) : Prop where
  check : path.check = .ok ()
  parts : ∃ front, path.parts = front ++ [target.name]
  step : Path.stepOf target.name = .enter target.name
  short : isLongName target.name = false
  located : locateFrom tree.root true maxLinks (tree.origin path) path.directorySteps =
    .ok target.directory
  directory : tree.root.faceAt target.directory = some .directory
  free : tree.root.faceAt (target.directory ++ [target.name]) ≠ some .directory

theorem renamesTo_of_renameTarget {tree : FileTree} {path : Path} {target : RenameTarget}
    (h : tree.renameTarget path = .ok target) : RenamesTo tree path target := by
  obtain ⟨_, hcheck, h⟩ := except_bind_eq_ok h
  obtain ⟨directory, hlocated, h⟩ := except_bind_eq_ok h
  simp only [bind, Except.bind, pure, Except.pure, throw, throwThe, MonadExceptOf.throw] at h
  split at h
  · rename_i entries hentries
    split at h
    · rename_i name hname
      split at h
      · cases h
      · rename_i hshort
        split at h
        · cases h
        · rename_i hlast
          split at h
          · cases h
          · rename_i hfree
            cases h
            obtain ⟨hparts, hstep, hsteps⟩ := Path.filter_parts (by simpa using hlast) hname
            rw [hsteps] at hlocated
            refine ⟨hcheck, hparts, hstep, by simpa using hshort, hlocated,
              faceAt_eq_directory.2 ⟨entries, hentries⟩, ?_⟩
            intro hdirectory
            obtain ⟨inner, hinner⟩ := faceAt_eq_directory.1 hdirectory
            rw [at?_concat hentries] at hinner
            exact hfree inner hinner
    · cases h
  · cases h
  · cases h

/-- A file that is renamed is seen at its new place and no longer at its old one; nothing else
changes. -/
theorem faceAt_rename {tree after : FileTree} {parent : Location} {name : String} {path : Path}
    {held : RegularFile} (h : tree.rename (parent ++ [name]) path = .ok after)
    (hparent : tree.root.faceAt parent = some .directory)
    (hsource : tree.root.faceAt (parent ++ [name]) = some (.file held)) :
    ∃ target, RenamesTo tree path target ∧ after.working = tree.working ∧
      ∀ location, after.root.faceAt location =
        if location = target.directory ++ [target.name] then some (.file held)
        else if location = parent ++ [name] then none else tree.root.faceAt location := by
  obtain ⟨target, htarget, h⟩ := except_bind_eq_ok h
  rw [faceAt_eq_file.1 hsource] at h
  cases h
  have hrenames := renamesTo_of_renameTarget htarget
  have herase : ∀ location, (eraseAt (parent ++ [name]) tree.root).faceAt location =
      if location = parent ++ [name] then none else tree.root.faceAt location := by
    apply faceAt_eraseAt hparent
    rw [hsource]
    exact fun h => nomatch h
  -- The target is in a directory, which the file that is moved is not.
  have hdirectory : (eraseAt (parent ++ [name]) tree.root).faceAt target.directory =
      some .directory := by
    rw [herase, if_neg, hrenames.directory]
    intro heq
    have hfile := hrenames.directory
    rw [heq, hsource] at hfile
    cases hfile
  have hfree : (eraseAt (parent ++ [name]) tree.root).faceAt
      (target.directory ++ [target.name]) ≠ some .directory := by
    rw [herase]
    split
    · exact fun h => nomatch h
    · exact hrenames.free
  refine ⟨target, hrenames, rfl, ?_⟩
  intro location
  refine (faceAt_putAt_file hdirectory hfree held location).trans ?_
  rw [herase]

theorem eq_ok_of_step {α : Type} {fault : Option SystemError} {action : Except SystemError α}
    {value : α} (h : step fault *> action = .ok value) : action = .ok value := by
  cases fault with
  | none => exact h
  | some error => cases h

/-- A replacement that succeeds puts a file with the content where the path leads, while its
temporary file is there, and then takes the temporary file away. -/
theorem replace_eq_ok {tree after : FileTree} {medium : Medium} {pid : Nat} {path : Path}
    {bytes : Bytes} (h : tree.replace medium pid path bytes = (.ok (), after)) :
    ∃ created written temporary target held,
      tree.create (temporaryPath pid path) = .ok (created, temporary) ∧
      held.content = bytes ∧ written.working = tree.working ∧
      after.working = tree.working ∧ RenamesTo written path target ∧
      (∀ location, written.root.faceAt location =
        if location = temporary then some (.file held) else tree.root.faceAt location) ∧
      ∀ location, after.root.faceAt location =
        if location = target.directory ++ [target.name] then some (.file held)
        else if location = temporary then none else tree.root.faceAt location := by
  unfold replace at h
  split at h
  · cases h
  · rename_i created temporary hcreate
    split at h
    · cases h
    · simp only at h
      split at h
      · cases h
      · split at h
        · cases h
        · rename_i renamed hrename
          cases h
          obtain ⟨parent, name, held, rfl, hcontent, hworking, hparent, hwritten⟩ :=
            faceAt_writeAt_create (eq_ok_of_step hcreate) bytes
          have hbeside := (hwritten parent).trans (if_neg (by simp))
          obtain ⟨target, hrenames, hafter, hfaces⟩ := faceAt_rename (eq_ok_of_step hrename)
            (hbeside.trans hparent) ((hwritten _).trans (if_pos rfl))
          refine ⟨created, _, parent ++ [name], target, held, eq_ok_of_step hcreate, hcontent,
            hworking, hafter.trans hworking, hrenames, hwritten, ?_⟩
          intro location
          rw [hfaces, hwritten]
          by_cases htemporary : location = parent ++ [name]
          · rw [if_pos htemporary, if_pos htemporary]
          · rw [if_neg htemporary, if_neg htemporary, if_neg htemporary]

/-- What was written is read back, if the path still leads to its directory. -/
theorem read_of_replace {tree after : FileTree} {medium : Medium} {pid : Nat} {path : Path}
    {bytes : Bytes} (h : tree.replace medium pid path bytes = (.ok (), after))
    {there : Location} {left : Nat}
    (hleads : Leads after.root maxLinks (after.origin path) path.directorySteps there left) :
    after.read path = .ok bytes := by
  obtain ⟨-, written, temporary, target, held, -, rfl, hworking, hafter, hrenames, hwritten,
    hfaces⟩ := replace_eq_ok h
  obtain ⟨front, hparts⟩ := hrenames.parts
  have hwas : Leads written.root maxLinks (written.origin path) path.directorySteps there left := by
    have horigin : written.origin path = after.origin path := by
      rw [origin, origin, hworking, hafter]
    rw [horigin]
    refine hleads.mono ?_
    intro location face hface hkind
    rw [hfaces] at hface
    rw [hwritten]
    split at hface
    · cases hface
      exact absurd rfl (hkind held)
    · split at hface
      · cases hface
      · rename_i htemporary
        rwa [if_neg htemporary]
  have hthere : target.directory = there := by
    have hlocated := hwas.locateFrom_eq
    rw [hrenames.located] at hlocated
    exact Except.ok.inj hlocated
  have hheld : after.root.faceAt (there ++ [target.name]) = some (.file held) := by
    rw [hfaces, hthere, if_pos rfl]
  have hlocate : after.locate true path = .ok (there ++ [target.name]) := by
    rw [locate_of_check hrenames.check, Path.steps_eq hparts, hrenames.step,
      locateFrom_of_leads hleads,
      locateFrom_enter hleads.directory hrenames.short hheld (fun _ h => nomatch h), locateFrom_nil]
  rw [read, findFile, find, hlocate]
  simp only [bind, Except.bind, faceAt_eq_file.1 hheld]
  rfl

end ImportAtlas.FileTree
