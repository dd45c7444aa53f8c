import ImportAtlas.File.Tree

/-!
# Replacing a file

A file is replaced by writing its new content to a temporary file beside it and
renaming that. Who reads the file sees the old content or the new one, never a
part. The medium may fail at each of the four steps.
-/

namespace ImportAtlas

/-- The steps at which the medium fails, and why. -/
structure Medium where
  create : Option SystemError := none
  write : Option SystemError := none
  sync : Option SystemError := none
  rename : Option SystemError := none
  deriving DecidableEq, Repr

/-- A medium on which nothing fails. -/
def Medium.sound : Medium := {}

/-- Where a rename leads: the directory, and the name in it. -/
structure RenameTarget where
  directory : Location
  name : String

namespace FileTree

/-- The directory of a path as given, or `.` if it has none. -/
def directoryOf (path : Path) : Path :=
  match path.parent? with
  | some parent => if parent.text.isEmpty then ⟨"."⟩ else parent
  | none => ⟨"."⟩

/-- The temporary file for replacing `path` by the process `pid`. -/
def temporaryPath (pid : Nat) (path : Path) : Path :=
  (directoryOf path).join
    ⟨"." ++ path.fileName?.getD "out" ++ ".tmp." ++ toString pid⟩

/-- Opens a file for writing, which is created if missing; its old content is gone. -/
def create (tree : FileTree) (path : Path) : Except SystemError (FileTree × Location) := do
  let location ← tree.locate true path
  match tree.root.at? location with
  | some (.directory _) => .error .isDirectory
  | some (.file file) =>
    let emptied := { file with content := [], modified := tree.clock }
    .ok (tree.putNode location (.file emptied), location)
  | _ => .ok (tree.putNode location (.file { content := [], modified := tree.clock }), location)

/-- Writes the content of an open file. -/
def writeAt (tree : FileTree) (location : Location) (bytes : Bytes) : FileTree :=
  match tree.root.at? location with
  | some (.file file) => tree.putNode location (.file { file with content := bytes })
  | _ => tree

/-- Drops an entry. -/
def remove (tree : FileTree) (location : Location) : FileTree :=
  { tree with root := Node.eraseAt location tree.root }

/--
Where renaming a regular file to `path` would put it. The last part must be a
name, with nothing behind it, and no directory may have that name.
-/
def renameTarget (tree : FileTree) (path : Path) : Except SystemError RenameTarget := do
  path.check
  let parts := path.parts.filter (· != "")
  let directory ← locateFrom tree.root true maxLinks (tree.origin path)
    (parts.dropLast.map Path.stepOf)
  match tree.root.at? directory with
  | some (.directory entries) =>
    match parts.getLast?.map Path.stepOf with
    | some (.enter name) =>
      if isLongName name then throw .nameTooLong
      if path.parts.getLast? == some "" then throw .notDirectory
      match entries.lookup name with
      | some (.directory _) => throw .isDirectory
      | _ => return ⟨directory, name⟩
    | _ => throw .busy
  | some _ => throw .notDirectory
  | none => throw .notFound

/-- Moves the file at `source` to where `path` leads. -/
def rename (tree : FileTree) (source : Location) (path : Path) : Except SystemError FileTree := do
  let target ← tree.renameTarget path
  match tree.root.at? source with
  | none => throw .notFound
  | some node =>
    return (tree.remove source).putNode (target.directory ++ [target.name]) node

/-- Fails if the medium does. -/
def step (fault : Option SystemError) : Except SystemError Unit :=
  match fault with
  | some error => .error error
  | none => .ok ()

/--
Replaces the content of a file, or creates it, and gives the tree after that. A
rename that fails takes the temporary file back; a write that fails does not. The
name of the temporary file is taken not to be the name of a link.
-/
def replace (tree : FileTree) (medium : Medium) (pid : Nat) (path : Path) (bytes : Bytes) :
    Except SystemError Unit × FileTree :=
  match step medium.create *> tree.create (temporaryPath pid path) with
  | .error error => (.error error, tree)
  | .ok (created, temporary) =>
    match step medium.write with
    | .error error => (.error error, created)
    | .ok () =>
      let written := created.writeAt temporary bytes
      match step medium.sync with
      | .error error => (.error error, written)
      | .ok () =>
        match step medium.rename *> written.rename temporary path with
        | .error error => (.error error, written.remove temporary)
        | .ok renamed => (.ok (), renamed)

end FileTree

end ImportAtlas
