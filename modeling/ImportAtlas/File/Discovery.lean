import ImportAtlas.File.Tree

/-!
# Finding source files

The sources below a directory are the entries with the extension of a source
file that are regular files, or links that lead to one. Directories that hold no
sources of the project itself are not entered, and neither are links to
directories.
-/

namespace ImportAtlas

/-- Directories that are not entered. -/
def excludedDirectories : List String :=
  [".git", "__pycache__", ".tox", ".venv", "venv", "build", "dist"]

/-- What was found below a root. -/
structure SourceFiles where
  /-- In order of paths. -/
  files : List Path := []
  /-- Sources and directories that could not be looked at. -/
  unreadable : List (Path × Error) := []
  deriving DecidableEq, Repr

/-- Whether a path has the extension of a source file. -/
def isSourcePath (path : Path) : Bool :=
  path.extension? == some "py"

namespace FileTree

/--
A source file, or an entry that could not be looked at with the reason; nothing
for entries that are not meant. A directory fails whatever its name is.
-/
def classify (tree : FileTree) (path : Path) (node : Node) : Option (Path × Option Error) :=
  match node with
  | .directory _ =>
    if path.isTooLong then some (path, some (.unreadable path .nameTooLong)) else none
  | .file _ => if isSourcePath path then some (path, none) else none
  | .link _ =>
    if isSourcePath path then
      match tree.find path with
      | .ok (.file _) => some (path, none)
      | .ok _ => none
      | .error error => some (path, some (.unreadable path error))
    else none

/-- The source files below `root`. A root that is a file is a source, whatever its name. -/
def sourceFiles (tree : FileTree) (root : Path) : Except Error SourceFiles :=
  match tree.find root with
  | .error error => .error (.unreadable root error)
  | .ok (.file _) => .ok { files := [root] }
  | .ok node =>
    let met := node.descendants (excludedDirectories.contains ·) root
    let entries := met.filterMap fun (path, node) => tree.classify path node
    .ok {
      files := (entries.filterMap fun (path, error) => if error.isNone then some path else none)
        |>.mergeSort fun a b => (a.compare b).isLE
      unreadable := entries.filterMap fun (path, error) => error.map (path, ·) }

end FileTree

end ImportAtlas
