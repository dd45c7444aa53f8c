import ImportAtlas.File.Path
import ImportAtlas.File.Program

/-!
# File trees

A file tree is a value: directories, regular files and symbolic links below one
root, the working directory relative paths start from, and the environment of
programs. Looking a path up follows the rules of the operating system: every step
but the last must lead to a directory, links are followed, and only so many of
them. Names and paths have limits of length. Reading, writing and walking a tree
are functions of that value.
-/

namespace ImportAtlas

structure RegularFile where
  content : Bytes
  /-- Seconds since the epoch. -/
  modified : Int := 0
  /-- Whether the file may be started as a program. -/
  executable : Bool := false
  deriving DecidableEq, Repr

inductive Node where
  | file (file : RegularFile)
  | link (target : Path)
  /-- Entries in order of their names. -/
  | directory (entries : List (String × Node))

/-- The names that lead from the root to an entry. -/
abbrev Location := List String

namespace Node

/-- A directory without entries. -/
def empty : Node := .directory []

/-- The node a location leads to, through directories only. -/
def at? : Node → Location → Option Node
  | node, [] => some node
  | .directory entries, name :: rest => (entries.lookup name).bind (·.at? rest)
  | _, _ :: _ => none

/-- Adds or replaces an entry. -/
def putEntry (name : String) (node : Node) : List (String × Node) → List (String × Node)
  | [] => [(name, node)]
  | (other, kept) :: rest =>
    match compare name other with
    | .lt => (name, node) :: (other, kept) :: rest
    | .eq => (name, node) :: rest
    | .gt => (other, kept) :: putEntry name node rest

/-- Drops an entry. -/
def eraseEntry (name : String) (entries : List (String × Node)) : List (String × Node) :=
  entries.filter (·.1 != name)

/-- Puts a node at a location; nothing changes where no directory could hold it. -/
def putAt (node : Node) : Location → Node → Node
  | [], _ => node
  | name :: rest, .directory entries =>
    match rest, entries.lookup name with
    | [], _ => .directory (putEntry name node entries)
    | _ :: _, some child => .directory (putEntry name (putAt node rest child) entries)
    | _ :: _, none => .directory entries
  | _ :: _, other => other

/-- Drops the entry at a location. -/
def eraseAt : Location → Node → Node
  | [], node => node
  | name :: rest, .directory entries =>
    match rest, entries.lookup name with
    | [], _ => .directory (eraseEntry name entries)
    | _ :: _, some child => .directory (putEntry name (eraseAt rest child) entries)
    | _ :: _, none => .directory entries
  | _ :: _, other => other

def isDirectory : Node → Bool
  | .directory _ => true
  | _ => false

end Node

/-! ## Limits -/

/-- The most bytes a name may have. -/
def nameLimit : Nat := 255

/-- A path has fewer bytes than this. -/
def pathLimit : Nat := 4096

/-- Whether a name is too long for any entry. -/
def isLongName (name : String) : Bool :=
  nameLimit < name.utf8ByteSize

namespace Path

/-- Whether a path is too long to be looked up. -/
def isTooLong (path : Path) : Bool :=
  pathLimit ≤ path.text.utf8ByteSize

/-- Whether a path holds a zero character. -/
def hasNul (path : Path) : Bool :=
  path.text.toList.contains '\x00'

/-- Accepts the paths that can be looked up at all. -/
def check (path : Path) : Except SystemError Unit :=
  if path.hasNul then .error .nulInPath
  else if path.text.isEmpty then .error .notFound
  else if path.isTooLong then .error .nameTooLong
  else .ok ()

end Path

/-! ## Walking down -/

namespace Node

mutual

/--
Everything below a node that is shown as `path`, in order of names and with a
directory before its entries. Directories whose name `skip` accepts are left out
with all that is in them. Links are not followed, and a directory whose path is
too long to be opened is shown without its entries.
-/
def descendants (skip : String → Bool) (path : Path) : Node → List (Path × Node)
  | .directory entries => entryDescendants skip path entries
  | .file _ => []
  | .link _ => []

/-- The part of `descendants` for the entries of one directory. -/
def entryDescendants (skip : String → Bool) (path : Path) :
    List (String × Node) → List (Path × Node)
  | [] => []
  | (name, node) :: rest =>
    (if node.isDirectory && skip name then []
      else (path.join ⟨name⟩, node) ::
        if (path.join ⟨name⟩).isTooLong then [] else descendants skip (path.join ⟨name⟩) node)
      ++ entryDescendants skip path rest

end

end Node

/-! ## Steps of a path -/

/-- What a part of a path asks for. -/
inductive Path.Step where
  | stay
  | up
  | enter (name : String)
  deriving DecidableEq, Repr

namespace Path

def stepOf (part : String) : Step :=
  if part == "" || part == "." then .stay
  else if part == ".." then .up
  else .enter part

/-- The steps of a path. A separator at the end is a step, so that only a directory passes it. -/
def steps (path : Path) : List Step :=
  (path.parts.dropLast.filter (· != "")).map stepOf ++ path.parts.getLast?.toList.map stepOf

end Path

/-! ## Looking paths up -/

structure FileTree where
  root : Node
  /-- Where relative paths start. -/
  working : Location
  /-- The time given to files that are written. -/
  clock : Int := 0
  environment : Environment := {}

namespace FileTree

/-- How many links a look-up follows. -/
def maxLinks : Nat := 40

/--
Takes steps from a directory; `jump` goes on behind a link. The last step may
lead to an entry that does not exist; it is given all the same, for it may be
created there. A link in the last place is followed only if `follow` is set.
-/
def locateBy (root : Node) (follow : Bool)
    (jump : Location → List Path.Step → Except SystemError Location) (here : Location) :
    List Path.Step → Except SystemError Location
  | [] => .ok here
  | step :: rest =>
    match root.at? here with
    | some (.directory entries) =>
      match step with
      | .stay => locateBy root follow jump here rest
      | .up => locateBy root follow jump here.dropLast rest
      | .enter name =>
        if isLongName name then .error .nameTooLong
        else match entries.lookup name with
        | some (.link target) =>
          if rest.isEmpty && !follow then .ok (here ++ [name])
          else jump (if target.isAbsolute then [] else here) (target.steps ++ rest)
        | some _ => locateBy root follow jump (here ++ [name]) rest
        | none => if rest.isEmpty then .ok (here ++ [name]) else .error .notFound
    | _ => .error .notDirectory

/-- Takes steps from a directory, with so many links to follow. -/
def locateFrom (root : Node) (follow : Bool) (links : Nat) :
    (here : Location) → List Path.Step → Except SystemError Location :=
  match links with
  | 0 => locateBy root follow fun _ _ => .error .tooManyLinks
  | links + 1 => locateBy root follow (locateFrom root follow links)

/-- Where a path starts. -/
def origin (tree : FileTree) (path : Path) : Location :=
  if path.isAbsolute then [] else tree.working

/-- The location a path leads to. -/
def locate (tree : FileTree) (follow : Bool) (path : Path) : Except SystemError Location := do
  path.check
  locateFrom tree.root follow maxLinks (tree.origin path) path.steps

/-- What a path leads to, behind links. -/
def find (tree : FileTree) (path : Path) : Except SystemError Node := do
  match tree.root.at? (← tree.locate true path) with
  | some node => .ok node
  | none => .error .notFound

/-- The file a path leads to. -/
def findFile (tree : FileTree) (path : Path) : Except SystemError RegularFile := do
  match ← tree.find path with
  | .file file => .ok file
  | _ => .error .isDirectory

/-- The bytes of a file. -/
def read (tree : FileTree) (path : Path) : Except SystemError Bytes := do
  return (← tree.findFile path).content

/-- Whether a path leads to anything. -/
def contains (tree : FileTree) (path : Path) : Bool :=
  (tree.find path).toBool

/-- Whether a path leads to a regular file. -/
def isFile (tree : FileTree) (path : Path) : Bool :=
  match tree.find path with
  | .ok (.file _) => true
  | _ => false

/-! ## Programs -/

/-- The program at a path. -/
def programAt (tree : FileTree) (path : Path) : Except SystemError Program := do
  match ← tree.find path with
  | .file file =>
    if file.executable then .ok (tree.environment.program file.content)
    else .error .permissionDenied
  | _ => .error .permissionDenied

/--
The program of a name in the first of the directories that has one to be started.
Where none has, a file that may not be started counts for more than `last`, the
reason why the directory before had nothing.
-/
def searchProgram (tree : FileTree) (name : String) (denied : Bool) (last : SystemError) :
    List Path → Except SystemError Program
  | [] => .error (if denied then .permissionDenied else last)
  | directory :: rest =>
    match tree.programAt (directory.join ⟨name⟩) with
    | .ok program => .ok program
    | .error .permissionDenied => tree.searchProgram name true last rest
    | .error .notFound => tree.searchProgram name denied .notFound rest
    | .error .notDirectory => tree.searchProgram name denied .notDirectory rest
    | .error cause => .error cause

/-- The program a path stands for. A name alone is searched for in the directories of programs. -/
def findProgram (tree : FileTree) (path : Path) : Except SystemError Program :=
  if path.hasNul then .error .nulInArgument
  else if path.text.toList.contains '/' then tree.programAt path
  else if path.text.isEmpty then .error .notFound
  else if isLongName path.text then .error .nameTooLong
  else tree.searchProgram path.text false .notFound tree.environment.searchPath

/-! ## Walking all files -/

/-- The regular files below a directory, as seen from the path it was given by. -/
def filesBelow (tree : FileTree) (path : Path) :
    Except SystemError (List (Path × RegularFile)) := do
  let node ← tree.find path
  unless node.isDirectory do throw .notDirectory
  return (node.descendants (fun _ => false) path).filterMap fun (path, node) =>
    match node with
    | .file file => some (path, file)
    | _ => none

/-! ## Building trees -/

/-- Puts a node at a location. -/
def putNode (tree : FileTree) (location : Location) (node : Node) : FileTree :=
  { tree with root := node.putAt location tree.root }

/-- A tree with one empty directory, in which relative paths start. -/
def ofWorking (name : String) : FileTree where
  root := .directory [(name, .empty)]
  working := [name]

/-- Takes steps from a directory and makes the directories that are missing. -/
def makeDirectories (tree : FileTree) (here : Location) : List Path.Step → FileTree × Location
  | [] => (tree, here)
  | step :: rest =>
    match locateFrom tree.root true maxLinks here [step] with
    | .error _ => (tree, here)
    | .ok there =>
      let tree := if (tree.root.at? there).isSome then tree else tree.putNode there .empty
      makeDirectories tree there rest

/-- A tree with nothing but the directory at `path`, in which relative paths start. -/
def atDirectory (path : Path) : FileTree :=
  let (tree, working) := makeDirectories { root := .empty, working := [] } [] path.steps
  { tree with working }

/--
Adds an entry, with the directories above it. A file is written where a link of
its name leads, and a directory that is there already stays.
-/
def install (tree : FileTree) (path : Path) (node : Node) : FileTree :=
  let steps := path.steps.filter (· != .stay)
  match steps.getLast? with
  | some (.enter name) =>
    let (tree, here) := tree.makeDirectories (tree.origin path) steps.dropLast
    match node, locateFrom tree.root true maxLinks here [.enter name] with
    | .link _, _ => tree.putNode (here ++ [name]) node
    | _, .error _ => tree
    | _, .ok there =>
      match node, tree.root.at? there with
      | .directory [], some (.directory _) => tree
      | _, _ => tree.putNode there node
  | _ => tree

end FileTree

end ImportAtlas
