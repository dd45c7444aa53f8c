import ImportAtlas.Text.Pieces

/-!
# Paths

A path is the text it was written as. Comparison, the file name and the parent
go by its components: repeated separators, inner `.` parts and a trailing
separator make no difference, while `..` does. Spelling is kept wherever a path
is shown.
-/

namespace ImportAtlas

structure Path where
  text : String
  deriving DecidableEq, Repr, Inhabited

namespace Path

/-- One step of a path's meaning. A leading `.` counts, an inner one does not. -/
inductive Component where
  | root
  | current
  | parent
  | normal (name : String)
  deriving DecidableEq, Repr

/-- The parts of a path between separators. -/
def parts (path : Path) : List String :=
  (Text.pieces '/' path.text.toList).map String.ofList

def isAbsolute (path : Path) : Bool :=
  path.text.toList.head? == some '/'

/-- Parts that lead nowhere. -/
def isIdle (part : String) : Bool :=
  part == "" || part == "."

/-- The components spelled by parts behind the first position. -/
def bodyComponents (parts : List String) : List Component :=
  (parts.filter (!isIdle ·)).map fun part =>
    if part == ".." then .parent else .normal part

def components (path : Path) : List Component :=
  if path.isAbsolute then .root :: bodyComponents path.parts
  else match path.parts with
    | "." :: rest => .current :: bodyComponents rest
    | parts => bodyComponents parts

namespace Component

/-- The root comes first, then `.`, then `..`, then names. -/
def rank : Component → Nat
  | .root => 0
  | .current => 1
  | .parent => 2
  | .normal _ => 3

/-- Components by rank, names by their characters. -/
def compare : Component → Component → Ordering
  | .normal a, .normal b => Ord.compare a b
  | a, b => Ord.compare a.rank b.rank

end Component

/-- Lexicographic comparison of component lists. -/
def compareComponents : List Component → List Component → Ordering
  | [], [] => .eq
  | [], _ :: _ => .lt
  | _ :: _, [] => .gt
  | a :: as, b :: bs => (a.compare b).then (compareComponents as bs)

/-- Paths compare component by component. -/
def compare (a b : Path) : Ordering :=
  compareComponents a.components b.components

/-- Two spellings of the same components. -/
def same (a b : Path) : Bool :=
  a.components == b.components

/--
A path taken apart for editing: the text that is no part of the body (the
leading separator, or a leading `.`), and the parts of the body.
-/
def leadAndBody (path : Path) : String × List String :=
  match path.isAbsolute, path.parts with
  | true, _ :: rest => ("/", rest)
  | false, "." :: rest => (".", if rest.isEmpty then [] else "" :: rest)
  | _, parts => ("", parts)

/-- Drops idle parts from the end. -/
def dropIdleEnd (parts : List String) : List String :=
  (parts.reverse.dropWhile isIdle).reverse

/-- The inverse of `leadAndBody`. -/
def ofLeadAndBody (lead : String) (body : List String) : Path :=
  ⟨lead ++ String.ofList (Text.joinPieces '/' (body.map String.toList))⟩

/-- The last component, if it is a name. -/
def fileName? (path : Path) : Option String :=
  match path.components.getLast? with
  | some (.normal name) => some name
  | _ => none

/-- The path without its last component; none for the root and the empty path. -/
def parent? (path : Path) : Option Path :=
  match path.components.getLast? with
  | none | some .root => none
  | some .current => some ⟨""⟩
  | some _ =>
    let (lead, body) := path.leadAndBody
    some (ofLeadAndBody lead (dropIdleEnd (dropIdleEnd body).dropLast))

/--
A file name cut at its last dot. There is no extension without a dot, nor when
the only dot is the first character.
-/
def splitExtension (name : String) : String × Option String :=
  let reversed := name.toList.reverse
  let stem := (reversed.dropWhile (· != '.')).drop 1
  if stem.isEmpty then (name, none)
  else (String.ofList stem.reverse,
    some (String.ofList (reversed.takeWhile (· != '.')).reverse))

def extension? (path : Path) : Option String :=
  path.fileName?.bind fun name => (splitExtension name).2

/-- Puts an extension in the place of the file name's own; no file name, no change. -/
def putExtension (path : Path) (extension : String) : Path :=
  match path.fileName? with
  | none => path
  | some name =>
    let (lead, body) := path.leadAndBody
    ofLeadAndBody lead
      ((dropIdleEnd body).dropLast ++ [(splitExtension name).1 ++ "." ++ extension])

/-- The text without its last `count` characters. -/
def dropEnd (path : Path) (count : Nat) : Path :=
  ⟨String.ofList (path.text.toList.take (path.text.toList.length - count))⟩

/--
The path with another extension. As many characters as the old extension has
are dropped from the end of the text first. A name with a single dot before its
extension is `..` by then, which is no file name, and stays that.
-/
def withExtension (path : Path) (extension : String) : Path :=
  match path.extension? with
  | none => path.putExtension extension
  | some old => (path.dropEnd old.length).putExtension extension

/-- `other` as seen from `base`; an absolute path stands for itself. -/
def join (base other : Path) : Path :=
  if other.isAbsolute then other
  else if base.text.isEmpty || base.text.toList.getLast? == some '/' then
    ⟨base.text ++ other.text⟩
  else ⟨base.text ++ "/" ++ other.text⟩

end Path

end ImportAtlas
