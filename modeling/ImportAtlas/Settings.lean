import ImportAtlas.File.Tree
import ImportAtlas.Json.Reader
import ImportAtlas.Text.Utf8

/-!
# Settings

What the command line sets, what a project file sets, and how the one is filled
up from the other. The project file is a JSON object, or an array of the same
values in order; every member may be missing, and no other may be there.
-/

namespace ImportAtlas

/-! ## Project files -/

/-- What a project file sets. -/
structure ProjectSettings where
  /-- Packages the project declares as required. -/
  required : List String := []
  /-- Top-level names that are left out of reports. -/
  ignore : List String := []
  width : Option Nat := none
  format : Option String := none
  /-- The interpreter that compiles sources. -/
  python : Option Path := none
  deriving DecidableEq, Repr

/-- The members of a project file, in order. -/
inductive ProjectField where
  | required
  | ignore
  | width
  | format
  | python
  deriving DecidableEq, Repr

namespace ProjectField

def all : List ProjectField := [.required, .ignore, .width, .format, .python]

def name : ProjectField → String
  | .required => "required"
  | .ignore => "ignore"
  | .width => "width"
  | .format => "format"
  | .python => "python"

def ofName? (name : String) : Option ProjectField :=
  all.find? (·.name == name)

end ProjectField

/-- How many columns or threads a machine word can count. -/
def countLimit : Nat := 0x10000000000000000

namespace ProjectSettings

open Json (Value)

def text? : Value → Option String
  | .string text => some text
  | _ => none

def texts? : Value → Option (List String)
  | .array items => items.mapM text?
  | _ => none

def count? : Value → Option Nat
  | .integer value => if 0 ≤ value ∧ value < countLimit then some value.toNat else none
  | _ => none

/-- A value that may be `null`. -/
def orNull {α : Type} (read : Value → Option α) : Value → Option (Option α)
  | .null => some none
  | value => (read value).map some

/-- Sets a member from its value. -/
def set (settings : ProjectSettings) (field : ProjectField) (value : Value) :
    Option ProjectSettings :=
  match field with
  | .required => do return { settings with required := ← texts? value }
  | .ignore => do return { settings with ignore := ← texts? value }
  | .width => do return { settings with width := ← orNull count? value }
  | .format => do return { settings with format := ← orNull text? value }
  | .python => do return { settings with python := (← orNull text? value).map Path.mk }

/-- The members of an object; a name that is unknown or comes twice is refused. -/
def fields? : List (String × Value) → Option (List (ProjectField × Value))
  | [] => some []
  | (name, value) :: rest => do
    let field ← ProjectField.ofName? name
    let fields ← fields? rest
    if fields.any (·.1 == field) then none else some ((field, value) :: fields)

def setAll (fields : List (ProjectField × Value)) : Option ProjectSettings :=
  fields.foldlM (fun settings (field, value) => settings.set field value) {}

def ofJson? : Value → Option ProjectSettings
  | .object members => do setAll (← fields? members)
  | .array items =>
    if items.length ≤ ProjectField.all.length then setAll (ProjectField.all.zip items) else none
  | _ => none

/-- The settings in a text. -/
def ofText? (text : String) : Option ProjectSettings := do
  ofJson? (← Value.ofText? text)

/-- The name of a project file. -/
def fileName : Path := ⟨"compage.json"⟩

/-- Reads the project file at `path`. -/
def read (tree : FileTree) (path : Path) : Except Error ProjectSettings :=
  match tree.read path with
  | .error cause => .error (.settingsUnreadable path cause)
  | .ok bytes =>
    match Utf8.decode? bytes with
    | none => .error (.settingsUnreadable path .notText)
    | some text =>
      match ofText? text with
      | none => .error (.settingsMalformed path)
      | some settings => .ok settings

/-- Where the project file of a root is looked for: beside a file, in a directory. -/
def pathFor (tree : FileTree) (root : Path) : Path :=
  (if tree.isFile root then root.parent?.getD ⟨"."⟩ else root).join fileName

/-- The project settings that belong to a root; without a project file nothing is set. -/
def find (tree : FileTree) (root : Path) : Except Error ProjectSettings :=
  let path := pathFor tree root
  if tree.contains path then read tree path else .ok {}

end ProjectSettings

/-! ## Effective settings -/

/-- What the command line may set. -/
structure Flags where
  width : Option Nat := none
  format : Option String := none
  python : Option Path := none
  jobs : Option Nat := none
  deriving DecidableEq, Repr

structure Settings where
  cwd : Path
  json : Bool := false
  verbosity : Nat := 0
  format : String
  width : Nat
  jobs : Option Nat := none
  python : Option Path := none
  deriving DecidableEq, Repr

namespace Settings

def defaultWidth : Nat := 70

def defaultFormat : String := "2.7"

/-- The settings the command line gives. -/
def ofFlags (cwd : Path) (flags : Flags) : Settings where
  cwd
  format := flags.format.getD defaultFormat
  width := flags.width.getD defaultWidth
  jobs := flags.jobs
  python := flags.python

/-- Fills values that are still the default from a project file. -/
def withProject (settings : Settings) (project : ProjectSettings) : Settings :=
  { settings with
    width :=
      if settings.width = defaultWidth then project.width.getD settings.width
      else settings.width
    format :=
      if settings.format = defaultFormat then project.format.getD settings.format
      else settings.format
    python := settings.python <|> project.python }

end Settings

end ImportAtlas
