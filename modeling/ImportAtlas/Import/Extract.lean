import ImportAtlas.Code.LineTable
import ImportAtlas.Import.Record
import ImportAtlas.Import.Source

/-!
# Imports of one unit

Every import event of a walk becomes a record. An error of the walk, or a list
of names that is none, discards the records of the whole unit.
-/

namespace ImportAtlas

/-- Stands for all names of a module. -/
def wildcard : String := "*"

/-- A member of a list of names. -/
def fromlistEntry (offset : Nat) (item : Constant) : Except Error String :=
  match item.text? with
  | some name => .ok name
  | none => .error (.unexpectedConstant offset (.fromlistEntryKind item.kind))

/-- The names a constant lists for the import at `offset`; the wildcard is left out. -/
def fromlistOf (offset : Nat) (constant : Constant) : Except Error (Option (List String)) := do
  match constant with
  | .none => return none
  | .str name | .unicode name => return some ([name].filter (· != wildcard))
  | .tuple items | .list items =>
    let names ← items.mapM (fromlistEntry offset)
    return some (names.filter (· != wildcard))
  | other => throw (.unexpectedConstant offset (.fromlistKind other.kind))

/-- The full name of the module that `name` stands for in an import of this style. -/
def moduleName (style : ImportStyle) (name : String) : String :=
  match style with
  | .relative level => String.ofList (List.replicate level.toNat '.') ++ name
  | .implicit | .absolute => name

/-- The record of an event, which is none for a store. -/
def recordOf (names : Array String) (constants : Array Constant)
    (lines : LineTable) (source : Option SourceText) : Event → Except Error (Option ImportRecord)
  | .store _ _ => .ok none
  | .importing offset style fromlist module => do
    let lineNumber := lines.lineAt offset
    let fromlist ← fromlistOf offset (constants.getD fromlist .none)
    return some {
      lineNumber
      sourceLine := source.bind (·.line? lineNumber)
      module := moduleName style (names.getD module "")
      fromlist
      style }

/-- The import records of a unit, without those of the units nested in it. -/
def extract (format : Format) (source : Option SourceText) (unit : CodeUnit) :
    Except Error (List ImportRecord) := do
  let record := recordOf unit.names.toArray unit.consts.toArray unit.lineTable source
  let found ← (Walker.start format unit).run.1.mapM fun item => do record (← item.result)
  return found.filterMap id

end ImportAtlas
