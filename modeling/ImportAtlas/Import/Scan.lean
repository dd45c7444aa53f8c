import ImportAtlas.Import.Extract

/-!
# Imports of a tree of units

A scan visits a unit and then the units nested in it, in the order of the
constant table. Units wait on a work list, so that the depth of nesting does not
matter. A unit that fails gives one failure in place of its records, and the
units nested in it are visited all the same.
-/

namespace ImportAtlas

/-- A unit whose records are missing from a scan. -/
structure UnitFailure where
  unit : String
  firstLine : UInt32
  error : Error
  deriving DecidableEq, Repr

/-- What a scan found. -/
structure ScanResult where
  records : List ImportRecord := []
  failures : List UnitFailure := []
  deriving DecidableEq, Repr

/-- Whether every unit was scanned. -/
def ScanResult.isComplete (result : ScanResult) : Bool :=
  result.failures.isEmpty

/-- The results of one unit before those of the units after it. -/
def ScanResult.append (first second : ScanResult) : ScanResult :=
  ⟨first.records ++ second.records, first.failures ++ second.failures⟩

/-- The records of one unit, which must be of the given format. -/
def scanOne (format : Format) (source : Option SourceText) (unit : CodeUnit) :
    Except Error (List ImportRecord) := do
  format.check unit.marker
  extract format source unit

/-- A unit's contribution to a scan: all its records, or one failure. -/
def contribution (format : Format) (source : Option SourceText) (unit : CodeUnit) : ScanResult :=
  match scanOne format source unit with
  | .ok records => { records }
  | .error error => { failures := [⟨unit.name, unit.firstLine, error⟩] }

/-- The size of all units together. -/
noncomputable def totalSize (units : List CodeUnit) : Nat :=
  units.foldr (fun unit size => sizeOf unit + size) 0

theorem totalSize_append (first second : List CodeUnit) :
    totalSize (first ++ second) = totalSize first + totalSize second := by
  induction first with
  | nil => simp [totalSize]
  | cons unit first ih =>
    simp only [totalSize, List.cons_append, List.foldr_cons] at ih ⊢
    omega

theorem totalSize_filterMap_code? (constants : List Constant) :
    totalSize (constants.filterMap Constant.code?) < sizeOf constants := by
  induction constants with
  | nil => simp [totalSize]
  | cons constant constants ih =>
    simp only [totalSize] at ih ⊢
    cases constant <;> simp [List.filterMap_cons, Constant.code?] <;> omega

/-- The units nested in a unit are smaller than it, even together. -/
theorem totalSize_nested (unit : CodeUnit) : totalSize unit.nested < sizeOf unit := by
  have h := totalSize_filterMap_code? unit.consts
  obtain ⟨marker, argcount, nlocals, stacksize, flags, code, consts, names, varnames, freevars,
    cellvars, filename, name, firstLine, lnotab⟩ := unit
  simp only [CodeUnit.nested, CodeUnit.mk.sizeOf_spec] at h ⊢
  omega

/-- Visits the units that wait and those nested in them. -/
def visit (format : Format) (source : Option SourceText) : (waiting : List CodeUnit) → ScanResult
  | [] => {}
  | unit :: waiting =>
    (contribution format source unit).append (visit format source (unit.nested ++ waiting))
termination_by waiting => totalSize waiting
decreasing_by
  have hnested := totalSize_nested unit
  have hcons : totalSize (unit :: waiting) = sizeOf unit + totalSize waiting := rfl
  rw [totalSize_append, hcons]
  omega

/-- Scans a unit and all units nested in it; a root of another format fails the whole scan. -/
def scan (format : Format) (source : Option SourceText) (root : CodeUnit) :
    Except Error ScanResult := do
  format.check root.marker
  return visit format source [root]

end ImportAtlas
