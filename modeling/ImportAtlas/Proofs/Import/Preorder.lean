import ImportAtlas.Import.Scan
import Mathlib.Logic.Relation

/-!
# A scan in pre-order

The units of a module form a tree, and the order to scan a tree in is pre-order:
a unit, then for each unit in its constant table that unit's whole tree. Here the
order is a list and what a unit adds to a scan is said of the unit alone; the main
statement is that a scan from a work list is nothing but that list with each unit
replaced by what it adds. A unit that fails costs its own records and no others.
-/

namespace ImportAtlas

namespace CodeUnit

theorem sizeOf_lt_of_mem_nested {unit inner : CodeUnit} (h : inner ∈ unit.nested) :
    sizeOf inner < sizeOf unit := by
  have hnested := totalSize_nested unit
  obtain ⟨before, after, hsplit⟩ := List.append_of_mem h
  have hinner : totalSize (inner :: after) = sizeOf inner + totalSize after := rfl
  rw [hsplit, totalSize_append, hinner] at hnested
  omega

/-- The unit and all units nested in it, each before those in its own constant table. -/
def preorder (unit : CodeUnit) : List CodeUnit :=
  unit :: unit.nested.attach.flatMap fun inner => inner.1.preorder
termination_by sizeOf unit
decreasing_by exact sizeOf_lt_of_mem_nested inner.2

theorem preorder_eq (unit : CodeUnit) :
    unit.preorder = unit :: unit.nested.flatMap preorder := by
  rw [preorder, List.flatMap_subtype fun _ _ => rfl, List.unattach_attach]

/-- The list has the unit and whatever its constant tables lead to. -/
theorem mem_preorder_iff {root unit : CodeUnit} :
    unit ∈ root.preorder ↔
      Relation.ReflTransGen (fun outer inner => inner ∈ outer.nested) root unit := by
  constructor
  · intro h
    induction root using preorder.induct with
    | case1 root ih =>
      rw [preorder_eq, List.mem_cons, List.mem_flatMap] at h
      rcases h with rfl | ⟨inner, hinner, hunit⟩
      · exact .refl
      · exact .head hinner (ih ⟨inner, hinner⟩ hunit)
  · intro h
    induction h using Relation.ReflTransGen.head_induction_on with
    | refl =>
      rw [preorder_eq]
      exact List.mem_cons_self
    | head hinner _ ih =>
      rw [preorder_eq]
      exact List.mem_cons_of_mem _ (List.mem_flatMap.mpr ⟨_, hinner, ih⟩)

end CodeUnit

variable (format : Format) (source : Option SourceText)

/-- The records a unit adds to a scan: all it holds, if it is of the format and none of them
fails. -/
def unitRecords (unit : CodeUnit) : List ImportRecord :=
  if unit.marker = format.magic then
    match extract format source unit with
    | .ok records => records
    | .error _ => []
  else []

def unitFailure? (unit : CodeUnit) : Option UnitFailure :=
  if unit.marker = format.magic then
    match extract format source unit with
    | .ok _ => none
    | .error error => some ⟨unit.name, unit.firstLine, error⟩
  else some ⟨unit.name, unit.firstLine, .unsupportedFormat (.mismatch format unit.marker)⟩

theorem contribution_eq (unit : CodeUnit) :
    contribution format source unit =
      ⟨unitRecords format source unit, (unitFailure? format source unit).toList⟩ := by
  unfold contribution scanOne unitRecords unitFailure? Format.check
  by_cases hmarker : unit.marker = format.magic
  · simp only [hmarker, if_true, bind, Except.bind]
    cases extract format source unit <;> rfl
  · simp only [hmarker, if_false, bind, Except.bind]
    rfl

theorem unit_records_or_failure (unit : CodeUnit) :
    (∃ records, unit.marker = format.magic ∧ extract format source unit = .ok records ∧
        unitRecords format source unit = records ∧ unitFailure? format source unit = none) ∨
      (∃ error, unitRecords format source unit = [] ∧
        unitFailure? format source unit = some ⟨unit.name, unit.firstLine, error⟩) := by
  unfold unitRecords unitFailure?
  by_cases hmarker : unit.marker = format.magic
  · rw [if_pos hmarker, if_pos hmarker]
    cases extract format source unit with
    | ok records => exact .inl ⟨records, hmarker, rfl, rfl, rfl⟩
    | error error => exact .inr ⟨error, rfl, rfl⟩
  · rw [if_neg hmarker, if_neg hmarker]
    exact .inr ⟨_, rfl, rfl⟩

/-- Units that wait stand for their trees, one after another. -/
theorem visit_eq_preorder (waiting : List CodeUnit) :
    visit format source waiting =
      ⟨(waiting.flatMap CodeUnit.preorder).flatMap (unitRecords format source),
        (waiting.flatMap CodeUnit.preorder).filterMap (unitFailure? format source)⟩ := by
  fun_induction visit format source waiting with
  | case1 => rfl
  | case2 unit waiting ih =>
    -- Taking a unit off the work list and putting its inner units there unrolls its tree once.
    have hunroll : (unit :: waiting).flatMap CodeUnit.preorder
        = unit :: (unit.nested ++ waiting).flatMap CodeUnit.preorder := by
      rw [List.flatMap_cons, CodeUnit.preorder_eq, List.cons_append, List.flatMap_append]
    rw [ih, contribution_eq, hunroll, ScanResult.append, List.flatMap_cons, List.filterMap_cons]
    cases unitFailure? format source unit <;> rfl

/-- A scan fails as a whole exactly if its root is of another format. Otherwise it gives, along
the pre-order list of the tree, the records of every unit that has them and one failure for every
other unit; the list has all units of the tree, below a failed unit too. -/
theorem scan_eq_preorder (root : CodeUnit) :
    scan format source root =
        (if root.marker = format.magic then
          .ok ⟨root.preorder.flatMap (unitRecords format source),
            root.preorder.filterMap (unitFailure? format source)⟩
        else .error (.unsupportedFormat (.mismatch format root.marker))) ∧
      (∀ unit, unit ∈ root.preorder ↔
        Relation.ReflTransGen (fun outer inner => inner ∈ outer.nested) root unit) ∧
      ∀ unit ∈ root.preorder,
        (∃ records, unit.marker = format.magic ∧ extract format source unit = .ok records ∧
          unitRecords format source unit = records ∧ unitFailure? format source unit = none) ∨
        (∃ error, unitRecords format source unit = [] ∧
          unitFailure? format source unit = some ⟨unit.name, unit.firstLine, error⟩) := by
  refine ⟨?_, fun unit => CodeUnit.mem_preorder_iff, fun unit _ =>
    unit_records_or_failure format source unit⟩
  unfold scan Format.check
  by_cases hmarker : root.marker = format.magic
  · rw [if_pos hmarker, if_pos hmarker, visit_eq_preorder, List.flatMap_singleton]
    rfl
  · rw [if_neg hmarker, if_neg hmarker]
    rfl

end ImportAtlas
