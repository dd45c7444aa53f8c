import ImportAtlas.Proofs.Code.Walk
import ImportAtlas.Proofs.Container.RoundTrip
import ImportAtlas.Proofs.Import.Preorder

/-!
# What can go wrong after a container is read

A container that reads holds units of one format only, at whatever depth and in
whatever constant they stand. So no scan of it can find a unit of another
format: what is left to fail in a unit is its own code, and then at an
instruction that is cut short, an operand outside its table, or a constant that
an import cannot take. The events of a walk never point outside the tables.
-/

namespace ImportAtlas

theorem checked_fromlistEntry (offset : Nat) (item : Constant) :
    Checked (fun _ => True) (fromlistEntry offset item) := by
  unfold fromlistEntry
  split
  · trivial
  · trivial

theorem checked_fromlistOf (offset : Nat) (constant : Constant) :
    Checked (fun _ => True) (fromlistOf offset constant) := by
  unfold fromlistOf
  split
  · trivial
  · trivial
  · trivial
  · rename_i items
    have hnames := checked_mapM fun item (_ : item ∈ items) => checked_fromlistEntry offset item
    exact hnames.bind fun _ _ => trivial
  · rename_i items
    have hnames := checked_mapM fun item (_ : item ∈ items) => checked_fromlistEntry offset item
    exact hnames.bind fun _ _ => trivial
  · trivial

theorem checked_recordOf (names : Array String) (constants : Array Constant) (lines : LineTable)
    (source : Option SourceText) (event : Event) :
    Checked (fun _ => True) (recordOf names constants lines source event) := by
  cases event with
  | store offset name => trivial
  | importing offset style fromlist module =>
    apply (checked_fromlistOf offset (constants.getD fromlist .none)).bind
    intro names _
    trivial

theorem checked_extract (format : Format) (source : Option SourceText) (unit : CodeUnit) :
    Checked (fun _ => True) (extract format source unit) := by
  have hrecords : ∀ item ∈ (Walker.start format unit).run.1,
      Checked (fun _ => True) (item.result >>= recordOf unit.names.toArray unit.consts.toArray
        unit.lineTable source) := by
    intro item hitem
    exact (Walker.checked_of_mem_run hitem).bind fun event _ => checked_recordOf _ _ _ _ event
  apply (checked_mapM hrecords).bind
  intro found _
  trivial

theorem Error.BlamesCode.code_mem {error : Error} (h : error.BlamesCode) :
    error.code ∈ ["TRUNCATED_INSTRUCTION", "INVALID_OPERAND", "INVALID_CONSTANT"] := by
  cases error with
  | truncatedInstruction => exact .head _
  | operandOutside => exact .tail _ (.head _)
  | unexpectedConstant => exact .tail _ (.tail _ (.head _))
  | _ => exact h.elim

/-- A unit that a scan visits opens in the stored form of the root. -/
theorem opens_of_mem_preorder {root unit : CodeUnit} (h : unit ∈ root.preorder) :
    ∃ depth, Container.Opens (.code root) depth (.code unit) := by
  rw [CodeUnit.mem_preorder_iff] at h
  induction h with
  | refl => exact ⟨0, .root⟩
  | @tail outer inner _ hinner ih =>
    obtain ⟨depth, hopens⟩ := ih
    have htable : Container.Opens (.code root) (depth + 1) (.tuple outer.consts) :=
      .part hopens List.mem_cons_self
    have hmember : Constant.code inner ∈ outer.consts := by
      obtain ⟨constant, hconstant, hcode⟩ := List.mem_filterMap.1 hinner
      cases constant with
      | code unit =>
        cases hcode
        exact hconstant
      | _ => cases hcode
    exact ⟨depth + 2, .part htable hmember⟩

theorem scan_eq_visit {format : Format} {root : CodeUnit} (h : root.marker = format.magic)
    (source : Option SourceText) : scan format source root = .ok (visit format source [root]) := by
  unfold scan Format.check
  rw [if_pos h]
  rfl

/-- Where all units are of the format, a scan gives a result and blames nothing but code. -/
theorem scan_of_marked {format : Format} {root : CodeUnit}
    (hmarked : ∀ unit ∈ root.preorder, unit.marker = format.magic) (source : Option SourceText) :
    ∃ result, scan format source root = .ok result ∧
      ∀ failure ∈ result.failures, failure.error.BlamesCode := by
  have hroot : root.marker = format.magic := by
    apply hmarked
    rw [CodeUnit.preorder_eq]
    exact List.mem_cons_self
  refine ⟨visit format source [root], scan_eq_visit hroot source, ?_⟩
  intro failure hfailure
  rw [visit_eq_preorder, List.flatMap_singleton] at hfailure
  obtain ⟨unit, hunit, hfailed⟩ := List.mem_filterMap.1 hfailure
  have hchecked := checked_extract format source unit
  unfold unitFailure? at hfailed
  rw [if_pos (hmarked unit hunit)] at hfailed
  cases hextract : extract format source unit with
  | ok records =>
    rw [hextract] at hfailed
    cases hfailed
  | error error =>
    rw [hextract] at hfailed hchecked
    cases hfailed
    exact hchecked

/-- A container that reads is scanned, with or without its source, and every unit in it, also
where a scan does not look, is of the format of the container. The scan reports no unit of another
format, only truncated instructions, operands outside their table and constants of a wrong kind;
and every event of its units points into their tables. -/
theorem scan_of_load {bytes : Bytes} {format : Format} {root : CodeUnit}
    (hload : Container.load bytes format = .ok root) (source : Option SourceText) :
    (∃ result, scan format source root = .ok result ∧
      ∀ failure ∈ result.failures, failure.error.code ≠ "UNSUPPORTED_BYTECODE_FORMAT" ∧
        failure.error.code ∈ ["TRUNCATED_INSTRUCTION", "INVALID_OPERAND", "INVALID_CONSTANT"]) ∧
      (∀ unit ∈ root.preorder, ∀ item ∈ (Walker.start format unit).run.1, ∀ event,
        item.result = .ok event → event.InTables unit.names.length unit.consts.length) ∧
      ∀ depth unit, Container.Opens (.code root) depth (.code unit) →
        unit.marker = format.magic := by
  have hmarked := (Container.storable_of_load hload).marked
  refine ⟨?_, fun unit _ item hitem event => inTables_of_mem_run hitem, hmarked⟩
  have hpreorder : ∀ unit ∈ root.preorder, unit.marker = format.magic := by
    intro unit hunit
    obtain ⟨depth, hopens⟩ := opens_of_mem_preorder hunit
    exact hmarked depth unit hopens
  obtain ⟨result, hscan, hblames⟩ := scan_of_marked hpreorder source
  refine ⟨result, hscan, ?_⟩
  intro failure hfailure
  have hcode := (hblames failure hfailure).code_mem
  refine ⟨?_, hcode⟩
  intro hformat
  rw [hformat] at hcode
  exact absurd hcode (by decide)

/-- A container whose only unit ends inside a store and has a list among its constants, with a
unit in it that no scan visits. -/
def hiddenUnitContainer : Bytes :=
  [0x03, 0xf3, 0x0d, 0x0a, 0, 0, 0, 0, 0x63, 0, 0, 0, 0, 0, 0, 0, 0, 0, 0, 0, 0, 0, 0, 0, 0,
    0x73, 1, 0, 0, 0, 0x5a, 0x28, 1, 0, 0, 0, 0x5b, 1, 0, 0, 0,
    0x63, 0, 0, 0, 0, 0, 0, 0, 0, 0, 0, 0, 0, 0, 0, 0, 0, 0x73, 0, 0, 0, 0, 0x28, 0, 0, 0, 0,
    0x28, 0, 0, 0, 0, 0x28, 0, 0, 0, 0, 0x28, 0, 0, 0, 0, 0x28, 0, 0, 0, 0, 0x73, 0, 0, 0, 0,
    0x73, 0, 0, 0, 0, 2, 0, 0, 0, 0x73, 0, 0, 0, 0,
    0x28, 0, 0, 0, 0, 0x28, 0, 0, 0, 0, 0x28, 0, 0, 0, 0, 0x28, 0, 0, 0, 0, 0x73, 0, 0, 0, 0,
    0x73, 0, 0, 0, 0, 1, 0, 0, 0, 0x73, 0, 0, 0, 0]

theorem scan_of_load_hiddenUnitContainer : ∃ root,
    Container.load hiddenUnitContainer .v27 = .ok root ∧
      (∃ result, scan .v27 none root = .ok result ∧
        ∀ failure ∈ result.failures, failure.error.code ≠ "UNSUPPORTED_BYTECODE_FORMAT" ∧
          failure.error.code ∈
            ["TRUNCATED_INSTRUCTION", "INVALID_OPERAND", "INVALID_CONSTANT"]) ∧
      (∀ unit ∈ root.preorder, ∀ item ∈ (Walker.start .v27 unit).run.1, ∀ event,
        item.result = .ok event → event.InTables unit.names.length unit.consts.length) ∧
      ∀ depth unit, Container.Opens (.code root) depth (.code unit) →
        unit.marker = Format.v27.magic := by
  have hloads : (Container.load hiddenUnitContainer .v27).isOk = true := by decide +kernel
  cases h : Container.load hiddenUnitContainer .v27 with
  | error error =>
    rw [h] at hloads
    cases hloads
  | ok root => exact ⟨root, rfl, scan_of_load h none⟩

end ImportAtlas
