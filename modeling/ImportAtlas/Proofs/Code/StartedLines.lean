import ImportAtlas.Proofs.Code.Lookup
import ImportAtlas.Proofs.Import.Program
import Mathlib.Order.Bounds.Basic

/-!
# The lines that were started

Whoever assembles a unit says where lines start. The line table of the finished
unit gives that back: the line found for a byte is the largest that was started
before the byte was emitted. Lines may be started in any order, several at one
place, and with any steps between them.
-/

namespace ImportAtlas.Assembler

open LineTable (linesTo span)

/-! ## Lines that were started before a byte -/

/-- The lines that are started while the byte at `target` has not been emitted. -/
def startedBefore (target : Nat) (asm : Assembler) (steps : List Step) : Set UInt32 :=
  {line | ∃ before after, steps = before ++ .line line :: after ∧
    (asm.run before).offset ≤ target}

theorem startedBefore_nil (target : Nat) (asm : Assembler) : startedBefore target asm [] = ∅ := by
  ext line
  simp [startedBefore]

theorem startedBefore_cons (target : Nat) (asm : Assembler) (step : Step) (steps : List Step) :
    startedBefore target asm (step :: steps)
      = {line | step = .line line ∧ asm.offset ≤ target}
        ∪ startedBefore target (asm.step step) steps := by
  ext line
  constructor
  · rintro ⟨before, after, hsteps, hoffset⟩
    cases before with
    | nil =>
      have hstep : step = .line line := (List.cons.inj hsteps).1
      exact .inl ⟨hstep, hoffset⟩
    | cons first before =>
      obtain ⟨rfl, htail⟩ := List.cons.inj hsteps
      exact .inr ⟨before, after, htail, hoffset⟩
  · rintro (⟨rfl, hoffset⟩ | ⟨before, after, rfl, hoffset⟩)
    · exact ⟨[], steps, rfl, hoffset⟩
    · exact ⟨step :: before, after, rfl, hoffset⟩

theorem startedBefore_of_lt {target : Nat} {asm : Assembler} (h : target < asm.code.size)
    (steps : List Step) : startedBefore target asm steps = ∅ := by
  apply Set.eq_empty_of_forall_notMem
  rintro line ⟨before, after, -, hoffset⟩
  have hsize := (continues_run before asm).size_le
  have hoffset : (asm.run before).code.size ≤ target := hoffset
  omega

theorem isGreatest_insert_max {lines : Set UInt32} {first second greatest : UInt32}
    (h : IsGreatest (insert (max first second) lines) greatest) :
    IsGreatest (insert first (insert second lines)) greatest := by
  obtain ⟨hmem, hupper⟩ := h
  have hmax : max first second = if first ≤ second then second else first := rfl
  have hle := hupper (Set.mem_insert _ _)
  rw [hmax] at hmem hle
  have hlines : ∀ line ∈ lines, line ≤ greatest := fun line hline => hupper (.inr hline)
  by_cases horder : first ≤ second
  · rw [if_pos horder] at hmem hle
    refine ⟨.inr hmem, ?_⟩
    rintro line (rfl | rfl | hline)
    · exact UInt32.le_trans horder hle
    · exact hle
    · exact hlines line hline
  · have hsecond : second ≤ first := (UInt32.le_total second first).resolve_right horder
    rw [if_neg horder] at hmem hle
    refine ⟨hmem.imp id .inr, ?_⟩
    rintro line (rfl | rfl | hline)
    · exact hle
    · exact UInt32.le_trans hsecond hle
    · exact hlines line hline

theorem keepsLines_ended (asm : Assembler) : KeepsLines asm asm.ended :=
  ((appends_load asm .none).trans (appends_op _ _)).keepsLines

theorem startedBefore_cons_of_not_line {step : Step} (h : ∀ line, step ≠ .line line) (target : Nat)
    (asm : Assembler) (steps : List Step) :
    startedBefore target asm (step :: steps) = startedBefore target (asm.step step) steps := by
  have hnone : {line | step = .line line ∧ asm.offset ≤ target} = ∅ := by
    apply Set.eq_empty_of_forall_notMem
    rintro line ⟨hstep, -⟩
    exact h line hstep
  rw [startedBefore_cons, hnone, Set.empty_union]

theorem startedBefore_cons_line {target : Nat} {asm : Assembler} (h : asm.code.size ≤ target)
    (line : UInt32) (steps : List Step) :
    startedBefore target asm (.line line :: steps)
      = insert line (startedBefore target (asm.line line) steps) := by
  have hone : {other | Step.line line = .line other ∧ asm.offset ≤ target} = {line} := by
    ext other
    constructor
    · rintro ⟨hother, -⟩
      exact (Step.line.inj hother).symm
    · rintro rfl
      exact ⟨rfl, h⟩
  rw [startedBefore_cons, hone]
  rfl

theorem isGreatest_insert_empty (line : UInt32) : IsGreatest (insert line ∅) line := by
  refine ⟨.inl rfl, ?_⟩
  rintro other (rfl | hother)
  · exact UInt32.le_refl _
  · exact hother.elim

/-- From a state that has not come to a byte yet, the line of the byte is the line reached there or
one that is started later, the largest of them. -/
theorem isGreatest_lineAt {target : Nat} {steps : List Step} {asm : Assembler} (hasm : asm.Lined)
    (hbelow : asm.code.size ≤ target) (habove : target < (asm.run steps).ended.code.size) :
    IsGreatest (insert asm.lastLine (startedBefore target asm steps))
      ((asm.run steps).ended.unit.lineTable.lineAt target) := by
  induction steps generalizing asm with
  | nil =>
    have hline : (asm.run []).ended.unit.lineTable.lineAt target = asm.lastLine :=
      lineAt_emitted hasm (keepsLines_ended asm).lnotab (keepsLines_ended asm).continues
        (Appends.refl _).continues hbelow habove
    rw [hline, startedBefore_nil]
    exact isGreatest_insert_empty asm.lastLine
  | cons step steps ih =>
    have hnext := (continues_step step asm).lined hasm
    by_cases hstep : ∃ line, step = .line line
    · obtain ⟨line, rfl⟩ := hstep
      have hsize : (asm.line line).code.size ≤ target := by rwa [code_line]
      have hgreatest := ih hnext hsize habove
      rw [startedBefore_cons_line hbelow]
      apply isGreatest_insert_max
      rw [← lastLine_line]
      exact hgreatest
    · have hkeeps := keepsLines_step (not_exists.mp hstep) asm
      rw [startedBefore_cons_of_not_line (not_exists.mp hstep)]
      by_cases hemitted : target < (asm.step step).code.size
      · -- The byte belongs to this step, and nothing that follows can move its line.
        have hfinal : Continues (asm.step step) (asm.run (step :: steps)).ended :=
          (continues_run steps _).trans (keepsLines_ended _).continues
        rw [lineAt_emitted hasm hkeeps.lnotab hkeeps.continues hfinal hbelow hemitted,
          startedBefore_of_lt hemitted]
        exact isGreatest_insert_empty asm.lastLine
      · rw [← hkeeps.lastLine]
        exact ih hnext (Nat.le_of_not_lt hemitted) habove

/-! ## Finished units -/

theorem lined_origin (origin : Origin) : origin.assembler.Lined := by
  cases origin with
  | module filename => exact ⟨rfl, rfl, Nat.le_refl _, fun _ _ => rfl⟩
  | function name filename firstLine => exact ⟨rfl, rfl, Nat.le_refl _, fun _ _ => rfl⟩

theorem Lined.sum_eq {asm : Assembler} (h : asm.Lined) :
    ((LineTable.pairs asm.lnotab.toList).map (·.1.toNat)).sum = asm.lastOffset ∧
    asm.firstLine.toNat + ((LineTable.pairs asm.lnotab.toList).map (·.2.toNat)).sum
      = asm.lastLine.toNat := by
  have hspan : 0 + span asm.lnotab.toList ≤ asm.lastOffset := by
    rw [Nat.zero_add, h.span_eq]
  constructor
  · rw [← LineTable.span_eq_sum, h.span_eq]
  · rw [← LineTable.linesTo_of_span_le hspan]
    exact h.line_eq asm.lastOffset (Nat.le_refl _)

/--
Whatever the steps, the line of a byte of the finished unit is the largest of the
first line and the lines that were started before the byte was emitted. No move
is lost on the way into the table: the pairs add up to the offset and to the line
that were reached.
-/
theorem lineAt_finish_isGreatest (origin : Origin) (steps : List Step) :
    let asm := origin.assembler.run steps
    (∀ target < asm.finish.code.length,
      IsGreatest (insert origin.assembler.firstLine (startedBefore target origin.assembler steps))
        (asm.finish.lineTable.lineAt target)) ∧
    ((LineTable.pairs asm.finish.lnotab).map (·.1.toNat)).sum = asm.lastOffset ∧
    origin.assembler.firstLine.toNat
      + ((LineTable.pairs asm.finish.lnotab).map (·.2.toNat)).sum = asm.lastLine.toNat := by
  intro asm
  have hcontinues : Continues origin.assembler asm := continues_run steps origin.assembler
  have hlined : asm.Lined := hcontinues.lined (lined_origin origin)
  have hreached : origin.assembler.lastLine = origin.assembler.firstLine := by
    cases origin <;> rfl
  have hempty : origin.assembler.code.size = 0 := by
    cases origin <;> rfl
  constructor
  · intro target htarget
    rw [← hreached]
    apply isGreatest_lineAt (lined_origin origin)
    · rw [hempty]
      exact Nat.zero_le target
    · exact htarget
  · rw [← hcontinues.firstLine]
    exact hlined.sum_eq

/-- Moves of more than a byte in offset and in line, and lines that are started at one place, one of
them behind the other. -/
def crowdedSteps : List Step :=
  List.replicate 300 (.op 1) ++ [.line 600, .line 20, .opArg 100 0, .line 601]

theorem lineAt_finish_isGreatest_crowdedSteps :
    let origin := Origin.function "f" "m.py" 10
    let unit := (origin.assembler.run crowdedSteps).finish
    302 < unit.code.length ∧
      IsGreatest (insert 10 (startedBefore 302 origin.assembler crowdedSteps))
        (unit.lineTable.lineAt 302) ∧
      unit.lineTable.lineAt 302 = 600 := by
  intro origin unit
  have htarget : 302 < unit.code.length := by decide +kernel
  have hline : unit.lineTable.lineAt 302 = 600 := by decide +kernel
  exact ⟨htarget, (lineAt_finish_isGreatest origin crowdedSteps).1 302 htarget, hline⟩

end ImportAtlas.Assembler
