import ImportAtlas.Proofs.Index.Grouping
import ImportAtlas.Report.Rank
import Mathlib.Algebra.BigOperators.Group.List.Basic
import Mathlib.Data.List.Induction

/-!
# The ranking of an index

Each record adds one to the count of its module, whatever file it comes from, so
the count of a module is the number of records of that module. The entries of a
ranking differ in their names, so the order of the ranking is strict on them and
leaves only one way to list them.
-/

namespace ImportAtlas

open Std

/-! ## The order -/

namespace RankEntry

def Ahead (a b : RankEntry) : Prop :=
  b.count < a.count ∨ a.count = b.count ∧ compare a.module b.module = .lt

theorem order_eq_lt_iff {a b : RankEntry} : a.order b = .lt ↔ a.Ahead b := by
  rw [order, Ahead, Ordering.then_eq_lt, Nat.compare_eq_lt, Nat.compare_eq_eq,
    eq_comm (a := a.count)]

theorem module_eq_of_order {a b : RankEntry} (h : a.order b = .eq) : a.module = b.module := by
  rw [order, Ordering.then_eq_eq] at h
  exact LawfulEqCmp.eq_of_compare h.2

instance : TransCmp order :=
  have : TransCmp fun a b : RankEntry => compare b.count a.count :=
    @TransCmp.opposite _ (compareOn count) _
  inferInstanceAs (TransCmp (compareLex (fun a b : RankEntry => compare b.count a.count)
    (compareOn module)))

end RankEntry

namespace ImportIndex

/-! ## Counts -/

def storedCount (modules : ModuleFiles) (module : String) : Nat :=
  ((modules.get? module).map countIn).getD 0

def importsOf (module : String) (records : List Located) : Nat :=
  (records.filter fun entry => entry.2.topLevel = module).length

theorem storedCount_addRecord {ignore : List String} {record : ImportRecord}
    (h : record.topLevel ∉ ignore) (modules : ModuleFiles) (path : Path) (module : String) :
    storedCount (addRecord ignore path modules record) module
      = storedCount modules module + if record.topLevel = module then 1 else 0 := by
  rw [addRecord_of_notMem h, storedCount, Keyed.Map.get?_alter]
  by_cases hmodule : record.topLevel = module
  · subst hmodule
    rw [if_pos compare_self, if_pos rfl, Option.map_some, Option.getD_some, countIn_addOccurrence]
    unfold storedCount
    cases modules.get? record.topLevel <;> rfl
  · have hne : compare module record.topLevel ≠ .eq :=
      fun heq => hmodule (LawfulEqOrd.eq_of_compare heq).symm
    rw [if_neg hne, if_neg hmodule]
    rfl

theorem storedCount_foldl (ignore : List String) (records : List Located) (module : String) :
    storedCount
        (records.foldl (fun modules entry => addRecord ignore entry.1 modules entry.2) .empty)
        module
      = if module ∈ ignore then 0 else importsOf module records := by
  induction records using List.reverseRecOn with
  | nil => split <;> rfl
  | append_singleton front last ih =>
    have hsnoc : importsOf module (front ++ [last])
        = importsOf module front + if last.2.topLevel = module then 1 else 0 := by
      unfold importsOf
      by_cases hmodule : last.2.topLevel = module <;> simp [hmodule]
    rw [List.foldl_append, List.foldl_cons, List.foldl_nil]
    by_cases hignored : last.2.topLevel ∈ ignore
    · rw [addRecord_of_mem hignored, ih, hsnoc]
      by_cases hmodule : module ∈ ignore
      · rw [if_pos hmodule, if_pos hmodule]
      · have hne : last.2.topLevel ≠ module := fun heq => hmodule (heq ▸ hignored)
        rw [if_neg hne, Nat.add_zero]
    · rw [storedCount_addRecord hignored, ih, hsnoc]
      by_cases hmodule : module ∈ ignore
      · have hne : last.2.topLevel ≠ module := fun heq => hignored (heq ▸ hmodule)
        rw [if_pos hmodule, if_pos hmodule, if_neg hne]
      · rw [if_neg hmodule, if_neg hmodule]

section Outcomes

variable (ignore : List String) (outcomes : List (Path × Except Error ScanResult))

theorem count_ofOutcomes (module : String) :
    (ofOutcomes ignore outcomes).count module
      = if module ∈ ignore then 0 else importsOf module (located outcomes) := by
  show storedCount (ofOutcomes ignore outcomes).modules module = _
  rw [ofOutcomes_eq]
  exact storedCount_foldl ignore (located outcomes) module

theorem count_pos {module : String} (h : module ∈ (ofOutcomes ignore outcomes).names) :
    1 ≤ (ofOutcomes ignore outcomes).count module := by
  have hgroups := groups_ofOutcomes ignore outcomes
  obtain ⟨⟨name, files⟩, hentry, rfl⟩ := List.mem_map.1 h
  have hfiles := hgroups.files _ hentry
  have hget : (ofOutcomes ignore outcomes).files? name = some files :=
    Keyed.Map.get?_of_mem hentry
  obtain ⟨file, rest, hfile⟩ := List.exists_cons_of_ne_nil hfiles.ne_nil
  have hpos := List.length_pos_iff.2 (hfiles.occurs file (hfile ▸ List.mem_cons_self))
  rw [count, hget, Option.map_some, Option.getD_some, countIn_eq_sum, hfile, List.map_cons,
    List.sum_cons]
  omega

end Outcomes

/-! ## The ranking -/

theorem perm_rank (index : ImportIndex) :
    index.rank.Perm (index.names.map fun module => ⟨module, index.count module⟩) :=
  List.mergeSort_perm _ _

theorem perm_modules_rank (index : ImportIndex) :
    (index.rank.map (·.module)).Perm index.names := by
  have hperm := index.perm_rank.map RankEntry.module
  have hmodules : (index.names.map fun module => ⟨module, index.count module⟩).map RankEntry.module
      = index.names := by
    rw [List.map_map]
    exact List.map_id _
  rwa [hmodules] at hperm

theorem sum_counts_rank (index : ImportIndex) :
    (index.rank.map (·.count)).sum = (index.names.map index.count).sum := by
  have hsum := (index.perm_rank.map RankEntry.count).sum_eq
  rwa [List.map_map] at hsum

theorem mem_rank {index : ImportIndex} {entry : RankEntry} :
    entry ∈ index.rank ↔ entry.module ∈ index.names ∧ entry.count = index.count entry.module := by
  rw [index.perm_rank.mem_iff, List.mem_map]
  constructor
  · rintro ⟨module, hmodule, rfl⟩
    exact ⟨hmodule, rfl⟩
  · rintro ⟨hmodule, hcount⟩
    exact ⟨entry.module, hmodule, by rw [← hcount]⟩

theorem pairwise_rank (index : ImportIndex) :
    index.rank.Pairwise fun a b => a.order b = .lt := by
  apply Keyed.pairwise_lt_mergeSort
  rw [List.pairwise_map]
  apply index.modules.pairwise_keys.imp
  intro a b hlt heq
  have hself : a = b := RankEntry.module_eq_of_order heq
  rw [hself, compare_self] at hlt
  cases hlt

/-- The entries of the ranking, by the records alone. -/
theorem mem_rank_ofOutcomes {ignore : List String}
    {outcomes : List (Path × Except Error ScanResult)} {entry : RankEntry} :
    entry ∈ (ofOutcomes ignore outcomes).rank ↔
      entry.module ∈ (ofOutcomes ignore outcomes).names ∧
        entry.count = importsOf entry.module (located outcomes) := by
  rw [mem_rank]
  refine and_congr_right fun hmodule => ?_
  have hpos := count_pos ignore outcomes hmodule
  rw [count_ofOutcomes] at hpos ⊢
  by_cases hignored : entry.module ∈ ignore
  · rw [if_pos hignored] at hpos
    omega
  · rw [if_neg hignored]

/--
The ranking lists every module of the index once, with the number of its records,
which is not zero. It is in strict order, more imports first and smaller names
first among equals, and it is the only list in that order of these entries. The
counts add up to the number of records that are not ignored.
-/
theorem rank_ofOutcomes (ignore : List String)
    (outcomes : List (Path × Except Error ScanResult)) :
    let index := ofOutcomes ignore outcomes
    (index.rank.map (·.module)).Perm index.names ∧ (index.rank.map (·.module)).Nodup ∧
    (∀ entry ∈ index.rank,
      1 ≤ entry.count ∧ entry.count = importsOf entry.module (located outcomes)) ∧
    index.rank.Pairwise RankEntry.Ahead ∧
    (index.rank.map (·.count)).sum =
      ((located outcomes).filter fun entry => entry.2.topLevel ∉ ignore).length ∧
    ∀ ranking : List RankEntry, ranking.Pairwise RankEntry.Ahead →
      (∀ entry, entry ∈ ranking ↔
        entry.module ∈ index.names ∧ entry.count = importsOf entry.module (located outcomes)) →
      ranking = index.rank := by
  intro index
  have hgroups : Groups ignore (located outcomes) index.modules := groups_ofOutcomes ignore outcomes
  refine ⟨index.perm_modules_rank, ?_, ?_, ?_, ?_, ?_⟩
  · have hnames : index.names.Nodup := Keyed.nodup_of_pairwise_lt index.modules.pairwise_keys
    exact index.perm_modules_rank.nodup_iff.2 hnames
  · intro entry hentry
    have hpos := count_pos ignore outcomes (mem_rank.1 hentry).1
    rw [← (mem_rank.1 hentry).2] at hpos
    exact ⟨hpos, (mem_rank_ofOutcomes.1 hentry).2⟩
  · exact (pairwise_rank index).imp RankEntry.order_eq_lt_iff.1
  · rw [sum_counts_rank, map_count_names]
    exact hgroups.total
  · intro ranking hahead hmem
    have hordered : ranking.Pairwise fun a b => a.order b = .lt :=
      hahead.imp RankEntry.order_eq_lt_iff.2
    apply Keyed.eq_of_pairwise_lt hordered (pairwise_rank index)
    intro entry
    rw [hmem, mem_rank_ofOutcomes]

end ImportIndex

end ImportAtlas
