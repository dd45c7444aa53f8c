import ImportAtlas.Proofs.Index.Grouping
import ImportAtlas.Report.Imports
import Mathlib.Data.List.Induction

/-!
# Requirements against imports

The comparison of required and imported names puts every name where it belongs,
once and in order: in the order of declaration if it is required and imported,
else in the order of names. The report of imports leaves the imported names out
before it sorts, the comparison afterwards; both come to the same list.
-/

namespace ImportAtlas

open Std

/-! ## Names once each, in order of declaration -/

theorem distinctNames_concat (names : List String) (name : String) :
    distinctNames (names ++ [name]) =
      if name ∈ distinctNames names then distinctNames names
      else distinctNames names ++ [name] := by
  unfold distinctNames
  rw [List.foldl_append, List.foldl_cons, List.foldl_nil]
  generalize names.foldl _ _ = seen
  by_cases h : name ∈ seen <;> simp [h]

theorem mem_distinctNames {names : List String} {name : String} :
    name ∈ distinctNames names ↔ name ∈ names := by
  induction names using List.reverseRecOn with
  | nil => rfl
  | append_singleton front last ih =>
    rw [distinctNames_concat, List.mem_append, List.mem_singleton, ← ih]
    split
    · constructor
      · exact .inl
      · rintro (h | rfl)
        · exact h
        · assumption
    · rw [List.mem_append, List.mem_singleton]

theorem filter_distinctNames (keep : String → Bool) (names : List String) :
    (distinctNames names).filter keep = distinctNames (names.filter keep) := by
  induction names using List.reverseRecOn with
  | nil => rfl
  | append_singleton front last ih =>
    rw [distinctNames_concat, List.filter_append]
    by_cases hkeep : keep last = true
    · rw [List.filter_cons_of_pos hkeep, List.filter_nil, distinctNames_concat]
      have hiff : last ∈ distinctNames (front.filter keep) ↔ last ∈ distinctNames front := by
        rw [mem_distinctNames, mem_distinctNames, List.mem_filter, and_iff_left hkeep]
      simp only [hiff]
      split
      · exact ih
      · rw [List.filter_append, ih, List.filter_cons_of_pos hkeep, List.filter_nil]
    · rw [List.filter_cons_of_neg hkeep, List.filter_nil, List.append_nil, ← ih]
      split
      · rfl
      · rw [List.filter_append, List.filter_cons_of_neg hkeep, List.filter_nil, List.append_nil]

theorem pairwise_distinctNames (names : List String) :
    (distinctNames names).Pairwise fun a b => names.idxOf a < names.idxOf b := by
  induction names using List.reverseRecOn with
  | nil => exact .nil
  | append_singleton front last ih =>
    have hold : ∀ name ∈ distinctNames front, (front ++ [last]).idxOf name = front.idxOf name := by
      intro name hname
      rw [List.idxOf_append, if_pos (mem_distinctNames.1 hname)]
    have hfront : (distinctNames front).Pairwise
        fun a b => (front ++ [last]).idxOf a < (front ++ [last]).idxOf b := by
      apply ih.imp_of_mem
      intro a b ha hb hlt
      rwa [hold a ha, hold b hb]
    rw [distinctNames_concat]
    split
    · exact hfront
    · rename_i hnew
      rw [List.pairwise_append]
      refine ⟨hfront, List.pairwise_singleton _ _, ?_⟩
      intro name hname other hother
      rw [List.mem_singleton.1 hother, hold name hname, List.idxOf_append,
        if_neg fun hmem => hnew (mem_distinctNames.2 hmem)]
      have hlt := List.idxOf_lt_length_of_mem (mem_distinctNames.1 hname)
      omega

/-! ## Names once each, in order of names -/

theorem pairwise_sortedNames (names : List String) :
    (sortedNames names).Pairwise fun a b => compare a b = .lt :=
  Keyed.Map.pairwise_keys _

theorem mem_sortedNames {names : List String} {name : String} :
    name ∈ sortedNames names ↔ name ∈ names := by
  unfold sortedNames
  induction names using List.reverseRecOn with
  | nil => rfl
  | append_singleton front last ih =>
    rw [List.foldl_append, List.foldl_cons, List.foldl_nil, Keyed.Map.mem_keys_iff,
      Keyed.Map.get?_alter, List.mem_append, List.mem_singleton, ← ih, Keyed.Map.mem_keys_iff]
    have heq : compare name last = .eq ↔ name = last := LawfulEqCmp.compare_eq_iff_eq
    by_cases hname : name = last <;> simp [heq, hname]

theorem filter_sortedNames (keep : String → Bool) (names : List String) :
    (sortedNames names).filter keep = sortedNames (names.filter keep) := by
  apply Keyed.eq_of_pairwise_lt ((pairwise_sortedNames names).filter _) (pairwise_sortedNames _)
  intro name
  rw [List.mem_filter, mem_sortedNames, mem_sortedNames, List.mem_filter]

/-! ## The comparison -/

/-- Every name in its place, and every list in its order. -/
structure Dependencies.Partition (index : ImportIndex) (required : List String)
    (report : Dependencies) : Prop where
  imported : ∀ name, name ∈ report.requiredImported ↔ name ∈ required ∧ name ∈ index.names
  imported_once : report.requiredImported.Nodup
  declared : report.requiredImported.Pairwise fun a b => required.idxOf a < required.idxOf b
  missing : ∀ name, name ∈ report.requiredMissing ↔ name ∈ required ∧ name ∉ index.names
  missing_sorted : report.requiredMissing.Pairwise fun a b => compare a b = .lt
  extra : ∀ name, name ∈ report.importedExtra ↔
    name ∈ index.names ∧ name.toList.head? ≠ some '.' ∧ name ∉ required
  extra_sorted : report.importedExtra.Pairwise fun a b => compare a b = .lt

namespace ImportIndex

theorem contains_iff (index : ImportIndex) (name : String) :
    index.contains name = true ↔ name ∈ index.names :=
  Keyed.Map.mem_keys_iff.symm

theorem requiredMissing_eq (index : ImportIndex) (required : List String) :
    (index.dependencies required).requiredMissing = index.missing required :=
  filter_sortedNames _ required

theorem partition_dependencies (index : ImportIndex) (required : List String) :
    (index.dependencies required).Partition index required := by
  have hdeclared : (index.dependencies required).requiredImported.Pairwise
      fun a b => required.idxOf a < required.idxOf b := by
    show (distinctNames (required.filter index.contains)).Pairwise _
    rw [← filter_distinctNames]
    exact (pairwise_distinctNames required).filter _
  refine ⟨?_, ?_, hdeclared, ?_, ?_, ?_, ?_⟩
  · intro name
    show name ∈ distinctNames _ ↔ _
    rw [mem_distinctNames, List.mem_filter, contains_iff]
  · apply hdeclared.imp
    rintro a b hlt rfl
    exact Nat.lt_irrefl _ hlt
  · intro name
    show name ∈ (sortedNames required).filter _ ↔ _
    rw [List.mem_filter, mem_sortedNames, ← contains_iff]
    simp
  · exact (pairwise_sortedNames required).filter _
  · intro name
    show name ∈ index.names.filter _ ↔ _
    simp [List.mem_filter]
  · exact index.modules.pairwise_keys.filter _

/-- The section of missing names, written out: nothing, or a heading between rules and below it the
names between quotes, with commas between them. -/
theorem missingSection_eq (width : Nat) (names : List String) :
    Report.missingSection width names =
      if names = [] then [] else
        let rule := String.ofList (List.replicate width '-')
        [rule ++ "\n" ++ "Following packages are required but never imported:" ++ "\n" ++ rule,
          ", ".intercalate (names.map fun name => "'" ++ name ++ "'")] := by
  cases names with
  | nil => rfl
  | cons name rest => rfl

/--
Every required name is listed once, among the imported ones in the order of their
declaration or among the missing ones in the order of names; every other imported
name is listed as extra, unless it is relative. The report of imports ends with
the same missing names, each between quotes and in the same order, under their
heading, or with the last module if there are none.
-/
theorem dependencies_partition (index : ImportIndex) (required : List String) :
    let report := index.dependencies required
    report.Partition index required ∧
    (∀ name ∈ required, (name ∈ report.requiredImported ∧ name ∉ report.requiredMissing) ∨
      (name ∈ report.requiredMissing ∧ name ∉ report.requiredImported)) ∧
    report.requiredImported.Disjoint report.requiredMissing ∧
    report.requiredImported.Disjoint report.importedExtra ∧
    report.requiredMissing.Disjoint report.importedExtra ∧
    report.requiredMissing = index.missing required ∧
    ∀ width, Report.imports index required width =
      let rule := String.ofList (List.replicate width '-')
      let sections := ["\n\nImport Report"]
        ++ index.names.flatMap (Report.moduleSection index required width)
      let missing := if report.requiredMissing = [] then [] else
        [rule ++ "\n" ++ "Following packages are required but never imported:" ++ "\n" ++ rule,
          ", ".intercalate (report.requiredMissing.map fun name => "'" ++ name ++ "'")]
      "\n".intercalate ((sections ++ missing).map (Layout.wrap · width)) := by
  intro report
  have hpartition : report.Partition index required := partition_dependencies index required
  have hmissing : report.requiredMissing = index.missing required :=
    requiredMissing_eq index required
  refine ⟨hpartition, ?_, ?_, ?_, ?_, hmissing, ?_⟩
  · intro name hname
    rw [hpartition.imported, hpartition.missing]
    by_cases hindex : name ∈ index.names <;> simp [hname, hindex]
  · intro name himported hlost
    exact ((hpartition.missing name).1 hlost).2 ((hpartition.imported name).1 himported).2
  · intro name himported hextra
    exact ((hpartition.extra name).1 hextra).2.2 ((hpartition.imported name).1 himported).1
  · intro name hlost hextra
    exact ((hpartition.extra name).1 hextra).2.2 ((hpartition.missing name).1 hlost).1
  · intro width
    rw [Report.imports, ← hmissing, missingSection_eq, Layout.blocks]

/-- Two modules that are required, one that is not, and a relative import. -/
def comparedIndex : ImportIndex :=
  ofOutcomes [] [(⟨"a.py"⟩, .ok {
    records := [⟨1, none, "requests", none, .implicit⟩, ⟨2, none, "os", none, .implicit⟩,
      ⟨3, none, "six.moves", none, .absolute⟩, ⟨4, none, ".b", some ["c"], .relative 1⟩] })]

theorem dependencies_partition_comparedIndex :
    let required := ["six", "requests", "attrs", "six", ".z"]
    let report := comparedIndex.dependencies required
    comparedIndex.names = [".b", "os", "requests", "six"] ∧
    report = ⟨["six", "requests"], [".z", "attrs"], ["os"]⟩ ∧
    report.Partition comparedIndex required ∧
    report.requiredMissing = comparedIndex.missing required ∧
    Report.imports comparedIndex required 8 = "\n".intercalate
      ((["\n\nImport Report"]
        ++ comparedIndex.names.flatMap (Report.moduleSection comparedIndex required 8)
        ++ ["--------\nFollowing packages are required but never imported:\n--------",
          "'.z', 'attrs'"]).map (Layout.wrap · 8)) := by
  intro required report
  have hreport : report = ⟨["six", "requests"], [".z", "attrs"], ["os"]⟩ := by decide +kernel
  have hsection : Report.missingSection 8 report.requiredMissing =
      ["--------\nFollowing packages are required but never imported:\n--------",
        "'.z', 'attrs'"] := by
    rw [hreport]
    decide +kernel
  obtain ⟨hpartition, -, -, -, -, hmissing, himports⟩ :=
    dependencies_partition comparedIndex required
  refine ⟨by decide +kernel, hreport, hpartition, hmissing, ?_⟩
  rw [himports 8, ← hsection, missingSection_eq]

end ImportIndex

end ImportAtlas
