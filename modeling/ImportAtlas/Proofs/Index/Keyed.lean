import ImportAtlas.Index.Keyed
import Mathlib.Algebra.GroupWithZero.Nat

/-!
# Maps by key as finite maps

What a change under one key does to a map: the value under every key, and sums
over the values. The facts are about lists of entries first, and then about maps,
which hold the order that the lists have to be in. A list in strict order, whether
it is kept so or sorted, is determined by its members.
-/

namespace ImportAtlas.Keyed

open Std

variable {α β : Type} {order : α → α → Ordering}

theorem get?_of_lt {key : α} {entries : List (α × β)}
    (h : ∀ entry ∈ entries, order key entry.1 = .lt) : get? order key entries = none := by
  induction entries with
  | nil => rfl
  | cons entry rest ih =>
    have hne : order key entry.1 ≠ .eq := by
      rw [h entry List.mem_cons_self]
      decide
    rw [get?, if_neg hne]
    exact ih fun later hmem => h later (List.mem_cons_of_mem _ hmem)

theorem alter_ne_nil (key : α) (change : Option β → β) (entries : List (α × β)) :
    alter order key change entries ≠ [] := by
  fun_cases alter order key change entries <;> exact List.cons_ne_nil _ _

/-- What holds of all values before the change and is made by it holds of all values after it. -/
theorem forall_alter {P : β → Prop} {key : α} {change : Option β → β} {entries : List (α × β)}
    (h : ∀ entry ∈ entries, P entry.2) (hnew : P (change none))
    (hold : ∀ value, P value → P (change (some value))) :
    ∀ entry ∈ alter order key change entries, P entry.2 := by
  intro entry hmem
  rcases mem_alter hmem with hbefore | ⟨-, hvalue⟩ | ⟨old, hbefore, hvalue⟩
  · exact h entry hbefore
  · rw [hvalue]
    exact hnew
  · rw [hvalue]
    exact hold old (h _ hbefore)

theorem sum_alter {weight : β → Nat} {amount : Nat} {change : Option β → β}
    (h : ∀ old, weight (change old) = (old.map weight).getD 0 + amount)
    (key : α) (entries : List (α × β)) :
    ((alter order key change entries).map fun entry => weight entry.2).sum =
      (entries.map fun entry => weight entry.2).sum + amount := by
  induction entries with
  | nil => simp [alter, h]
  | cons entry rest ih =>
    obtain ⟨other, value⟩ := entry
    rw [alter]
    split
    · simp only [List.map_cons, List.sum_cons, h, Option.map_none, Option.getD_none]
      omega
    · simp only [List.map_cons, List.sum_cons, h, Option.map_some, Option.getD_some]
      omega
    · simp only [List.map_cons, List.sum_cons, ih]
      omega

theorem isSome_get?_iff [LawfulEqCmp order] {key : α} {entries : List (α × β)} :
    (get? order key entries).isSome = true ↔ key ∈ entries.map (·.1) := by
  induction entries with
  | nil => simp [get?]
  | cons entry rest ih =>
    have heq : order key entry.1 = .eq ↔ key = entry.1 := LawfulEqCmp.compare_eq_iff_eq
    rw [get?, List.map_cons, List.mem_cons, ← ih]
    by_cases hkey : key = entry.1 <;> simp [heq, hkey]

section Lawful

variable [TransCmp order]

/-! ## Lists in strict order -/

theorem pairwise_lt_mergeSort {items : List α} (h : items.Pairwise fun a b => order a b ≠ .eq) :
    (items.mergeSort fun a b => (order a b).isLE).Pairwise fun a b => order a b = .lt := by
  have hsorted : (items.mergeSort fun a b => (order a b).isLE).Pairwise
      fun a b => (order a b).isLE = true := by
    apply List.pairwise_mergeSort
    · intro a b c
      exact TransCmp.isLE_trans
    · intro a b
      have hswap : order a b = (order b a).swap := OrientedCmp.eq_swap
      rw [hswap]
      cases order b a <;> rfl
  have hdistinct : (items.mergeSort fun a b => (order a b).isLE).Pairwise
      fun a b => order a b ≠ .eq := by
    refine h.perm (List.mergeSort_perm items _).symm ?_
    intro a b hne heq
    exact hne (OrientedCmp.eq_comm.1 heq)
  refine (hsorted.and hdistinct).imp ?_
  rintro a b ⟨hle, hne⟩
  cases hcompare : order a b with
  | lt => rfl
  | eq => exact absurd hcompare hne
  | gt =>
    rw [hcompare] at hle
    cases hle

theorem nodup_of_pairwise_lt {items : List α} (h : items.Pairwise fun a b => order a b = .lt) :
    items.Nodup := by
  apply h.imp
  rintro a b hlt rfl
  have hself : order a a = .eq := ReflCmp.compare_self
  rw [hself] at hlt
  cases hlt

theorem eq_of_pairwise_lt {first second : List α}
    (hfirst : first.Pairwise fun a b => order a b = .lt)
    (hsecond : second.Pairwise fun a b => order a b = .lt)
    (hmem : ∀ item, item ∈ first ↔ item ∈ second) : first = second := by
  have hperm : first.Perm second := (List.perm_ext_iff_of_nodup (nodup_of_pairwise_lt hfirst)
    (nodup_of_pairwise_lt hsecond)).2 hmem
  apply List.Perm.eq_of_pairwise _ hfirst hsecond hperm
  intro a b _ _ hlt hgt
  rw [OrientedCmp.gt_of_lt hlt] at hgt
  cases hgt

/-! ## Entries under their keys -/

theorem get?_of_mem {entries : List (α × β)} (hsorted : Sorted order entries) {entry : α × β}
    (hmem : entry ∈ entries) : get? order entry.1 entries = some entry.2 := by
  induction entries with
  | nil => cases hmem
  | cons first rest ih =>
    obtain ⟨hfirst, hrest⟩ := List.pairwise_cons.1 hsorted
    rcases List.mem_cons.1 hmem with rfl | hlater
    · rw [get?, if_pos ReflCmp.compare_self]
    · have hne : order entry.1 first.1 ≠ .eq := by
        rw [OrientedCmp.gt_of_lt (hfirst entry hlater)]
        decide
      rw [get?, if_neg hne]
      exact ih hrest hlater

theorem get?_congr {a b : α} (h : order a b = .eq) (entries : List (α × β)) :
    get? order a entries = get? order b entries := by
  induction entries with
  | nil => rfl
  | cons entry rest ih => rw [get?, get?, ih, TransCmp.congr_left h]

/-- After a change, the changed value is under its key and every other key is as before. -/
theorem get?_alter {key : α} {change : Option β → β} {entries : List (α × β)}
    (hsorted : Sorted order entries) (asked : α) :
    get? order asked (alter order key change entries) =
      if order asked key = .eq then some (change (get? order key entries))
      else get? order asked entries := by
  induction entries with
  | nil => rfl
  | cons first rest ih =>
    obtain ⟨hfirst, hrest⟩ := List.pairwise_cons.1 hsorted
    obtain ⟨other, value⟩ := first
    rw [alter]
    split
    · rename_i hlt
      have habsent : get? order key ((other, value) :: rest) = none := by
        apply get?_of_lt
        intro entry hmem
        rcases List.mem_cons.1 hmem with rfl | hlater
        · exact hlt
        · exact TransCmp.lt_trans hlt (hfirst entry hlater)
      rw [habsent, get?]
    · rename_i heq
      rw [get?, get?, get?, if_pos heq, TransCmp.congr_right (a := asked) heq]
      split
      · rfl
      · rfl
    · rename_i hgt
      have hne : order key other ≠ .eq := by
        rw [hgt]
        decide
      rw [get?, ih hrest, get?, get?, if_neg hne]
      by_cases hother : order asked other = .eq
      · -- A key equal to the first one lies below the changed key.
        have hasked : order asked key ≠ .eq := by
          rw [TransCmp.congr_left hother, OrientedCmp.lt_of_gt hgt]
          decide
        rw [if_pos hother, if_neg hasked, if_pos hother]
      · rw [if_neg hother, if_neg hother]

/-! ## Changes one after another -/

theorem alter_alter_self (key : α) (first second : Option β → β) (entries : List (α × β)) :
    alter order key second (alter order key first entries) =
      alter order key (fun old => second (some (first old))) entries := by
  have hself : order key key = .eq := ReflCmp.compare_self
  induction entries with
  | nil => simp [alter, hself]
  | cons entry rest ih =>
    obtain ⟨other, value⟩ := entry
    cases hother : order key other with
    | lt => simp [alter, hother, hself]
    | eq => simp [alter, hother]
    | gt => simp [alter, hother, ih]

theorem alter_comm_of_lt {a b : α} (hlt : order a b = .lt) (first second : Option β → β)
    (entries : List (α × β)) :
    alter order a first (alter order b second entries) =
      alter order b second (alter order a first entries) := by
  have hgt : order b a = .gt := OrientedCmp.gt_of_lt hlt
  induction entries with
  | nil => simp [alter, hlt, hgt]
  | cons entry rest ih =>
    obtain ⟨other, value⟩ := entry
    cases hb : order b other with
    | lt =>
      have ha : order a other = .lt := TransCmp.lt_trans hlt hb
      simp [alter, ha, hb, hlt, hgt]
    | eq =>
      have ha : order a other = .lt := by rw [← TransCmp.congr_right hb, hlt]
      simp [alter, ha, hb, hgt]
    | gt =>
      cases ha : order a other with
      | lt => simp [alter, ha, hb, hgt]
      | eq => simp [alter, ha, hb]
      | gt => simp [alter, ha, hb, ih]

theorem alter_comm {a b : α} (hne : order a b ≠ .eq) (first second : Option β → β)
    (entries : List (α × β)) :
    alter order a first (alter order b second entries) =
      alter order b second (alter order a first entries) := by
  cases hab : order a b with
  | lt => exact alter_comm_of_lt hab first second entries
  | eq => exact absurd hab hne
  | gt => exact (alter_comm_of_lt (OrientedCmp.lt_of_gt hab) second first entries).symm

end Lawful

/-! ## Maps -/

namespace Map

theorem pairwise_keys (map : Map order β) : map.keys.Pairwise fun a b => order a b = .lt :=
  List.pairwise_map.2 map.sorted

theorem mem_keys_iff [LawfulEqCmp order] {map : Map order β} {key : α} :
    key ∈ map.keys ↔ (map.get? key).isSome = true :=
  isSome_get?_iff.symm

variable [TransCmp order]

theorem get?_of_mem {map : Map order β} {entry : α × β} (hmem : entry ∈ map.entries) :
    map.get? entry.1 = some entry.2 :=
  Keyed.get?_of_mem map.sorted hmem

theorem get?_alter (map : Map order β) (key : α) (change : Option β → β) (asked : α) :
    (map.alter key change).get? asked =
      if order asked key = .eq then some (change (map.get? key)) else map.get? asked :=
  Keyed.get?_alter map.sorted asked

theorem alter_alter_self (map : Map order β) (key : α) (first second : Option β → β) :
    (map.alter key first).alter key second =
      map.alter key fun old => second (some (first old)) :=
  Map.ext (Keyed.alter_alter_self key first second map.entries)

theorem alter_comm {a b : α} (hne : order a b ≠ .eq) (map : Map order β)
    (first second : Option β → β) :
    (map.alter b second).alter a first = (map.alter a first).alter b second :=
  Map.ext (Keyed.alter_comm hne first second map.entries)

end Map

end ImportAtlas.Keyed
