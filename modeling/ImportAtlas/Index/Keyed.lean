/-!
# Maps by key

Maps as lists of entries in strictly increasing order of their keys, under an
order given as a comparison. Keys that compare as equal are one key, and the one
that came first is kept.
-/

namespace ImportAtlas.Keyed

open Std

variable {α β : Type}

/-- The value under a key. -/
def get? (order : α → α → Ordering) (key : α) : List (α × β) → Option β
  | [] => none
  | (other, value) :: rest =>
    if order key other = .eq then some value else get? order key rest

/-- Changes the value under a key, which is added if it is missing. -/
def alter (order : α → α → Ordering) (key : α) (change : Option β → β) :
    List (α × β) → List (α × β)
  | [] => [(key, change none)]
  | (other, value) :: rest =>
    match order key other with
    | .lt => (key, change none) :: (other, value) :: rest
    | .eq => (other, change (some value)) :: rest
    | .gt => (other, value) :: alter order key change rest

/-- Keys strictly increase. -/
def Sorted (order : α → α → Ordering) (entries : List (α × β)) : Prop :=
  entries.Pairwise fun a b => order a.1 b.1 = .lt

variable {order : α → α → Ordering}

theorem mem_alter {key : α} {change : Option β → β} {entries : List (α × β)} {entry : α × β}
    (h : entry ∈ alter order key change entries) :
    entry ∈ entries ∨ (entry.1 = key ∧ entry.2 = change none) ∨
      ∃ old, (entry.1, old) ∈ entries ∧ entry.2 = change (some old) := by
  induction entries with
  | nil =>
    cases List.mem_singleton.1 h
    exact .inr (.inl ⟨rfl, rfl⟩)
  | cons first rest ih =>
    obtain ⟨other, value⟩ := first
    rw [alter] at h
    split at h
    · rcases List.mem_cons.1 h with rfl | hmem
      · exact .inr (.inl ⟨rfl, rfl⟩)
      · exact .inl hmem
    · rcases List.mem_cons.1 h with rfl | hmem
      · exact .inr (.inr ⟨value, List.mem_cons_self, rfl⟩)
      · exact .inl (List.mem_cons_of_mem _ hmem)
    · rcases List.mem_cons.1 h with rfl | hmem
      · exact .inl List.mem_cons_self
      · rcases ih hmem with hold | hnew | ⟨old, hold, hvalue⟩
        · exact .inl (List.mem_cons_of_mem _ hold)
        · exact .inr (.inl hnew)
        · exact .inr (.inr ⟨old, List.mem_cons_of_mem _ hold, hvalue⟩)

theorem sorted_alter [TransCmp order] {key : α} {change : Option β → β} {entries : List (α × β)}
    (hsorted : Sorted order entries) : Sorted order (alter order key change entries) := by
  induction entries with
  | nil => exact List.pairwise_singleton _ _
  | cons first rest ih =>
    obtain ⟨hfirst, hrest⟩ := List.pairwise_cons.1 hsorted
    obtain ⟨other, value⟩ := first
    rw [alter]
    split
    · -- The new key is below the first one, which is below all others.
      rename_i hlt
      apply List.pairwise_cons.2 ⟨?_, hsorted⟩
      intro entry hmem
      rcases List.mem_cons.1 hmem with rfl | hlater
      · exact hlt
      · exact TransCmp.lt_trans hlt (hfirst entry hlater)
    · exact List.pairwise_cons.2 ⟨hfirst, hrest⟩
    · rename_i hgt
      apply List.pairwise_cons.2 ⟨?_, ih hrest⟩
      intro entry hmem
      rcases mem_alter hmem with hbefore | ⟨hkey, -⟩ | ⟨old, hbefore, -⟩
      · exact hfirst entry hbefore
      · rw [hkey]
        exact OrientedCmp.lt_of_gt hgt
      · exact hfirst (entry.1, old) hbefore

/-! ## Maps -/

/-- Entries in strictly increasing order of their keys. -/
@[ext]
structure Map (order : α → α → Ordering) (β : Type) where
  entries : List (α × β)
  sorted : Sorted order entries
  deriving DecidableEq, Repr

namespace Map

def empty : Map order β := ⟨[], .nil⟩

def keys (map : Map order β) : List α :=
  map.entries.map (·.1)

/-- The value under a key. -/
def get? (map : Map order β) (key : α) : Option β :=
  Keyed.get? order key map.entries

/-- Changes the value under a key, which is added if it is missing. -/
def alter [TransCmp order] (map : Map order β) (key : α) (change : Option β → β) : Map order β :=
  ⟨Keyed.alter order key change map.entries, sorted_alter map.sorted⟩

end Map

end ImportAtlas.Keyed
