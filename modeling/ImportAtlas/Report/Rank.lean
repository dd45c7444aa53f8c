import ImportAtlas.Index.Basic
import ImportAtlas.Text.Layout

/-!
# Ranking

The modules of an index by how often they are imported, most often first, and
by name where that is equal.
-/

namespace ImportAtlas

structure RankEntry where
  module : String
  count : Nat
  deriving DecidableEq, Repr

namespace RankEntry

/-- The order of the ranking. -/
def order (a b : RankEntry) : Ordering :=
  (compare b.count a.count).then (compare a.module b.module)

end RankEntry

/-- The modules of the index by rank. -/
def ImportIndex.rank (index : ImportIndex) : List RankEntry :=
  (index.names.map fun module => ⟨module, index.count module⟩).mergeSort
    fun a b => (a.order b).isLE

namespace Report

/-- The ranking as text. -/
def rank (entries : List RankEntry) (width : Nat) : String :=
  Layout.blocks
    (["\n\nRank Report", Layout.heading "Module Name: Import Count" '-' width]
      ++ entries.map fun entry => entry.module ++ ": " ++ toString entry.count)
    width

end Report

end ImportAtlas
