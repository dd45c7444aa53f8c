import ImportAtlas.File.Path

/-!
# The order of paths

Paths are ordered by their components, so two spellings of the same components
are one key in a list by path. Facts of the order are taken from the order of
components, which is that of their ranks and, among names, of their texts.
-/

namespace ImportAtlas.Path

open Std

namespace Component

theorem compare_swap (a b : Component) : a.compare b = (b.compare a).swap := by
  cases a with
  | normal name =>
    cases b with
    | normal other => exact OrientedOrd.eq_swap (a := name) (b := other)
    | _ => rfl
  | _ => cases b <;> rfl

theorem isLE_trans {a b c : Component} (hab : (a.compare b).isLE = true)
    (hbc : (b.compare c).isLE = true) : (a.compare c).isLE = true := by
  cases a with
  | normal name =>
    cases b with
    | normal other =>
      cases c with
      | normal third => exact TransOrd.isLE_trans (a := name) (b := other) (c := third) hab hbc
      | _ => cases hbc
    | _ => cases hab
  | root => cases c <;> rfl
  | current =>
    cases c with
    | root =>
      cases b with
      | root => cases hab
      | _ => cases hbc
    | _ => rfl
  | parent =>
    cases c with
    | root | current =>
      cases b with
      | root | current => cases hab
      | _ => cases hbc
    | _ => rfl

instance : TransCmp Component.compare where
  eq_swap := compare_swap _ _
  isLE_trans := isLE_trans

instance : LawfulEqCmp Component.compare where
  eq_of_compare := by
    intro a b h
    cases a with
    | normal name =>
      cases b with
      | normal other =>
        have hname : Ord.compare name other = .eq := h
        rw [LawfulEqOrd.eq_of_compare hname]
      | _ => cases h
    | _ => cases b <;> simp_all [Component.compare, rank]

end Component

theorem compareComponents_eq (first second : List Component) :
    compareComponents first second = List.compareLex Component.compare first second := by
  induction first generalizing second with
  | nil => cases second <;> rfl
  | cons a first ih =>
    cases second with
    | nil => rfl
    | cons b second => rw [compareComponents, ih, List.compareLex_cons_cons]

theorem compare_eq_compareLex (a b : Path) :
    a.compare b = List.compareLex Component.compare a.components b.components :=
  compareComponents_eq _ _

instance : TransCmp Path.compare where
  eq_swap := by
    intro a b
    rw [compare_eq_compareLex, compare_eq_compareLex]
    exact OrientedCmp.eq_swap
  isLE_trans := by
    intro a b c hab hbc
    rw [compare_eq_compareLex] at hab hbc ⊢
    exact TransCmp.isLE_trans hab hbc

/-- Paths are equal in the order exactly if they have the same components. -/
theorem compare_eq_iff {a b : Path} : a.compare b = .eq ↔ a.components = b.components := by
  rw [compare_eq_compareLex]
  exact LawfulEqCmp.compare_eq_iff_eq

end ImportAtlas.Path
