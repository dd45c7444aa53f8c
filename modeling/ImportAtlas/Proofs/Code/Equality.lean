import ImportAtlas.Code.Unit

/-!
# When numerical equality is equality

Numerical equality compares floating-point values as numbers, so it takes two
zeros for one and no value that is not a number for itself. Without
floating-point values there is nothing left that it could confuse: it finds such
a constant equal to itself, and to no other.
-/

namespace ImportAtlas

mutual

def Constant.FloatFree : Constant → Prop
  | .float _ | .complex _ _ => False
  | .tuple items | .list items | .set items | .frozenset items => Constant.FloatFreeItems items
  | .dict entries => Constant.FloatFreeEntries entries
  | .code unit => CodeUnit.FloatFree unit
  | _ => True

def Constant.FloatFreeItems : List Constant → Prop
  | [] => True
  | item :: items => Constant.FloatFree item ∧ Constant.FloatFreeItems items

def Constant.FloatFreeEntries : List (Constant × Constant) → Prop
  | [] => True
  | (key, value) :: entries =>
    Constant.FloatFree key ∧ Constant.FloatFree value ∧ Constant.FloatFreeEntries entries

def CodeUnit.FloatFree : CodeUnit → Prop
  | ⟨_, _, _, _, _, _, consts, _, _, _, _, _, _, _, _⟩ => Constant.FloatFreeItems consts

end

theorem Constant.floatFreeItems_iff {items : List Constant} :
    FloatFreeItems items ↔ ∀ item ∈ items, item.FloatFree := by
  induction items with
  | nil => simp [FloatFreeItems]
  | cons item items ih => simp [FloatFreeItems, ih]

theorem CodeUnit.floatFree_iff (unit : CodeUnit) :
    unit.FloatFree ↔ ∀ item ∈ unit.consts, item.FloatFree := by
  cases unit
  exact Constant.floatFreeItems_iff

theorem Constant.kind_eq_of_numEq {a b : Constant} (h : a.numEq b = true) : a.kind = b.kind := by
  rw [numEq.eq_def] at h
  split at h <;> first | rfl | cases h

mutual

theorem Constant.eq_of_numEq : ∀ {a b : Constant}, b.FloatFree → a.numEq b = true → a = b
  | .none, b, _, h | .ellipsis, b, _, h | .stopIteration, b, _, h => by
    have hkind := Constant.kind_eq_of_numEq h
    cases b <;> first | rfl | cases hkind
  | .bool value, b, _, h => by
    cases b with
    | bool other => rw [eq_of_beq h]
    | _ => cases Constant.kind_eq_of_numEq h
  | .int value, b, _, h => by
    cases b with
    | int other => rw [eq_of_beq h]
    | _ => cases Constant.kind_eq_of_numEq h
  | .long negative digits, b, _, h => by
    cases b with
    | long otherNegative otherDigits =>
      have h := Bool.and_eq_true_iff.mp h
      rw [eq_of_beq h.1, eq_of_beq h.2]
    | _ => cases Constant.kind_eq_of_numEq h
  | .float value, b, hb, h | .complex _ _, b, hb, h => by
    cases b with
    | float | complex => exact hb.elim
    | _ => cases Constant.kind_eq_of_numEq h
  | .str text, b, _, h => by
    cases b with
    | str other => rw [eq_of_beq h]
    | _ => cases Constant.kind_eq_of_numEq h
  | .unicode text, b, _, h => by
    cases b with
    | unicode other => rw [eq_of_beq h]
    | _ => cases Constant.kind_eq_of_numEq h
  | .tuple items, b, hb, h => by
    cases b with
    | tuple others => rw [Constant.eq_of_numEqItems hb h]
    | _ => cases Constant.kind_eq_of_numEq h
  | .list items, b, hb, h => by
    cases b with
    | list others => rw [Constant.eq_of_numEqItems hb h]
    | _ => cases Constant.kind_eq_of_numEq h
  | .set items, b, hb, h => by
    cases b with
    | set others => rw [Constant.eq_of_numEqItems hb h]
    | _ => cases Constant.kind_eq_of_numEq h
  | .frozenset items, b, hb, h => by
    cases b with
    | frozenset others => rw [Constant.eq_of_numEqItems hb h]
    | _ => cases Constant.kind_eq_of_numEq h
  | .dict entries, b, hb, h => by
    cases b with
    | dict others => rw [Constant.eq_of_numEqEntries hb h]
    | _ => cases Constant.kind_eq_of_numEq h
  | .code unit, b, hb, h => by
    cases b with
    | code other => rw [CodeUnit.eq_of_numEq hb h]
    | _ => cases Constant.kind_eq_of_numEq h

theorem Constant.eq_of_numEqItems : ∀ {items others : List Constant},
    Constant.FloatFreeItems others → Constant.numEqItems items others = true → items = others
  | [], [], _, _ => rfl
  | item :: items, other :: others, hothers, h => by
    have h := Bool.and_eq_true_iff.mp h
    rw [Constant.eq_of_numEq hothers.1 h.1, Constant.eq_of_numEqItems hothers.2 h.2]

theorem Constant.eq_of_numEqEntries : ∀ {entries others : List (Constant × Constant)},
    Constant.FloatFreeEntries others → Constant.numEqEntries entries others = true →
    entries = others
  | [], [], _, _ => rfl
  | (key, value) :: entries, (otherKey, otherValue) :: others, hothers, h => by
    have h := Bool.and_eq_true_iff.mp h
    have hpair := Bool.and_eq_true_iff.mp h.1
    rw [Constant.eq_of_numEq hothers.1 hpair.1, Constant.eq_of_numEq hothers.2.1 hpair.2,
      Constant.eq_of_numEqEntries hothers.2.2 h.2]

theorem CodeUnit.eq_of_numEq : ∀ {a b : CodeUnit}, b.FloatFree → a.numEq b = true → a = b
  | ⟨marker, argcount, nlocals, stacksize, flags, code, consts, names, varnames, freevars,
      cellvars, filename, name, firstLine, lnotab⟩, b, hb, h => by
    cases b with
    | mk _ _ _ _ _ _ others =>
      simp only [CodeUnit.numEq, Bool.and_eq_true, beq_iff_eq] at h
      have hconsts : consts = others := Constant.eq_of_numEqItems hb h.1.1.1.1.1.1.1.1.2
      simp only [CodeUnit.mk.injEq]
      grind

end

mutual

theorem Constant.numEq_self : ∀ {constant : Constant}, constant.FloatFree →
    constant.numEq constant = true
  | .none, _ | .ellipsis, _ | .stopIteration, _ => rfl
  | .bool value, _ => beq_self_eq_true value
  | .int value, _ => beq_self_eq_true value
  | .str text, _ | .unicode text, _ => beq_self_eq_true text
  | .long negative digits, _ =>
    Bool.and_eq_true_iff.mpr ⟨beq_self_eq_true negative, beq_self_eq_true digits⟩
  | .float _, h | .complex _ _, h => h.elim
  | .tuple _, h | .list _, h | .set _, h | .frozenset _, h => Constant.numEqItems_self h
  | .dict _, h => Constant.numEqEntries_self h
  | .code _, h => CodeUnit.numEq_self h

theorem Constant.numEqItems_self : ∀ {items : List Constant}, Constant.FloatFreeItems items →
    Constant.numEqItems items items = true
  | [], _ => rfl
  | _ :: _, h =>
    Bool.and_eq_true_iff.mpr ⟨Constant.numEq_self h.1, Constant.numEqItems_self h.2⟩

theorem Constant.numEqEntries_self : ∀ {entries : List (Constant × Constant)},
    Constant.FloatFreeEntries entries → Constant.numEqEntries entries entries = true
  | [], _ => rfl
  | (_, _) :: _, h =>
    Bool.and_eq_true_iff.mpr
      ⟨Bool.and_eq_true_iff.mpr ⟨Constant.numEq_self h.1, Constant.numEq_self h.2.1⟩,
        Constant.numEqEntries_self h.2.2⟩

theorem CodeUnit.numEq_self : ∀ {unit : CodeUnit}, unit.FloatFree → unit.numEq unit = true
  | ⟨_, _, _, _, _, _, _, _, _, _, _, _, _, _, _⟩, h => by
    simp [CodeUnit.numEq, Constant.numEqItems_self h]

end

end ImportAtlas
