import ImportAtlas.Proofs.Container.Descent
import ImportAtlas.Proofs.Container.Reads

/-!
# Constants that survive storing

A container keeps one marker, for all units in it, stores the sign of a long
integer as the sign of its digit count, and limits how deep objects may stand.
A constant that needs more than that comes back changed or not at all. `Storable`
says of a constant that it needs no more, object by object; the main statement
here is that decoding yields nothing else, whatever the bytes.
-/

namespace ImportAtlas.Container

def nameTuple (names : List String) : Constant :=
  .tuple (names.map .str)

/-- The objects that stand directly inside an object when it is stored. -/
def parts : Constant → List Constant
  | .tuple items | .list items | .set items | .frozenset items => items
  | .dict entries => entries.flatMap fun entry => [entry.1, entry.2]
  | .code unit =>
    [.tuple unit.consts, nameTuple unit.names, nameTuple unit.varnames, nameTuple unit.freevars,
      nameTuple unit.cellvars]
  | _ => []

@[simp] theorem parts_build (kind : SequenceKind) (items : List Constant) :
    parts (kind.build items) = items := by
  cases kind <;> rfl

/-- `Opens root depth object`: in the stored form of `root`, `object` opens inside of `depth`
containers. -/
inductive Opens (root : Constant) : Nat → Constant → Prop where
  | root : Opens root 0 root
  | part {depth : Nat} {object part : Constant} (hobject : Opens root depth object)
      (hpart : part ∈ parts object) : Opens root (depth + 1) part

theorem Opens.of_part {root part object : Constant} {depth : Nat} (hpart : part ∈ parts root)
    (h : Opens part depth object) : Opens root (depth + 1) object := by
  induction h with
  | root => exact .part .root hpart
  | part _ hinner ih => exact .part ih hinner

/-- What opens inside an object is the object itself or opens inside one of its parts. -/
theorem Opens.eq_or_part {root object : Constant} {depth : Nat} (h : Opens root depth object) :
    depth = 0 ∧ object = root ∨
      ∃ below part, depth = below + 1 ∧ part ∈ parts root ∧ Opens part below object := by
  induction h with
  | root => exact .inl ⟨rfl, rfl⟩
  | @part depth outer inner _ hinner ih =>
    right
    rcases ih with ⟨rfl, rfl⟩ | ⟨below, part, rfl, hpart, hopens⟩
    · exact ⟨0, inner, rfl, hinner, .root⟩
    · exact ⟨below + 1, part, rfl, hpart, .part hopens hinner⟩

/-- A constant that opens at `depth` survives being stored under `marker`. -/
structure Storable (marker : UInt16) (depth : Nat) (root : Constant) : Prop where
  /-- No object opens at the limit. -/
  shallow : ∀ below object, Opens root below object → depth + below < maxDepth
  /-- Every unit carries the marker. -/
  marked : ∀ below unit, Opens root below (.code unit) → unit.marker = marker
  /-- No long integer is a negative zero. -/
  signed : ∀ below, ¬ Opens root below (.long true [])

namespace Storable

variable {marker : UInt16} {depth : Nat} {root : Constant}

theorem depth_lt (h : Storable marker depth root) : depth < maxDepth :=
  h.shallow 0 root .root

theorem part (h : Storable marker depth root) {part : Constant} (hpart : part ∈ parts root) :
    Storable marker (depth + 1) part where
  shallow below object hopens := by
    have hlt := h.shallow (below + 1) object (hopens.of_part hpart)
    omega
  marked below unit hopens := h.marked (below + 1) unit (hopens.of_part hpart)
  signed below hopens := h.signed (below + 1) (hopens.of_part hpart)

theorem of_parts (hdepth : depth < maxDepth)
    (hmarked : ∀ unit, root = .code unit → unit.marker = marker)
    (hsigned : root ≠ .long true [])
    (hparts : ∀ part ∈ parts root, Storable marker (depth + 1) part) :
    Storable marker depth root where
  shallow below object hopens := by
    rcases hopens.eq_or_part with ⟨rfl, rfl⟩ | ⟨inner, part, rfl, hpart, hinner⟩
    · exact hdepth
    · have hlt := (hparts part hpart).shallow inner object hinner
      omega
  marked below unit hopens := by
    rcases hopens.eq_or_part with ⟨rfl, hroot⟩ | ⟨inner, part, rfl, hpart, hinner⟩
    · exact hmarked unit hroot.symm
    · exact (hparts part hpart).marked inner unit hinner
  signed below hopens := by
    rcases hopens.eq_or_part with ⟨rfl, hroot⟩ | ⟨inner, part, rfl, hpart, hinner⟩
    · exact hsigned hroot.symm
    · exact (hparts part hpart).signed inner hinner

theorem leaf (hdepth : depth < maxDepth) (hparts : parts root = []) (hcode : root.code? = none)
    (hsigned : root ≠ .long true []) : Storable marker depth root := by
  refine of_parts hdepth (fun unit h => ?_) hsigned (fun part hpart => ?_)
  · subst h
    cases hcode
  · rw [hparts] at hpart
    cases hpart

theorem build (hdepth : depth < maxDepth) (kind : SequenceKind) {items : List Constant}
    (hitems : ∀ item ∈ items, Storable marker (depth + 1) item) :
    Storable marker depth (kind.build items) := by
  refine of_parts hdepth (fun unit h => ?_) (fun h => ?_) ?_
  · cases kind <;> cases h
  · cases kind <;> cases h
  · rwa [parts_build]

theorem dict (hdepth : depth < maxDepth) {entries : List (Constant × Constant)}
    (hentries : ∀ entry ∈ entries,
      Storable marker (depth + 1) entry.1 ∧ Storable marker (depth + 1) entry.2) :
    Storable marker depth (.dict entries) := by
  refine of_parts hdepth (fun _ h => nomatch h) (fun h => nomatch h) (fun part hpart => ?_)
  obtain ⟨entry, hentry, hmem⟩ := List.mem_flatMap.mp hpart
  rcases List.mem_cons.mp hmem with rfl | hmem
  · exact (hentries entry hentry).1
  · rw [List.mem_singleton] at hmem
    subst hmem
    exact (hentries entry hentry).2

theorem nameTuple {items : List Constant} {names : List String}
    (h : Storable marker depth (.tuple items)) (hlength : names.length = items.length) :
    Storable marker depth (nameTuple names) := by
  refine build h.depth_lt .tuple (fun item hitem => ?_)
  obtain ⟨name, hname, rfl⟩ := List.mem_map.mp hitem
  have hpos : 0 < items.length := hlength ▸ List.length_pos_of_mem hname
  have hmember : Storable marker (depth + 1) items[0] := h.part (List.getElem_mem hpos)
  exact leaf hmember.depth_lt rfl rfl (fun h => nomatch h)

end Storable

/-! ## What decoding yields -/

namespace Reader

theorem yields_take (count : Nat) : Yields (take count) fun raw => raw.length = count := by
  intro stream raw next h
  simp only [take, List.splitAt_eq] at h
  split at h
  · rename_i hlength
    cases h
    exact hlength
  · cases h

theorem yields_long {marker : UInt16} {depth : Nat} (hdepth : depth < maxDepth) :
    Yields long (Storable marker depth) := by
  refine yields_bind fun count => (yields_take _).bind fun raw hraw => yields_pure ?_
  refine .leaf hdepth rfl rfl (fun hzero => ?_)
  injection hzero with hnegative hdigits
  have hlength : (Word.pairs raw).length = count.toInt.natAbs := by
    rw [Word.length_pairs, hraw]
    omega
  rw [hdigits, List.length_nil] at hlength
  have hcount : count < 0 := of_decide_eq_true hnegative
  rw [Int32.lt_iff_toInt_lt, Int32.toInt_zero] at hcount
  omega

theorem yields_mapM_length {α β : Type} (f : α → Reader β) (items : List α) :
    Yields (items.mapM f) fun results => results.length = items.length := by
  induction items with
  | nil => exact yields_pure rfl
  | cons item items ih =>
    rw [List.mapM_cons]
    refine yields_bind fun first => ih.bind fun rest hrest => yields_pure ?_
    rw [List.length_cons, List.length_cons, hrest]

variable {marker : UInt16} {depth : Nat}

theorem yields_constantTable {table : Constant} (h : Storable marker depth table) :
    Yields (constantTable table) fun items => Storable marker depth (.tuple items) := by
  cases table with
  | tuple items => exact yields_pure h
  | _ => exact yields_fail _ _

theorem yields_nameTable {table : Constant} (h : Storable marker depth table) :
    Yields (nameTable table) fun names => Storable marker depth (nameTuple names) := by
  cases table with
  | tuple items =>
    intro stream names next hnames
    exact h.nameTuple (yields_mapM_length _ _ _ _ _ hnames)
  | _ => exact yields_fail _ _

theorem yields_codeTail {head : CodeHead} {consts names varnames freevars cellvars : Constant}
    (hconsts : Storable marker depth consts) (hnames : Storable marker depth names)
    (hvarnames : Storable marker depth varnames) (hfreevars : Storable marker depth freevars)
    (hcellvars : Storable marker depth cellvars) :
    Yields (codeTail marker head consts names varnames freevars cellvars) fun unit =>
      unit.marker = marker ∧ ∀ part ∈ parts (.code unit), Storable marker depth part := by
  refine (yields_constantTable hconsts).bind fun consts hconsts => ?_
  refine (yields_nameTable hnames).bind fun names hnames => ?_
  refine (yields_nameTable hvarnames).bind fun varnames hvarnames => ?_
  refine (yields_nameTable hfreevars).bind fun freevars hfreevars => ?_
  refine (yields_nameTable hcellvars).bind fun cellvars hcellvars => ?_
  refine yields_bind fun filename => yields_bind fun name => yields_bind fun firstLine =>
    yields_bind fun lnotab => yields_pure ⟨rfl, ?_⟩
  simp only [parts, List.forall_mem_cons]
  exact ⟨hconsts, hnames, hvarnames, hfreevars, hcellvars, fun _ h => nomatch h⟩

end Reader

namespace Descent

open Reader

variable {marker : UInt16} {depth : Nat} {member : Consumer Constant}

theorem yields_members {property : Constant → Prop} (hmember : Yields member.read property)
    (count : Nat) : Yields (members member count) fun items => ∀ item ∈ items, property item := by
  induction count with
  | zero => exact yields_pure (fun _ h => nomatch h)
  | succ count ih =>
    refine hmember.bind fun first hfirst => ih.bind fun rest hrest => yields_pure ?_
    exact List.forall_mem_cons.mpr ⟨hfirst, hrest⟩

theorem yields_entries {property : Constant → Prop} (hmember : Yields member.read property) :
    Yields (entries member) fun pairs => ∀ pair ∈ pairs, property pair.1 ∧ property pair.2 := by
  intro stream pairs next h
  change entriesFrom member stream = _ at h
  fun_induction entriesFrom member stream generalizing pairs next with
  | case1 | case3 | case4 | case5 => cases h
  | case2 =>
    cases h
    simp
  | case6 stream start hskip key afterKey hkey value afterValue hvalue rest final hrest ih =>
    cases h
    have hpair := And.intro (hmember _ _ _ hkey) (hmember _ _ _ hvalue)
    exact List.forall_mem_cons.mpr ⟨hpair, ih _ _ hrest⟩

theorem yields_body (hdepth : depth < maxDepth)
    (hmember : Yields member.read (Storable marker (depth + 1))) (tag : Tag) :
    Yields (body marker member tag) (Storable marker depth) := by
  have hleaf {root : Constant} (hparts : parts root = []) (hcode : root.code? = none)
      (hkind : root.kind ≠ .long) : Storable marker depth root :=
    .leaf hdepth hparts hcode (fun h => hkind (h ▸ rfl))
  cases tag with
  | null => exact yields_fail _ _
  | none | «false» | «true» | stopIteration | ellipsis =>
    exact yields_pure (hleaf rfl rfl (fun h => nomatch h))
  | textComplex | complex | unicode =>
    exact yields_bind fun _ => yields_bind fun _ =>
      yields_pure (hleaf rfl rfl (fun h => nomatch h))
  | long => exact yields_long hdepth
  | sequence kind =>
    exact yields_bind fun count => (yields_members hmember count).bind fun items hitems =>
      yields_pure (.build hdepth kind hitems)
  | dict =>
    exact (yields_entries hmember).bind fun pairs hpairs => yields_pure (.dict hdepth hpairs)
  | code =>
    refine yields_bind fun head => ?_
    refine hmember.bind fun consts hconsts => hmember.bind fun names hnames => ?_
    refine hmember.bind fun varnames hvarnames => hmember.bind fun freevars hfreevars => ?_
    refine hmember.bind fun cellvars hcellvars => ?_
    refine (yields_codeTail hconsts hnames hvarnames hfreevars hcellvars).bind fun unit hunit =>
      yields_pure ?_
    refine .of_parts hdepth (fun other h => ?_) (fun h => nomatch h) hunit.2
    injection h with h
    exact h ▸ hunit.1
  | int | int64 | textFloat | float | string =>
    exact yields_bind fun _ => yields_pure (hleaf rfl rfl (fun h => nomatch h))

/-- Decoding yields storable constants only. -/
theorem yields_objectAt (marker : UInt16) (depth : Nat) :
    Yields (objectAt marker depth).read (Storable marker depth) := by
  -- The induction is on the room below the limit: members have one level less of it.
  induction hroom : maxDepth - depth generalizing depth with
  | zero =>
    rw [objectAt_of_ge marker (by omega)]
    exact yields_fail _ _
  | succ room ih =>
    have hdepth : depth < maxDepth := by omega
    rw [objectAt_of_lt marker hdepth]
    refine yields_bind fun code => ?_
    cases Tag.ofByte? code with
    | none => exact yields_fail _ _
    | some tag => exact yields_body hdepth (ih (depth + 1) (by omega)) tag

end Descent

end ImportAtlas.Container
