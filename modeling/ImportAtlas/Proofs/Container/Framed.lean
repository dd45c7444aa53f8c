import ImportAtlas.Proofs.Container.Descent

/-!
# Reads and the bytes behind them

A read that succeeds has seen all it needs, so bytes added behind the stream
change nothing about it; one that fails says where in the stream. `Framed` is the
judgement for both, with one rule for each way to put reads together. Only the
look for the end of a dictionary is not framed: before the end of the data it
finds nothing, and a byte added there may be what it looks for. It is always
followed by the read of a key, which needs that byte in any case.
-/

namespace ImportAtlas.Container

def Stream.extend (stream : Stream) (tail : Bytes) : Stream :=
  { stream with rest := stream.rest ++ tail }

def Stream.limit (stream : Stream) : Nat :=
  stream.position + stream.rest.length

structure Framed {α : Type} (reader : Reader α) : Prop where
  stable : ∀ {stream value next}, reader stream = .ok (value, next) →
    ∀ tail, reader (stream.extend tail) = .ok (value, next.extend tail)
  limit_eq : ∀ {stream value next}, reader stream = .ok (value, next) → next.limit = stream.limit
  malformed : ∀ {stream error}, reader stream = .error error →
    ∃ position problem, error = .malformed position problem ∧ position ≤ stream.limit

open Reader Descent

variable {α β : Type}

theorem framed_pure (value : α) : Framed (pure value : Reader α) where
  stable h tail := by
    obtain ⟨rfl, rfl⟩ := pure_eq_ok h
    rfl
  limit_eq h := by
    obtain ⟨rfl, rfl⟩ := pure_eq_ok h
    rfl
  malformed h := nomatch h

theorem framed_fail (problem : ContainerProblem) : Framed (fail problem : Reader α) where
  stable h := absurd h not_fail_eq_ok
  limit_eq h := absurd h not_fail_eq_ok
  malformed {stream error} h := by
    rw [fail_apply] at h
    cases h
    exact ⟨stream.position, problem, rfl, Nat.le_add_right _ _⟩

namespace Framed

theorem bind {first : Reader α} {second : α → Reader β} (hfirst : Framed first)
    (hsecond : ∀ value, Framed (second value)) : Framed (first >>= second) where
  stable h tail := by
    obtain ⟨value, middle, hvalue, hresult⟩ := bind_eq_ok h
    rw [bind_of_ok (hfirst.stable hvalue tail)]
    exact (hsecond value).stable hresult tail
  limit_eq h := by
    obtain ⟨value, middle, hvalue, hresult⟩ := bind_eq_ok h
    rw [(hsecond value).limit_eq hresult, hfirst.limit_eq hvalue]
  malformed {stream error} h := by
    cases hvalue : first stream with
    | error cause =>
      rw [bind_of_error hvalue] at h
      cases h
      exact hfirst.malformed hvalue
    | ok pair =>
      obtain ⟨value, middle⟩ := pair
      rw [bind_of_ok hvalue] at h
      have hlimit := hfirst.limit_eq hvalue
      obtain ⟨position, problem, herror, hposition⟩ := (hsecond value).malformed h
      exact ⟨position, problem, herror, by omega⟩

theorem map {reader : Reader α} (h : Framed reader) (f : α → β) :
    Framed (do return f (← reader)) :=
  h.bind fun _ => framed_pure _

end Framed

theorem framed_mapM {f : α → Reader β} (hf : ∀ item, Framed (f item)) (items : List α) :
    Framed (items.mapM f) := by
  induction items with
  | nil =>
    rw [List.mapM_nil]
    exact framed_pure _
  | cons item items ih =>
    rw [List.mapM_cons]
    exact (hf item).bind fun _ => ih.bind fun _ => framed_pure _

/-! ## Words and strings -/

theorem take_of_le {count : Nat} {stream : Stream} (h : count ≤ stream.rest.length) :
    take count stream = .ok (stream.rest.take count,
      { stream with rest := stream.rest.drop count, position := stream.position + count }) := by
  have hlength : (stream.rest.take count).length = count := List.length_take_of_le h
  simp [take, List.splitAt_eq, hlength]

theorem take_of_gt {count : Nat} {stream : Stream} (h : stream.rest.length < count) :
    take count stream = .error (.malformed stream.position (.endOfData count)) := by
  have hlength : (stream.rest.take count).length ≠ count := by
    rw [List.length_take]
    omega
  simp only [take, List.splitAt_eq, if_neg hlength]

theorem framed_take (count : Nat) : Framed (take count) where
  stable {stream value next} h tail := by
    rcases Nat.lt_or_ge stream.rest.length count with hlt | hge
    · rw [take_of_gt hlt] at h
      cases h
    · rw [take_of_le hge] at h
      cases h
      have hextended : count ≤ (stream.extend tail).rest.length := by
        simp only [Stream.extend, List.length_append]
        omega
      rw [take_of_le hextended]
      simp only [Stream.extend, List.take_append_of_le_length hge,
        List.drop_append_of_le_length hge]
  limit_eq {stream value next} h := by
    rcases Nat.lt_or_ge stream.rest.length count with hlt | hge
    · rw [take_of_gt hlt] at h
      cases h
    · rw [take_of_le hge] at h
      cases h
      simp only [Stream.limit, List.length_drop]
      omega
  malformed {stream error} h := by
    rcases Nat.lt_or_ge stream.rest.length count with hlt | hge
    · rw [take_of_gt hlt] at h
      cases h
      exact ⟨stream.position, _, rfl, Nat.le_add_right _ _⟩
    · rw [take_of_le hge] at h
      cases h

theorem byte_eq_take : byte = (do return (← take 1).headD 0) := by
  funext stream
  obtain ⟨rest, position, interned⟩ := stream
  cases rest with
  | nil => rfl
  | cons next rest =>
    have hone : 1 ≤ (next :: rest).length := Nat.succ_pos _
    rw [bind_of_ok (take_of_le hone)]
    rfl

theorem framed_byte : Framed byte := by
  rw [byte_eq_take]
  exact (framed_take 1).map _

theorem framed_int32 : Framed int32 :=
  (framed_take 4).map _

theorem framed_length : Framed length := by
  apply framed_int32.bind
  intro count
  split
  · exact framed_fail _
  · exact framed_pure _

theorem framed_textFloat : Framed textFloat := by
  apply framed_byte.bind
  intro count
  apply (framed_take _).bind
  intro raw
  split
  · exact framed_fail _
  · split
    · exact framed_pure _
    · exact framed_fail _

theorem framed_intern (raw : Bytes) : Framed (intern raw) where
  stable h tail := by
    cases h
    rfl
  limit_eq h := by
    cases h
    rfl
  malformed h := nomatch h

theorem framed_lookup (index : Nat) : Framed (lookup index) where
  stable {stream value next} h tail := by
    simp only [lookup] at h
    split at h
    · rename_i raw hraw
      cases h
      simp only [lookup, Stream.extend, hraw]
    · cases h
  limit_eq {stream value next} h := by
    simp only [lookup] at h
    split at h
    · cases h
      rfl
    · cases h
  malformed {stream error} h := by
    simp only [lookup] at h
    split at h
    · cases h
    · cases h
      exact ⟨stream.position, _, rfl, Nat.le_add_right _ _⟩

theorem framed_stringBody (form : StringForm) : Framed (stringBody form) := by
  apply framed_length.bind
  intro count
  cases form with
  | inline => exact framed_take _
  | interned =>
    exact (framed_take _).bind fun raw => (framed_intern raw).bind fun _ => framed_pure _
  | reference => exact framed_lookup _

theorem framed_rawString : Framed rawString := by
  apply framed_byte.bind
  intro code
  split
  · exact framed_stringBody _
  · exact framed_fail _

theorem framed_string : Framed string :=
  framed_rawString.map _

/-! ## Parts of a code object -/

theorem framed_constantTable (table : Constant) : Framed (constantTable table) := by
  unfold constantTable
  split
  · exact framed_pure _
  · exact framed_fail _

theorem framed_nameTable (table : Constant) : Framed (nameTable table) := by
  unfold nameTable
  split
  · apply framed_mapM
    intro item
    unfold nameEntry
    split
    · exact framed_pure _
    · exact framed_fail _
  · exact framed_fail _

theorem framed_firstLine : Framed firstLine := by
  apply framed_int32.bind
  intro line
  split
  · exact framed_fail _
  · exact framed_pure _

theorem framed_codeHead : Framed codeHead :=
  framed_int32.bind fun _ => framed_int32.bind fun _ => framed_int32.bind fun _ =>
    framed_int32.bind fun _ => framed_rawString.map _

theorem framed_codeTail (marker : UInt16) (head : CodeHead)
    (consts names varnames freevars cellvars : Constant) :
    Framed (codeTail marker head consts names varnames freevars cellvars) :=
  (framed_constantTable _).bind fun _ => (framed_nameTable _).bind fun _ =>
    (framed_nameTable _).bind fun _ => (framed_nameTable _).bind fun _ =>
    (framed_nameTable _).bind fun _ => framed_string.bind fun _ => framed_string.bind fun _ =>
    framed_firstLine.bind fun _ => framed_rawString.map _

/-! ## Members -/

section Members

variable {member : Consumer Constant}

theorem framed_members (hmember : Framed member.read) (count : Nat) :
    Framed (members member count) := by
  induction count with
  | zero => exact framed_pure _
  | succ count ih => exact hmember.bind fun _ => ih.map _

theorem limit_of_skip? {expected : UInt8} {stream next : Stream} {found : Bool}
    (h : skip? expected stream = .ok (found, next)) : next.limit = stream.limit := by
  simp only [skip?] at h
  split at h
  · cases h
    rfl
  · rename_i first rest hrest
    split at h <;> cases h
    · simp only [Stream.limit, hrest, List.length_cons]
      omega
    · rfl

theorem skip?_extend {expected : UInt8} {stream next : Stream} {found : Bool}
    (h : skip? expected stream = .ok (found, next)) (hrest : stream.rest ≠ []) (tail : Bytes) :
    skip? expected (stream.extend tail) = .ok (found, next.extend tail) := by
  obtain ⟨rest, position, interned⟩ := stream
  cases rest with
  | nil => exact absurd rfl hrest
  | cons first rest =>
    simp only [skip?, Stream.extend, List.cons_append] at h ⊢
    split at h
    · rename_i heq
      cases h
      rw [if_pos heq]
    · rename_i hne
      cases h
      rw [if_neg hne]
      rfl

theorem ne_nil_of_skip? {expected : UInt8} {stream next : Stream}
    (h : skip? expected stream = .ok (true, next)) : stream.rest ≠ [] := by
  intro hrest
  simp only [skip?, hrest] at h
  cases h

theorem eq_of_skip? {expected : UInt8} {stream next : Stream}
    (h : skip? expected stream = .ok (false, next)) : next = stream := by
  simp only [skip?] at h
  split at h
  · cases h
    rfl
  · split at h <;> cases h
    rfl

theorem framed_entries (hmember : Framed member.read) : Framed (entries member) where
  stable {stream value next} h tail := by
    change entriesFrom member stream = _ at h
    fun_induction entriesFrom member stream generalizing value next with
    | case1 | case3 | case4 | case5 => cases h
    | case2 stream after hskip =>
      cases h
      rw [entries_eq, bind_of_ok (skip?_extend hskip (ne_nil_of_skip? hskip) tail)]
      rfl
    | case6 stream start hskip key afterKey hkey item afterItem hitem rest final hrest ih =>
      cases h
      -- A key was read, so the end of the data was not what hid the end of the dictionary.
      have hstart : start = stream := eq_of_skip? hskip
      have hne : stream.rest ≠ [] := by
        have hlength := member.consumes hkey
        rw [hstart] at hlength
        exact List.ne_nil_of_length_pos (by omega)
      rw [entries_eq, bind_of_ok (skip?_extend hskip hne tail)]
      refine (bind_of_ok (hmember.stable hkey tail)).trans ?_
      refine (bind_of_ok (hmember.stable hitem tail)).trans ?_
      exact bind_of_ok (ih hrest)
  limit_eq {stream value next} h := by
    change entriesFrom member stream = _ at h
    fun_induction entriesFrom member stream generalizing value next with
    | case1 | case3 | case4 | case5 => cases h
    | case2 stream after hskip =>
      cases h
      exact limit_of_skip? hskip
    | case6 stream start hskip key afterKey hkey item afterItem hitem rest final hrest ih =>
      cases h
      rw [ih hrest, hmember.limit_eq hitem, hmember.limit_eq hkey, limit_of_skip? hskip]
  malformed {stream error} h := by
    change entriesFrom member stream = _ at h
    fun_induction entriesFrom member stream generalizing error with
    | case1 stream cause hskip =>
      simp only [skip?] at hskip
      split at hskip
      · cases hskip
      · split at hskip <;> cases hskip
    | case2 | case6 => cases h
    | case3 stream start hskip cause hkey =>
      cases h
      rw [← limit_of_skip? hskip]
      exact hmember.malformed hkey
    | case4 stream start hskip key afterKey hkey cause hitem =>
      cases h
      rw [← limit_of_skip? hskip, ← hmember.limit_eq hkey]
      exact hmember.malformed hitem
    | case5 stream start hskip key afterKey hkey item afterItem hitem cause hrest ih =>
      cases h
      rw [← limit_of_skip? hskip, ← hmember.limit_eq hkey, ← hmember.limit_eq hitem]
      exact ih hrest

end Members

/-! ## Objects -/

theorem framed_body (marker : UInt16) {member : Consumer Constant} (hmember : Framed member.read)
    (tag : Tag) : Framed (body marker member tag) := by
  cases tag with
  | null => exact framed_fail _
  | none | «false» | «true» | stopIteration | ellipsis => exact framed_pure _
  | int => exact framed_int32.map _
  | int64 | float => exact ((framed_take 8).map _).map _
  | textFloat => exact framed_textFloat.map _
  | textComplex => exact framed_textFloat.bind fun _ => framed_textFloat.map _
  | complex => exact ((framed_take 8).map _).bind fun _ => ((framed_take 8).map _).map _
  | long => exact framed_int32.bind fun _ => (framed_take _).map _
  | string form => exact (framed_stringBody form).map _
  | unicode => exact framed_length.bind fun _ => (framed_take _).map _
  | sequence kind => exact framed_length.bind fun _ => (framed_members hmember _).map _
  | dict => exact (framed_entries hmember).map _
  | code =>
    exact framed_codeHead.bind fun _ => hmember.bind fun _ => hmember.bind fun _ =>
      hmember.bind fun _ => hmember.bind fun _ => hmember.bind fun _ =>
      (framed_codeTail _ _ _ _ _ _ _).map _

theorem framed_objectAt (marker : UInt16) (depth : Nat) :
    Framed (objectAt marker depth).read := by
  -- Members have one level less of room below the limit.
  induction hroom : maxDepth - depth generalizing depth with
  | zero =>
    rw [objectAt_of_ge marker (by omega)]
    exact framed_fail _
  | succ room ih =>
    have hdepth : depth < maxDepth := by omega
    have hmember := ih (depth + 1) (by omega)
    rw [objectAt_of_lt marker hdepth]
    apply framed_byte.bind
    intro code
    cases Tag.ofByte? code with
    | none => exact framed_fail _
    | some tag => exact framed_body marker hmember tag

end ImportAtlas.Container
