import ImportAtlas.Code.Walk

/-!
# Walks over parts of a buffer

What a walk finds from a cursor on depends on the bytes ahead of it alone, not
on how it came there. A walk over two parts that each end with an instruction
therefore finds what is in the first and then what is in the second, and the
events of a whole buffer can be put together from those of its instructions.
-/

namespace ImportAtlas

namespace Format

def IsStore (format : Format) (opcode : UInt8) : Prop :=
  opcode = format.storeName ∨ opcode = format.storeGlobal

instance (format : Format) (opcode : UInt8) : Decidable (format.IsStore opcode) :=
  inferInstanceAs (Decidable (_ ∨ _))

/-- Whether a walk steps over an opcode whatever follows it. -/
def Quiet (format : Format) (opcode : UInt8) : Prop :=
  ¬format.IsStore opcode ∧ opcode ≠ format.loadConst

instance (format : Format) (opcode : UInt8) : Decidable (format.Quiet opcode) :=
  inferInstanceAs (Decidable (_ ∧ _))

end Format

namespace Walker

def results (walker : Walker) : List (Except Error Event) :=
  walker.run.1.map Item.result

theorem results_eq (walker : Walker) :
    walker.results =
      match walker.next with
      | (none, _) => []
      | (some (.error error), _) => [.error error]
      | (some (.ok event), next) => .ok event :: next.results := by
  unfold results
  rw [run]
  split <;> rename_i h <;> simp [h]

/-! ## One instruction of a search -/

def found (walker : Walker) (cursor width : Nat) (rest : Bytes) :
    Except Error Event → Option (Except Error Event) × Walker
  | .ok event => (some (.ok event), walker.moveTo cursor width rest)
  | .error error => (some (.error error), walker.stopAt cursor rest)

structure Other (walker : Walker) (opcode : UInt8) (tail : Bytes) : Prop where
  not_store : ¬walker.format.IsStore opcode
  not_import : ¬walker.startsImport opcode tail = true

theorem Other.of_quiet {walker : Walker} {opcode : UInt8} (h : walker.format.Quiet opcode)
    (tail : Bytes) : walker.Other opcode tail where
  not_store := h.1
  not_import := by simp [startsImport, h.2]

section Look

variable (walker : Walker) (cursor : Nat) {opcode : UInt8} {tail : Bytes}

theorem look_of_store
    (h : walker.format.IsStore opcode) :
    walker.look cursor (opcode :: tail)
      = walker.found cursor argumentWidth (opcode :: tail) (walker.storeEvent cursor tail) := by
  rw [look.eq_def]
  refine (if_pos h).trans ?_
  cases walker.storeEvent cursor tail <;> rfl

theorem look_of_import
    (hstore : ¬walker.format.IsStore opcode)
    (h : walker.startsImport opcode tail = true) :
    walker.look cursor (opcode :: tail)
      = walker.found cursor importWidth (opcode :: tail) (walker.importEvent cursor tail) := by
  rw [look.eq_def]
  refine (if_neg hstore).trans ((if_pos h).trans ?_)
  cases walker.importEvent cursor tail <;> rfl

theorem look_of_argument {low high : UInt8} (hother : walker.Other opcode (low :: high :: tail))
    (h : walker.format.hasArgument opcode = true) :
    walker.look cursor (opcode :: low :: high :: tail)
      = walker.look (cursor + argumentWidth) tail := by
  rw [look.eq_def]
  exact (if_neg hother.not_store).trans ((if_neg hother.not_import).trans (if_pos h))

theorem look_of_truncated (hother : walker.Other opcode tail)
    (h : walker.format.hasArgument opcode = true)
    (hshort : ∀ low high rest, tail = low :: high :: rest → False) :
    walker.look cursor (opcode :: tail) = walker.found cursor argumentWidth (opcode :: tail)
      (.error (.truncatedInstruction cursor walker.length)) := by
  rw [look.eq_def]
  refine (if_neg hother.not_store).trans ((if_neg hother.not_import).trans ((if_pos h).trans ?_))
  split
  · exact (hshort _ _ _ rfl).elim
  · rfl

theorem look_of_plain (hother : walker.Other opcode tail)
    (h : ¬walker.format.hasArgument opcode = true) :
    walker.look cursor (opcode :: tail) = walker.look (cursor + 1) tail := by
  rw [look.eq_def]
  exact (if_neg hother.not_store).trans ((if_neg hother.not_import).trans (if_neg h))

end Look

/-! ## Going on from a cursor -/

def goOn (walker : Walker) (cursor : Nat) (rest : Bytes) : Walker :=
  { walker with cursor, rest, stopped := false }

theorem look_goOn (walker : Walker) (start other : Nat) (buffer earlier : Bytes) (cursor : Nat)
    (rest : Bytes) :
    (walker.goOn start buffer).look cursor rest = (walker.goOn other earlier).look cursor rest := by
  fun_induction look (walker.goOn other earlier) cursor rest with
  | case1 => rfl
  | case2 cursor opcode tail hstore event hevent | case3 cursor opcode tail hstore error hevent =>
    refine (look_of_store (walker.goOn start buffer) cursor hstore).trans ?_
    exact congrArg (found (walker.goOn start buffer) _ _ _) hevent
  | case4 cursor opcode tail hstore himport event hevent
  | case5 cursor opcode tail hstore himport error hevent =>
    refine (look_of_import (walker.goOn start buffer) cursor hstore himport).trans ?_
    exact congrArg (found (walker.goOn start buffer) _ _ _) hevent
  | case6 cursor opcode hstore hargument low high rest himport ih =>
    exact (look_of_argument (walker.goOn start buffer) cursor ⟨hstore, himport⟩ hargument).trans ih
  | case7 cursor opcode tail hstore himport hargument hshort =>
    exact look_of_truncated (walker.goOn start buffer) cursor ⟨hstore, himport⟩ hargument hshort
  | case8 cursor opcode tail hstore himport hargument ih =>
    exact (look_of_plain (walker.goOn start buffer) cursor ⟨hstore, himport⟩ hargument).trans ih

section Results

variable {walker : Walker} {cursor : Nat} {opcode : UInt8} {tail : Bytes}

/-- The results ahead are those of the search that comes first. -/
theorem results_goOn_congr {other : Nat} {rest earlier : Bytes}
    (h : (walker.goOn cursor rest).look cursor rest
      = (walker.goOn other earlier).look other earlier) :
    (walker.goOn cursor rest).results = (walker.goOn other earlier).results := by
  have hnext : (walker.goOn cursor rest).next = (walker.goOn other earlier).next := h
  rw [results_eq, hnext, ← results_eq]

theorem results_of_found {width : Nat} {event : Event} {rest : Bytes}
    (h : (walker.goOn cursor rest).look cursor rest
      = (walker.goOn cursor rest).found cursor width rest (.ok event)) :
    (walker.goOn cursor rest).results
      = .ok event :: (walker.goOn (cursor + width) (rest.drop width)).results := by
  have hnext : (walker.goOn cursor rest).next
      = (some (.ok event), walker.goOn (cursor + width) (rest.drop width)) := h
  rw [results_eq, hnext]

theorem results_of_failed {error : Error} {rest : Bytes} {final : Walker}
    (h : (walker.goOn cursor rest).look cursor rest = (some (.error error), final)) :
    (walker.goOn cursor rest).results = [.error error] := by
  have hnext : (walker.goOn cursor rest).next = (some (.error error), final) := h
  rw [results_eq, hnext]

@[simp] theorem results_nil : (walker.goOn cursor []).results = [] := by
  rw [results_eq]
  rfl

theorem results_of_store {event : Event}
    (h : walker.format.IsStore opcode)
    (hevent : walker.storeEvent cursor tail = .ok event) :
    (walker.goOn cursor (opcode :: tail)).results
      = .ok event :: (walker.goOn (cursor + argumentWidth) (tail.drop 2)).results := by
  refine results_of_found
    ((look_of_store (walker.goOn cursor (opcode :: tail)) cursor h).trans ?_)
  exact congrArg (found _ cursor argumentWidth _) hevent

theorem results_of_import {event : Event}
    (hstore : ¬walker.format.IsStore opcode)
    (h : walker.startsImport opcode tail = true)
    (hevent : walker.importEvent cursor tail = .ok event) :
    (walker.goOn cursor (opcode :: tail)).results
      = .ok event :: (walker.goOn (cursor + importWidth) (tail.drop 8)).results := by
  refine results_of_found
    ((look_of_import (walker.goOn cursor (opcode :: tail)) cursor hstore h).trans ?_)
  exact congrArg (found _ cursor importWidth _) hevent

theorem results_of_store_error {error : Error} (h : walker.format.IsStore opcode)
    (hevent : walker.storeEvent cursor tail = .error error) :
    (walker.goOn cursor (opcode :: tail)).results = [.error error] := by
  have hlook : (walker.goOn cursor (opcode :: tail)).look cursor (opcode :: tail) = _ :=
    look_of_store (walker.goOn cursor (opcode :: tail)) cursor h
  have hfound := congrArg
    (found (walker.goOn cursor (opcode :: tail)) cursor argumentWidth (opcode :: tail)) hevent
  exact results_of_failed (hlook.trans hfound)

theorem results_of_import_error {error : Error} (hstore : ¬walker.format.IsStore opcode)
    (h : walker.startsImport opcode tail = true)
    (hevent : walker.importEvent cursor tail = .error error) :
    (walker.goOn cursor (opcode :: tail)).results = [.error error] := by
  have hlook : (walker.goOn cursor (opcode :: tail)).look cursor (opcode :: tail) = _ :=
    look_of_import (walker.goOn cursor (opcode :: tail)) cursor hstore h
  have hfound := congrArg
    (found (walker.goOn cursor (opcode :: tail)) cursor importWidth (opcode :: tail)) hevent
  exact results_of_failed (hlook.trans hfound)

theorem results_of_truncated (hother : walker.Other opcode tail)
    (h : walker.format.hasArgument opcode = true)
    (hshort : ∀ low high rest, tail = low :: high :: rest → False) :
    (walker.goOn cursor (opcode :: tail)).results
      = [.error (.truncatedInstruction cursor walker.length)] :=
  results_of_failed (look_of_truncated (walker.goOn cursor (opcode :: tail)) cursor
    ⟨hother.not_store, hother.not_import⟩ h hshort)

theorem results_of_argument {low high : UInt8} (hother : walker.Other opcode (low :: high :: tail))
    (h : walker.format.hasArgument opcode = true) :
    (walker.goOn cursor (opcode :: low :: high :: tail)).results
      = (walker.goOn (cursor + argumentWidth) tail).results := by
  have hlook := look_of_argument (walker.goOn cursor (opcode :: low :: high :: tail)) cursor
    ⟨hother.not_store, hother.not_import⟩ h
  exact results_goOn_congr (hlook.trans (look_goOn _ _ _ _ _ _ _))

theorem results_of_plain (hother : walker.Other opcode tail)
    (h : ¬walker.format.hasArgument opcode = true) :
    (walker.goOn cursor (opcode :: tail)).results = (walker.goOn (cursor + 1) tail).results := by
  have hlook := look_of_plain (walker.goOn cursor (opcode :: tail)) cursor
    ⟨hother.not_store, hother.not_import⟩ h
  exact results_goOn_congr (hlook.trans (look_goOn _ _ _ _ _ _ _))

end Results

/-! ## Walking over a part -/

def instruction (opcode : UInt8) (operand : UInt16) : Bytes :=
  opcode :: Word.encode 2 operand.toNat

@[simp] theorem length_instruction (opcode : UInt8) (operand : UInt16) :
    (instruction opcode operand).length = argumentWidth :=
  rfl

/-- A walk finds `events` in the bytes `part` at `cursor`, and goes on behind them. -/
def Walks (walker : Walker) (cursor : Nat) (part : Bytes) (events : List Event) : Prop :=
  ∀ rest, (walker.goOn cursor (part ++ rest)).results
    = events.map .ok ++ (walker.goOn (cursor + part.length) rest).results

theorem operand_encode (walker : Walker) (offset : Nat) (operand : UInt16) (rest : Bytes) :
    walker.operand offset (Word.encode 2 operand.toNat ++ rest) = .ok operand.toNat := by
  have hbound : operand.toNat < Word.bound 2 := operand.toNat_lt
  exact congrArg Except.ok (Word.decode_encode_of_lt hbound)

theorem nameIndex_encode {walker : Walker} {operand : UInt16}
    (h : operand.toNat < walker.nameCount) (offset : Nat) (rest : Bytes) :
    walker.nameIndex offset (Word.encode 2 operand.toNat ++ rest) = .ok operand.toNat := by
  rw [nameIndex, operand_encode]
  exact if_pos h

theorem constantIndex_encode {walker : Walker} {operand : UInt16}
    (h : operand.toNat < walker.constants.size) (offset : Nat) (rest : Bytes) :
    walker.constantIndex offset (Word.encode 2 operand.toNat ++ rest) = .ok operand.toNat := by
  rw [constantIndex, operand_encode]
  exact if_pos h

namespace Walks

variable {walker : Walker} {cursor : Nat}

theorem nil : Walks walker cursor [] [] := fun _ => rfl

theorem append {first second : Bytes} {before after : List Event}
    (hfirst : Walks walker cursor first before)
    (hsecond : Walks walker (cursor + first.length) second after) :
    Walks walker cursor (first ++ second) (before ++ after) := by
  intro rest
  rw [List.append_assoc, hfirst, hsecond, List.map_append, List.append_assoc, List.length_append,
    Nat.add_assoc]

theorem store {opcode : UInt8} {operand : UInt16}
    (hopcode : walker.format.IsStore opcode)
    (hname : operand.toNat < walker.nameCount) :
    Walks walker cursor (instruction opcode operand) [.store cursor operand.toNat] := by
  intro rest
  have hevent : walker.storeEvent cursor (Word.encode 2 operand.toNat ++ rest)
      = .ok (.store cursor operand.toNat) := by
    rw [storeEvent, nameIndex_encode hname]
    rfl
  exact results_of_store hopcode hevent

theorem argument {opcode : UInt8} (hquiet : walker.format.Quiet opcode)
    (h : walker.format.hasArgument opcode = true) (operand : UInt16) :
    Walks walker cursor (instruction opcode operand) [] := by
  intro rest
  exact results_of_argument (.of_quiet hquiet _) h

theorem plain {opcode : UInt8} (hquiet : walker.format.Quiet opcode)
    (h : ¬walker.format.hasArgument opcode = true) : Walks walker cursor [opcode] [] := by
  intro rest
  exact results_of_plain (.of_quiet hquiet rest) h

theorem load (hstore : ¬walker.format.IsStore walker.format.loadConst)
    (h : walker.format.hasArgument walker.format.loadConst = true) {opcode : UInt8} {part : Bytes}
    {events : List Event} (hopcode : opcode ≠ walker.format.loadConst)
    (hpart : Walks walker (cursor + argumentWidth) (opcode :: part) events) (operand : UInt16) :
    Walks walker cursor (instruction walker.format.loadConst operand ++ opcode :: part) events := by
  intro rest
  have himport : ¬walker.startsImport walker.format.loadConst
      (Word.encode 2 operand.toNat ++ opcode :: part ++ rest) = true := by
    simp [startsImport, Word.encode, hopcode]
  have hlength : cursor + (instruction walker.format.loadConst operand ++ opcode :: part).length
      = cursor + argumentWidth + (opcode :: part).length := by
    simp only [List.length_append, length_instruction]
    omega
  rw [hlength, ← hpart rest]
  exact results_of_argument ⟨hstore, himport⟩ h

theorem importing (hstore : ¬walker.format.IsStore walker.format.loadConst)
    {level fromlist module : UInt16} {style : ImportStyle}
    (hlevel : level.toNat < walker.constants.size)
    (hfromlist : fromlist.toNat < walker.constants.size)
    (hmodule : module.toNat < walker.nameCount)
    (hstyle : styleOf cursor (walker.constants.getD level.toNat .none) = .ok style) :
    Walks walker cursor
      (instruction walker.format.loadConst level ++ instruction walker.format.loadConst fromlist
        ++ instruction walker.format.importName module)
      [.importing cursor style fromlist.toNat module.toNat] := by
  intro rest
  have hevent : walker.importEvent cursor (Word.encode 2 level.toNat
      ++ (instruction walker.format.loadConst fromlist
        ++ (instruction walker.format.importName module ++ rest)))
      = .ok (.importing cursor style fromlist.toNat module.toNat) := by
    rw [importEvent, constantIndex_encode hlevel]
    -- The bytes of an instruction are a list of known shape, so what is dropped can be seen.
    change (do
      let fromlist ← walker.constantIndex (cursor + 3) (Word.encode 2 fromlist.toNat ++ _)
      let module ← walker.nameIndex (cursor + 6) (Word.encode 2 module.toNat ++ _)
      let style ← styleOf cursor (walker.constants.getD level.toNat .none)
      return Event.importing cursor style fromlist module) = _
    rw [constantIndex_encode hfromlist, nameIndex_encode hmodule, hstyle]
    rfl
  have h : walker.startsImport walker.format.loadConst (Word.encode 2 level.toNat
      ++ (instruction walker.format.loadConst fromlist
        ++ (instruction walker.format.importName module ++ rest))) = true := by
    simp [startsImport, instruction, Word.encode]
  exact results_of_import hstore h hevent

end Walks

/-! ## The end of a walk -/

theorem stopped_of_look {walker final : Walker} {cursor : Nat} {rest : Bytes} {error : Error}
    (h : walker.look cursor rest = (some (.error error), final)) : final.stopped = true := by
  fun_induction look walker cursor rest with
  | case1 | case2 | case4 => cases h
  | case3 | case5 | case7 =>
    cases h
    rfl
  | case6 _ _ _ _ _ _ _ _ ih | case8 _ _ _ _ _ _ ih => exact ih h

theorem eq_of_look {walker final : Walker} {cursor : Nat} {rest : Bytes}
    (h : walker.look cursor rest = (none, final)) :
    ∃ last, final = { walker with cursor := last, rest := [] } := by
  fun_induction look walker cursor rest with
  | case1 cursor =>
    cases h
    exact ⟨cursor, rfl⟩
  | case2 | case3 | case4 | case5 | case7 => cases h
  | case6 _ _ _ _ _ _ _ _ ih | case8 _ _ _ _ _ _ ih => exact ih h

theorem next_of_ended {walker final : Walker} {result : Option (Except Error Event)}
    (h : walker.next = (result, final)) (hended : ∀ event, result ≠ some (.ok event)) :
    final.next = (none, final) := by
  unfold next at h
  split at h
  · rename_i hstopped
    cases h
    rw [next, if_pos hstopped]
  · rename_i hstopped
    match result with
    | none =>
      obtain ⟨last, rfl⟩ := eq_of_look h
      rw [next, if_neg hstopped, look]
      rfl
    | some (.error error) => rw [next, if_pos (stopped_of_look h)]
    | some (.ok event) => exact absurd rfl (hended event)

/-- Once a walk has ended, asking again gives nothing and changes nothing. -/
theorem next_run (walker : Walker) : walker.run.2.next = (none, walker.run.2) := by
  fun_induction run walker with
  | case1 walker final hnext => exact next_of_ended hnext (by simp)
  | case2 walker error final hnext => exact next_of_ended hnext (by simp)
  | case3 walker event after hnext items final hrun ih =>
    rw [hrun] at ih
    exact ih

end Walker

/-! ## What a result says -/

def Error.BlamesCode : Error → Prop
  | .truncatedInstruction _ _ | .operandOutside _ _ _ | .unexpectedConstant _ _ => True
  | _ => False

def Checked {α : Type} (property : α → Prop) : Except Error α → Prop
  | .ok value => property value
  | .error error => error.BlamesCode

section Checked

variable {α β : Type}

theorem Checked.bind {property : α → Prop} {result : β → Prop} {first : Except Error α}
    {second : α → Except Error β} (hfirst : Checked property first)
    (hsecond : ∀ value, property value → Checked result (second value)) :
    Checked result (first >>= second) := by
  cases first with
  | error error => exact hfirst
  | ok value => exact hsecond value hfirst

theorem checked_mapM {f : α → Except Error β} {items : List α}
    (h : ∀ item ∈ items, Checked (fun _ => True) (f item)) :
    Checked (fun _ => True) (items.mapM f) := by
  induction items with
  | nil => trivial
  | cons item items ih =>
    obtain ⟨hitem, hitems⟩ := List.forall_mem_cons.1 h
    rw [List.mapM_cons]
    apply hitem.bind
    intro first _
    apply (ih hitems).bind
    intro rest _
    trivial

end Checked

def Event.InTables (names constants : Nat) : Event → Prop
  | .store _ name => name < names
  | .importing _ _ fromlist module => fromlist < constants ∧ module < names

namespace Walker

section Events

variable (walker : Walker) (offset : Nat) (tail : Bytes)

theorem checked_nameIndex :
    Checked (· < walker.nameCount) (walker.nameIndex offset tail) := by
  unfold nameIndex operand
  split
  · rename_i low high rest
    by_cases h : Word.decode [low, high] < walker.nameCount
    · simp [bind, Except.bind, h, Checked]
    · simp [bind, Except.bind, h, Checked, Error.BlamesCode]
  · trivial

theorem checked_constantIndex :
    Checked (· < walker.constants.size) (walker.constantIndex offset tail) := by
  unfold constantIndex operand
  split
  · rename_i low high rest
    by_cases h : Word.decode [low, high] < walker.constants.size
    · simp [bind, Except.bind, h, Checked]
    · simp [bind, Except.bind, h, Checked, Error.BlamesCode]
  · trivial

theorem checked_styleOf (level : Constant) : Checked (fun _ => True) (styleOf offset level) := by
  unfold styleOf
  split
  · trivial
  · trivial
  · repeat' split
    all_goals trivial

theorem checked_storeEvent :
    Checked (Event.InTables walker.nameCount walker.constants.size)
      (walker.storeEvent offset tail) :=
  (walker.checked_nameIndex offset tail).bind fun _ hname => hname

theorem checked_importEvent :
    Checked (Event.InTables walker.nameCount walker.constants.size)
      (walker.importEvent offset tail) := by
  apply (walker.checked_constantIndex offset tail).bind
  intro level _
  apply (walker.checked_constantIndex (offset + 3) (tail.drop 3)).bind
  intro fromlist hfromlist
  apply (walker.checked_nameIndex (offset + 6) (tail.drop 6)).bind
  intro module hmodule
  apply (checked_styleOf offset (walker.constants.getD level .none)).bind
  intro style _
  exact ⟨hfromlist, hmodule⟩

end Events

/-- A search finds an event within the tables or an error about the code, and keeps the tables. -/
theorem checked_of_look {walker next : Walker} {cursor : Nat} {rest : Bytes}
    {result : Except Error Event} (h : walker.look cursor rest = (some result, next)) :
    Checked (Event.InTables walker.nameCount walker.constants.size) result ∧
      next.nameCount = walker.nameCount ∧ next.constants = walker.constants := by
  fun_induction look walker cursor rest with
  | case1 => cases h
  | case2 cursor opcode tail hstore event hevent | case3 cursor opcode tail hstore error hevent =>
    have hchecked := walker.checked_storeEvent cursor tail
    rw [hevent] at hchecked
    cases h
    exact ⟨hchecked, rfl, rfl⟩
  | case4 cursor opcode tail hstore himport event hevent
  | case5 cursor opcode tail hstore himport error hevent =>
    have hchecked := walker.checked_importEvent cursor tail
    rw [hevent] at hchecked
    cases h
    exact ⟨hchecked, rfl, rfl⟩
  | case6 _ _ _ _ _ _ _ _ ih | case8 _ _ _ _ _ _ ih => exact ih h
  | case7 =>
    cases h
    exact ⟨trivial, rfl, rfl⟩

theorem checked_of_next {walker next : Walker} {result : Except Error Event}
    (h : walker.next = (some result, next)) :
    Checked (Event.InTables walker.nameCount walker.constants.size) result ∧
      next.nameCount = walker.nameCount ∧ next.constants = walker.constants := by
  unfold Walker.next at h
  split at h
  · cases h
  · exact checked_of_look h

theorem checked_of_mem_run {walker : Walker} {item : Item} (h : item ∈ walker.run.1) :
    Checked (Event.InTables walker.nameCount walker.constants.size) item.result := by
  fun_induction run walker with
  | case1 => cases h
  | case2 walker error final hnext =>
    rw [List.mem_singleton.1 h]
    exact (checked_of_next hnext).1
  | case3 walker event next hnext items final hrun ih =>
    obtain ⟨hchecked, hnames, hconstants⟩ := checked_of_next hnext
    rcases List.mem_cons.1 h with rfl | hlater
    · exact hchecked
    · rw [hrun, hnames, hconstants] at ih
      exact ih hlater

end Walker

theorem inTables_of_mem_run {format : Format} {unit : CodeUnit} {item : Walker.Item} {event : Event}
    (hitem : item ∈ (Walker.start format unit).run.1) (hevent : item.result = .ok event) :
    event.InTables unit.names.length unit.consts.length := by
  have hchecked := Walker.checked_of_mem_run hitem
  rw [hevent] at hchecked
  exact hchecked

end ImportAtlas
