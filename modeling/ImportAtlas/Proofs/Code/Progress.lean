import ImportAtlas.Proofs.Code.Walk

/-!
# Walks stay inside the buffer

Nothing is asked here of the opcodes: a format may give the instruction that
loads a constant a number without an operand, or two instructions one number.
What one call does to the cursor is said once, in `Advances`; that the cursor
never moves back or leaves the buffer, that events do not overlap and that a
walk ends follows for all calls by induction on their number.
-/

namespace ImportAtlas

def Event.width : Event → Nat
  | .store _ _ => Walker.argumentWidth
  | .importing _ _ _ _ => Walker.importWidth

theorem Event.width_pos (event : Event) : 0 < event.width := by
  cases event <;> simp [width, Walker.argumentWidth, Walker.importWidth]

def Error.offset? : Error → Option Nat
  | .truncatedInstruction offset _ | .operandOutside offset _ _ | .unexpectedConstant offset _ =>
    some offset
  | _ => none

def Format.ImportAt (format : Format) (code : Bytes) (position : Nat) : Prop :=
  code[position]? = some format.loadConst ∧ code[position + 3]? = some format.loadConst ∧
    code[position + 6]? = some format.importName

/-- An error about the instruction at `position` of a buffer that starts at `base`, or about the
second or third instruction of an import there. -/
def Error.Blames (format : Format) (base : Nat) (code : Bytes) (position : Nat) (error : Error) :
    Prop :=
  error.offset? = some (base + position) ∨ format.ImportAt code position ∧
    (error.offset? = some (base + position + 3) ∨ error.offset? = some (base + position + 6))

theorem Error.blames_drop {format : Format} {base width position : Nat} {code : Bytes}
    {error : Error} :
    error.Blames format (base + width) (code.drop width) position ↔
      error.Blames format base code (width + position) := by
  simp only [Blames, Format.ImportAt, List.getElem?_drop, Nat.add_assoc]

def Gives {α : Type} (good : α → Prop) (bad : Error → Prop) : Except Error α → Prop
  | .ok value => good value
  | .error error => bad error

theorem Gives.bind {α β : Type} {good : α → Prop} {result : β → Prop} {bad worse : Error → Prop}
    {first : Except Error α} {second : α → Except Error β} (hfirst : Gives good bad first)
    (hworse : ∀ error, bad error → worse error)
    (hsecond : ∀ value, good value → Gives result worse (second value)) :
    Gives result worse (first >>= second) := by
  cases first with
  | error error => exact hworse error hfirst
  | ok value => exact hsecond value hfirst

namespace Walker

section Events

variable (walker : Walker) (offset : Nat) (tail : Bytes)

theorem gives_operand :
    Gives (fun _ => 2 ≤ tail.length) (·.offset? = some offset) (walker.operand offset tail) := by
  match tail with
  | [] | [_] => exact rfl
  | _ :: _ :: rest =>
    change 2 ≤ rest.length + 2
    omega

theorem gives_nameIndex :
    Gives (fun _ => 2 ≤ tail.length) (·.offset? = some offset) (walker.nameIndex offset tail) := by
  apply (walker.gives_operand offset tail).bind (fun _ h => h)
  intro index hlength
  split
  · exact hlength
  · exact rfl

theorem gives_constantIndex :
    Gives (fun _ => 2 ≤ tail.length) (·.offset? = some offset)
      (walker.constantIndex offset tail) := by
  apply (walker.gives_operand offset tail).bind (fun _ h => h)
  intro index hlength
  split
  · exact hlength
  · exact rfl

theorem gives_styleOf (level : Constant) :
    Gives (fun _ => True) (·.offset? = some offset) (styleOf offset level) := by
  unfold styleOf
  split
  · trivial
  · exact rfl
  · split
    · trivial
    split
    · trivial
    split
    · exact rfl
    split
    · trivial
    · exact rfl

theorem gives_storeEvent :
    Gives (fun event => event.offset = offset ∧ event.width = argumentWidth ∧ 2 ≤ tail.length)
      (·.offset? = some offset) (walker.storeEvent offset tail) := by
  apply (walker.gives_nameIndex offset tail).bind (fun _ h => h)
  intro name hlength
  exact ⟨rfl, rfl, hlength⟩

theorem gives_importEvent :
    Gives (fun event => event.offset = offset ∧ event.width = importWidth ∧ 8 ≤ tail.length)
      (fun error => error.offset? = some offset ∨ error.offset? = some (offset + 3) ∨
        error.offset? = some (offset + 6)) (walker.importEvent offset tail) := by
  apply (walker.gives_constantIndex offset tail).bind (fun _ h => .inl h)
  intro level _
  apply (walker.gives_constantIndex (offset + 3) (tail.drop 3)).bind (fun _ h => .inr (.inl h))
  intro fromlist _
  apply (walker.gives_nameIndex (offset + 6) (tail.drop 6)).bind (fun _ h => .inr (.inr h))
  intro module hlength
  apply (gives_styleOf offset (walker.constants.getD level .none)).bind (fun _ h => .inl h)
  intro style _
  rw [List.length_drop] at hlength
  exact ⟨rfl, rfl, by omega⟩

end Events

/-! ## One search -/

/-- Where a search from `cursor` over `rest` ends: behind the last byte, behind the first event, or
before what an error is about. -/
inductive Found (walker : Walker) (cursor : Nat) (rest : Bytes) :
    Option (Except Error Event) × Walker → Prop where
  | nothing : Found walker cursor rest (none, walker.moveTo cursor rest.length rest)
  | event (skipped : Nat) {event : Event} (hoffset : event.offset = cursor + skipped)
      (hinside : skipped + event.width ≤ rest.length) :
      Found walker cursor rest
        (some (.ok event), walker.moveTo cursor (skipped + event.width) rest)
  | error (skipped : Nat) {error : Error} (hinside : skipped < rest.length)
      (hblames : error.Blames walker.format cursor rest skipped) :
      Found walker cursor rest
        (some (.error error), walker.stopAt (cursor + skipped) (rest.drop skipped))

theorem Found.skip {walker : Walker} {cursor : Nat} {rest : Bytes}
    {outcome : Option (Except Error Event) × Walker} (width : Nat) (hwidth : width ≤ rest.length)
    (h : Found walker (cursor + width) (rest.drop width) outcome) :
    Found walker cursor rest outcome := by
  have hmove : ∀ further, walker.moveTo (cursor + width) further (rest.drop width) =
      walker.moveTo cursor (width + further) rest := by
    intro further
    simp [moveTo, Nat.add_assoc]
  have hlength : (rest.drop width).length = rest.length - width := List.length_drop
  cases h with
  | nothing =>
    rw [hmove, hlength, Nat.add_sub_cancel' hwidth]
    exact .nothing
  | event skipped hoffset hinside =>
    rw [hmove, ← Nat.add_assoc]
    apply Found.event (width + skipped)
    · omega
    · omega
  | error skipped hinside hblames =>
    rw [Nat.add_assoc, List.drop_drop]
    apply Found.error (width + skipped)
    · omega
    · exact Error.blames_drop.1 hblames

theorem found_of_store (walker : Walker) (cursor : Nat) (opcode : UInt8) (tail : Bytes) :
    Found walker cursor (opcode :: tail)
      (walker.found cursor argumentWidth (opcode :: tail) (walker.storeEvent cursor tail)) := by
  have hgives := walker.gives_storeEvent cursor tail
  cases hevent : walker.storeEvent cursor tail with
  | ok event =>
    rw [hevent] at hgives
    obtain ⟨hoffset, hwidth, hlength⟩ := hgives
    have hinside : 0 + event.width ≤ (opcode :: tail).length := by
      simp only [hwidth, argumentWidth, List.length_cons]
      omega
    have hfound : Found walker cursor (opcode :: tail) _ := .event 0 hoffset hinside
    rwa [hwidth, Nat.zero_add] at hfound
  | error error =>
    rw [hevent] at hgives
    exact .error 0 (by simp) (.inl hgives)

theorem found_of_import (walker : Walker) (cursor : Nat) {opcode : UInt8} {tail : Bytes}
    (h : walker.startsImport opcode tail = true) :
    Found walker cursor (opcode :: tail)
      (walker.found cursor importWidth (opcode :: tail) (walker.importEvent cursor tail)) := by
  have hgives := walker.gives_importEvent cursor tail
  cases hevent : walker.importEvent cursor tail with
  | ok event =>
    rw [hevent] at hgives
    obtain ⟨hoffset, hwidth, hlength⟩ := hgives
    have hinside : 0 + event.width ≤ (opcode :: tail).length := by
      simp only [hwidth, importWidth, List.length_cons]
      omega
    have hfound : Found walker cursor (opcode :: tail) _ := .event 0 hoffset hinside
    rwa [hwidth, Nat.zero_add] at hfound
  | error error =>
    rw [hevent] at hgives
    have himport : walker.format.ImportAt (opcode :: tail) 0 := by
      simp only [startsImport, Bool.and_eq_true, beq_iff_eq] at h
      exact ⟨congrArg some h.1.1, h.1.2, h.2⟩
    refine .error 0 (by simp) ?_
    rcases hgives with hlevel | hlater
    · exact .inl hlevel
    · exact .inr ⟨himport, hlater⟩

theorem found_look (walker : Walker) (cursor : Nat) (rest : Bytes) :
    Found walker cursor rest (walker.look cursor rest) := by
  fun_induction look walker cursor rest with
  | case1 cursor => exact .nothing
  | case2 cursor opcode tail hstore event hevent | case3 cursor opcode tail hstore error hevent =>
    have hfound := found_of_store walker cursor opcode tail
    rwa [hevent] at hfound
  | case4 cursor opcode tail hstore himport event hevent
  | case5 cursor opcode tail hstore himport error hevent =>
    have hfound := found_of_import walker cursor himport
    rwa [hevent] at hfound
  | case6 cursor opcode hstore hargument low high rest himport ih =>
    exact .skip argumentWidth (by simp [argumentWidth]) ih
  | case7 cursor opcode tail hstore himport hargument hshort =>
    exact .error 0 (by simp) (.inl rfl)
  | case8 cursor opcode tail hstore himport hargument ih =>
    exact .skip 1 (by simp) ih

/-! ## One call -/

/-- A walker over a unit whose cursor is in the buffer, with the bytes behind it ahead. -/
structure Stands (format : Format) (unit : CodeUnit) (walker : Walker) : Prop where
  format : walker.format = format
  rest : walker.rest = unit.code.drop walker.cursor
  within : walker.cursor ≤ unit.code.length

theorem stands_start (format : Format) (unit : CodeUnit) :
    Stands format unit (start format unit) :=
  ⟨rfl, rfl, Nat.zero_le _⟩

/-- What a call of `next` gives, and where it leaves the walker. -/
structure Advances (format : Format) (unit : CodeUnit) (walker : Walker)
    (result : Option (Except Error Event)) (after : Walker) : Prop where
  stands : Stands format unit after
  cursor_le : walker.cursor ≤ after.cursor
  event : ∀ event, result = some (.ok event) →
    walker.cursor ≤ event.offset ∧ event.offset + event.width = after.cursor
  error : ∀ error, result = some (.error error) →
    after.cursor < unit.code.length ∧ error.Blames format 0 unit.code after.cursor
  running : (∀ error, result ≠ some (.error error)) → after.stopped = walker.stopped
  done : result = none → walker.stopped = false → after.cursor = unit.code.length

theorem Stands.advances {format : Format} {unit : CodeUnit} {walker after : Walker}
    {result : Option (Except Error Event)} (h : Stands format unit walker)
    (hnext : walker.next = (result, after)) : Advances format unit walker result after := by
  have hwithin := h.within
  have hlength : walker.rest.length = unit.code.length - walker.cursor := by
    rw [h.rest, List.length_drop]
  have hstands : ∀ skipped stopped, walker.cursor + skipped ≤ unit.code.length →
      Stands format unit { walker with
        cursor := walker.cursor + skipped, rest := walker.rest.drop skipped, stopped } := by
    intro skipped stopped hskipped
    refine ⟨h.format, ?_, hskipped⟩
    rw [h.rest, List.drop_drop]
  unfold next at hnext
  split at hnext
  · rename_i hstopped
    cases hnext
    exact ⟨h, Nat.le_refl _, by simp, by simp, fun _ => rfl, by simp [hstopped]⟩
  · have hfound := found_look walker walker.cursor walker.rest
    rw [hnext] at hfound
    cases hfound with
    | nothing =>
      refine ⟨hstands _ _ (by omega), Nat.le_add_right _ _, by simp, by simp, fun _ => rfl, ?_⟩
      intro _ _
      change walker.cursor + walker.rest.length = unit.code.length
      omega
    | event skipped hoffset hinside =>
      refine ⟨hstands _ _ (by omega), Nat.le_add_right _ _, ?_, by simp, fun _ => rfl, by simp⟩
      intro event hevent
      cases hevent
      change _ ∧ _ = walker.cursor + (skipped + _)
      omega
    | error skipped hinside hblames =>
      refine ⟨hstands _ _ (by omega), Nat.le_add_right _ _, by simp, ?_, by simp, by simp⟩
      intro error herror
      cases herror
      constructor
      · change walker.cursor + skipped < unit.code.length
        omega
      · rw [h.format, h.rest] at hblames
        apply Error.blames_drop.1
        rwa [Nat.zero_add]

/-! ## All calls -/

def after (walker : Walker) : Nat → Walker
  | 0 => walker
  | calls + 1 => walker.next.2.after calls

/-- What a call gives; calls are counted from zero. -/
def answer (walker : Walker) (call : Nat) : Option (Except Error Event) :=
  (walker.after call).next.1

theorem after_succ (walker : Walker) (calls : Nat) :
    walker.after (calls + 1) = (walker.after calls).next.2 := by
  induction calls generalizing walker with
  | zero => rfl
  | succ calls ih => exact ih walker.next.2

theorem next_after (walker : Walker) (call : Nat) :
    (walker.after call).next = (walker.answer call, walker.after (call + 1)) := by
  rw [after_succ]
  rfl

theorem after_of_ended {walker final : Walker} {result : Option (Except Error Event)}
    (h : walker.next = (result, final)) (hended : ∀ event, result ≠ some (.ok event))
    (calls : Nat) : walker.after (calls + 1) = final := by
  induction calls with
  | zero => rw [after, h, after]
  | succ calls ih => rw [after_succ, ih, next_of_ended h hended]

theorem answer_of_ended {walker final : Walker} {result : Option (Except Error Event)}
    (h : walker.next = (result, final)) (hended : ∀ event, result ≠ some (.ok event))
    (call : Nat) : walker.answer (call + 1) = none := by
  rw [answer, after_of_ended h hended, next_of_ended h hended]

/-- The items of a run are the answers to one call after another, up to the first that is none. -/
theorem getElem?_run (walker : Walker) (call : Nat) :
    walker.run.1[call]? = (walker.answer call).map fun result =>
      ⟨result, (walker.after (call + 1)).cursor⟩ := by
  fun_induction run walker generalizing call with
  | case1 walker final hnext =>
    have hnone := answer_of_ended hnext (by simp)
    cases call with
    | zero => simp [answer, after, hnext]
    | succ call => simp [hnone]
  | case2 walker error final hnext =>
    have hnone := answer_of_ended hnext (by simp)
    cases call with
    | zero => simp [answer, after, hnext]
    | succ call => simp [hnone]
  | case3 walker event next hnext items final hrun ih =>
    rw [hrun] at ih
    cases call with
    | zero => simp [answer, after, hnext]
    | succ call => simpa [answer, after, hnext] using ih call

theorem getElem?_results (walker : Walker) (call : Nat) :
    walker.results[call]? = walker.answer call := by
  rw [results, List.getElem?_map, getElem?_run, Option.map_map]
  exact Option.map_id'

theorem run_final (walker : Walker) : walker.run.2 = walker.after (walker.run.1.length + 1) := by
  fun_induction run walker with
  | case1 walker final hnext => simp [after, hnext]
  | case2 walker error final hnext => exact (after_of_ended hnext (by simp) 1).symm
  | case3 walker event next hnext items final hrun ih =>
    rw [hrun] at ih
    rw [List.length_cons, after, hnext]
    exact ih

section Calls

variable (format : Format) (unit : CodeUnit)

theorem stands_after (calls : Nat) : Stands format unit ((start format unit).after calls) := by
  induction calls with
  | zero => exact stands_start format unit
  | succ calls ih => exact (ih.advances (next_after _ calls)).stands

theorem advances_after (call : Nat) :
    Advances format unit ((start format unit).after call) ((start format unit).answer call)
      ((start format unit).after (call + 1)) :=
  (stands_after format unit call).advances (next_after _ call)

theorem cursor_mono {call later : Nat} (h : call ≤ later) :
    ((start format unit).after call).cursor ≤ ((start format unit).after later).cursor := by
  induction h with
  | refl => exact Nat.le_refl _
  | step _ ih => exact Nat.le_trans ih (advances_after format unit _).cursor_le

variable {format unit}

theorem offset_lt_of_lt {call later : Nat} {event next : Event}
    (hevent : (start format unit).answer call = some (.ok event))
    (hnext : (start format unit).answer later = some (.ok next)) (h : call < later) :
    event.offset < next.offset := by
  have hwidth := event.width_pos
  have hend := ((advances_after format unit call).event event hevent).2
  have hbegin := ((advances_after format unit later).event next hnext).1
  have hmono : ((start format unit).after (call + 1)).cursor ≤ _ := cursor_mono format unit h
  omega

theorem pairwise_offset {events : List Event}
    (h : (start format unit).results = events.map .ok) :
    events.Pairwise fun event next => event.offset < next.offset := by
  have hanswer : ∀ index (hindex : index < events.length),
      (start format unit).answer index = some (.ok events[index]) := by
    intro index hindex
    rw [← getElem?_results, h, List.getElem?_map, List.getElem?_eq_getElem hindex]
    rfl
  rw [List.pairwise_iff_getElem]
  intro first second hfirst hsecond hlt
  exact offset_lt_of_lt (hanswer first hfirst) (hanswer second hsecond) hlt

theorem exists_event_before {call : Nat} (h : (start format unit).answer (call + 1) ≠ none) :
    ∃ event, (start format unit).answer call = some (.ok event) := by
  match hresult : (start format unit).answer call with
  | some (.ok event) => exact ⟨event, rfl⟩
  | none | some (.error _) =>
    have hnext := next_of_ended (next_after (start format unit) call) (by simp [hresult])
    rw [answer, hnext] at h
    exact absurd rfl h

theorem exists_event_of_lt {call later : Nat} (h : (start format unit).answer later ≠ none)
    (hlt : call < later) : ∃ event, (start format unit).answer call = some (.ok event) := by
  induction hlt with
  | refl => exact exists_event_before h
  | step _ ih =>
    obtain ⟨event, hevent⟩ := exists_event_before h
    apply ih
    simp [hevent]

/-- Each event moves the cursor, so there are at most as many answers as bytes. -/
theorem lt_length_of_answer {call : Nat} (h : (start format unit).answer call ≠ none) :
    call < unit.code.length := by
  have hbefore : call ≤ ((start format unit).after call).cursor := by
    induction call with
    | zero => exact Nat.zero_le _
    | succ call ih =>
      obtain ⟨event, hevent⟩ := exists_event_before h
      have hle := ih (by simp [hevent])
      have hwidth := event.width_pos
      have hmove := (advances_after format unit call).event event hevent
      omega
  have hadvances := advances_after format unit call
  have hcursor := hadvances.cursor_le
  match hresult : (start format unit).answer call with
  | none => exact absurd hresult h
  | some (.error error) =>
    have herror := (hadvances.error error hresult).1
    omega
  | some (.ok event) =>
    have hwidth := event.width_pos
    have hwithin := hadvances.stands.within
    have hmove := hadvances.event event hresult
    omega

theorem answer_length_run :
    (start format unit).answer (start format unit).run.1.length = none := by
  have hitem := getElem?_run (start format unit) (start format unit).run.1.length
  rw [List.getElem?_eq_none (Nat.le_refl _)] at hitem
  exact Option.map_eq_none_iff.1 hitem.symm

theorem length_run_le : (start format unit).run.1.length ≤ unit.code.length := by
  apply Nat.le_of_not_lt
  intro hlt
  have hitem := getElem?_run (start format unit) unit.code.length
  rw [List.getElem?_eq_getElem hlt] at hitem
  apply Nat.lt_irrefl unit.code.length
  apply lt_length_of_answer
  intro hnone
  rw [hnone] at hitem
  cases hitem

theorem cursor_run_final
    (h : ∀ call error, (start format unit).answer call ≠ some (.error error)) :
    (start format unit).run.2.cursor = unit.code.length := by
  have hrunning : ∀ calls, ((start format unit).after calls).stopped = false := by
    intro calls
    induction calls with
    | zero => rfl
    | succ calls ih => exact ((advances_after format unit calls).running (h calls)).trans ih
  rw [run_final]
  exact (advances_after format unit _).done answer_length_run (hrunning _)

theorem inTables_of_answer {call : Nat} {event : Event}
    (h : (start format unit).answer call = some (.ok event)) :
    event.InTables unit.names.length unit.consts.length := by
  have hitem := getElem?_run (start format unit) call
  rw [h] at hitem
  exact inTables_of_mem_run (List.mem_of_getElem? hitem) rfl

end Calls

structure SafeWalk (format : Format) (unit : CodeUnit) : Prop where
  /-- A walk ends: its items are the answers to one call after another, and there is at most one
  for each byte. -/
  items : ∀ call, (start format unit).run.1[call]? =
    ((start format unit).answer call).map fun result =>
      ⟨result, ((start format unit).after (call + 1)).cursor⟩
  length_le : (start format unit).run.1.length ≤ unit.code.length
  /-- No call moves the cursor back or beyond the buffer. -/
  cursor : ∀ call,
    ((start format unit).after call).cursor ≤ ((start format unit).after (call + 1)).cursor ∧
      ((start format unit).after (call + 1)).cursor ≤ unit.code.length
  /-- An event is inside the buffer, its indices are inside the tables, and later events have
  larger offsets. -/
  event : ∀ call event, (start format unit).answer call = some (.ok event) →
    event.offset + event.width ≤ unit.code.length ∧
      event.InTables unit.names.length unit.consts.length ∧
      ∀ later next, call < later → (start format unit).answer later = some (.ok next) →
        event.offset < next.offset
  /-- An error leaves the cursor before what it is about, and nothing comes after it. -/
  error : ∀ call error, (start format unit).answer call = some (.error error) →
    ((start format unit).after (call + 1)).cursor < unit.code.length ∧
      error.Blames format 0 unit.code ((start format unit).after (call + 1)).cursor ∧
      ∀ later, call < later → (start format unit).answer later = none
  /-- Without an error the walk goes to the end of the buffer. -/
  final : (∀ call error, (start format unit).answer call ≠ some (.error error)) →
    (start format unit).run.2.cursor = unit.code.length

/-- Walks are safe over every unit, also by opcodes of no supported format. -/
theorem safeWalk (format : Format) (unit : CodeUnit) : SafeWalk format unit where
  items := getElem?_run _
  length_le := length_run_le
  cursor call := ⟨(advances_after format unit call).cursor_le,
    (stands_after format unit (call + 1)).within⟩
  event := by
    intro call event hevent
    have hadvances := advances_after format unit call
    have hwithin := hadvances.stands.within
    have hend := (hadvances.event event hevent).2
    refine ⟨by omega, inTables_of_answer hevent, ?_⟩
    intro later next hlater hnext
    exact offset_lt_of_lt hevent hnext hlater
  error := by
    intro call error herror
    have hadvances := (advances_after format unit call).error error herror
    refine ⟨hadvances.1, hadvances.2, ?_⟩
    intro later hlater
    by_cases hanswer : (start format unit).answer later = none
    · exact hanswer
    · obtain ⟨event, hevent⟩ := exists_event_of_lt hanswer hlater
      rw [herror] at hevent
      cases hevent
  final := cursor_run_final

end Walker

end ImportAtlas
