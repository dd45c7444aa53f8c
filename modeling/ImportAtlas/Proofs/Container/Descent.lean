import ImportAtlas.Proofs.Container.Bind

/-!
# Decoding by recursive descent

The textbook decoder: an object is read by one function that calls itself for
the members, one level deeper. It says what decoding means without a stack, and
everything that is proved about decoding is proved about it. The main statement
is that the decoder that runs, which keeps open containers on a stack of its
own, gives the same outcome on every stream.

What carries the comparison is `resume`, the rest of a container of which some
members have been read already: a stack of open containers stands for resuming
the topmost, handing its value to the one below and resuming that.
-/

namespace ImportAtlas.Container

/-- A read of which every success consumes at least one byte. -/
structure Consumer (α : Type) where
  read : Reader α
  consumes : ∀ {stream next : Stream} {value : α}, read stream = .ok (value, next) →
    next.rest.length < stream.rest.length

theorem Consumer.shrinks {α : Type} (consumer : Consumer α) : Reader.Shrinks consumer.read :=
  fun _ _ _ h => Nat.le_of_lt (consumer.consumes h)

namespace Descent

open Reader

def members (member : Consumer Constant) : Nat → Reader (List Constant)
  | 0 => return []
  | count + 1 => do
    let first ← member.read
    return first :: (← members member count)

/-- Keys with their values from here on, until a null stands where a key would start. -/
def entriesFrom (member : Consumer Constant) (stream : Stream) :
    Except Error (List (Constant × Constant) × Stream) :=
  match _hskip : skip? Tag.null.toByte stream with
  | .error error => .error error
  | .ok (true, next) => .ok ([], next)
  | .ok (false, start) =>
    match _hkey : member.read start with
    | .error error => .error error
    | .ok (key, afterKey) =>
      match _hvalue : member.read afterKey with
      | .error error => .error error
      | .ok (value, afterValue) =>
        match entriesFrom member afterValue with
        | .error error => .error error
        | .ok (rest, final) => .ok ((key, value) :: rest, final)
termination_by stream.rest.length
decreasing_by
  have hstart := shrinks_skip? _ _ _ _ _hskip
  have hafterKey := member.consumes _hkey
  have hafterValue := member.consumes _hvalue
  omega

def entries (member : Consumer Constant) : Reader (List (Constant × Constant)) :=
  entriesFrom member

/-- What follows the type code of an object whose members are read by `member`. -/
def body (marker : UInt16) (member : Consumer Constant) : Tag → Reader Constant
  | .null => fail .nullObject
  | .none => return .none
  | .false => return .bool false
  | .true => return .bool true
  | .stopIteration => return .stopIteration
  | .ellipsis => return .ellipsis
  | .int => return .int (← int32).toInt64
  | .int64 => return .int (← int64)
  | .textFloat => return .float (← textFloat)
  | .float => return .float (← binary64)
  | .textComplex => do
    let real ← textFloat
    return .complex real (← textFloat)
  | .complex => do
    let real ← binary64
    return .complex real (← binary64)
  | .long => long
  | .string form => return .str (Utf8.decodeLossy (← stringBody form))
  | .unicode => do
    let count ← length
    return .unicode (Utf8.decodeLossy (← take count))
  | .sequence kind => do
    let count ← length
    return kind.build (← members member count)
  | .dict => return .dict (← entries member)
  | .code => do
    let head ← codeHead
    let consts ← member.read
    let names ← member.read
    let varnames ← member.read
    let freevars ← member.read
    let cellvars ← member.read
    return .code (← codeTail marker head consts names varnames freevars cellvars)

theorem shrinks_members (member : Consumer Constant) (count : Nat) :
    Shrinks (members member count) := by
  induction count with
  | zero => exact shrinks_pure _
  | succ count ih => exact member.shrinks.bind fun _ => ih.map _

theorem entries_eq (member : Consumer Constant) :
    entries member = do
      if ← skip? Tag.null.toByte then return []
      else
        let key ← member.read
        let value ← member.read
        return (key, value) :: (← entries member) := by
  funext stream
  rw [entries, entriesFrom]
  split
  · rename_i hskip
    rw [bind_of_error hskip]
  · rename_i hskip
    rw [bind_of_ok hskip]
    rfl
  · rename_i hskip
    rw [bind_of_ok hskip]
    split
    · rename_i hkey
      exact (bind_of_error hkey).symm
    · rename_i hkey
      split
      · rename_i hvalue
        exact ((bind_of_ok hkey).trans (bind_of_error hvalue)).symm
      · rename_i hvalue
        refine Eq.trans ?_ ((bind_of_ok hkey).trans (bind_of_ok hvalue)).symm
        split
        · rename_i hrest
          exact (bind_of_error hrest).symm
        · rename_i hrest
          refine Eq.trans ?_ (bind_of_ok hrest).symm
          rfl

theorem shrinks_entries (member : Consumer Constant) : Shrinks (entries member) := by
  intro stream value next h
  change entriesFrom member stream = _ at h
  fun_induction entriesFrom member stream generalizing value next with
  | case1 | case3 | case4 | case5 => cases h
  | case2 stream after hskip =>
    cases h
    exact shrinks_skip? _ _ _ _ hskip
  | case6 stream start hskip key afterKey hkey item afterItem hitem rest final hrest ih =>
    cases h
    have hstart := shrinks_skip? _ _ _ _ hskip
    have hafterKey := member.consumes hkey
    have hafterItem := member.consumes hitem
    have hfinal := ih _ _ hrest
    omega

theorem shrinks_body (marker : UInt16) (member : Consumer Constant) (tag : Tag) :
    Shrinks (body marker member tag) := by
  cases tag with
  | null => exact shrinks_fail _
  | none | «false» | «true» | stopIteration | ellipsis => exact shrinks_pure _
  | int => exact shrinks_int32.map _
  | int64 => exact shrinks_int64.map _
  | textFloat => exact shrinks_textFloat.map _
  | float => exact shrinks_binary64.map _
  | textComplex => exact shrinks_textFloat.bind fun _ => shrinks_textFloat.map _
  | complex => exact shrinks_binary64.bind fun _ => shrinks_binary64.map _
  | long => exact shrinks_long
  | string form => exact (shrinks_stringBody form).map _
  | unicode => exact shrinks_length.bind fun _ => (shrinks_take _).map _
  | sequence kind => exact shrinks_length.bind fun _ => (shrinks_members member _).map _
  | dict => exact (shrinks_entries member).map _
  | code =>
    exact shrinks_codeHead.bind fun _ => member.shrinks.bind fun _ => member.shrinks.bind fun _ =>
      member.shrinks.bind fun _ => member.shrinks.bind fun _ => member.shrinks.bind fun _ =>
      (shrinks_codeTail _ _ _ _ _ _ _).map _

def readLevel (marker : UInt16) (member : Consumer Constant) : Reader Constant := do
  let code ← byte
  match Tag.ofByte? code with
  | some tag => body marker member tag
  | none => fail (.unknownCode code)

theorem length_of_readLevel {marker : UInt16} {member : Consumer Constant} {stream next : Stream}
    {value : Constant} (h : readLevel marker member stream = .ok (value, next)) :
    next.rest.length < stream.rest.length := by
  obtain ⟨code, after, hbyte, hrest⟩ := bind_eq_ok h
  have hlength := length_of_byte hbyte
  have hnext : next.rest.length ≤ after.rest.length := by
    cases htag : Tag.ofByte? code with
    | none =>
      rw [htag] at hrest
      exact shrinks_fail _ _ _ _ hrest
    | some tag =>
      rw [htag] at hrest
      exact shrinks_body _ _ _ _ _ _ hrest
  omega

def level (marker : UInt16) (member : Consumer Constant) : Consumer Constant where
  read := readLevel marker member
  consumes := length_of_readLevel

def tooDeep : Consumer Constant where
  read := fail .tooDeep
  consumes := fun h => absurd h not_fail_eq_ok

/-- One object at `depth`: its members stand one level deeper, and no object at the limit. -/
def objectAt (marker : UInt16) (depth : Nat) : Consumer Constant :=
  if depth < maxDepth then level marker (objectAt marker (depth + 1)) else tooDeep
termination_by maxDepth - depth

theorem objectAt_of_lt (marker : UInt16) {depth : Nat} (hdepth : depth < maxDepth) :
    objectAt marker depth = level marker (objectAt marker (depth + 1)) := by
  rw [objectAt, if_pos hdepth]

theorem objectAt_of_ge (marker : UInt16) {depth : Nat} (hdepth : maxDepth ≤ depth) :
    objectAt marker depth = tooDeep := by
  rw [objectAt, if_neg (by omega)]

/-! ## Containers that are partly read -/

def tableCount : Nat := 5

def codeOf (marker : UInt16) (head : CodeHead) : List Constant → Reader Constant
  | [consts, names, varnames, freevars, cellvars] => do
    return .code (← codeTail marker head consts names varnames freevars cellvars)
  | _ => fail .nullObject

/-- The rest of a container of which some members have been read. -/
def resume (marker : UInt16) (member : Consumer Constant) : Frame → Reader Constant
  | .sequence kind missing items => return kind.build (items.toList ++ (← members member missing))
  | .dict pairs none => return .dict (pairs.toList ++ (← entries member))
  | .dict pairs (some key) => do
    let value ← member.read
    return .dict (pairs.toList ++ (key, value) :: (← entries member))
  | .code head tables => do
    codeOf marker head (tables ++ (← members member (tableCount - tables.length)))

/-- A container that has been opened has no more tables than a code object. -/
def Sound : Frame → Prop
  | .code _ tables => tables.length ≤ tableCount
  | _ => True

/-- A container that waits for a member lacks a table, if it is a code object. -/
def Waiting : Frame → Prop
  | .code _ tables => tables.length < tableCount
  | _ => True

theorem Waiting.sound_accept {frame : Frame} (h : Waiting frame) (value : Constant) :
    Sound (frame.accept value) := by
  cases frame with
  | code head tables =>
    simp only [Waiting] at h
    simp only [Frame.accept, Sound, List.length_append, List.length_singleton]
    omega
  | sequence kind missing items => trivial
  | dict pairs key => cases key <;> trivial

theorem waiting_of_close {marker : UInt16} {frame : Frame} {stream next : Stream}
    (hsound : Sound frame) (hclose : frame.close marker stream = .ok (none, next)) :
    Waiting frame := by
  cases frame with
  | sequence kind missing items => trivial
  | dict pairs key => trivial
  | code head tables =>
    rcases Nat.lt_or_ge tables.length tableCount with hlt | hge
    · exact hlt
    · have hfull : tables.length = 5 := Nat.le_antisymm hsound hge
      match tables, hfull with
      | [consts, names, varnames, freevars, cellvars], _ =>
        obtain ⟨unit, after, _, hnone⟩ := bind_eq_ok hclose
        cases (pure_eq_ok hnone).1

/-- Resuming a container closes it, or reads one more member and resumes what that gives. -/
theorem resume_eq (marker : UInt16) (member : Consumer Constant) {frame : Frame}
    (hsound : Sound frame) :
    resume marker member frame = (do
      match ← frame.close marker with
      | some value => return value
      | none => resume marker member (frame.accept (← member.read))) := by
  cases frame with
  | sequence kind missing items =>
    cases missing with
    | zero => simp [resume, members, Frame.close]
    | succ missing => simp [resume, members, Frame.close, Frame.accept]
  | dict pairs key =>
    cases key with
    | none =>
      rw [resume, entries_eq]
      simp only [Frame.close, Frame.accept, resume, bind_assoc, pure_bind]
      congr 1
      funext ended
      cases ended <;> simp
    | some key => simp [resume, Frame.close, Frame.accept]
  | code head tables =>
    -- With fewer tables than five the frame waits, with five it is closed by the rest.
    rcases Nat.lt_or_ge tables.length tableCount with hlt | hge
    · have hclose : (Frame.code head tables).close marker = pure none := by
        match tables, hlt with
        | [], _ | [_], _ | [_, _], _ | [_, _, _], _ | [_, _, _, _], _ => rfl
      have hmissing : tableCount - tables.length = tableCount - (tables.length + 1) + 1 := by
        omega
      simp [resume, hclose, hmissing, members, Frame.accept]
    · have hfull : tables.length = 5 := Nat.le_antisymm hsound hge
      match tables, hfull with
      | [consts, names, varnames, freevars, cellvars], _ =>
        simp [resume, members, codeOf, Frame.close, tableCount]

def finish (marker : UInt16) (member : Consumer Constant) : Opened → Reader Constant
  | .value value => return value
  | .frame frame => resume marker member frame

theorem body_eq (marker : UInt16) (member : Consumer Constant) (tag : Tag) :
    body marker member tag = openTagged tag >>= finish marker member := by
  cases tag with
  | null => rfl
  | code => simp [body, openTagged, finish, resume, members, tableCount, codeOf]
  | sequence kind => simp [body, openTagged, finish, resume]
  | dict => simp [body, openTagged, finish, resume]
  | _ => simp [body, openTagged, finish]

theorem level_eq (marker : UInt16) (member : Consumer Constant) :
    (level marker member).read = openObject >>= finish marker member := by
  rw [openObject, bind_assoc]
  refine bind_congr fun code => ?_
  cases Tag.ofByte? code with
  | none => rfl
  | some tag => exact body_eq marker member tag

def SoundOpened : Opened → Prop
  | .value _ => True
  | .frame frame => Sound frame

theorem yields_openTagged (tag : Tag) : Yields (openTagged tag) SoundOpened := by
  cases tag with
  | null => exact yields_fail _ _
  | none | «false» | «true» | stopIteration | ellipsis | dict => exact yields_pure trivial
  | textComplex | complex | unicode =>
    exact yields_bind fun _ => yields_bind fun _ => yields_pure trivial
  | code => exact yields_bind fun _ => yields_pure (Nat.zero_le _)
  | _ => exact yields_bind fun _ => yields_pure trivial

theorem yields_openObject : Yields openObject SoundOpened := by
  refine yields_bind fun code => ?_
  cases Tag.ofByte? code with
  | none => exact yields_fail _ _
  | some tag => exact yields_openTagged tag

/-! ## The stack of open containers -/

/-- Hands a value to the topmost container, and so on down to the object below all of them. -/
def unwind (marker : UInt16) : List Frame → Constant → Reader Constant
  | [], value => return value
  | frame :: below, value => do
    unwind marker below
      (← resume marker (objectAt marker (below.length + 1)) (frame.accept value))

def proceed (marker : UInt16) : Progress → Reader Constant
  | .finished value => return value
  | .pending stack => run marker stack

/-- Decoding inside `stack` reads one object there and then unwinds the stack. -/
def Simulates (marker : UInt16) (stack : List Frame) (stream : Stream) : Prop :=
  run marker stack stream = ((objectAt marker stack.length).read >>= unwind marker stack) stream

theorem run_eq_proceed {marker : UInt16} {stack : List Frame} (stream : Stream)
    (hdepth : stack.length < maxDepth) :
    run marker stack stream = (turn marker stack >>= proceed marker) stream := by
  rw [run, if_neg (by omega)]
  split
  · rename_i hturn
    rw [bind_of_error hturn]
  · rename_i hturn
    rw [bind_of_ok hturn]
    rfl
  · rename_i hturn
    rw [bind_of_ok hturn]
    rfl

theorem pending_proceed {marker : UInt16} {limit : Nat}
    (hsimulates : ∀ stack stream, stream.rest.length < limit → (∀ frame ∈ stack, Waiting frame) →
      Simulates marker stack stream)
    {stack : List Frame} {frame : Frame} {stream : Stream} (hlimit : stream.rest.length < limit)
    (hframe : Waiting frame) (hstack : ∀ frame ∈ stack, Waiting frame) :
    proceed marker (.pending (frame :: stack)) stream =
      ((objectAt marker (stack.length + 1)).read >>= fun value =>
        resume marker (objectAt marker (stack.length + 1)) (frame.accept value) >>=
          unwind marker stack) stream := by
  refine hsimulates (frame :: stack) stream hlimit ?_
  intro other hother
  rcases List.mem_cons.mp hother with rfl | hother
  · exact hframe
  · exact hstack other hother

theorem settle_proceed {marker : UInt16} {limit : Nat}
    (hsimulates : ∀ stack stream, stream.rest.length < limit → (∀ frame ∈ stack, Waiting frame) →
      Simulates marker stack stream)
    (stack : List Frame) (frame : Frame) (stream : Stream) (hlimit : stream.rest.length < limit)
    (hsound : Sound frame) (hstack : ∀ frame ∈ stack, Waiting frame) :
    (settle marker frame stack >>= proceed marker) stream =
      (resume marker (objectAt marker (stack.length + 1)) frame >>= unwind marker stack)
        stream := by
  -- Closing one container may finish those below it in turn, so the induction is on the stack.
  induction stack generalizing frame stream with
  | nil =>
    rw [resume_eq marker _ hsound, settle, bind_assoc, bind_assoc]
    refine bind_congr_on fun closed next hclose => ?_
    have hnext := shrinks_close _ _ _ _ _ hclose
    cases closed with
    | some value => rfl
    | none =>
      simp only [pure_bind, bind_assoc]
      exact pending_proceed hsimulates (by omega) (waiting_of_close hsound hclose) hstack
  | cons below stack ih =>
    rw [resume_eq marker _ hsound, settle, bind_assoc, bind_assoc]
    refine bind_congr_on fun closed next hclose => ?_
    have hnext := shrinks_close _ _ _ _ _ hclose
    cases closed with
    | some value =>
      simp only [pure_bind, unwind]
      have hbelow : Waiting below := hstack below (by simp)
      exact ih (below.accept value) next (by omega) (hbelow.sound_accept value)
        (fun other hother => hstack other (by simp [hother]))
    | none =>
      simp only [pure_bind, bind_assoc]
      exact pending_proceed hsimulates (by omega) (waiting_of_close hsound hclose) hstack

/-- One turn and what follows it, as one object and the unwinding of the stack. -/
theorem turn_proceed {marker : UInt16} {stack : List Frame} {stream : Stream}
    (hsimulates : ∀ stack next, next.rest.length < stream.rest.length →
      (∀ frame ∈ stack, Waiting frame) → Simulates marker stack next)
    (hstack : ∀ frame ∈ stack, Waiting frame) :
    (turn marker stack >>= proceed marker) stream =
      ((level marker (objectAt marker (stack.length + 1))).read >>= unwind marker stack)
        stream := by
  rw [level_eq, turn, bind_assoc, bind_assoc]
  refine bind_congr_on fun opened next hopen => ?_
  have hnext := length_of_openObject hopen
  cases opened with
  | frame frame =>
    have hsound : Sound frame := yields_openObject _ _ _ hopen
    exact settle_proceed hsimulates stack frame next hnext hsound hstack
  | value value =>
    simp only [finish, pure_bind]
    cases stack with
    | nil => rfl
    | cons below stack =>
      have hbelow : Waiting below := hstack below (by simp)
      exact settle_proceed hsimulates stack _ next hnext (hbelow.sound_accept value)
        (fun other hother => hstack other (by simp [hother]))

/-- The decoder on a stack reads what recursive descent reads, at every height of the stack. -/
theorem run_simulates (marker : UInt16) (stack : List Frame) (stream : Stream)
    (hstack : ∀ frame ∈ stack, Waiting frame) : Simulates marker stack stream := by
  -- Every turn consumes a byte, so the bytes ahead bound the number of turns.
  induction hlength : stream.rest.length using Nat.strongRecOn generalizing stack stream with
  | ind length ih =>
    subst hlength
    unfold Simulates
    rcases Nat.lt_or_ge stack.length maxDepth with hlt | hge
    · rw [run_eq_proceed stream hlt, objectAt_of_lt marker hlt]
      exact turn_proceed (fun other next hnext hother => ih _ hnext other next hother rfl) hstack
    · rw [run, if_pos hge, objectAt_of_ge marker hge]
      rfl

theorem object_eq_objectAt (marker : UInt16) (stream : Stream) :
    Reader.object marker stream = (objectAt marker 0).read stream := by
  have h := run_simulates marker [] stream (by simp)
  simpa [Simulates, unwind, Reader.object] using h

/-- Decoding an object gives the same outcome as recursive descent from depth zero: the same
value and the same stream behind it, or the same error. The descent refuses an object at the
limit where it stands, and above the limit it reads members one level deeper. -/
theorem object_refines_descent (marker : UInt16) (stream : Stream) :
    Reader.object marker stream = (objectAt marker 0).read stream ∧
      (∀ depth start, maxDepth ≤ depth →
        (objectAt marker depth).read start = .error (.malformed start.position .tooDeep)) ∧
      (∀ depth, depth < maxDepth →
        objectAt marker depth = level marker (objectAt marker (depth + 1))) := by
  refine ⟨object_eq_objectAt marker stream, fun depth start hdepth => ?_, fun depth hdepth => ?_⟩
  · rw [objectAt_of_ge marker hdepth]
    rfl
  · exact objectAt_of_lt marker hdepth

end Descent

end ImportAtlas.Container
