import ImportAtlas.Proofs.Container.Framing
import ImportAtlas.Proofs.Container.Machine

/-!
# Decoding stays inside its bytes

Decoding takes any bytes at all, so it may be told to read beyond the end, to
nest without limit or to go on forever. It does none of these. At every moment,
also inside the reads that a step is made of, the position is one of the bytes
or right behind them; the stack has a limited height; and each turn that does
not end decoding consumes a byte. What is wrong with the bytes is reported at a
position inside them.

A read is put together from elementary reads, and `Passes` gives the streams at
which a run of it stands before, between and behind these.
-/

namespace ImportAtlas.Container

namespace Reader

variable {α β : Type}

/-- The reads that look at the stream themselves. -/
inductive Elementary : {α : Type} → Reader α → Prop where
  | take (count : Nat) : Elementary (take count)
  | byte : Elementary byte
  | skip? (expected : UInt8) : Elementary (skip? expected)
  | intern (raw : Bytes) : Elementary (intern raw)
  | lookup (index : Nat) : Elementary (lookup index)

/-- The reads that are put together from elementary ones. -/
inductive Composite : {α : Type} → Reader α → Prop where
  | pure {α : Type} (value : α) : Composite (pure value : Reader α)
  | fail {α : Type} (problem : ContainerProblem) : Composite (fail problem : Reader α)
  | elementary {α : Type} {reader : Reader α} (h : Elementary reader) : Composite reader
  | bind {α β : Type} {first : Reader α} {second : α → Reader β} (hfirst : Composite first)
      (hsecond : ∀ value, Composite (second value)) : Composite (first >>= second)

/-- A run of the read from `start` stands at `stream` at some time. -/
inductive Passes : {α : Type} → Reader α → (start stream : Stream) → Prop where
  | start {α : Type} {reader : Reader α} {start : Stream} : Passes reader start start
  | elementary {α : Type} {reader : Reader α} {start stream : Stream} {value : α}
      (h : Elementary reader) (hread : reader start = .ok (value, stream)) :
      Passes reader start stream
  | first {α β : Type} {first : Reader α} {second : α → Reader β} {start stream : Stream}
      (hfirst : Passes first start stream) : Passes (first >>= second) start stream
  | second {α β : Type} {first : Reader α} {second : α → Reader β}
      {start middle stream : Stream} {value : α} (hfirst : Composite first)
      (hread : first start = .ok (value, middle)) (hsecond : Passes (second value) middle stream) :
      Passes (first >>= second) start stream

theorem Elementary.steps_over {reader : Reader α} (h : Elementary reader) {start next : Stream}
    {value : α} (hread : reader start = .ok (value, next)) :
    ∃ count ≤ start.rest.length,
      next.position = start.position + count ∧ next.rest = start.rest.drop count := by
  cases h with
  | take count =>
    simp only [Reader.take, List.splitAt_eq] at hread
    split at hread
    · rename_i hlength
      cases hread
      rw [List.length_take] at hlength
      exact ⟨count, by omega, rfl, rfl⟩
    · cases hread
  | byte =>
    simp only [Reader.byte] at hread
    split at hread
    · cases hread
    · rename_i hrest
      cases hread
      exact ⟨1, by simp [hrest], rfl, by simp [hrest]⟩
  | skip? expected =>
    simp only [Reader.skip?] at hread
    split at hread
    · cases hread
      exact ⟨0, Nat.zero_le _, rfl, rfl⟩
    · rename_i hrest
      split at hread
      · cases hread
        exact ⟨1, by simp [hrest], rfl, by simp [hrest]⟩
      · cases hread
        exact ⟨0, Nat.zero_le _, rfl, rfl⟩
  | intern raw =>
    cases hread
    exact ⟨0, Nat.zero_le _, rfl, rfl⟩
  | lookup index =>
    simp only [Reader.lookup] at hread
    split at hread
    · cases hread
      exact ⟨0, Nat.zero_le _, rfl, rfl⟩
    · cases hread

theorem Elementary.malformed {reader : Reader α} (h : Elementary reader) {start : Stream}
    {error : Error} (hread : reader start = .error error) :
    ∃ problem, error = .malformed start.position problem := by
  cases h with
  | take count =>
    simp only [Reader.take] at hread
    split at hread
    · cases hread
    · cases hread
      exact ⟨_, rfl⟩
  | byte =>
    simp only [Reader.byte] at hread
    split at hread
    · cases hread
      exact ⟨_, rfl⟩
    · cases hread
  | skip? expected =>
    simp only [Reader.skip?] at hread
    split at hread
    · cases hread
    · split at hread <;> cases hread
  | intern raw => cases hread
  | lookup index =>
    simp only [Reader.lookup] at hread
    split at hread
    · cases hread
    · cases hread
      exact ⟨_, rfl⟩

theorem Composite.malformed {reader : Reader α} (h : Composite reader) {start : Stream}
    {error : Error} (hread : reader start = .error error) :
    ∃ stream problem, Passes reader start stream ∧ error = .malformed stream.position problem := by
  induction h generalizing start with
  | pure value => cases hread
  | fail problem =>
    cases hread
    exact ⟨start, problem, .start, rfl⟩
  | elementary h =>
    obtain ⟨problem, rfl⟩ := h.malformed hread
    exact ⟨start, problem, .start, rfl⟩
  | @bind _ _ first second hfirst _ ihfirst ihsecond =>
    cases hvalue : first start with
    | error cause =>
      rw [bind_of_error hvalue] at hread
      cases hread
      obtain ⟨stream, problem, hpasses, herror⟩ := ihfirst hvalue
      exact ⟨stream, problem, .first hpasses, herror⟩
    | ok result =>
      obtain ⟨value, middle⟩ := result
      rw [bind_of_ok hvalue] at hread
      obtain ⟨stream, problem, hpasses, herror⟩ := ihsecond value hread
      exact ⟨stream, problem, .second hfirst hvalue hpasses, herror⟩

/-! ## All reads are composite -/

theorem Composite.map {reader : Reader α} (h : Composite reader) (f : α → β) :
    Composite (do return f (← reader)) :=
  .bind h fun _ => .pure _

theorem composite_mapM {f : α → Reader β} (hf : ∀ item, Composite (f item)) (items : List α) :
    Composite (items.mapM f) := by
  induction items with
  | nil =>
    rw [List.mapM_nil]
    exact .pure _
  | cons item items ih =>
    rw [List.mapM_cons]
    exact .bind (hf item) fun _ => .bind ih fun _ => .pure _

theorem composite_take (count : Nat) : Composite (take count) :=
  .elementary (.take count)

theorem composite_byte : Composite byte :=
  .elementary .byte

theorem composite_int32 : Composite int32 :=
  (composite_take 4).map _

theorem composite_binary64 : Composite binary64 :=
  (composite_take 8).map _

theorem composite_length : Composite length := by
  apply Composite.bind composite_int32
  intro count
  split
  · exact .fail _
  · exact .pure _

theorem composite_textFloat : Composite textFloat := by
  apply Composite.bind composite_byte
  intro count
  apply Composite.bind (composite_take _)
  intro raw
  split
  · exact .fail _
  · split
    · exact .pure _
    · exact .fail _

theorem composite_stringBody (form : StringForm) : Composite (stringBody form) := by
  apply Composite.bind composite_length
  intro count
  cases form with
  | inline => exact composite_take count
  | interned =>
    apply Composite.bind (composite_take count)
    intro raw
    exact .bind (.elementary (.intern raw)) fun _ => .pure _
  | reference => exact .elementary (.lookup count)

theorem composite_rawString : Composite rawString := by
  apply Composite.bind composite_byte
  intro code
  split
  · exact composite_stringBody _
  · exact .fail _

theorem composite_string : Composite string :=
  composite_rawString.map _

theorem composite_constantTable (table : Constant) : Composite (constantTable table) := by
  unfold constantTable
  split
  · exact .pure _
  · exact .fail _

theorem composite_nameTable (table : Constant) : Composite (nameTable table) := by
  unfold nameTable
  split
  · apply composite_mapM
    intro item
    unfold nameEntry
    split
    · exact .pure _
    · exact .fail _
  · exact .fail _

theorem composite_firstLine : Composite firstLine := by
  apply Composite.bind composite_int32
  intro line
  split
  · exact .fail _
  · exact .pure _

theorem composite_codeTail (marker : UInt16) (head : CodeHead)
    (consts names varnames freevars cellvars : Constant) :
    Composite (codeTail marker head consts names varnames freevars cellvars) :=
  .bind (composite_constantTable _) fun _ => .bind (composite_nameTable _) fun _ =>
    .bind (composite_nameTable _) fun _ => .bind (composite_nameTable _) fun _ =>
    .bind (composite_nameTable _) fun _ => .bind composite_string fun _ =>
    .bind composite_string fun _ => .bind composite_firstLine fun _ => composite_rawString.map _

theorem composite_codeHead : Composite codeHead :=
  .bind composite_int32 fun _ => .bind composite_int32 fun _ => .bind composite_int32 fun _ =>
    .bind composite_int32 fun _ => composite_rawString.map _

theorem composite_openTagged (tag : Tag) : Composite (openTagged tag) := by
  cases tag with
  | null => exact .fail _
  | none | «false» | «true» | stopIteration | ellipsis | dict => exact .pure _
  | int => exact composite_int32.map _
  | int64 => exact ((composite_take 8).map _).map _
  | textFloat => exact composite_textFloat.map _
  | float => exact composite_binary64.map _
  | textComplex => exact .bind composite_textFloat fun _ => composite_textFloat.map _
  | complex => exact .bind composite_binary64 fun _ => composite_binary64.map _
  | long => exact (Composite.bind composite_int32 fun _ => (composite_take _).map _).map _
  | string form => exact (composite_stringBody form).map _
  | unicode => exact .bind composite_length fun _ => (composite_take _).map _
  | sequence kind => exact composite_length.map _
  | code => exact composite_codeHead.map _

theorem composite_openObject : Composite openObject := by
  apply Composite.bind composite_byte
  intro code
  split
  · exact composite_openTagged _
  · exact .fail _

theorem composite_close (marker : UInt16) (frame : Frame) : Composite (frame.close marker) := by
  unfold Frame.close
  split
  · exact .pure _
  · exact .pure _
  · exact (Composite.elementary (.skip? _)).map _
  · exact (composite_codeTail _ _ _ _ _ _ _).map _
  · exact .pure _

end Reader

/-! ## Streams of given bytes -/

open Reader

/-- The stream is what is left of `bytes` from its position on. -/
structure Within (bytes : Bytes) (stream : Stream) : Prop where
  position_le : stream.position ≤ bytes.length
  rest_eq : stream.rest = bytes.drop stream.position

namespace Within

variable {α : Type} {bytes : Bytes} {start stream next : Stream}

theorem position_eq (h : Within bytes stream) :
    stream.position + stream.rest.length = bytes.length := by
  have hle := h.position_le
  rw [h.rest_eq, List.length_drop]
  omega

theorem elementary (h : Within bytes start) {reader : Reader α} (hreader : Elementary reader)
    {value : α} (hread : reader start = .ok (value, next)) : Within bytes next := by
  obtain ⟨count, hcount, hposition, hrest⟩ := hreader.steps_over hread
  have heq := h.position_eq
  constructor
  · omega
  · rw [hrest, h.rest_eq, List.drop_drop, hposition]

theorem composite (h : Within bytes start) {reader : Reader α} (hreader : Composite reader)
    {value : α} (hread : reader start = .ok (value, next)) : Within bytes next := by
  induction hreader generalizing start next with
  | pure value =>
    obtain ⟨-, rfl⟩ := pure_eq_ok hread
    exact h
  | fail problem => exact absurd hread not_fail_eq_ok
  | elementary helementary => exact h.elementary helementary hread
  | bind _ _ ihfirst ihsecond =>
    obtain ⟨value, middle, hfirst, hsecond⟩ := bind_eq_ok hread
    exact ihsecond value (ihfirst h hfirst) hsecond

theorem passes (h : Within bytes start) {reader : Reader α} (hpasses : Passes reader start stream) :
    Within bytes stream := by
  induction hpasses with
  | start => exact h
  | elementary helementary hread => exact h.elementary helementary hread
  | first _ ih => exact ih h
  | second hfirst hread _ ih => exact ih (h.composite hfirst hread)

end Within

/-! ## States of the machine -/

namespace Machine

variable {marker : UInt16} {bytes : Bytes}

def State.Passes (marker : UInt16) (state : State) (stream : Stream) : Prop :=
  match state.moment with
  | .opening _ => Reader.Passes openObject state.stream stream
  | .closing frame _ => Reader.Passes (frame.close marker) state.stream stream

/-- What no step changes. -/
structure Sound (bytes : Bytes) (state : State) : Prop where
  within : Within bytes state.stream
  height_le : state.moment.frames.length ≤ maxDepth

theorem Sound.step {state next : State} (h : Sound bytes state) (hstep : Step marker state next) :
    Sound bytes next := by
  have hheight := h.height_le
  cases hstep with
  | member hdepth hopen =>
    exact ⟨h.within.composite composite_openObject hopen, Nat.le_of_lt hdepth⟩
  | container hdepth hopen => exact ⟨h.within.composite composite_openObject hopen, hdepth⟩
  | closed hclose | waiting hclose =>
    refine ⟨h.within.composite (composite_close _ _) hclose, ?_⟩
    simp only [Moment.frames, List.length_cons] at hheight ⊢
    omega

theorem Sound.reaches {state later : State} (h : Sound bytes state)
    (hreaches : Reaches marker state later) : Sound bytes later := by
  induction hreaches with
  | refl => exact h
  | tail _ hstep ih => exact ih.step hstep

theorem Sound.passes {state : State} (h : Sound bytes state) {stream : Stream}
    (hpasses : state.Passes marker stream) : Within bytes stream := by
  obtain ⟨moment, start⟩ := state
  cases moment with
  | opening stack => exact h.within.passes hpasses
  | closing frame stack => exact h.within.passes hpasses

/-- No step gives bytes back, and opening an object consumes one. -/
theorem length_of_step {state next : State} (h : Step marker state next) :
    next.stream.rest.length ≤ state.stream.rest.length ∧
      ∀ stack, state.moment = .opening stack →
        next.stream.rest.length < state.stream.rest.length := by
  cases h with
  | member _ hopen | container _ hopen =>
    have hlength := length_of_openObject hopen
    exact ⟨Nat.le_of_lt hlength, fun _ _ => hlength⟩
  | closed hclose | waiting hclose =>
    refine ⟨shrinks_close _ _ _ _ _ hclose, ?_⟩
    intro stack hmoment
    cases hmoment

theorem length_of_reaches {state later : State} (h : Reaches marker state later) :
    later.stream.rest.length ≤ state.stream.rest.length := by
  induction h with
  | refl => exact Nat.le_refl _
  | tail _ hstep ih => exact Nat.le_trans (length_of_step hstep).1 ih

theorem Sound.position_lt {state later : State} (h : Sound bytes state) {stack : List Frame}
    (hmoment : state.moment = .opening stack)
    (hlater : Relation.TransGen (Step marker) state later) :
    state.stream.position < later.stream.position := by
  obtain ⟨next, hstep, hreaches⟩ := Relation.TransGen.head'_iff.mp hlater
  have hfirst := (length_of_step hstep).2 stack hmoment
  have hothers := length_of_reaches hreaches
  have hhere := h.within.position_eq
  have hthere := (h.reaches hlater.to_reflTransGen).within.position_eq
  omega

/-- An error that decoding ends with is one of the bytes, at a position inside them. -/
theorem Sound.malformed {state : State} (h : Sound bytes state) {error : Error}
    (hhalts : Halts marker state (.error error)) :
    ∃ position problem, error = .malformed position problem ∧ position ≤ bytes.length := by
  cases hhalts with
  | tooDeep hdepth => exact ⟨_, _, rfl, h.within.position_le⟩
  | notOpened _ hopen =>
    obtain ⟨stream, problem, hpasses, herror⟩ := composite_openObject.malformed hopen
    exact ⟨stream.position, problem, herror, (h.within.passes hpasses).position_le⟩
  | notClosed hclose =>
    obtain ⟨stream, problem, hpasses, herror⟩ := (composite_close _ _).malformed hclose
    exact ⟨stream.position, problem, herror, (h.within.passes hpasses).position_le⟩

def State.initial (bytes : Bytes) : State :=
  ⟨.opening [], { rest := bytes.drop headerSize, position := headerSize }⟩

theorem sound_initial (h : headerSize ≤ bytes.length) : Sound bytes (.initial bytes) :=
  ⟨⟨h, rfl⟩, Nat.zero_le _⟩

/-- What no state of decoding `bytes` breaks: the stack has its limit, every read stays inside the
bytes, and a turn that goes on has consumed some of them. -/
structure Safe (bytes : Bytes) (marker : UInt16) (state : State) : Prop where
  height_le : state.moment.frames.length ≤ maxDepth
  within : ∀ stream, state.Passes marker stream → Within bytes stream
  consumes : ∀ stack later, state.moment = .opening stack →
    Relation.TransGen (Step marker) state later → state.stream.position < later.stream.position

theorem Sound.safe {state : State} (h : Sound bytes state) : Safe bytes marker state where
  height_le := h.height_le
  within _ hpasses := h.passes hpasses
  consumes _ _ hmoment hlater := h.position_lt hmoment hlater

end Machine

/-! ## Loading -/

open Machine

variable {bytes : Bytes} {format : Format} {error : Error}

theorem parse_malformed (h : Header.parse bytes = .error error) :
    ∃ position problem, error = .malformed position problem ∧ position ≤ bytes.length := by
  unfold Header.parse at h
  split at h
  · split at h
    · cases h
    · cases h
      exact ⟨2, _, rfl, by simp only [List.length_cons]; omega⟩
  · cases h
    exact ⟨bytes.length, _, rfl, Nat.le_refl _⟩

theorem check_eq_error {marker : UInt16} (h : format.check marker = .error error) :
    error = .unsupportedFormat (.mismatch format marker) := by
  unfold Format.check at h
  split at h
  · cases h
  · cases h
    rfl

theorem exists_halts_initial (marker : UInt16) (bytes : Bytes) :
    ∃ last, Reaches marker (.initial bytes) last ∧
      Halts marker last (Reader.object marker (State.initial bytes).stream) :=
  exists_halts marker (.initial bytes)

theorem object_malformed {marker : UInt16} (hlength : headerSize ≤ bytes.length)
    (h : Reader.object marker (State.initial bytes).stream = .error error) :
    ∃ position problem, error = .malformed position problem ∧ position ≤ bytes.length := by
  obtain ⟨last, hreaches, hhalts⟩ := exists_halts_initial marker bytes
  rw [h] at hhalts
  exact ((sound_initial hlength).reaches hreaches).malformed hhalts

/-- Loading fails because of the bytes, at a position inside them, or because of the format. -/
theorem load_eq_error (h : load bytes format = .error error) :
    (∃ position problem, error = .malformed position problem ∧ position ≤ bytes.length) ∨
      ∃ marker, error = .unsupportedFormat (.mismatch format marker) := by
  rcases except_bind_eq_error h with hparse | ⟨header, hparse, h⟩
  · exact .inl (parse_malformed hparse)
  have hlength := headerSize_le_of_parse hparse
  rcases except_bind_eq_error h with hcheck | ⟨_, _, h⟩
  · exact .inr ⟨header.magic, check_eq_error hcheck⟩
  left
  rcases except_bind_eq_error h with hobject | ⟨⟨value, next⟩, _, h⟩
  · exact object_malformed hlength hobject
  · dsimp only at h
    split at h
    · cases h
    · cases h
      exact ⟨headerSize, _, rfl, hlength⟩

/-- Loading ends on all bytes, and stays inside them. Decoding takes finitely many steps to the
outcome, every state on the way is safe, and an error is one of the bytes, with its position
inside them, or one of the format. -/
theorem load_safe (bytes : Bytes) (format : Format) :
    (∀ header, Header.parse bytes = .ok header → format.check header.magic = .ok () →
      (WellFounded fun next state => Step header.magic state next) ∧
      (∃ last, Reaches header.magic (.initial bytes) last ∧
        Halts header.magic last (Reader.object header.magic (State.initial bytes).stream)) ∧
      ∀ state, Reaches header.magic (.initial bytes) state → Safe bytes header.magic state) ∧
    ∀ error, load bytes format = .error error →
      (error.code = "MARSHAL_ERROR" ∧
        ∃ position problem, error = .malformed position problem ∧ position ≤ bytes.length) ∨
      (error.code = "UNSUPPORTED_BYTECODE_FORMAT" ∧
        ∃ marker, error = .unsupportedFormat (.mismatch format marker)) := by
  constructor
  · intro header hparse _
    have hsound := sound_initial (headerSize_le_of_parse hparse)
    refine ⟨wellFounded_step _, exists_halts_initial _ _, ?_⟩
    intro state hreaches
    exact (hsound.reaches hreaches).safe
  · intro error h
    rcases load_eq_error h with ⟨position, problem, rfl, hposition⟩ | ⟨marker, rfl⟩
    · exact .inl ⟨rfl, position, problem, rfl, hposition⟩
    · exact .inr ⟨rfl, marker, rfl⟩

/-- A container in which an empty tuple stands before one that is announced with as many members
as can be, and has none. -/
def overdrawnContainer : Bytes :=
  [0x03, 0xf3, 0x0d, 0x0a, 0, 0, 0, 0, 0x28, 2, 0, 0, 0, 0x28, 0, 0, 0, 0,
    0x28, 0xff, 0xff, 0xff, 0x7f]

theorem load_safe_overdrawnContainer :
    Header.parse overdrawnContainer = .ok ⟨0xf303, 0⟩ ∧ Format.v27.check 0xf303 = .ok () ∧
      load overdrawnContainer .v27 = .error (.malformed 23 (.endOfData 1)) ∧
      (∃ last, Reaches 0xf303 (.initial overdrawnContainer) last ∧
        Halts 0xf303 last (Reader.object 0xf303 (State.initial overdrawnContainer).stream)) ∧
      (∀ state, Reaches 0xf303 (.initial overdrawnContainer) state →
        Safe overdrawnContainer 0xf303 state) ∧
      ∃ position problem, Error.malformed 23 (.endOfData 1) = .malformed position problem ∧
        position ≤ overdrawnContainer.length := by
  have hload : load overdrawnContainer .v27 = .error (.malformed 23 (.endOfData 1)) := by
    have herror : (match load overdrawnContainer .v27 with
        | .ok _ => none
        | .error error => some error) = some (.malformed 23 (.endOfData 1)) := by decide +kernel
    split at herror
    · cases herror
    · rename_i hload
      cases herror
      exact hload
  have hparse : Header.parse overdrawnContainer = .ok ⟨0xf303, 0⟩ := rfl
  have hcheck : Format.v27.check 0xf303 = .ok () := rfl
  obtain ⟨hdecoding, herrors⟩ := load_safe overdrawnContainer .v27
  obtain ⟨_, hhalts, hsafe⟩ := hdecoding _ hparse hcheck
  rcases herrors _ hload with ⟨_, hposition⟩ | ⟨_, _, hmarker⟩
  · exact ⟨hparse, hcheck, hload, hhalts, hsafe, hposition⟩
  · cases hmarker

end ImportAtlas.Container
