import ImportAtlas.Proofs.Container.Descent
import Mathlib.Logic.Relation

/-!
# Decoding in single steps

A turn of decoding opens an object and then closes as many containers as that
finishes. Here each opening and each closing is a step of its own, so that what
holds all the time can be said of every state in between. The machine does what
decoding does: it always comes to an end, and the outcome it ends with is that of
the decoder.

The bytes ahead alone do not tell why it ends, for an empty container is closed
without reading any. It is the bytes ahead and the height of the stack together:
opening consumes a byte, and every closing leaves one container less.
-/

namespace ImportAtlas.Container.Machine

open Reader Descent

/-- What is done next. -/
inductive Moment where
  /-- An object is opened inside the containers on `stack`. -/
  | opening (stack : List Frame)
  /-- The topmost container is closed if nothing is missing in it. -/
  | closing (frame : Frame) (stack : List Frame)

def Moment.frames : Moment → List Frame
  | .opening stack => stack
  | .closing frame stack => frame :: stack

structure State where
  moment : Moment
  stream : Stream

inductive Step (marker : UInt16) : State → State → Prop where
  /-- A whole value is handed to the container it stands in. -/
  | member {frame : Frame} {stack : List Frame} {value : Constant} {stream next : Stream}
      (hdepth : (frame :: stack).length < maxDepth)
      (hopen : openObject stream = .ok (.value value, next)) :
      Step marker ⟨.opening (frame :: stack), stream⟩ ⟨.closing (frame.accept value) stack, next⟩
  | container {frame : Frame} {stack : List Frame} {stream next : Stream}
      (hdepth : stack.length < maxDepth)
      (hopen : openObject stream = .ok (.frame frame, next)) :
      Step marker ⟨.opening stack, stream⟩ ⟨.closing frame stack, next⟩
  /-- A finished container is handed to the one below. -/
  | closed {frame below : Frame} {stack : List Frame} {value : Constant} {stream next : Stream}
      (hclose : frame.close marker stream = .ok (some value, next)) :
      Step marker ⟨.closing frame (below :: stack), stream⟩
        ⟨.closing (below.accept value) stack, next⟩
  | waiting {frame : Frame} {stack : List Frame} {stream next : Stream}
      (hclose : frame.close marker stream = .ok (none, next)) :
      Step marker ⟨.closing frame stack, stream⟩ ⟨.opening (frame :: stack), next⟩

inductive Halts (marker : UInt16) : State → Except Error (Constant × Stream) → Prop where
  | tooDeep {stack : List Frame} {stream : Stream} (hdepth : maxDepth ≤ stack.length) :
      Halts marker ⟨.opening stack, stream⟩ (.error (.malformed stream.position .tooDeep))
  | notOpened {stack : List Frame} {stream : Stream} {error : Error}
      (hdepth : stack.length < maxDepth) (hopen : openObject stream = .error error) :
      Halts marker ⟨.opening stack, stream⟩ (.error error)
  | value {value : Constant} {stream next : Stream}
      (hopen : openObject stream = .ok (.value value, next)) :
      Halts marker ⟨.opening [], stream⟩ (.ok (value, next))
  | notClosed {frame : Frame} {stack : List Frame} {stream : Stream} {error : Error}
      (hclose : frame.close marker stream = .error error) :
      Halts marker ⟨.closing frame stack, stream⟩ (.error error)
  | container {frame : Frame} {value : Constant} {stream next : Stream}
      (hclose : frame.close marker stream = .ok (some value, next)) :
      Halts marker ⟨.closing frame [], stream⟩ (.ok (value, next))

abbrev Reaches (marker : UInt16) : State → State → Prop :=
  Relation.ReflTransGen (Step marker)

variable {marker : UInt16}

/-- There is a next step until decoding is over. -/
theorem step_or_halts (marker : UInt16) (state : State) :
    (∃ next, Step marker state next) ∨ ∃ outcome, Halts marker state outcome := by
  obtain ⟨moment, stream⟩ := state
  cases moment with
  | opening stack =>
    rcases Nat.lt_or_ge stack.length maxDepth with hlt | hge
    · cases hopen : openObject stream with
      | error error => exact .inr ⟨_, .notOpened hlt hopen⟩
      | ok result =>
        obtain ⟨opened, next⟩ := result
        cases opened with
        | frame frame => exact .inl ⟨_, .container hlt hopen⟩
        | value value =>
          cases stack with
          | nil => exact .inr ⟨_, .value hopen⟩
          | cons frame stack => exact .inl ⟨_, .member hlt hopen⟩
    · exact .inr ⟨_, .tooDeep hge⟩
  | closing frame stack =>
    cases hclose : frame.close marker stream with
    | error error => exact .inr ⟨_, .notClosed hclose⟩
    | ok result =>
      obtain ⟨closed, next⟩ := result
      cases closed with
      | none => exact .inl ⟨_, .waiting hclose⟩
      | some value =>
        cases stack with
        | nil => exact .inr ⟨_, .container hclose⟩
        | cons below stack => exact .inl ⟨_, .closed hclose⟩

/-! ## The machine comes to an end -/

/-- The bytes ahead, and then the containers, of which one that is to be closed counts more. -/
def State.rank (state : State) : Nat × Nat :=
  match state.moment with
  | .opening stack => (state.stream.rest.length, 2 * stack.length)
  | .closing _ stack => (state.stream.rest.length, 2 * stack.length + 3)

theorem rank_lt_of_step {state next : State} (h : Step marker state next) :
    Prod.Lex (· < ·) (· < ·) next.rank state.rank := by
  cases h with
  | member _ hopen | container _ hopen =>
    apply Prod.Lex.left
    exact length_of_openObject hopen
  | closed hclose | waiting hclose =>
    apply Prod.lex_def.mpr
    have hshrinks := shrinks_close _ _ _ _ _ hclose
    simp only [State.rank, List.length_cons]
    omega

theorem wellFounded_step (marker : UInt16) :
    WellFounded fun next state => Step marker state next := by
  have hrank : WellFounded (Prod.Lex (· < ·) (· < ·) : Nat × Nat → Nat × Nat → Prop) :=
    (Prod.lex Nat.lt_wfRel Nat.lt_wfRel).wf
  exact Subrelation.wf rank_lt_of_step (InvImage.wf State.rank hrank)

/-! ## The machine does what decoding does -/

def State.outcome (marker : UInt16) (state : State) : Except Error (Constant × Stream) :=
  match state.moment with
  | .opening stack => run marker stack state.stream
  | .closing frame stack => (settle marker frame stack >>= proceed marker) state.stream

theorem settle_eq (marker : UInt16) (frame : Frame) (stack : List Frame) :
    settle marker frame stack = (do
      match ← frame.close marker with
      | some value => deliver marker value stack
      | none => return .pending (frame :: stack)) := by
  cases stack <;> rfl

theorem outcome_eq_of_step {state next : State} (h : Step marker state next) :
    state.outcome marker = next.outcome marker := by
  cases h with
  | member hdepth hopen | container hdepth hopen =>
    apply (run_eq_proceed _ hdepth).trans
    rw [turn, bind_assoc]
    exact bind_of_ok hopen
  | closed hclose | waiting hclose =>
    simp only [State.outcome]
    rw [settle_eq, bind_assoc]
    exact bind_of_ok hclose

theorem outcome_eq_of_halts {state : State} {outcome : Except Error (Constant × Stream)}
    (h : Halts marker state outcome) : state.outcome marker = outcome := by
  cases h with
  | @tooDeep stack stream hdepth =>
    change run marker stack stream = _
    unfold run
    exact if_pos hdepth
  | notOpened hdepth hopen =>
    apply (run_eq_proceed _ hdepth).trans
    rw [turn, bind_assoc]
    exact bind_of_error hopen
  | value hopen =>
    have hdepth : ([] : List Frame).length < maxDepth := by decide
    apply (run_eq_proceed _ hdepth).trans
    rw [turn, bind_assoc]
    exact bind_of_ok hopen
  | notClosed hclose =>
    simp only [State.outcome]
    rw [settle_eq, bind_assoc]
    exact bind_of_error hclose
  | container hclose =>
    simp only [State.outcome]
    rw [settle_eq, bind_assoc]
    exact bind_of_ok hclose

/-- From every state the machine comes to the outcome of decoding. -/
theorem exists_halts (marker : UInt16) (state : State) :
    ∃ last, Reaches marker state last ∧ Halts marker last (state.outcome marker) := by
  induction state using (wellFounded_step marker).induction with
  | _ state ih =>
    rcases step_or_halts marker state with ⟨next, hstep⟩ | ⟨outcome, hhalts⟩
    · obtain ⟨last, hreaches, hhalts⟩ := ih next hstep
      rw [← outcome_eq_of_step hstep] at hhalts
      exact ⟨last, .head hstep hreaches, hhalts⟩
    · rw [outcome_eq_of_halts hhalts]
      exact ⟨state, .refl, hhalts⟩

end ImportAtlas.Container.Machine
