import ImportAtlas.Container.Object

/-!
# Reads one after another

How a sequence of two reads acts on a stream. Later modules take sequences apart
and put them together with these facts alone, so that none of them opens the
monad the reads live in.
-/

namespace ImportAtlas.Container.Reader

variable {α β : Type}

theorem bind_of_ok {first : Reader α} {second : α → Reader β} {stream next : Stream} {value : α}
    (h : first stream = .ok (value, next)) : (first >>= second) stream = second value next := by
  simp only [Bind.bind, StateT.bind, Except.bind, h]

theorem bind_of_error {first : Reader α} {second : α → Reader β} {stream : Stream} {error : Error}
    (h : first stream = .error error) : (first >>= second) stream = .error error := by
  simp only [Bind.bind, StateT.bind, Except.bind, h]

theorem bind_eq_ok {first : Reader α} {second : α → Reader β} {stream final : Stream} {result : β}
    (h : (first >>= second) stream = .ok (result, final)) :
    ∃ value next, first stream = .ok (value, next) ∧ second value next = .ok (result, final) := by
  cases hfirst : first stream with
  | error error =>
    rw [bind_of_error hfirst] at h
    cases h
  | ok pair =>
    obtain ⟨value, next⟩ := pair
    rw [bind_of_ok hfirst] at h
    exact ⟨value, next, rfl, h⟩

theorem bind_congr_on {first : Reader α} {left right : α → Reader β} {stream : Stream}
    (h : ∀ value next, first stream = .ok (value, next) → left value next = right value next) :
    (first >>= left) stream = (first >>= right) stream := by
  cases hfirst : first stream with
  | error error => rw [bind_of_error hfirst, bind_of_error hfirst]
  | ok pair =>
    obtain ⟨value, next⟩ := pair
    rw [bind_of_ok hfirst, bind_of_ok hfirst]
    exact h value next hfirst

theorem pure_apply (value : α) (stream : Stream) :
    (pure value : Reader α) stream = .ok (value, stream) := rfl

theorem pure_eq_ok {value result : α} {stream final : Stream}
    (h : (pure value : Reader α) stream = .ok (result, final)) :
    value = result ∧ stream = final := by
  rw [pure_apply] at h
  cases h
  exact ⟨rfl, rfl⟩

theorem fail_apply (problem : ContainerProblem) (stream : Stream) :
    (fail problem : Reader α) stream = .error (.malformed stream.position problem) := rfl

theorem not_fail_eq_ok {problem : ContainerProblem} {stream final : Stream} {result : α} :
    (fail problem : Reader α) stream ≠ .ok (result, final) := by
  rw [fail_apply]
  exact fun h => nomatch h

/-! ## What a read yields -/

def Yields (reader : Reader α) (property : α → Prop) : Prop :=
  ∀ stream value next, reader stream = .ok (value, next) → property value

theorem yields_pure {property : α → Prop} {value : α} (h : property value) :
    Yields (pure value : Reader α) property := by
  intro stream result next hresult
  obtain ⟨rfl, -⟩ := pure_eq_ok hresult
  exact h

theorem yields_fail (problem : ContainerProblem) (property : α → Prop) :
    Yields (fail problem : Reader α) property :=
  fun _ _ _ h => absurd h not_fail_eq_ok

theorem Yields.bind {first : Reader α} {second : α → Reader β} {before : α → Prop}
    {property : β → Prop} (hfirst : Yields first before)
    (hsecond : ∀ value, before value → Yields (second value) property) :
    Yields (first >>= second) property := by
  intro stream result final h
  obtain ⟨value, next, hvalue, hresult⟩ := bind_eq_ok h
  exact hsecond value (hfirst _ _ _ hvalue) _ _ _ hresult

theorem yields_bind {first : Reader α} {second : α → Reader β} {property : β → Prop}
    (hsecond : ∀ value, Yields (second value) property) : Yields (first >>= second) property :=
  have hany : Yields first fun _ => True := fun _ _ _ _ => trivial
  hany.bind fun value _ => hsecond value

end ImportAtlas.Container.Reader
