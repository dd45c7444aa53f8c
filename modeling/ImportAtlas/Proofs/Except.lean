/-!
# Results that may be errors

How a sequence of two steps, either of which may fail, comes to its result.
Functions that look into a file tree, store a container or compile a source are
such sequences, with different types of errors. The proofs about them take the
sequences apart with these facts.
-/

namespace ImportAtlas

variable {ε α β : Type} {first : Except ε α} {second : α → Except ε β}

theorem except_bind_eq_ok {result : β} (h : (first >>= second) = .ok result) :
    ∃ value, first = .ok value ∧ second value = .ok result := by
  cases first with
  | error error => cases h
  | ok value => exact ⟨value, rfl, h⟩

theorem except_bind_eq_error {error : ε} (h : (first >>= second) = .error error) :
    first = .error error ∨ ∃ value, first = .ok value ∧ second value = .error error := by
  cases first with
  | error cause =>
    cases h
    exact .inl rfl
  | ok value => exact .inr ⟨value, rfl, h⟩

end ImportAtlas
