/-!
# Results of steps that can fail

What it means for a changed result to be a success: most functions of the library change what the
rest of their input gave and pass an error on.
-/

set_option autoImplicit false

namespace EventFinder

variable {ε α β : Type}

/-- A changed result is a success exactly if the result was one. -/
theorem map_eq_ok_iff {f : α → β} {result : Except ε α} {b : β} :
    result.map f = .ok b ↔ ∃ a, result = .ok a ∧ f a = b := by
  cases result <;> simp [Except.map]

/-- A changed result is a failure exactly if the result was the same one. -/
theorem map_eq_error_iff {f : α → β} {result : Except ε α} {e : ε} :
    result.map f = .error e ↔ result = .error e := by
  cases result <;> simp [Except.map]

/-- What a success holds is changed. -/
@[simp] theorem map_ok (f : α → β) (a : α) : (Except.ok a : Except ε α).map f = .ok (f a) :=
  rfl

/-- Two changes of a result are one. -/
theorem map_map {γ : Type} (f : α → β) (g : β → γ) (result : Except ε α) :
    (result.map f).map g = result.map (g ∘ f) := by
  cases result <;> rfl

end EventFinder
