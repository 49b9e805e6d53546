/-!
# Results of steps that may fail

* `exists_of_bind_eq_ok`: two steps succeed only if both do.
* `exists_of_map_eq_ok`: something is made of a result only if there is one.
-/

namespace Companion

variable {ε α β : Type}

/-- A request in two steps succeeds if both do. -/
theorem exists_of_bind_eq_ok {first : Except ε α} {next : α → Except ε β} {b : β}
    (h : first.bind next = .ok b) : ∃ a, first = .ok a ∧ next a = .ok b := by
  cases first with
  | error problem => cases h
  | ok a => exact ⟨a, rfl, h⟩

/-- Something is made of a result only if there is one. -/
theorem exists_of_map_eq_ok {first : Except ε α} {make : α → β} {b : β}
    (h : first.map make = .ok b) : ∃ a, first = .ok a ∧ make a = b := by
  cases first with
  | error problem => cases h
  | ok a => exact ⟨a, rfl, Except.ok.inj h⟩

end Companion
