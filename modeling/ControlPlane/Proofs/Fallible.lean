/-
Computations that may fail, told from their end: if the whole succeeds, so has each of
its parts.
-/

namespace ControlPlane.Fallible

variable {α β ε ε' σ : Type}

theorem map_eq_ok {f : α → β} {x : Except ε α} {b : β} :
    x.map f = .ok b ↔ ∃ a, x = .ok a ∧ f a = b := by
  cases x <;> simp [Except.map]

/-- A failure told in another way is no success. -/
theorem mapError_eq_ok {f : ε → ε'} {x : Except ε α} {a : α} :
    x.mapError f = .ok a ↔ x = .ok a := by
  cases x with
  | error => exact ⟨nofun, nofun⟩
  | ok => constructor <;> rintro ⟨⟩ <;> rfl

theorem bind_eq_ok {x : Except ε α} {f : α → Except ε β} {b : β} :
    x >>= f = .ok b ↔ ∃ a, x = .ok a ∧ f a = .ok b := by
  cases x <;> simp [bind, Except.bind]

theorem foldlM_cons_eq_ok {f : σ → α → Except ε σ} {a : α} {as : List α} {s s' : σ} :
    (a :: as).foldlM f s = .ok s' ↔ ∃ mid, f s a = .ok mid ∧ as.foldlM f mid = .ok s' := by
  rw [List.foldlM_cons]
  exact bind_eq_ok

theorem foldlM_append_eq_ok {f : σ → α → Except ε σ} {as bs : List α} {s mid s' : σ}
    (h : as.foldlM f s = .ok mid) (h' : bs.foldlM f mid = .ok s') :
    (as ++ bs).foldlM f s = .ok s' := by
  rw [List.foldlM_append, h]
  exact h'

end ControlPlane.Fallible
