-- Outcomes of operations: what an operation made of smaller ones gives, read off what they give.
namespace SourceMacros

variable {ε σ α β : Type}

@[simp]
theorem pure_apply (a : α) (s : σ) : (pure a : EStateM ε σ α) s = .ok a s := rfl

@[simp]
theorem get_apply (s : σ) : (get : EStateM ε σ σ) s = .ok s s := rfl

@[simp]
theorem set_apply (s₁ s : σ) : (set s₁ : EStateM ε σ PUnit) s = .ok ⟨⟩ s₁ := rfl

@[simp]
theorem throw_apply (e : ε) (s : σ) : (throw e : EStateM ε σ α) s = .error e s := rfl

/-- What comes after a success goes on from its value and its state. -/
theorem bind_of_ok {x : EStateM ε σ α} {f : α → EStateM ε σ β} {s s₁ : σ} {a : α}
    (h : x s = .ok a s₁) : (x >>= f) s = f a s₁ := by
  simp [bind, EStateM.bind, h]

/-- Nothing comes after a failure. -/
theorem bind_of_error {x : EStateM ε σ α} {f : α → EStateM ε σ β} {s s₁ : σ} {e : ε}
    (h : x s = .error e s₁) : (x >>= f) s = .error e s₁ := by
  simp [bind, EStateM.bind, h]

/-- Two operations one after the other succeed when each does. -/
theorem bind_eq_ok {x : EStateM ε σ α} {f : α → EStateM ε σ β} {s s' : σ} {b : β} :
    (x >>= f) s = .ok b s' ↔ ∃ a s₁, x s = .ok a s₁ ∧ f a s₁ = .ok b s' := by
  constructor
  · intro h
    cases hx : x s with
    | ok a s₁ =>
      rw [bind_of_ok hx] at h
      exact ⟨a, s₁, rfl, h⟩
    | error e s₁ => rw [bind_of_error hx] at h; cases h
  · rintro ⟨a, s₁, hx, hf⟩
    rw [bind_of_ok hx, hf]

theorem catch_of_ok {x : EStateM ε σ α} {handle : ε → EStateM ε σ α} {s s₁ : σ} {a : α}
    (h : x s = .ok a s₁) : (tryCatch x handle) s = .ok a s₁ := by
  change EStateM.tryCatch x handle s = .ok a s₁
  delta EStateM.tryCatch
  dsimp only
  rw [h]

/-- What handles a failure goes on from the state it left. -/
theorem catch_of_error {x : EStateM ε σ α} {handle : ε → EStateM ε σ α} {s s₁ : σ} {e : ε}
    (h : x s = .error e s₁) : (tryCatch x handle) s = handle e s₁ := by
  change EStateM.tryCatch x handle s = handle e s₁
  delta EStateM.tryCatch
  dsimp only
  rw [h]
  rfl

/-- The state after an operation, whether it succeeds or fails. -/
def final : EStateM.Result ε σ α → σ
  | .ok _ s => s
  | .error _ s => s

@[simp]
theorem final_ok (a : α) (s : σ) : final (.ok a s : EStateM.Result ε σ α) = s := rfl

@[simp]
theorem final_error (e : ε) (s : σ) : final (.error e s : EStateM.Result ε σ α) = s := rfl

/-- The value of a success. -/
def value? : EStateM.Result ε σ α → Option α
  | .ok a _ => some a
  | .error _ _ => none

theorem value?_eq_some {r : EStateM.Result ε σ α} {a : α} :
    value? r = some a ↔ ∃ s, r = .ok a s := by
  cases r with
  | ok b s => simp [value?]
  | error e s => simp [value?]

/-- A success whose value passes a test. -/
theorem exists_ok_of_any {x : Except ε α} {p : α → Bool} (h : x.toOption.any p = true) :
    ∃ a, x = .ok a ∧ p a = true := by
  cases x with
  | ok a => exact ⟨a, rfl, h⟩
  | error e => cases h

end SourceMacros
