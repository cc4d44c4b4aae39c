import LaurentCalc.Obstacle

/-!
# Attempts taken apart

What it takes for a sequence of attempts to succeed, and where its obstacle comes
from when it does not.
-/

namespace LaurentCalc

set_option autoImplicit false

universe u v

variable {ε : Type u} {α β : Type v}

theorem bind_eq_ok_iff {x : Except ε α} {f : α → Except ε β} {b : β} :
    x >>= f = .ok b ↔ ∃ a, x = .ok a ∧ f a = .ok b := by
  cases x <;> simp [bind, Except.bind]

theorem bind_eq_error_iff {x : Except ε α} {f : α → Except ε β} {o : ε} :
    x >>= f = .error o ↔ x = .error o ∨ ∃ a, x = .ok a ∧ f a = .error o := by
  cases x <;> simp [bind, Except.bind]

theorem map_eq_ok_iff {x : Except ε α} {f : α → β} {b : β} :
    x.map f = .ok b ↔ ∃ a, x = .ok a ∧ f a = b := by
  cases x <;> simp [Except.map]

@[simp] theorem ok_bind (a : α) (f : α → Except ε β) : (.ok a : Except ε α) >>= f = f a := rfl

@[simp] theorem error_bind (o : ε) (f : α → Except ε β) :
    (.error o : Except ε α) >>= f = .error o := rfl

@[simp] theorem pure_eq_ok (a : α) : (pure a : Except ε α) = .ok a := rfl

namespace Attempt

variable {γ : Type} {first second : Attempt γ}

theorem orIfNoRule_eq_ok {c : γ} (h : first.orIfNoRule second = .ok c) :
    first = .ok c ∨ first = .error .noRule ∧ second = .ok c := by
  unfold orIfNoRule at h
  split at h
  · exact Or.inr ⟨rfl, h⟩
  · exact Or.inl h

@[simp] theorem ok_orIfNoRule (c : γ) : orIfNoRule (.ok c) second = .ok c := rfl

@[simp] theorem noRule_orIfNoRule : orIfNoRule (.error .noRule) second = second := rfl

end Attempt

/-- Whatever obstacle the attempt meets has the property. -/
def Attempt.Meets {γ : Type} (P : Obstacle → Prop) (x : Attempt γ) : Prop :=
  ∀ o, x = .error o → P o

namespace Attempt

variable {γ δ : Type} {P Q : Obstacle → Prop} {x second : Attempt γ}

theorem meets_ok (c : γ) : Meets P (.ok c) := by
  intro o h
  cases h

theorem meets_error {o : Obstacle} (h : P o) : Meets P (.error o : Attempt γ) := by
  rintro _ ⟨⟩
  exact h

theorem meets_of_exists (h : ∃ c, x = .ok c) : x.Meets P := by
  obtain ⟨c, rfl⟩ := h
  exact meets_ok c

theorem Meets.mono (h : x.Meets P) (hPQ : ∀ o, P o → Q o) : x.Meets Q := by
  intro o ho
  exact hPQ o (h o ho)

theorem Meets.bind {f : γ → Attempt δ} (hx : x.Meets P) (hf : ∀ c, x = .ok c → (f c).Meets P) :
    Meets P (x >>= f) := by
  intro o h
  rcases bind_eq_error_iff.mp h with h | ⟨c, hc, h⟩
  · exact hx o h
  · exact hf c hc o h

theorem Meets.map {f : γ → δ} (hx : x.Meets P) : Meets P (x.map f) := by
  intro o h
  cases x with
  | ok c => cases h
  | error o' =>
    apply hx
    cases h
    rfl

theorem Meets.orIfNoRule (hx : x.Meets P) (hsecond : second.Meets P) :
    (x.orIfNoRule second).Meets P := by
  unfold Attempt.orIfNoRule
  split
  · exact hsecond
  · exact hx

end Attempt

end LaurentCalc
