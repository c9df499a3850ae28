import OpenWright.Python.Value

/-! # Two programs in step

Two computations that may fail agree where they fail together, or return together with results that
are related. Programs that go through the same steps agree where each two steps do.

* **`Agree.bind`**, **`Agree.foldlM`** — agreement step by step, and through a loop over one list. -/

namespace OpenWright.Python

/-- Two computations return together, with related results, or fail together. -/
inductive Agree {ε α β : Type} (R : α → β → Prop) : Except ε α → Except ε β → Prop
  | ok {a : α} {b : β} (h : R a b) : Agree R (.ok a) (.ok b)
  | error (err err' : ε) : Agree R (.error err) (.error err')

namespace Agree

variable {ε α β γ δ : Type} {R : α → β → Prop} {S : γ → δ → Prop} {x : Except ε α} {y : Except ε β}

/-- A computation agrees with itself. -/
theorem refl (x : Except ε α) : Agree Eq x x := by
  cases x with
  | ok a => exact ok rfl
  | error err => exact error err err

/-- Where the first returns, so does the second. -/
theorem right (h : Agree R x y) {a : α} (hx : x = .ok a) : ∃ b, y = .ok b ∧ R a b := by
  cases h with
  | ok h =>
      cases hx
      exact ⟨_, rfl, h⟩
  | error err err' => cases hx

/-- Where the second returns, so does the first. -/
theorem left (h : Agree R x y) {b : β} (hy : y = .ok b) : ∃ a, x = .ok a ∧ R a b := by
  cases h with
  | ok h =>
      cases hy
      exact ⟨_, rfl, h⟩
  | error err err' => cases hy

/-- Programs agree where their steps do. -/
theorem bind (h : Agree R x y) {f : α → Except ε γ} {g : β → Except ε δ}
    (hf : ∀ a b, R a b → Agree S (f a) (g b)) : Agree S (x >>= f) (y >>= g) := by
  cases h with
  | ok h => exact hf _ _ h
  | error err err' => exact error err err'

/-- Equal computations are followed by the same step. -/
theorem bind_left (x : Except ε α) {f : α → Except ε γ} {g : α → Except ε δ}
    (hf : ∀ a, x = .ok a → Agree S (f a) (g a)) : Agree S (x >>= f) (x >>= g) := by
  cases x with
  | ok a => exact hf a rfl
  | error err => exact error err err

/-- **Loops over one list agree** where their bodies do. -/
theorem foldlM {ι : Type} {f : α → ι → Except ε α} {g : β → ι → Except ε β} {xs : List ι}
    (hf : ∀ x ∈ xs, ∀ a b, R a b → Agree R (f a x) (g b x)) :
    ∀ {a : α} {b : β}, R a b → Agree R (xs.foldlM f a) (xs.foldlM g b) := by
  induction xs with
  | nil => exact fun h => ok h
  | cons x xs ih =>
      intro a b h
      rw [List.forall_mem_cons] at hf
      rw [List.foldlM_cons, List.foldlM_cons]
      exact (hf.1 a b h).bind fun _ _ => ih hf.2

end Agree

end OpenWright.Python
