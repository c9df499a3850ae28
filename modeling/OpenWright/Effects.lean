import Mathlib.Tactic.Common

/-! # Stateful computations of a result that does not depend on the state

A computation with a state may serve a purpose that the state has no part in, such as a value that
is looked up through a cache.

* **`Computes`** — the result is the one that a pure computation gives, whatever the state is, and the
  state moves along a relation. -/

namespace OpenWright.Effects

variable {ε S α β : Type} {I : S → S → Prop} {F : Prop}

/-- What comes after a step that returns. -/
theorem bind_ok {x : EStateM ε S α} {k : α → EStateM ε S β} {s s' : S} {a : α}
    (h : x s = .ok a s') : (x >>= k) s = k a s' := by
  change EStateM.bind x k s = _
  rw [EStateM.bind, h]

/-- What comes after a step that raises is skipped. -/
theorem bind_error {x : EStateM ε S α} {k : α → EStateM ε S β} {s s' : S} {err : ε}
    (h : x s = .error err s') : (x >>= k) s = .error err s' := by
  change EStateM.bind x k s = _
  rw [EStateM.bind, h]

/-- A value that is there is handed on. -/
theorem ofExcept_bind {x : Except ε α} {k : α → EStateM ε S β} {a : α} (h : x = .ok a) (s : S) :
    (ofExcept x >>= k) s = k a s := by
  rw [h]
  rfl

/-- The exceptions and the results of `x` are those of `y`, from every state; where `F` holds it may
raise others. The state moves along `I`, and with a result it has `Q`. -/
def Computes (I : S → S → Prop) (F : Prop) (Q : α → S → Prop) (x : EStateM ε S α)
    (y : Except ε α) : Prop :=
  ∀ s, match x s with
    | .ok a s' => y = .ok a ∧ I s s' ∧ Q a s'
    | .error err s' => (y = .error err ∨ F) ∧ I s s'

/-- The two outcomes of a computation. -/
theorem Computes.cases {Q : α → S → Prop} {x : EStateM ε S α} {y : Except ε α}
    (h : Computes I F Q x y) (s : S) :
    (∃ a s', x s = .ok a s' ∧ y = .ok a ∧ I s s' ∧ Q a s') ∨
      ∃ err s', x s = .error err s' ∧ (y = .error err ∨ F) ∧ I s s' := by
  have hs := h s
  cases hx : x s with
  | ok a s' =>
      rw [hx] at hs
      exact Or.inl ⟨a, s', rfl, hs⟩
  | error err s' =>
      rw [hx] at hs
      exact Or.inr ⟨err, s', rfl, hs⟩

/-- What does nothing computes what it returns. -/
theorem computes_pure [Std.Refl I] {Q : α → S → Prop} {a : α} (hQ : ∀ s, Q a s) :
    Computes I F Q (pure a : EStateM ε S α) (.ok a) :=
  fun s => ⟨rfl, refl s, hQ s⟩

/-- What does not use the state. -/
theorem computes_ofExcept [Std.Refl I] {Q : α → S → Prop} {y : Except ε α}
    (hQ : ∀ a s, y = .ok a → Q a s) : Computes I F Q (ofExcept y) y := by
  intro s
  cases y with
  | error err => exact ⟨Or.inl rfl, refl s⟩
  | ok a => exact ⟨rfl, refl s, hQ a s rfl⟩

/-- Of two computations, the first one's postcondition holds after the second too, where moving the
state keeps it. -/
theorem Computes.bind [IsTrans S I] {Q : α → S → Prop} {R : β → S → Prop} {x : EStateM ε S α}
    {y : Except ε α} {k : α → EStateM ε S β} {k' : α → Except ε β} (h : Computes I F Q x y)
    (hQ : ∀ a s s', Q a s → I s s' → Q a s')
    (hk : ∀ a, y = .ok a → Computes I F (fun b s => Q a s → R b s) (k a) (k' a)) :
    Computes I F R (x >>= k) (y >>= k') := by
  intro s
  rcases h.cases s with ⟨a, s', hx, hy, hmove, hpost⟩ | ⟨err, s', hx, hy, hmove⟩
  · have hpure : (y >>= k') = k' a := by
      rw [hy]
      rfl
    rw [bind_ok hx, hpure]
    rcases (hk a hy).cases s' with ⟨b, s'', hk, hy', hmove', hpost'⟩ | ⟨err, s'', hk, hy', hmove'⟩
    · rw [hk]
      exact ⟨hy', IsTrans.trans _ _ _ hmove hmove', hpost' (hQ a s' s'' hpost hmove')⟩
    · rw [hk]
      exact ⟨hy', IsTrans.trans _ _ _ hmove hmove'⟩
  · rw [bind_error hx]
    refine ⟨hy.imp_left fun heq => ?_, hmove⟩
    rw [heq]
    rfl

/-- A step that does not use the state. -/
theorem computes_ofExcept_bind {R : β → S → Prop} {y : Except ε α} {k : α → EStateM ε S β}
    {k' : α → Except ε β} [Std.Refl I] (hk : ∀ a, y = .ok a → Computes I F R (k a) (k' a)) :
    Computes I F R (ofExcept y >>= k) (ofExcept y >>= k') := by
  cases y with
  | error err => exact fun s => ⟨Or.inl rfl, refl s⟩
  | ok a => exact hk a rfl

end OpenWright.Effects
