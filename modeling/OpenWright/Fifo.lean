import Mathlib.Data.List.Basic
import Mathlib.Tactic.Common

/-! # Queues read through a callback

A queue is emptied by offering its elements, first in first out, to a callback that keeps a state and
takes or declines each; the first element that is declined stays, with all those behind it.

* **`taken_append_left`** — what is taken and what is left make up the queue.
* **`offer_recording`** — a callback that notes what it takes notes what is taken.
* **`offer_put_state`** — a bounded queue takes as many elements as it has room for. -/

namespace OpenWright.Fifo

universe u v

variable {α : Type u} {σ : Type v}

/-- What comes of offering a queue: the elements taken, those left, and the callback's state. -/
structure Offered (α : Type u) (σ : Type v) where
  taken : List α
  left : List α
  state : σ

/-- Offer the elements in order until one is declined. -/
def offer (accept : α → σ → Bool × σ) : List α → σ → Offered α σ
  | [], s => { taken := [], left := [], state := s }
  | a :: q, s =>
    match accept a s with
    | (true, s) =>
      let o := offer accept q s
      { o with taken := a :: o.taken }
    | (false, s) => { taken := [], left := a :: q, state := s }

section Offer

variable (accept : α → σ → Bool × σ)

/-- Nothing is offered of nothing. -/
@[simp] theorem offer_nil (s : σ) : offer accept [] s = { taken := [], left := [], state := s } := rfl

/-- An element that is taken goes first. -/
theorem offer_cons_of_taken {a : α} {q : List α} {s t : σ} (h : accept a s = (true, t)) :
    offer accept (a :: q) s
      = { offer accept q t with taken := a :: (offer accept q t).taken } := by
  rw [offer, h]

/-- An element that is declined ends it. -/
theorem offer_cons_of_declined {a : α} {q : List α} {s t : σ} (h : accept a s = (false, t)) :
    offer accept (a :: q) s = { taken := [], left := a :: q, state := t } := by
  rw [offer, h]

/-- **What is taken and what is left make up the queue.** -/
theorem taken_append_left (q : List α) (s : σ) :
    (offer accept q s).taken ++ (offer accept q s).left = q := by
  induction q generalizing s with
  | nil => rfl
  | cons a q ih =>
      rcases h : accept a s with ⟨_ | _, t⟩
      · rw [offer_cons_of_declined accept h, List.nil_append]
      · rw [offer_cons_of_taken accept h, List.cons_append, ih]

/-- What is left is behind what is taken. -/
theorem drop_taken (q : List α) (s : σ) :
    q.drop (offer accept q s).taken.length = (offer accept q s).left := by
  have h := taken_append_left accept q s
  generalize offer accept q s = o at h ⊢
  rw [← h, List.drop_left]

/-- No more is taken than there is. -/
theorem length_taken_le (q : List α) (s : σ) : (offer accept q s).taken.length ≤ q.length := by
  have h := congrArg List.length (taken_append_left accept q s)
  rw [List.length_append] at h
  omega

/-- A callback that notes what it takes. -/
def recording (a : α) (s : σ × List α) : Bool × σ × List α :=
  match accept a s.1 with
  | (true, t) => (true, t, s.2 ++ [a])
  | (false, t) => (false, t, s.2)

/-- **What is noted is what is taken.** -/
theorem offer_recording (q : List α) (s : σ) (log : List α) :
    offer (recording accept) q (s, log)
      = { offer accept q s with
          state := ((offer accept q s).state, log ++ (offer accept q s).taken) } := by
  induction q generalizing s log with
  | nil => simp
  | cons a q ih =>
      rcases h : accept a s with ⟨_ | _, t⟩
      · have hrec : recording accept a (s, log) = (false, t, log) := by rw [recording, h]
        rw [offer_cons_of_declined _ hrec, offer_cons_of_declined accept h, List.append_nil]
      · have hrec : recording accept a (s, log) = (true, t, log ++ [a]) := by rw [recording, h]
        rw [offer_cons_of_taken _ hrec, offer_cons_of_taken accept h, ih, List.append_assoc,
          List.singleton_append]

end Offer

/-! ## Bounded queues -/

variable {β : Type u}

/-- Put what `f` makes of an element into a queue if `room` says that there is room for it. -/
def put (room : List β → Bool) (f : α → β) (a : α) (q : List β) : Bool × List β :=
  if room q then (true, q ++ [f a]) else (false, q)

/-- **What a bounded queue takes** is behind what it held. -/
theorem offer_put_state (room : List β → Bool) (f : α → β) (p : List α) (q : List β) :
    (offer (put room f) p q).state = q ++ (offer (put room f) p q).taken.map f := by
  induction p generalizing q with
  | nil => simp
  | cons a p ih =>
      by_cases h : room q
      · have hput : put room f a q = (true, q ++ [f a]) := if_pos h
        rw [offer_cons_of_taken _ hput, ih, List.map_cons, List.append_assoc, List.singleton_append]
      · have hput : put room f a q = (false, q) := if_neg h
        rw [offer_cons_of_declined _ hput, List.map_nil, List.append_nil]

end OpenWright.Fifo
