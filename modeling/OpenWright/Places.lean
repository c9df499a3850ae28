import Mathlib.Algebra.BigOperators.Group.Finset.Basic
import Mathlib.Data.Multiset.ZeroCons
import Mathlib.Tactic.Common

/-! # Elements in places

Elements lie in places, and a step moves one of them on, to a place of a higher rank, or none.

* **`Moves.total_eq`** — no step loses or doubles an element.
* **`Moves.empty_upTo`** — where all places up to a rank are empty, they stay empty. -/

namespace OpenWright.Places

universe u v

variable {ι : Type u} {α : Type v} (rank : ι → Nat)

/-- The element `x` goes from the place `i` to the place `j`. -/
structure Transfer (s t : ι → Multiset α) (i j : ι) (x : α) : Prop where
  onward : rank i < rank j
  source : s i = x ::ₘ t i
  target : t j = x ::ₘ s j
  frame : ∀ l, l ≠ i → l ≠ j → t l = s l

/-- A step: it moves no element, or one. -/
inductive Moves (s t : ι → Multiset α) : Prop
  | stay (h : t = s)
  | transfer {i j : ι} {x : α} (h : Transfer rank s t i j x)

variable {rank} {s t : ι → Multiset α}

/-- All elements. -/
def total [Fintype ι] (s : ι → Multiset α) : Multiset α := ∑ i, s i

section Total

variable [Fintype ι] [DecidableEq ι]

/-- The elements of two places, and the others. -/
theorem total_eq_pair (s : ι → Multiset α) {i j : ι} (h : i ≠ j) :
    total s = s i + s j + ∑ l ∈ (Finset.univ.erase i).erase j, s l := by
  have hj : j ∈ Finset.univ.erase i := Finset.mem_erase.mpr ⟨h.symm, Finset.mem_univ j⟩
  rw [total, ← Finset.add_sum_erase Finset.univ s (Finset.mem_univ i),
    ← Finset.add_sum_erase _ s hj, add_assoc]

/-- A transfer keeps the elements. -/
theorem Transfer.total_eq {i j : ι} {x : α} (h : Transfer rank s t i j x) : total t = total s := by
  have hne : i ≠ j := fun hij => Nat.lt_irrefl _ (hij ▸ h.onward)
  have hothers : ∑ l ∈ (Finset.univ.erase i).erase j, t l
      = ∑ l ∈ (Finset.univ.erase i).erase j, s l := by
    apply Finset.sum_congr rfl
    intro l hl
    obtain ⟨hlj, hli⟩ := Finset.mem_erase.mp hl
    exact h.frame l (Finset.mem_erase.mp hli).1 hlj
  rw [total_eq_pair t hne, total_eq_pair s hne, hothers, h.target, h.source, Multiset.cons_add,
    Multiset.add_cons]

/-- **No step loses or doubles an element.** -/
theorem Moves.total_eq (h : Moves rank s t) : total t = total s := by
  cases h with
  | stay h => rw [h]
  | transfer h => exact h.total_eq

/-- Elements that come to a place come to all. -/
theorem total_arrive {i : ι} {m : Multiset α} (hi : t i = s i + m) (hframe : ∀ l, l ≠ i → t l = s l) :
    total t = total s + m := by
  have hothers : ∑ l ∈ Finset.univ.erase i, t l = ∑ l ∈ Finset.univ.erase i, s l :=
    Finset.sum_congr rfl fun l hl => hframe l (Finset.mem_erase.mp hl).1
  rw [total, total, ← Finset.add_sum_erase Finset.univ t (Finset.mem_univ i),
    ← Finset.add_sum_erase Finset.univ s (Finset.mem_univ i), hi, hothers, add_right_comm]

end Total

/-- The places up to a rank are empty. -/
def EmptyUpTo (rank : ι → Nat) (s : ι → Multiset α) (n : Nat) : Prop := ∀ i, rank i ≤ n → s i = 0

/-- **Empty places stay empty** where those before them are empty too. -/
theorem Moves.empty_upTo (h : Moves rank s t) {n : Nat} (hempty : EmptyUpTo rank s n) :
    EmptyUpTo rank t n := by
  cases h with
  | stay h => rwa [h]
  | @transfer i j x h =>
      have hsource : n < rank i := by
        by_contra hle
        have hcons := h.source
        rw [hempty i (Nat.le_of_not_lt hle)] at hcons
        exact Multiset.zero_ne_cons hcons
      intro l hl
      have hli : l ≠ i := by
        rintro rfl
        exact Nat.lt_irrefl _ (Nat.lt_of_lt_of_le hsource hl)
      have hlj : l ≠ j := by
        rintro rfl
        exact Nat.lt_irrefl _ (Nat.lt_of_lt_of_le (Nat.lt_trans hsource h.onward) hl)
      rw [h.frame l hli hlj]
      exact hempty l hl

end OpenWright.Places
