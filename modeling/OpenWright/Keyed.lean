import Mathlib.Data.List.Infix
import Mathlib.Tactic.Common

/-! # Stores with one answer for each key

A store takes items one after another and answers for a key with what it took last under that key.

* **`kept_iff`** — it gives the right answer for every item, from when the item was taken on and for
  ever, exactly where each item is shown as it should be and items with one key have one answer. -/

namespace OpenWright.Keyed

universe u v w x

variable {σ : Type u} {α : Type v} {κ : Type w} {β : Type x} [DecidableEq κ]

section

variable (put : σ → α → σ) (get : σ → κ → β) (key : α → κ)

/-- The store after taking items one after another. -/
def run (s : σ) (items : List α) : σ := items.foldl put s

/-- Whenever an item has been taken, the store gives the right answer for its key. -/
def Kept (answer : α → β) (s : σ) (items : List α) : Prop :=
  ∀ pre a post, pre ++ a :: post <+: items → get (run put s (pre ++ a :: post)) (key a) = answer a

/-- Taking an item changes the answer for its key only, to what is shown of the item. -/
def ShowsLast (shown : α → β) : Prop :=
  ∀ s a k, get (put s a) k = if k = key a then shown a else get s k

end

variable {put : σ → α → σ} {get : σ → κ → β} {key : α → κ} {answer shown : α → β}

/-- A longer run goes on from the shorter one. -/
theorem run_append (s : σ) (items more : List α) :
    run put s (items ++ more) = run put (run put s items) more :=
  List.foldl_append

/-- A run of one step. -/
theorem run_singleton (s : σ) (a : α) : run put s [a] = put s a := rfl

/-- The answer for the key of the item taken last. -/
theorem get_run_concat (h : ShowsLast put get key shown) (s : σ) (items : List α) (a : α) (k : κ) :
    get (run put s (items ++ [a])) k = if k = key a then shown a else get (run put s items) k := by
  rw [run_append, run_singleton, h]

/-- The answer for a key that items were taken under is that of one of them. -/
theorem exists_get_run (h : ShowsLast put get key shown) {s : σ} {items : List α} {k : κ}
    (hk : k ∈ items.map key) : ∃ a ∈ items, key a = k ∧ get (run put s items) k = shown a := by
  induction items using List.reverseRecOn with
  | nil => exact absurd hk List.not_mem_nil
  | append_singleton items a ih =>
      rw [get_run_concat h]
      by_cases hlast : k = key a
      · exact ⟨a, by simp, hlast.symm, if_pos hlast⟩
      · rw [List.map_append, List.mem_append] at hk
        obtain ⟨b, hb, hkey, hget⟩ := ih (hk.resolve_right fun hmem => hlast (by simpa using hmem))
        exact ⟨b, List.mem_append_left _ hb, hkey, (if_neg hlast).trans hget⟩

/-- **What is kept.** -/
theorem kept_iff (h : ShowsLast put get key shown) {s : σ} {items : List α} :
    Kept put get key answer s items ↔
      (∀ a ∈ items, shown a = answer a) ∧
        items.Pairwise fun a b => key a = key b → answer a = answer b := by
  constructor
  · intro hkept
    have hshown : ∀ a ∈ items, shown a = answer a := by
      intro a ha
      obtain ⟨pre, post, rfl⟩ := List.append_of_mem ha
      have hget := hkept pre a [] ⟨post, by simp⟩
      rwa [get_run_concat h, if_pos rfl] at hget
    refine ⟨hshown, List.pairwise_iff_forall_sublist.mpr fun {a b} hsub hkey => ?_⟩
    obtain ⟨r₁, r₂, rfl, ha, hb⟩ := List.cons_sublist_iff.mp hsub
    obtain ⟨pre, q, rfl⟩ := List.append_of_mem ha
    obtain ⟨m, post, rfl⟩ := List.append_of_mem (List.singleton_sublist.mp hb)
    -- the later item is shown for the key of the earlier one
    have hget := hkept pre a (q ++ m ++ [b]) ⟨post, by simp⟩
    rw [← List.cons_append, ← List.append_assoc, get_run_concat h, if_pos hkey,
      hshown b (by simp)] at hget
    exact hget.symm
  · rintro ⟨hshown, hpairwise⟩ pre a post hinit
    induction post using List.reverseRecOn with
    | nil =>
        rw [get_run_concat h, if_pos rfl]
        exact hshown a (hinit.subset (by simp))
    | append_singleton post b ih =>
        rw [← List.cons_append, ← List.append_assoc] at hinit ⊢
        rw [get_run_concat h]
        split
        · rename_i hkey
          have hpair := hpairwise.sublist hinit.sublist
          rw [List.pairwise_append] at hpair
          exact (hshown b (hinit.subset (by simp))).trans
            (hpair.2.2 a (by simp) b (by simp) hkey).symm
        · exact ih ((List.prefix_append _ [b]).trans hinit)

end OpenWright.Keyed
