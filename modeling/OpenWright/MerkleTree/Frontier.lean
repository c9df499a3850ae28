import OpenWright.MerkleTree.Levels

/-! # Frontiers

The frontier of a list of nodes keeps one optional node per level: slot `i` holds the head of the
block of `2 ^ i` nodes that bit `i` of the length stands for. Appending a node is a binary carry
(`push_frontierOf`), folding the slots from the smallest block upwards gives the head of the tree
(`foldUp_frontierOf`), and the occupied slots are the bits of the length
(`isSome_getElem?_frontierOf`). -/

namespace OpenWright.MerkleTree

universe u

variable {α : Type u} (node : α → α → α) (e : α)

/-- Join the nodes of a level in pairs, leaving an odd last node behind. -/
def halve : List α → List α
  | a :: b :: rest => node a b :: halve rest
  | _ => []

/-- Each pair gives one node. -/
@[simp] theorem length_halve : ∀ L : List α, (halve node L).length = L.length / 2
  | [] => by simp [halve]
  | [_] => by simp [halve]
  | _ :: _ :: rest => by
      simp only [halve, List.length_cons, length_halve rest]
      omega

/-- A node appended to an even level stays behind. -/
theorem halve_append_even : ∀ (L : List α) (x : α), L.length % 2 = 0 →
    halve node (L ++ [x]) = halve node L
  | [], _, _ => rfl
  | [_], _, h => by simp at h
  | a :: b :: rest, x, h => by
      have hrest : rest.length % 2 = 0 := by simp only [List.length_cons] at h; omega
      simp only [List.cons_append, halve, halve_append_even rest x hrest]

/-- A node appended to an odd level joins the node left behind. -/
theorem halve_append_odd : ∀ (L : List α) (a x : α), L.length % 2 = 0 →
    halve node (L ++ [a] ++ [x]) = halve node L ++ [node a x]
  | [], _, _, _ => rfl
  | [_], _, _, h => by simp at h
  | b :: c :: rest, a, x, h => by
      have hrest : rest.length % 2 = 0 := by simp only [List.length_cons] at h; omega
      have ih := halve_append_odd rest a x hrest
      simp only [List.cons_append, List.append_assoc, halve] at ih ⊢
      rw [ih]

/-- An even level is paired up without a rest. -/
theorem pairUp_eq_halve : ∀ (L : List α), L.length % 2 = 0 → pairUp node L = halve node L
  | [], _ => rfl
  | [_], h => by simp at h
  | a :: b :: rest, h => by
      have hrest : rest.length % 2 = 0 := by simp only [List.length_cons] at h; omega
      simp only [pairUp_cons_cons, halve, pairUp_eq_halve rest hrest]

/-- A list of odd length is a list of even length and a last node. -/
theorem exists_append_of_odd {L : List α} (h : L.length % 2 = 1) :
    ∃ E a, L = E ++ [a] ∧ E.length % 2 = 0 := by
  have hne : L ≠ [] := by rintro rfl; simp at h
  refine ⟨L.dropLast, L.getLast hne, (List.dropLast_concat_getLast hne).symm, ?_⟩
  rw [List.length_dropLast]; omega

/-! ## The frontier of a list -/

/-- The frontier of a list of nodes, smallest block first. -/
def frontierOf (L : List α) : List (Option α) :=
  if L.length = 0 then []
  else (if L.length % 2 = 1 then L.getLast? else none) :: frontierOf (halve node L)
termination_by L.length
decreasing_by rw [length_halve]; omega

/-- No leaves have no frontier. -/
@[simp] theorem frontierOf_nil : frontierOf node [] = [] := by rw [frontierOf]; rfl

/-- A level of even length leaves its slot empty. -/
theorem frontierOf_even {L : List α} (hne : L.length ≠ 0) (h : L.length % 2 = 0) :
    frontierOf node L = none :: frontierOf node (halve node L) := by
  rw [frontierOf, if_neg hne, if_neg (by omega)]

/-- A level of odd length puts its last node into its slot. -/
theorem frontierOf_odd {E : List α} (a : α) (h : E.length % 2 = 0) :
    frontierOf node (E ++ [a]) = some a :: frontierOf node (halve node E) := by
  rw [frontierOf, if_neg (by simp), if_pos (by simp; omega), List.getLast?_concat,
    halve_append_even node E a h]

/-- Add a node to a frontier, joining it with the occupied slots it meets. -/
def push : List (Option α) → α → List (Option α)
  | [], x => [some x]
  | none :: F, x => some x :: F
  | some h :: F, x => none :: push F (node h x)

/-- **Pushing a node appends it**: the frontier stays that of the list. -/
theorem push_frontierOf (L : List α) (x : α) :
    push node (frontierOf node L) x = frontierOf node (L ++ [x]) := by
  by_cases hne : L.length = 0
  · rw [List.length_eq_zero_iff.mp hne, frontierOf_nil]
    exact (frontierOf_odd node (E := []) x rfl).symm ▸ by simp [push, halve]
  · rcases Nat.mod_two_eq_zero_or_one L.length with hpar | hpar
    · rw [frontierOf_even node hne hpar, frontierOf_odd node x hpar, push]
    · obtain ⟨E, a, hL, hE⟩ := exists_append_of_odd hpar
      have hdec : (halve node E).length < L.length := by
        rw [hL, length_halve, List.length_append, List.length_singleton]; omega
      rw [hL, frontierOf_odd node a hE, push, push_frontierOf (halve node E) (node a x),
        ← halve_append_odd node E a x hE,
        frontierOf_even node (L := E ++ [a] ++ [x]) (by simp) (by simp; omega)]
termination_by L.length
decreasing_by all_goals assumption

/-- Fold a frontier from its smallest block upwards. -/
def foldUp : Option α → List (Option α) → Option α
  | acc, [] => acc
  | acc, none :: F => foldUp acc F
  | none, some h :: F => foldUp (some h) F
  | some x, some h :: F => foldUp (some (node h x)) F

/-- **Folding the frontier gives the head of the tree** over the list and the node carried in. -/
theorem foldUp_frontierOf (L : List α) (acc : Option α) (hne : L ++ acc.toList ≠ []) :
    foldUp node acc (frontierOf node L) = some (head node e (L ++ acc.toList)) := by
  -- without leaves, what is carried in is the whole tree
  by_cases hlen : L.length = 0
  · obtain rfl := List.length_eq_zero_iff.mp hlen
    cases acc with
    | none => exact absurd rfl hne
    | some x => simp [foldUp]
  · rcases Nat.mod_two_eq_zero_or_one L.length with hpar | hpar
    -- an even row has nothing left over, and the carry goes one level up
    · have hdec : (halve node L).length < L.length := by rw [length_halve]; omega
      have hpos : 0 < (halve node L).length := by rw [length_halve]; omega
      have hne' : halve node L ++ acc.toList ≠ [] := by
        intro h; rw [(List.append_eq_nil_iff.mp h).1] at hpos; simp at hpos
      rw [frontierOf_even node hlen hpar, foldUp, foldUp_frontierOf (halve node L) acc hne',
        ← head_pairUp node e (L ++ acc.toList), pairUp_append node L _ hpar,
        pairUp_eq_halve node L hpar]
      cases acc <;> rfl
    -- an odd row leaves its last node: it is carried up, or joined with what is carried in
    · obtain ⟨E, a, hL, hE⟩ := exists_append_of_odd hpar
      have hdec : (halve node E).length < L.length := by
        rw [hL, length_halve, List.length_append, List.length_singleton]; omega
      have hE' := pairUp_eq_halve node E hE
      rw [hL, frontierOf_odd node a hE]
      cases acc with
      | none =>
          rw [foldUp, foldUp_frontierOf (halve node E) (some a) (by simp),
            ← head_pairUp node e (E ++ [a] ++ _), Option.toList_none, List.append_nil,
            pairUp_append node E _ hE, hE']
          rfl
      | some x =>
          rw [foldUp, foldUp_frontierOf (halve node E) (some (node a x)) (by simp),
            ← head_pairUp node e (E ++ [a] ++ _), Option.toList_some, List.append_assoc,
            pairUp_append node E _ hE, hE']
          rfl
termination_by L.length
decreasing_by all_goals assumption

/-- **The occupied slots are the bits of the length.** -/
theorem isSome_getElem?_frontierOf (L : List α) (i : Nat) :
    ((frontierOf node L)[i]?.join).isSome = L.length.testBit i := by
  by_cases hlen : L.length = 0
  · rw [List.length_eq_zero_iff.mp hlen, frontierOf_nil]; simp
  · have hdec : (halve node L).length < L.length := by rw [length_halve]; omega
    cases i with
    | zero =>
        rcases Nat.mod_two_eq_zero_or_one L.length with hpar | hpar
        · rw [frontierOf_even node hlen hpar, Nat.testBit_zero]
          simp [hpar]
        · obtain ⟨E, a, rfl, hE⟩ := exists_append_of_odd hpar
          rw [frontierOf_odd node a hE, Nat.testBit_zero, hpar]
          simp
    | succ i =>
        have hrest : (frontierOf node L)[i + 1]? = (frontierOf node (halve node L))[i]? := by
          rw [frontierOf, if_neg hlen, List.getElem?_cons_succ]
        rw [hrest, isSome_getElem?_frontierOf (halve node L) i, length_halve, Nat.testBit_succ]
termination_by L.length
decreasing_by all_goals assumption

end OpenWright.MerkleTree
