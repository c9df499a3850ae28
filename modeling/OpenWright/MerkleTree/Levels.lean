import Mathlib.Algebra.Group.Nat.Defs
import Mathlib.Data.List.Basic
import Mathlib.Data.Nat.Basic
import Mathlib.Tactic.Common

/-! # Left-balanced hash trees, level by level

The tree of a list of nodes is built bottom-up: `pairUp` joins neighbours with a binary `node`
operation and lets an odd last node move up unchanged, and `head` repeats that until one node is
left. Splitting a list after a perfect block of `2 ^ j` nodes splits the tree at its root
(`head_append`), so this is the tree that is usually defined top-down by the largest power of two
below the size.

`pairs` lists every pair of nodes the tree joins. It is what a hash has to keep apart for the
tree to bind its leaves. -/

namespace OpenWright.MerkleTree

universe u

variable {α : Type u} (node : α → α → α) (e : α)

/-! ## One level -/

/-- Join the nodes of a level in pairs; an odd last node moves up unchanged. -/
def pairUp : List α → List α
  | a :: b :: rest => node a b :: pairUp rest
  | rest => rest

/-- There are no pairs in nothing. -/
@[simp] theorem pairUp_nil : pairUp node [] = [] := rfl

/-- A single node goes up alone. -/
@[simp] theorem pairUp_singleton (a : α) : pairUp node [a] = [a] := rfl

/-- Two nodes make a pair. -/
@[simp] theorem pairUp_cons_cons (a b : α) (rest : List α) :
    pairUp node (a :: b :: rest) = node a b :: pairUp node rest := rfl

/-- A level of `n` nodes has `⌈n / 2⌉` nodes above it. -/
@[simp] theorem length_pairUp : ∀ L : List α, (pairUp node L).length = (L.length + 1) / 2
  | [] => by simp
  | [_] => by simp
  | a :: b :: rest => by
      simp only [pairUp_cons_cons, List.length_cons, length_pairUp rest]
      omega

/-- The level above is shorter as soon as two nodes meet. -/
theorem length_pairUp_lt {L : List α} (h : 2 ≤ L.length) :
    (pairUp node L).length < L.length := by
  rw [length_pairUp]; omega

/-- Blocks of even length are paired up independently. -/
theorem pairUp_append : ∀ (A B : List α), A.length % 2 = 0 →
    pairUp node (A ++ B) = pairUp node A ++ pairUp node B
  | [], _, _ => rfl
  | [_], _, hA => by simp at hA
  | a :: b :: rest, B, hA => by
      have hrest : rest.length % 2 = 0 := by simp only [List.length_cons] at hA; omega
      simp only [List.cons_append, pairUp_cons_cons, pairUp_append rest B hrest]

/-- The node above an odd position joins it to its left neighbour. -/
theorem getElem?_pairUp_odd : ∀ {L : List α} {i : Nat} {p x : α}, i % 2 = 1 →
    L[i - 1]? = some p → L[i]? = some x → (pairUp node L)[i / 2]? = some (node p x)
  | [], _, _, _, _, _, hx => by simp at hx
  | [_], i + 1, _, _, _, _, hx => by simp at hx
  | a :: b :: _, 1, p, x, _, hp, hx => by
      have hap : a = p := by simpa using hp
      have hbx : b = x := by simpa using hx
      simp [hap, hbx]
  | _ :: _ :: rest, i + 3, p, x, hi, hp, hx => by
      have ih := getElem?_pairUp_odd (L := rest) (i := i + 1) (p := p) (x := x) (by omega)
        (by simpa using hp) (by simpa using hx)
      rw [show (i + 3) / 2 = (i + 1) / 2 + 1 by omega]
      simpa using ih

/-- The node above an even position joins it to its right neighbour. -/
theorem getElem?_pairUp_even {L : List α} {i : Nat} {x q : α} (hi : i % 2 = 0)
    (hx : L[i]? = some x) (hq : L[i + 1]? = some q) :
    (pairUp node L)[i / 2]? = some (node x q) := by
  have h := getElem?_pairUp_odd node (L := L) (i := i + 1) (by omega) (by simpa using hx) hq
  rwa [show (i + 1) / 2 = i / 2 by omega] at h

/-- An even last position has no neighbour: its node moves up. -/
theorem getElem?_pairUp_last : ∀ {L : List α} {i : Nat}, i % 2 = 0 → i + 1 = L.length →
    (pairUp node L)[i / 2]? = L[i]?
  | [], _, _, h => by simp at h
  | [_], i, _, h => by
      have hi : i = 0 := by simpa using h
      simp [hi]
  | _ :: _ :: _, 0, _, h => by simp at h
  | _ :: _ :: rest, i + 2, hi, h => by
      have ih := getElem?_pairUp_last (L := rest) (i := i) (by omega) (by simpa using h)
      rw [show (i + 2) / 2 = i / 2 + 1 by omega]
      simpa using ih

/-- Changing an odd node changes exactly the node above it. -/
theorem pairUp_set_odd : ∀ {L : List α} {i : Nat} {p : α} (y : α), i % 2 = 1 → i < L.length →
    L[i - 1]? = some p → pairUp node (L.set i y) = (pairUp node L).set (i / 2) (node p y)
  | [], _, _, _, _, hl, _ => by simp at hl
  | [_], i + 1, _, _, _, hl, _ => by simp at hl
  | a :: b :: _, 1, p, y, _, _, hp => by
      have hap : a = p := by simpa using hp
      simp [hap]
  | _ :: _ :: rest, i + 3, p, y, hi, hl, hp => by
      have ih := pairUp_set_odd (L := rest) (i := i + 1) (p := p) y (by omega)
        (by simp only [List.length_cons] at hl; omega) (by simpa using hp)
      rw [show (i + 3) / 2 = (i + 1) / 2 + 1 by omega]
      simp only [List.set_cons_succ, pairUp_cons_cons, ih]

/-- Changing an even node with a right neighbour changes exactly the node above it. -/
theorem pairUp_set_even : ∀ {L : List α} {i : Nat} {q : α} (y : α), i % 2 = 0 →
    L[i + 1]? = some q → pairUp node (L.set i y) = (pairUp node L).set (i / 2) (node y q)
  | [], _, _, _, _, hq => by simp at hq
  | [_], _, _, _, _, hq => by simp at hq
  | a :: b :: _, 0, q, y, _, hq => by
      have hbq : b = q := by simpa using hq
      simp [hbq]
  | _ :: _ :: rest, i + 2, q, y, hi, hq => by
      have ih := pairUp_set_even (L := rest) (i := i) (q := q) y (by omega) (by simpa using hq)
      rw [show (i + 2) / 2 = i / 2 + 1 by omega]
      simp only [List.set_cons_succ, pairUp_cons_cons, ih]

/-- Changing an even last node changes exactly the node that moves up. -/
theorem pairUp_set_last : ∀ {L : List α} {i : Nat} (y : α), i % 2 = 0 → i + 1 = L.length →
    pairUp node (L.set i y) = (pairUp node L).set (i / 2) y
  | [], _, _, _, h => by simp at h
  | [_], i, y, _, h => by
      have hi : i = 0 := by simpa using h
      simp [hi]
  | _ :: _ :: _, 0, _, _, h => by simp at h
  | _ :: _ :: rest, i + 2, y, hi, h => by
      have ih := pairUp_set_last (L := rest) (i := i) y (by omega) (by simpa using h)
      rw [show (i + 2) / 2 = i / 2 + 1 by omega]
      simp only [List.set_cons_succ, pairUp_cons_cons, ih]

/-- The first `2 * j` nodes pair up to the first `j` nodes of the level above. -/
theorem pairUp_take : ∀ (j : Nat) (L : List α), 2 * j ≤ L.length →
    pairUp node (L.take (2 * j)) = (pairUp node L).take j
  | 0, _, _ => by simp
  | j + 1, [], h => by simp at h
  | j + 1, [_], h => by simp at h; omega
  | j + 1, a :: b :: rest, h => by
      have ih := pairUp_take j rest (by simp only [List.length_cons] at h; omega)
      rw [Nat.mul_succ]
      simp only [List.take_succ_cons, pairUp_cons_cons, ih]

/-! ## The whole tree -/

/-- The head of the tree over a list of nodes: the value `e` for no node at all, else the one node
left after joining level after level. -/
def head : List α → α
  | [] => e
  | [a] => a
  | a :: b :: rest => head (node a b :: pairUp node rest)
termination_by L => L.length
decreasing_by simp only [List.length_cons, length_pairUp]; omega

/-- The head of no leaves. -/
@[simp] theorem head_nil : head node e [] = e := by rw [head]

/-- The head of one leaf is the leaf. -/
@[simp] theorem head_singleton (a : α) : head node e [a] = a := by rw [head]

/-- Joining one level does not change the head. -/
@[simp] theorem head_pairUp : ∀ L : List α, head node e (pairUp node L) = head node e L
  | [] => rfl
  | [_] => rfl
  | a :: b :: rest => by rw [pairUp_cons_cons, head.eq_3]

/-- **The tree splits at its root**: after a perfect block of `2 ^ j` nodes, followed by at least
one and at most as many nodes again, the head joins the heads of the two parts. -/
theorem head_append : ∀ (j : Nat) {A B : List α}, A.length = 2 ^ j → B ≠ [] → B.length ≤ 2 ^ j →
    head node e (A ++ B) = node (head node e A) (head node e B)
  | 0, [a], [b], _, _, _ => by simp [head]
  | 0, [_], [], _, hne, _ => absurd rfl hne
  | 0, [_], _ :: _ :: _, _, _, hB => by simp at hB
  | 0, [], _, hA, _, _ => by simp at hA
  | 0, _ :: _ :: _, _, hA, _, _ => by simp at hA
  | j + 1, A, B, hA, hne, hB => by
      have hpow : 2 ^ (j + 1) = 2 ^ j * 2 := Nat.pow_succ 2 j
      have hlen : 0 < B.length := List.length_pos_iff.mpr hne
      have hB' : pairUp node B ≠ [] := by
        rw [← List.length_pos_iff, length_pairUp]; omega
      rw [← head_pairUp, pairUp_append node A B (by omega),
        head_append j (by rw [length_pairUp]; omega) hB' (by rw [length_pairUp]; omega),
        head_pairUp, head_pairUp]

/-! ## The pairs a tree joins -/

/-- The neighbours of one level that are joined. -/
def adjacent : List α → List (α × α)
  | a :: b :: rest => (a, b) :: adjacent rest
  | _ => []

/-- An odd position and its left neighbour are joined. -/
theorem mem_adjacent_odd : ∀ {L : List α} {i : Nat} {p x : α}, i % 2 = 1 →
    L[i - 1]? = some p → L[i]? = some x → (p, x) ∈ adjacent L
  | [], _, _, _, _, _, hx => by simp at hx
  | [_], i + 1, _, _, _, _, hx => by simp at hx
  | a :: b :: _, 1, p, x, _, hp, hx => by
      have hap : a = p := by simpa using hp
      have hbx : b = x := by simpa using hx
      simp [adjacent, hap, hbx]
  | _ :: _ :: rest, i + 3, p, x, hi, hp, hx =>
      List.mem_cons_of_mem _ (mem_adjacent_odd (L := rest) (i := i + 1) (by omega)
        (by simpa using hp) (by simpa using hx))

/-- An even position and its right neighbour are joined. -/
theorem mem_adjacent_even {L : List α} {i : Nat} {x q : α} (hi : i % 2 = 0)
    (hx : L[i]? = some x) (hq : L[i + 1]? = some q) : (x, q) ∈ adjacent L :=
  mem_adjacent_odd (i := i + 1) (by omega) (by simpa using hx) hq

/-- Blocks of even length are joined independently. -/
theorem adjacent_append : ∀ (A B : List α), A.length % 2 = 0 →
    adjacent (A ++ B) = adjacent A ++ adjacent B
  | [], _, _ => rfl
  | [_], _, hA => by simp at hA
  | a :: b :: rest, B, hA => by
      have hrest : rest.length % 2 = 0 := by simp only [List.length_cons] at hA; omega
      simp only [List.cons_append, adjacent, adjacent_append rest B hrest]

/-- Joined neighbours belong to the level. -/
theorem mem_of_mem_adjacent : ∀ {L : List α} {q : α × α}, q ∈ adjacent L → q.1 ∈ L ∧ q.2 ∈ L
  | a :: b :: rest, q, hq => by
      rcases List.mem_cons.mp hq with rfl | hq
      · simp
      · obtain ⟨h₁, h₂⟩ := mem_of_mem_adjacent hq
        exact ⟨by simp [h₁], by simp [h₂]⟩

/-- Every node of the level above is a node of this level or joins two of them. -/
theorem mem_pairUp : ∀ {L : List α} {x : α}, x ∈ pairUp node L →
    x ∈ L ∨ ∃ q ∈ adjacent L, x = node q.1 q.2
  | [_], _, hx => Or.inl hx
  | a :: b :: rest, x, hx => by
      rcases List.mem_cons.mp hx with rfl | hx
      · exact Or.inr ⟨(a, b), by simp [adjacent], rfl⟩
      · rcases mem_pairUp hx with h | ⟨q, hq, rfl⟩
        · exact Or.inl (by simp [h])
        · exact Or.inr ⟨q, by simp [adjacent, hq], rfl⟩

/-- The pairs of nodes joined anywhere in the tree, lowest level first. -/
def pairs : List α → List (α × α)
  | a :: b :: rest => adjacent (a :: b :: rest) ++ pairs (node a b :: pairUp node rest)
  | _ => []
termination_by L => L.length
decreasing_by simp only [List.length_cons, length_pairUp]; omega

/-- The pairs of a tree are those of its lowest level and those of the tree above. -/
theorem mem_pairs {L : List α} {q : α × α} :
    q ∈ pairs node L ↔ q ∈ adjacent L ∨ q ∈ pairs node (pairUp node L) := by
  match L with
  | [] => simp [pairs, adjacent]
  | [_] => simp [pairs, adjacent]
  | a :: b :: rest => rw [pairs, List.mem_append, pairUp_cons_cons]

/-- A single node joins nothing. -/
theorem pairs_of_length_le_one {L : List α} (h : L.length ≤ 1) : pairs node L = [] := by
  match L, h with
  | [], _ => simp [pairs]
  | [_], _ => simp [pairs]

/-- **The pairs of a tree split at its root**: they are the pairs of the two parts and the pair of
their heads. -/
theorem mem_pairs_append : ∀ (j : Nat) {A B : List α} {q : α × α}, A.length = 2 ^ j → B ≠ [] →
    B.length ≤ 2 ^ j → (q ∈ pairs node (A ++ B) ↔
      q = (head node e A, head node e B) ∨ q ∈ pairs node A ∨ q ∈ pairs node B)
  | 0, [a], [b], q, _, _, _ => by simp [pairs, adjacent]
  | 0, [_], [], _, _, hne, _ => absurd rfl hne
  | 0, [_], _ :: _ :: _, _, _, _, hB => by simp at hB
  | 0, [], _, _, hA, _, _ => by simp at hA
  | 0, _ :: _ :: _, _, _, hA, _, _ => by simp at hA
  | j + 1, A, B, q, hA, hne, hB => by
      have hpow : 2 ^ (j + 1) = 2 ^ j * 2 := Nat.pow_succ 2 j
      have hlen : 0 < B.length := List.length_pos_iff.mpr hne
      have hB' : pairUp node B ≠ [] := by
        rw [← List.length_pos_iff, length_pairUp]; omega
      have ih := mem_pairs_append j (A := pairUp node A) (B := pairUp node B) (q := q)
        (by rw [length_pairUp]; omega) hB' (by rw [length_pairUp]; omega)
      rw [head_pairUp, head_pairUp] at ih
      rw [mem_pairs, pairUp_append node A B (by omega), ih, adjacent_append A B (by omega),
        List.mem_append, mem_pairs node (L := A), mem_pairs node (L := B)]
      tauto

/-- If all nodes of the lowest level have a property that `node` establishes, so do both members
of every pair. -/
theorem pairs_forall {Dig : α → Prop} (hnode : ∀ a b, Dig (node a b)) {L : List α}
    (hL : ∀ x ∈ L, Dig x) {q : α × α} (hq : q ∈ pairs node L) : Dig q.1 ∧ Dig q.2 := by
  by_cases hlen : L.length ≤ 1
  · rw [pairs_of_length_le_one node hlen] at hq
    exact absurd hq List.not_mem_nil
  · have hdec := length_pairUp_lt node (L := L) (by omega)
    rcases (mem_pairs node).mp hq with hadj | habove
    · obtain ⟨h₁, h₂⟩ := mem_of_mem_adjacent hadj
      exact ⟨hL _ h₁, hL _ h₂⟩
    · refine pairs_forall hnode (fun x hx => ?_) habove
      rcases mem_pairUp node hx with h | ⟨q, -, rfl⟩
      exacts [hL x h, hnode _ _]
termination_by L.length

end OpenWright.MerkleTree
