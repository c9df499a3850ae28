import OpenWright.MerkleTree.Levels

/-! # Audit paths

`path` collects the sibling of one position level by level, skipping the levels at which the
position is the odd last one. `climb` replays such a path from below: it knows only the position
`i` and the last index `s` of the level, halves both, and joins the carried node with the next
element of the path on the side the position dictates. It fails when the path is too short or too
long.

* **`climb_path`** — climbing the genuine path from any node `y` gives the head of the tree in which
  the position holds `y`; in particular the genuine node reaches the genuine head.
* **`climb_sound`** — when `node` keeps the pairs of the tree apart from the pairs of the climb, only
  the genuine node with the genuine path reaches the head. -/

namespace OpenWright.MerkleTree

universe u

variable {α : Type u} (node : α → α → α) (e : α)

/-! ## The path of a position -/

/-- The node a position is joined with, if any. -/
def sibling (L : List α) (i : Nat) : Option α :=
  if i % 2 = 1 then L[i - 1]? else L[i + 1]?

/-- The siblings of position `i` on the way to the head, lowest level first. -/
def path (L : List α) (i : Nat) : List α :=
  if L.length ≤ 1 then []
  else (sibling L i).toList ++ path (pairUp node L) (i / 2)
termination_by L.length
decreasing_by exact length_pairUp_lt node (by omega)

/-- The only leaf has an empty path. -/
theorem path_of_length_le_one {L : List α} (i : Nat) (h : L.length ≤ 1) : path node L i = [] := by
  rw [path, if_pos h]

/-- The path of a leaf: its sibling, and the path of its pair. -/
theorem path_of_one_lt_length {L : List α} (i : Nat) (h : 1 < L.length) :
    path node L i = (sibling L i).toList ++ path node (pairUp node L) (i / 2) := by
  rw [path, if_neg (by omega)]

/-- An odd position has its left neighbour as first element of its path. -/
theorem path_odd {L : List α} {i : Nat} {p : α} (hi : i % 2 = 1) (hl : 1 < L.length)
    (hp : L[i - 1]? = some p) : path node L i = p :: path node (pairUp node L) (i / 2) := by
  rw [path_of_one_lt_length node i hl, sibling, if_pos hi, hp]; rfl

/-- An even position has its right neighbour as first element of its path. -/
theorem path_even {L : List α} {i : Nat} {q : α} (hi : i % 2 = 0) (hl : 1 < L.length)
    (hq : L[i + 1]? = some q) : path node L i = q :: path node (pairUp node L) (i / 2) := by
  rw [path_of_one_lt_length node i hl, sibling, if_neg (by omega), hq]; rfl

/-- An even last position takes nothing from its own level. -/
theorem path_last {L : List α} {i : Nat} (hi : i % 2 = 0) (hl : 1 < L.length)
    (hlast : i + 1 = L.length) : path node L i = path node (pairUp node L) (i / 2) := by
  rw [path_of_one_lt_length node i hl, sibling, if_neg (by omega), hlast, List.getElem?_length]
  rfl

/-- In a left block the path of the whole tree is that of the block, then the head of the rest. -/
theorem path_append_left : ∀ (j : Nat) {A B : List α} {i : Nat}, A.length = 2 ^ j → B ≠ [] →
    B.length ≤ 2 ^ j → i < 2 ^ j → path node (A ++ B) i = path node A i ++ [head node e B]
  | 0, [a], [b], 0, _, _, _, _ => by
      rw [path_even node (q := b) rfl (by simp) (by simp), path_of_length_le_one node _ (by simp),
        path_of_length_le_one node _ (by simp), head_singleton, List.nil_append]
  | 0, _, _, i + 1, _, _, _, hi => by simp at hi
  | 0, [_], [], 0, _, hne, _, _ => absurd rfl hne
  | 0, [_], _ :: _ :: _, 0, _, _, hB, _ => by simp at hB
  | 0, [], _, 0, hA, _, _, _ => by simp at hA
  | 0, _ :: _ :: _, _, 0, hA, _, _, _ => by simp at hA
  | j + 1, A, B, i, hA, hne, hB, hi => by
      have hpow : 2 ^ (j + 1) = 2 ^ j * 2 := Nat.pow_succ 2 j
      have hpos : 0 < 2 ^ j := Nat.two_pow_pos j
      have hlen : 0 < B.length := List.length_pos_iff.mpr hne
      have hB' : pairUp node B ≠ [] := by
        rw [← List.length_pos_iff, length_pairUp]; omega
      have hsib : sibling (A ++ B) i = sibling A i := by
        unfold sibling
        split <;> rw [List.getElem?_append_left (by omega)]
      rw [path_of_one_lt_length node i (by simp only [List.length_append]; omega),
        path_of_one_lt_length node (L := A) i (by omega), hsib, pairUp_append node A B (by omega),
        path_append_left j (by rw [length_pairUp]; omega) hB' (by rw [length_pairUp]; omega)
          (by omega), head_pairUp, List.append_assoc]

/-- To the right of a block the path of the whole tree is that of the rest, then the head of the
block. -/
theorem path_append_right : ∀ (j : Nat) {A B : List α} {i : Nat}, A.length = 2 ^ j →
    i < B.length → B.length ≤ 2 ^ j →
      path node (A ++ B) (2 ^ j + i) = path node B i ++ [head node e A]
  | 0, [a], [b], 0, _, _, _ => by
      rw [path_odd node (p := a) rfl (by simp) (by simp), path_of_length_le_one node _ (by simp),
        path_of_length_le_one node _ (by simp), head_singleton, List.nil_append]
  | 0, _, [_], _ + 1, _, hi, _ => by simp at hi
  | 0, _, [], _, _, hi, _ => by simp at hi
  | 0, _, _ :: _ :: _, _, _, _, hB => by simp at hB
  | 0, [], _, _, hA, _, _ => by simp at hA
  | 0, _ :: _ :: _, _, _, hA, _, _ => by simp at hA
  | j + 1, A, B, i, hA, hi, hB => by
      have hpow : 2 ^ (j + 1) = 2 ^ j * 2 := Nat.pow_succ 2 j
      have hpos : 0 < 2 ^ j := Nat.two_pow_pos j
      have hhalf : (2 ^ (j + 1) + i) / 2 = 2 ^ j + i / 2 := by omega
      rw [path_of_one_lt_length node _ (by simp only [List.length_append]; omega),
        pairUp_append node A B (by omega), hhalf,
        path_append_right j (by rw [length_pairUp]; omega) (by rw [length_pairUp]; omega)
          (by rw [length_pairUp]; omega), head_pairUp, ← List.append_assoc]
      congr 1
      by_cases hone : B.length ≤ 1
      · -- a lone right part has no sibling of its own, and none to the left that is even
        have hi0 : i = 0 := by omega
        have hnone : sibling (A ++ B) (2 ^ (j + 1) + i) = none := by
          rw [sibling, if_neg (by omega), List.getElem?_eq_none (by simp; omega)]
        rw [hnone, path_of_length_le_one node _ hone,
          path_of_length_le_one node _ (by rw [length_pairUp]; omega)]
        rfl
      · have hsib : sibling (A ++ B) (2 ^ (j + 1) + i) = sibling B i := by
          unfold sibling
          rw [show (2 ^ (j + 1) + i) % 2 = i % 2 by omega]
          split
          · rw [List.getElem?_append_right (by omega)]; congr 1; omega
          · rw [List.getElem?_append_right (by omega)]; congr 1; omega
        rw [hsib, ← path_of_one_lt_length node i (by omega)]

/-! ## Climbing -/

/-- Replay the path `P` from node `x` at position `i` of a level whose last index is `s`. -/
def climb (i s : Nat) (x : α) (P : List α) : Option α :=
  if s = 0 then (if P.isEmpty then some x else none)
  else if i % 2 = 1 then
    match P with
    | [] => none
    | p :: P => climb (i / 2) (s / 2) (node p x) P
  -- the last of an odd row has no sibling
  else if i = s then climb (i / 2) (s / 2) x P
  else
    match P with
    | [] => none
    | p :: P => climb (i / 2) (s / 2) (node x p) P
termination_by s

/-- At the top only the empty path is left to accept. -/
theorem climb_top (i : Nat) (x : α) (P : List α) :
    climb node i 0 x P = if P.isEmpty then some x else none := by
  rw [climb.eq_def, if_pos rfl]

/-- An odd position joins its sibling on the left. -/
theorem climb_odd {i s : Nat} (hs : s ≠ 0) (hi : i % 2 = 1) (x p : α) (P : List α) :
    climb node i s x (p :: P) = climb node (i / 2) (s / 2) (node p x) P := by
  rw [climb, if_neg hs, if_pos hi]

/-- An even last position moves up. -/
theorem climb_last {i s : Nat} (hs : s ≠ 0) (hi : i % 2 = 0) (his : i = s) (x : α) (P : List α) :
    climb node i s x P = climb node (i / 2) (s / 2) x P := by
  rw [climb.eq_def, if_neg hs, if_neg (by omega), if_pos his]

/-- Another even position joins its sibling on the right. -/
theorem climb_even {i s : Nat} (hs : s ≠ 0) (hi : i % 2 = 0) (his : i ≠ s) (x p : α)
    (P : List α) : climb node i s x (p :: P) = climb node (i / 2) (s / 2) (node x p) P := by
  rw [climb, if_neg hs, if_neg (by omega), if_neg his]

/-- A level that needs a sibling cannot be climbed with an empty path. -/
theorem climb_nil {i s : Nat} (hs : s ≠ 0) (hi : i % 2 = 1 ∨ i ≠ s) (x : α) :
    climb node i s x [] = none := by
  rw [climb, if_neg hs]
  by_cases hpar : i % 2 = 1
  · rw [if_pos hpar]
  · rw [if_neg hpar, if_neg (by omega)]

/-- **The genuine path leads to the head.** From any node `y` at position `i` it leads to the head
of the tree in which that position holds `y`. -/
theorem climb_path {L : List α} {i : Nat} (hi : i < L.length) (y : α) :
    climb node i (L.length - 1) y (path node L i) = some (head node e (L.set i y)) := by
  by_cases hl : L.length ≤ 1
  · obtain ⟨a, rfl⟩ := List.length_eq_one_iff.mp (show L.length = 1 by omega)
    have hi0 : i = 0 := by simpa using hi
    rw [path_of_length_le_one node i hl, hi0, List.length_singleton, climb_top]
    simp
  · have hs : L.length - 1 ≠ 0 := by omega
    have hup : (L.length - 1) / 2 = (pairUp node L).length - 1 := by rw [length_pairUp]; omega
    have hi' : i / 2 < (pairUp node L).length := by rw [length_pairUp]; omega
    have hdec := length_pairUp_lt node (L := L) (by omega)
    rcases Nat.mod_two_eq_zero_or_one i with hpar | hpar
    · by_cases hlast : i = L.length - 1
      · rw [path_last node hpar (by omega) (by omega), climb_last node hs hpar hlast, hup,
          climb_path hi', ← pairUp_set_last node y hpar (by omega), head_pairUp]
      · obtain ⟨q, hq⟩ : ∃ q, L[i + 1]? = some q := ⟨_, List.getElem?_eq_getElem (by omega)⟩
        rw [path_even node hpar (by omega) hq, climb_even node hs hpar hlast, hup, climb_path hi',
          ← pairUp_set_even node y hpar hq, head_pairUp]
    · obtain ⟨p, hp⟩ : ∃ p, L[i - 1]? = some p := ⟨_, List.getElem?_eq_getElem (by omega)⟩
      rw [path_odd node hpar (by omega) hp, climb_odd node hs hpar, hup, climb_path hi',
        ← pairUp_set_odd node y hpar hi hp, head_pairUp]
termination_by L.length

/-! ## Only the genuine path reaches the head -/

/-- The pairs of nodes a climb joins. -/
def climbPairs (i s : Nat) (x : α) (P : List α) : List (α × α) :=
  if s = 0 then []
  else if i % 2 = 1 then
    match P with
    | [] => []
    | p :: P => (p, x) :: climbPairs (i / 2) (s / 2) (node p x) P
  else if i = s then climbPairs (i / 2) (s / 2) x P
  else
    match P with
    | [] => []
    | p :: P => (x, p) :: climbPairs (i / 2) (s / 2) (node x p) P
termination_by s

/-- From the right, the next node is on the left. -/
theorem climbPairs_odd {i s : Nat} (hs : s ≠ 0) (hi : i % 2 = 1) (x p : α) (P : List α) :
    climbPairs node i s x (p :: P) = (p, x) :: climbPairs node (i / 2) (s / 2) (node p x) P := by
  rw [climbPairs, if_neg hs, if_pos hi]

/-- The last node goes up alone. -/
theorem climbPairs_last {i s : Nat} (hs : s ≠ 0) (hi : i % 2 = 0) (his : i = s) (x : α)
    (P : List α) : climbPairs node i s x P = climbPairs node (i / 2) (s / 2) x P := by
  rw [climbPairs.eq_def, if_neg hs, if_neg (by omega), if_pos his]

/-- From the left, the next node is on the right. -/
theorem climbPairs_even {i s : Nat} (hs : s ≠ 0) (hi : i % 2 = 0) (his : i ≠ s) (x p : α)
    (P : List α) :
    climbPairs node i s x (p :: P) = (x, p) :: climbPairs node (i / 2) (s / 2) (node x p) P := by
  rw [climbPairs, if_neg hs, if_neg (by omega), if_neg his]

/-- If `node` establishes a property of nodes, every pair joined by a climb from a node with that
property has a member with it. -/
theorem climbPairs_forall {Dig : α → Prop} (hnode : ∀ a b, Dig (node a b)) (s : Nat) :
    ∀ {i : Nat} {x : α} {P : List α} {q : α × α}, Dig x → q ∈ climbPairs node i s x P →
      Dig q.1 ∨ Dig q.2 := by
  induction s using Nat.strong_induction_on with
  | _ s ih =>
    intro i x P q hx hq
    rw [climbPairs.eq_def] at hq
    split at hq
    · exact absurd hq List.not_mem_nil
    · next hs =>
      have hdec : s / 2 < s := by omega
      split at hq
      · cases P with
        | nil => exact absurd hq List.not_mem_nil
        | cons p P =>
            rcases List.mem_cons.mp hq with rfl | hq
            -- the joined pair has the node that was climbed from, on the left or on the right
            exacts [Or.inr hx, ih _ hdec (hnode p x) hq]
      · split at hq
        · exact ih _ hdec hx hq
        · cases P with
          | nil => exact absurd hq List.not_mem_nil
          | cons p P =>
              rcases List.mem_cons.mp hq with rfl | hq
              exacts [Or.inl hx, ih _ hdec (hnode x p) hq]

/-- `node` keeps the pairs `Q` apart from the pairs `T`. -/
def Separates (Q T : List (α × α)) : Prop :=
  ∀ q ∈ Q, ∀ t ∈ T, node q.1 q.2 = node t.1 t.2 → q = t

/-- Fewer pairs are separated as well. -/
theorem Separates.mono {Q Q' T T' : List (α × α)} (h : Separates node Q T)
    (hQ : ∀ q ∈ Q', q ∈ Q) (hT : ∀ t ∈ T', t ∈ T) : Separates node Q' T' :=
  fun q hq t ht => h q (hQ q hq) t (hT t ht)

/-- **Only the genuine node with its genuine path reaches the head**, as long as `node` keeps the
pairs joined by the climb apart from the pairs of the tree. -/
theorem climb_sound {L : List α} {i : Nat} {x : α} {P : List α} (hi : i < L.length)
    (hsep : Separates node (climbPairs node i (L.length - 1) x P) (pairs node L))
    (h : climb node i (L.length - 1) x P = some (head node e L)) :
    L[i]? = some x ∧ P = path node L i := by
  -- induction on the levels: one pair is joined, and the rest is the climb one level up
  by_cases hl : L.length ≤ 1
  · obtain ⟨a, rfl⟩ := List.length_eq_one_iff.mp (show L.length = 1 by omega)
    have hi0 : i = 0 := by simpa using hi
    rw [List.length_singleton, climb_top, head_singleton] at h
    rw [path_of_length_le_one node i hl, hi0]
    by_cases hP : P.isEmpty
    · rw [if_pos hP, Option.some.injEq] at h
      exact ⟨by rw [h]; rfl, by simpa using hP⟩
    · rw [if_neg hP] at h
      exact absurd h (by simp)
  · have hs : L.length - 1 ≠ 0 := by omega
    have hup : (L.length - 1) / 2 = (pairUp node L).length - 1 := by rw [length_pairUp]; omega
    have hi' : i / 2 < (pairUp node L).length := by rw [length_pairUp]; omega
    have hdec := length_pairUp_lt node (L := L) (by omega)
    have habove : ∀ t ∈ pairs node (pairUp node L), t ∈ pairs node L :=
      fun t ht => (mem_pairs node).mpr (Or.inr ht)
    obtain ⟨a, ha⟩ : ∃ a, L[i]? = some a := ⟨_, List.getElem?_eq_getElem (by omega)⟩
    rcases Nat.mod_two_eq_zero_or_one i with hpar | hpar
    -- the last of an odd row goes up alone
    · by_cases hlast : i = L.length - 1
      · rw [climb_last node hs hpar hlast, hup, ← head_pairUp] at h
        rw [climbPairs_last node hs hpar hlast, hup] at hsep
        obtain ⟨hx', hP⟩ := climb_sound hi' (hsep.mono node (fun _ => id) habove) h
        rw [getElem?_pairUp_last node hpar (by omega)] at hx'
        exact ⟨hx', by rw [path_last node hpar (by omega) (by omega), hP]⟩
      · obtain ⟨q, hq⟩ : ∃ q, L[i + 1]? = some q := ⟨_, List.getElem?_eq_getElem (by omega)⟩
        cases P with
        | nil => rw [climb_nil node hs (Or.inr hlast)] at h; exact absurd h (by simp)
        | cons p P =>
            rw [climb_even node hs hpar hlast, hup, ← head_pairUp] at h
            rw [climbPairs_even node hs hpar hlast, hup] at hsep
            obtain ⟨hx', hP⟩ := climb_sound hi'
              (hsep.mono node (fun _ => List.mem_cons_of_mem _) habove) h
            rw [getElem?_pairUp_even node hpar ha hq, Option.some.injEq] at hx'
            -- the joined pair and the pair of the tree have one parent, so they are one pair
            have hpair := hsep (x, p) List.mem_cons_self (a, q)
              ((mem_pairs node).mpr (Or.inl (mem_adjacent_even hpar ha hq))) hx'.symm
            obtain ⟨rfl, rfl⟩ := Prod.mk.inj hpair
            exact ⟨ha, by rw [path_even node hpar (by omega) hq, hP]⟩
    -- a right child: the node of the path is on the left
    · obtain ⟨q, hq⟩ : ∃ q, L[i - 1]? = some q := ⟨_, List.getElem?_eq_getElem (by omega)⟩
      cases P with
      | nil => rw [climb_nil node hs (Or.inl hpar)] at h; exact absurd h (by simp)
      | cons p P =>
          rw [climb_odd node hs hpar, hup, ← head_pairUp] at h
          rw [climbPairs_odd node hs hpar, hup] at hsep
          obtain ⟨hx', hP⟩ := climb_sound hi'
            (hsep.mono node (fun _ => List.mem_cons_of_mem _) habove) h
          rw [getElem?_pairUp_odd node hpar hq ha, Option.some.injEq] at hx'
          have hpair := hsep (p, x) List.mem_cons_self (q, a)
            ((mem_pairs node).mpr (Or.inl (mem_adjacent_odd hpar hq ha))) hx'.symm
          obtain ⟨rfl, rfl⟩ := Prod.mk.inj hpair
          exact ⟨ha, by rw [path_odd node hpar (by omega) hq, hP]⟩
termination_by L.length

end OpenWright.MerkleTree
