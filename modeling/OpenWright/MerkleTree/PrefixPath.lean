import OpenWright.MerkleTree.AuditPath

/-! # Prefix paths

A prefix path shows that the first `i + 1` nodes of a list are the list an older tree was built
over. It starts at the lowest level on which the last node of the old tree is an even one
(`prefixPath`), and from there it is the audit path of that node. `prefixClimb` replays it for both
trees at once: a sibling on the left belongs to both, a sibling on the right only to the newer
tree.

* **`prefixVerify_prefixPath`** — the genuine prefix path leads to the heads of both trees.
* **`prefixVerify_eq_some_iff`** — a path leads to the head of the newer tree exactly when its nodes
  are the genuine ones, except that the first two nodes only have to join to the genuine node; the
  old head it then proves is the one built over the first node as given. -/

namespace OpenWright.MerkleTree

universe u

variable {α : Type u} (node : α → α → α) (e : α)

/-! ## The path of a prefix -/

/-- The prefix path of the first `i + 1` nodes: the last of them, on the lowest level where it is
an even one, followed by its audit path. -/
def prefixPath (L : List α) (i : Nat) : List α :=
  if i % 2 = 1 ∧ 1 < L.length then prefixPath (pairUp node L) (i / 2)
  else L[i]?.toList ++ path node L i
termination_by L.length
decreasing_by exact length_pairUp_lt node (by omega)

/-- A last old node on the right goes up with its pair. -/
theorem prefixPath_odd {L : List α} {i : Nat} (hi : i % 2 = 1) (hl : 1 < L.length) :
    prefixPath node L i = prefixPath node (pairUp node L) (i / 2) := by
  rw [prefixPath, if_pos ⟨hi, hl⟩]

/-- A last old node on the left stays where it is: its path starts with it. -/
theorem prefixPath_even {L : List α} {i : Nat} (hi : i % 2 = 0) :
    prefixPath node L i = L[i]?.toList ++ path node L i := by
  rw [prefixPath, if_neg (by omega)]

/-- The head of the first `i + 1` nodes when the first node of their prefix path is replaced
by `x`. -/
def oldHead (L : List α) (i : Nat) (x : α) : α :=
  if i % 2 = 1 ∧ 1 < L.length then oldHead (pairUp node L) (i / 2) x
  else head node e (L.take i ++ [x])
termination_by L.length
decreasing_by exact length_pairUp_lt node (by omega)

/-- The old head, of a last node on the right, -/
theorem oldHead_odd {L : List α} {i : Nat} (hi : i % 2 = 1) (hl : 1 < L.length) (x : α) :
    oldHead node e L i x = oldHead node e (pairUp node L) (i / 2) x := by
  rw [oldHead, if_pos ⟨hi, hl⟩]

/-- and of one on the left. -/
theorem oldHead_even {L : List α} {i : Nat} (hi : i % 2 = 0) (x : α) :
    oldHead node e L i x = head node e (L.take i ++ [x]) := by
  rw [oldHead, if_neg (by omega)]

/-- Pairing up nodes that end in an even position leaves the last one alone. -/
theorem pairUp_take_append_even {L : List α} {i : Nat} (x : α) (hi : i % 2 = 0)
    (hl : i ≤ L.length) :
    pairUp node (L.take i ++ [x]) = (pairUp node L).take (i / 2) ++ [x] := by
  have hdouble : 2 * (i / 2) = i := by omega
  rw [pairUp_append node _ _ (by rw [List.length_take]; omega), pairUp_singleton,
    ← pairUp_take node (i / 2) L (by omega), hdouble]

/-- Pairing up nodes that end in an odd position joins the last one to its left neighbour. -/
theorem pairUp_take_append_odd {L : List α} {i : Nat} {p : α} (x : α) (hi : i % 2 = 1)
    (hp : L[i - 1]? = some p) :
    pairUp node (L.take i ++ [x]) = (pairUp node L).take (i / 2) ++ [node p x] := by
  have hlen : i - 1 < L.length := (List.getElem?_eq_some_iff.mp hp).1
  have htake : L.take i = L.take (i - 1) ++ [p] := by
    conv_lhs => rw [show i = i - 1 + 1 by omega, List.take_add_one, hp]
    rfl
  have hdouble : 2 * (i / 2) = i - 1 := by omega
  rw [htake, List.append_assoc, pairUp_append node _ _ (by rw [List.length_take]; omega),
    ← hdouble, pairUp_take node (i / 2) L (by omega)]
  rfl

/-- The prefix path starts with the node that makes the old head the genuine one. -/
theorem exists_prefixPath_eq_cons {L : List α} {i : Nat} (hi : i < L.length) :
    ∃ a rest, prefixPath node L i = a :: rest ∧
      oldHead node e L i a = head node e (L.take (i + 1)) := by
  by_cases hodd : i % 2 = 1
  · have hdec := length_pairUp_lt node (L := L) (by omega)
    obtain ⟨a, rest, hpath, hold⟩ := exists_prefixPath_eq_cons (L := pairUp node L) (i := i / 2)
      (by rw [length_pairUp]; omega)
    refine ⟨a, rest, by rw [prefixPath_odd node hodd (by omega), hpath], ?_⟩
    rw [oldHead_odd node e hodd (by omega), hold, ← head_pairUp node e (L.take (i + 1)),
      ← pairUp_take node (i / 2 + 1) L (by omega), show 2 * (i / 2 + 1) = i + 1 by omega]
  · have hget : L[i]? = some L[i] := List.getElem?_eq_getElem hi
    refine ⟨L[i], path node L i, ?_, ?_⟩
    · rw [prefixPath_even node (by omega), hget]; rfl
    · rw [oldHead_even node e (by omega), List.take_add_one, hget]; rfl
termination_by L.length

/-- A perfect block is its own prefix: its path is its head alone. -/
theorem prefixPath_block : ∀ (j : Nat) {A : List α}, A.length = 2 ^ j →
    prefixPath node A (2 ^ j - 1) = [head node e A]
  | 0, [a], _ => by
      rw [prefixPath_even node (by simp), path_of_length_le_one node _ (by simp)]
      simp
  | 0, [], hA => by simp at hA
  | 0, _ :: _ :: _, hA => by simp at hA
  | j + 1, A, hA => by
      have hpow : 2 ^ (j + 1) = 2 ^ j * 2 := Nat.pow_succ 2 j
      have hpos : 0 < 2 ^ j := Nat.two_pow_pos j
      rw [prefixPath_odd node (by omega) (by omega),
        show (2 ^ (j + 1) - 1) / 2 = 2 ^ j - 1 by omega,
        prefixPath_block j (by rw [length_pairUp]; omega), head_pairUp]

/-- A prefix that ends in a left block: its path in the block, then the head of the rest. -/
theorem prefixPath_append_left : ∀ (j : Nat) {A B : List α} {i : Nat}, A.length = 2 ^ j →
    B ≠ [] → B.length ≤ 2 ^ j → i < 2 ^ j →
      prefixPath node (A ++ B) i = prefixPath node A i ++ [head node e B]
  | 0, A, B, 0, hA, hne, hB, hi => by
      rw [prefixPath_even node rfl, prefixPath_even node rfl,
        path_append_left node e 0 hA hne hB hi, List.getElem?_append_left (by omega),
        List.append_assoc]
  | 0, _, _, i + 1, _, _, _, hi => by simp at hi
  | j + 1, A, B, i, hA, hne, hB, hi => by
      have hpow : 2 ^ (j + 1) = 2 ^ j * 2 := Nat.pow_succ 2 j
      have hpos : 0 < 2 ^ j := Nat.two_pow_pos j
      have hlen : 0 < B.length := List.length_pos_iff.mpr hne
      have hB' : pairUp node B ≠ [] := by
        rw [← List.length_pos_iff, length_pairUp]; omega
      by_cases hodd : i % 2 = 1
      · rw [prefixPath_odd node hodd (by simp only [List.length_append]; omega),
          prefixPath_odd node hodd (by omega), pairUp_append node A B (by omega),
          prefixPath_append_left j (by rw [length_pairUp]; omega) hB'
            (by rw [length_pairUp]; omega) (by omega), head_pairUp]
      · rw [prefixPath_even node (by omega), prefixPath_even node (by omega),
          path_append_left node e (j + 1) hA hne hB hi, List.getElem?_append_left (by omega),
          List.append_assoc]

/-- A prefix that ends properly inside the rest: its path in the rest, then the head of the
block. -/
theorem prefixPath_append_right : ∀ (j : Nat) {A B : List α} {i : Nat}, A.length = 2 ^ j →
    i + 1 < B.length → B.length ≤ 2 ^ j →
      prefixPath node (A ++ B) (2 ^ j + i) = prefixPath node B i ++ [head node e A]
  | 0, _, B, i, _, hi, hB => by simp at hB; omega
  | j + 1, A, B, i, hA, hi, hB => by
      have hpow : 2 ^ (j + 1) = 2 ^ j * 2 := Nat.pow_succ 2 j
      have hpos : 0 < 2 ^ j := Nat.two_pow_pos j
      by_cases hodd : i % 2 = 1
      · rw [prefixPath_odd node (by omega) (by simp only [List.length_append]; omega),
          prefixPath_odd node hodd (by omega), pairUp_append node A B (by omega),
          show (2 ^ (j + 1) + i) / 2 = 2 ^ j + i / 2 by omega,
          prefixPath_append_right j (by rw [length_pairUp]; omega)
            (by rw [length_pairUp]; omega) (by rw [length_pairUp]; omega), head_pairUp]
      · rw [prefixPath_even node (by omega), prefixPath_even node (by omega),
          path_append_right node e (j + 1) hA (by omega) hB,
          List.getElem?_append_right (by omega), hA, Nat.add_sub_cancel_left, List.append_assoc]

/-! ## Climbing in both trees -/

/-- Replay the path `P` in the old tree from node `x` and in the new tree from node `y`, both at
position `i`; the last index of the new tree's level is `s`. -/
def prefixClimb (i s : Nat) (x y : α) (P : List α) : Option (α × α) :=
  if s = 0 then (if P.isEmpty then some (x, y) else none)
  else if i % 2 = 1 then
    match P with
    | [] => none
    | p :: P => prefixClimb (i / 2) (s / 2) (node p x) (node p y) P
  -- the last of an odd row has no sibling in either tree
  else if i = s then prefixClimb (i / 2) (s / 2) x y P
  else
    match P with
    | [] => none
    -- a sibling on the right is in the newer tree only
    | p :: P => prefixClimb (i / 2) (s / 2) x (node y p) P
termination_by s

/-- At the top, nothing may be left of the path. -/
theorem prefixClimb_top (i : Nat) (x y : α) (P : List α) :
    prefixClimb node i 0 x y P = if P.isEmpty then some (x, y) else none := by
  rw [prefixClimb.eq_def, if_pos rfl]

/-- From the right, the next node is in both trees. -/
theorem prefixClimb_odd {i s : Nat} (hs : s ≠ 0) (hi : i % 2 = 1) (x y p : α) (P : List α) :
    prefixClimb node i s x y (p :: P)
      = prefixClimb node (i / 2) (s / 2) (node p x) (node p y) P := by
  rw [prefixClimb, if_neg hs, if_pos hi]

/-- The last node goes up alone. -/
theorem prefixClimb_last {i s : Nat} (hs : s ≠ 0) (hi : i % 2 = 0) (his : i = s) (x y : α)
    (P : List α) : prefixClimb node i s x y P = prefixClimb node (i / 2) (s / 2) x y P := by
  rw [prefixClimb.eq_def, if_neg hs, if_neg (by omega), if_pos his]

/-- From the left, the next node is in the new tree only. -/
theorem prefixClimb_even {i s : Nat} (hs : s ≠ 0) (hi : i % 2 = 0) (his : i ≠ s) (x y p : α)
    (P : List α) :
    prefixClimb node i s x y (p :: P) = prefixClimb node (i / 2) (s / 2) x (node y p) P := by
  rw [prefixClimb, if_neg hs, if_neg (by omega), if_neg his]

/-- Replay a path from the lowest level on which position `i` is even, from node `x` in both
trees. -/
def prefixVerify (i s : Nat) (x : α) (P : List α) : Option (α × α) :=
  if i % 2 = 1 ∧ s ≠ 0 then prefixVerify (i / 2) (s / 2) x P
  else prefixClimb node i s x x P
termination_by s

/-- A last old node on the right is passed over, -/
theorem prefixVerify_odd {i s : Nat} (hi : i % 2 = 1) (hs : s ≠ 0) (x : α) (P : List α) :
    prefixVerify node i s x P = prefixVerify node (i / 2) (s / 2) x P := by
  rw [prefixVerify, if_pos ⟨hi, hs⟩]

/-- and from one on the left, both heads are climbed to. -/
theorem prefixVerify_even {i s : Nat} (hi : i % 2 = 0) (x : α) (P : List α) :
    prefixVerify node i s x P = prefixClimb node i s x x P := by
  rw [prefixVerify, if_neg (by omega)]

/-- The new tree's side of a prefix climb is a climb of its own. -/
theorem climb_of_prefixClimb (s : Nat) : ∀ {i : Nat} {x y u v : α} {P : List α},
    prefixClimb node i s x y P = some (u, v) → climb node i s y P = some v := by
  -- the new side follows the same steps; only the old side stands still at times
  induction s using Nat.strong_induction_on with
  | _ s ih =>
    intro i x y u v P h
    rw [prefixClimb.eq_def] at h
    rw [climb.eq_def]
    split at h
    · next hs =>
      rw [if_pos hs]
      -- at the top the path must be used up
      split at h
      · next hP =>
        rw [if_pos hP]
        simp only [Option.some.injEq, Prod.mk.injEq] at h
        rw [h.2]
      · exact absurd h (by simp)
    · next hs =>
      have hdec : s / 2 < s := by omega
      rw [if_neg hs]
      split at h
      · next hodd =>
        -- a right child joins the node of the path on the left, on both sides
        rw [if_pos hodd]
        cases P with
        | nil => exact absurd h (by simp)
        | cons p P => exact ih _ hdec h
      · next hodd =>
        rw [if_neg hodd]
        -- a left child: the last of its row goes up alone, and any other joins on the new side only
        split at h
        · next his => rw [if_pos his]; exact ih _ hdec h
        · next his =>
          rw [if_neg his]
          cases P with
          | nil => exact absurd h (by simp)
          | cons p P => exact ih _ hdec h

/-- **The genuine audit path leads to both heads**: from node `x` to the head of the old tree that
ends in `x`, from node `y` to the head of the new tree in which the position holds `y`. -/
theorem prefixClimb_path {L : List α} {i : Nat} (hi : i < L.length) (x y : α) :
    prefixClimb node i (L.length - 1) x y (path node L i)
      = some (head node e (L.take i ++ [x]), head node e (L.set i y)) := by
  by_cases hl : L.length ≤ 1
  · obtain ⟨a, rfl⟩ := List.length_eq_one_iff.mp (show L.length = 1 by omega)
    have hi0 : i = 0 := by simpa using hi
    rw [path_of_length_le_one node i hl, hi0, List.length_singleton, prefixClimb_top]
    simp
  · have hs : L.length - 1 ≠ 0 := by omega
    have hup : (L.length - 1) / 2 = (pairUp node L).length - 1 := by rw [length_pairUp]; omega
    have hi' : i / 2 < (pairUp node L).length := by rw [length_pairUp]; omega
    have hdec := length_pairUp_lt node (L := L) (by omega)
    rcases Nat.mod_two_eq_zero_or_one i with hpar | hpar
    · by_cases hlast : i = L.length - 1
      -- the last of an odd row goes up alone, in both trees
      · rw [path_last node hpar (by omega) (by omega), prefixClimb_last node hs hpar hlast, hup,
          prefixClimb_path hi', ← pairUp_set_last node y hpar (by omega), head_pairUp,
          ← pairUp_take_append_even node x hpar (by omega), head_pairUp]
      · obtain ⟨q, hq⟩ : ∃ q, L[i + 1]? = some q := ⟨_, List.getElem?_eq_getElem (by omega)⟩
        -- a left child joins on the new side only
        rw [path_even node hpar (by omega) hq, prefixClimb_even node hs hpar hlast, hup,
          prefixClimb_path hi', ← pairUp_set_even node y hpar hq, head_pairUp,
          ← pairUp_take_append_even node x hpar (by omega), head_pairUp]
    · obtain ⟨p, hp⟩ : ∃ p, L[i - 1]? = some p := ⟨_, List.getElem?_eq_getElem (by omega)⟩
      -- a right child joins on both sides
      rw [path_odd node hpar (by omega) hp, prefixClimb_odd node hs hpar, hup,
        prefixClimb_path hi', ← pairUp_set_odd node y hpar hi hp, head_pairUp,
        ← pairUp_take_append_odd node x hpar hp, head_pairUp]
termination_by L.length

/-- **The genuine prefix path leads to the heads of both trees.** -/
theorem prefixVerify_prefixPath {L : List α} {i : Nat} {a : α} {rest : List α}
    (hi : i < L.length) (hpath : prefixPath node L i = a :: rest) :
    prefixVerify node i (L.length - 1) a rest
      = some (head node e (L.take (i + 1)), head node e L) := by
  by_cases hodd : i % 2 = 1
  · have hdec := length_pairUp_lt node (L := L) (by omega)
    rw [prefixPath_odd node hodd (by omega)] at hpath
    rw [prefixVerify_odd node hodd (by omega),
      show (L.length - 1) / 2 = (pairUp node L).length - 1 by rw [length_pairUp]; omega,
      prefixVerify_prefixPath (by rw [length_pairUp]; omega) hpath, head_pairUp,
      ← pairUp_take node (i / 2 + 1) L (by omega), show 2 * (i / 2 + 1) = i + 1 by omega,
      head_pairUp]
  · have hget : L[i]? = some L[i] := List.getElem?_eq_getElem hi
    rw [prefixPath_even node (by omega), hget] at hpath
    have hcons : L[i] :: path node L i = a :: rest := hpath
    obtain ⟨rfl, rfl⟩ := List.cons.inj hcons
    rw [prefixVerify_even node (by omega), prefixClimb_path node e hi, List.set_getElem_self,
      List.take_add_one, hget]
    rfl
termination_by L.length

/-! ## What an accepted prefix path proves -/

/-- The pairs of nodes a prefix path joins in the new tree. -/
def newPairs (i s : Nat) (x : α) (P : List α) : List (α × α) :=
  if i % 2 = 1 ∧ s ≠ 0 then newPairs (i / 2) (s / 2) x P
  else climbPairs node i s x P
termination_by s

/-- The pairs of the new tree, of a last old node on the right, -/
theorem newPairs_odd {i s : Nat} (hi : i % 2 = 1) (hs : s ≠ 0) (x : α) (P : List α) :
    newPairs node i s x P = newPairs node (i / 2) (s / 2) x P := by
  rw [newPairs, if_pos ⟨hi, hs⟩]

/-- and of one on the left. -/
theorem newPairs_even {i s : Nat} (hi : i % 2 = 0) (x : α) (P : List α) :
    newPairs node i s x P = climbPairs node i s x P := by
  rw [newPairs, if_neg (by omega)]

/-- **What an accepted prefix path proves.** As long as `node` keeps all pairs joined after the
first one apart from the pairs of the tree, a path leads to the genuine head exactly when its
first two nodes join to the genuine node and the others are the genuine ones. The old head it
leads to is the one over the first node as given. -/
theorem prefixVerify_eq_some_iff {L : List α} {i : Nat} {x u : α} {P : List α}
    (hi : i + 1 < L.length)
    (hsep : Separates node (newPairs node i (L.length - 1) x P).tail (pairs node L)) :
    prefixVerify node i (L.length - 1) x P = some (u, head node e L) ↔
      ∃ a b c rest, prefixPath node L i = a :: b :: rest ∧ P = c :: rest ∧
        node x c = node a b ∧ u = oldHead node e L i x := by
  have hdec := length_pairUp_lt node (L := L) (by omega)
  have hup : (L.length - 1) / 2 = (pairUp node L).length - 1 := by rw [length_pairUp]; omega
  have habove : ∀ t ∈ pairs node (pairUp node L), t ∈ pairs node L :=
    fun t ht => (mem_pairs node).mpr (Or.inr ht)
  -- an odd position does not join anything yet: the statement is the one a level up
  by_cases hodd : i % 2 = 1
  · rw [newPairs_odd node hodd (by omega), hup] at hsep
    rw [prefixVerify_odd node hodd (by omega), hup, ← head_pairUp node e L,
      prefixVerify_eq_some_iff (by rw [length_pairUp]; omega)
        (hsep.mono node (fun _ => id) habove),
      prefixPath_odd node hodd (by omega), oldHead_odd node e hodd (by omega)]
  -- an even one is where the two trees part
  · have hs : L.length - 1 ≠ 0 := by omega
    have hpar : i % 2 = 0 := by omega
    have hlast : i ≠ L.length - 1 := by omega
    have hi' : i / 2 < (pairUp node L).length := by rw [length_pairUp]; omega
    have ha : L[i]? = some L[i] := List.getElem?_eq_getElem (by omega)
    have hb : L[i + 1]? = some L[i + 1] := List.getElem?_eq_getElem hi
    have hab := getElem?_pairUp_even node hpar ha hb
    have hpath : prefixPath node L i = L[i] :: L[i + 1] :: path node (pairUp node L) (i / 2) := by
      rw [prefixPath_even node hpar, path_even node hpar (by omega) hb, ha]; rfl
    rw [newPairs_even node hpar] at hsep
    rw [prefixVerify_even node hpar, oldHead_even node e hpar, hpath]
    constructor
    · intro h
      cases P with
      | nil =>
          rw [prefixClimb, if_neg hs, if_neg hodd, if_neg hlast] at h
          exact absurd h (by simp)
      | cons c P =>
          rw [prefixClimb_even node hs hpar hlast, hup, ← head_pairUp node e L] at h
          rw [climbPairs_even node hs hpar hlast, hup, List.tail_cons] at hsep
          -- from the first join on it is a climb, which only the genuine path completes
          obtain ⟨hxc, hP⟩ := climb_sound node e hi' (hsep.mono node (fun _ => id) habove)
            (climb_of_prefixClimb node _ h)
          rw [hab, Option.some.injEq] at hxc
          rw [hP, prefixClimb_path node e hi', Option.some.injEq] at h
          refine ⟨L[i], L[i + 1], c, _, rfl, by rw [hP], hxc.symm, ?_⟩
          rw [← (Prod.mk.inj h).1, ← pairUp_take_append_even node x hpar (by omega), head_pairUp]
    · rintro ⟨a, b, c, rest, hcons, rfl, hxc, rfl⟩
      obtain ⟨rfl, htail⟩ := List.cons.inj hcons
      obtain ⟨rfl, rfl⟩ := List.cons.inj htail
      -- the joined node is the genuine one, so the row above is that of the tree
      have hset : (pairUp node L).set (i / 2) (node x c) = pairUp node L := by
        refine List.ext_getElem? fun j => ?_
        by_cases hj : i / 2 = j
        · rw [← hj, List.getElem?_set_self hi', hab, hxc]
        · rw [List.getElem?_set_ne hj]
      rw [prefixClimb_even node hs hpar hlast, hup, prefixClimb_path node e hi', hset,
        head_pairUp, ← pairUp_take_append_even node x hpar (by omega), head_pairUp]
termination_by L.length

/-- The pairs of nodes a prefix climb joins in the old tree. -/
def oldPairs (i s : Nat) (x : α) (P : List α) : List (α × α) :=
  if s = 0 then []
  else if i % 2 = 1 then
    match P with
    | [] => []
    | p :: P => (p, x) :: oldPairs (i / 2) (s / 2) (node p x) P
  else if i = s then oldPairs (i / 2) (s / 2) x P
  else
    match P with
    | [] => []
    | _ :: P => oldPairs (i / 2) (s / 2) x P
termination_by s

/-- From the right, the next node makes a pair of the old tree, -/
theorem oldPairs_odd {i s : Nat} (hs : s ≠ 0) (hi : i % 2 = 1) (x p : α) (P : List α) :
    oldPairs node i s x (p :: P) = (p, x) :: oldPairs node (i / 2) (s / 2) (node p x) P := by
  rw [oldPairs, if_neg hs, if_pos hi]

/-- the last node makes none, -/
theorem oldPairs_last {i s : Nat} (hs : s ≠ 0) (hi : i % 2 = 0) (his : i = s) (x : α)
    (P : List α) : oldPairs node i s x P = oldPairs node (i / 2) (s / 2) x P := by
  rw [oldPairs.eq_def, if_neg hs, if_neg (by omega), if_pos his]

/-- and neither does the next node from the left. -/
theorem oldPairs_even {i s : Nat} (hs : s ≠ 0) (hi : i % 2 = 0) (his : i ≠ s) (x p : α)
    (P : List α) : oldPairs node i s x (p :: P) = oldPairs node (i / 2) (s / 2) x P := by
  rw [oldPairs, if_neg hs, if_neg (by omega), if_neg his]

/-- The last node of the old tree is bound by its head, as long as `node` keeps the pairs joined on
the way apart from the pairs of the old tree. -/
theorem head_take_append_injective {L : List α} {i : Nat} {x a : α} (hi : i < L.length)
    (hsep : Separates node (oldPairs node i (L.length - 1) x (path node L i))
      (pairs node (L.take i ++ [a])))
    (h : head node e (L.take i ++ [x]) = head node e (L.take i ++ [a])) : x = a := by
  by_cases hl : L.length ≤ 1
  · have hi0 : i = 0 := by omega
    simpa [hi0] using h
  · have hs : L.length - 1 ≠ 0 := by omega
    have hup : (L.length - 1) / 2 = (pairUp node L).length - 1 := by rw [length_pairUp]; omega
    have hi' : i / 2 < (pairUp node L).length := by rw [length_pairUp]; omega
    have hdec := length_pairUp_lt node (L := L) (by omega)
    -- induction on the levels, over the old tree with the one node and with the other
    have habove : ∀ t ∈ pairs node (pairUp node (L.take i ++ [a])),
        t ∈ pairs node (L.take i ++ [a]) := fun t ht => (mem_pairs node).mpr (Or.inr ht)
    rw [← head_pairUp node e (L.take i ++ [x]), ← head_pairUp node e (L.take i ++ [a])] at h
    rcases Nat.mod_two_eq_zero_or_one i with hpar | hpar
    · rw [pairUp_take_append_even node x hpar (by omega),
        pairUp_take_append_even node a hpar (by omega)] at h
      rw [pairUp_take_append_even node a hpar (by omega)] at habove
      -- an even last node goes up alone
      refine head_take_append_injective hi' (hsep.mono node (fun q hq => ?_) habove) h
      by_cases hlast : i = L.length - 1
      · rw [path_last node hpar (by omega) (by omega), oldPairs_last node hs hpar hlast, hup]
        exact hq
      · obtain ⟨q, hq'⟩ : ∃ q, L[i + 1]? = some q := ⟨_, List.getElem?_eq_getElem (by omega)⟩
        rw [path_even node hpar (by omega) hq', oldPairs_even node hs hpar hlast, hup]
        exact hq
    · obtain ⟨p, hp⟩ : ∃ p, L[i - 1]? = some p := ⟨_, List.getElem?_eq_getElem (by omega)⟩
      rw [path_odd node hpar (by omega) hp, oldPairs_odd node hs hpar, hup] at hsep
      rw [pairUp_take_append_odd node x hpar hp, pairUp_take_append_odd node a hpar hp] at h
      rw [pairUp_take_append_odd node a hpar hp] at habove
      -- an odd one goes up joined, and the pairs are kept apart
      have hpx : node p x = node p a :=
        head_take_append_injective hi' (hsep.mono node (fun _ => List.mem_cons_of_mem _) habove) h
      have hlen : (L.take i).length = i := by rw [List.length_take]; omega
      have hadj : (p, a) ∈ adjacent (L.take i ++ [a]) := by
        refine mem_adjacent_odd (i := i) hpar ?_ ?_
        · rw [List.getElem?_append_left (by omega), List.getElem?_take_of_lt (by omega), hp]
        · rw [List.getElem?_append_right (by omega), hlen, Nat.sub_self]; rfl
      have hpair := hsep (p, x) List.mem_cons_self (p, a)
        ((mem_pairs node).mpr (Or.inl hadj)) hpx
      exact (Prod.mk.inj hpair).2
termination_by L.length

/-- The pairs of nodes a prefix path joins in the old tree. -/
def oldPrefixPairs (i s : Nat) (x : α) (P : List α) : List (α × α) :=
  if i % 2 = 1 ∧ s ≠ 0 then oldPrefixPairs (i / 2) (s / 2) x P
  else oldPairs node i s x P
termination_by s

/-- The pairs of the old tree, of a last old node on the right, -/
theorem oldPrefixPairs_odd {i s : Nat} (hi : i % 2 = 1) (hs : s ≠ 0) (x : α) (P : List α) :
    oldPrefixPairs node i s x P = oldPrefixPairs node (i / 2) (s / 2) x P := by
  rw [oldPrefixPairs, if_pos ⟨hi, hs⟩]

/-- and of one on the left. -/
theorem oldPrefixPairs_even {i s : Nat} (hi : i % 2 = 0) (x : α) (P : List α) :
    oldPrefixPairs node i s x P = oldPairs node i s x P := by
  rw [oldPrefixPairs, if_neg (by omega)]

/-- **The old head binds the first node of the prefix path**, as long as `node` keeps the pairs
joined on the way apart from the pairs of the old tree. -/
theorem oldHead_injective {L : List α} {i : Nat} {x a : α} {rest : List α} (hi : i < L.length)
    (hpath : prefixPath node L i = a :: rest)
    (hsep : Separates node (oldPrefixPairs node i (L.length - 1) x rest)
      (pairs node (L.take (i + 1))))
    (h : oldHead node e L i x = head node e (L.take (i + 1))) : x = a := by
  by_cases hodd : i % 2 = 1
  -- an odd position does not join anything yet: the statement is the one a level up
  · have hdec := length_pairUp_lt node (L := L) (by omega)
    have hup : (L.length - 1) / 2 = (pairUp node L).length - 1 := by rw [length_pairUp]; omega
    have htake : (pairUp node L).take (i / 2 + 1) = pairUp node (L.take (i + 1)) := by
      rw [← pairUp_take node (i / 2 + 1) L (by omega), show 2 * (i / 2 + 1) = i + 1 by omega]
    rw [prefixPath_odd node hodd (by omega)] at hpath
    rw [oldPrefixPairs_odd node hodd (by omega), hup] at hsep
    rw [oldHead_odd node e hodd (by omega), ← head_pairUp node e (L.take (i + 1)), ← htake] at h
    refine oldHead_injective (by rw [length_pairUp]; omega) hpath
      (hsep.mono node (fun _ => id) fun t ht => ?_) h
    rw [htake] at ht
    exact (mem_pairs node).mpr (Or.inr ht)
  -- an even one is where the path starts
  · have hget : L[i]? = some L[i] := List.getElem?_eq_getElem hi
    rw [prefixPath_even node (by omega), hget] at hpath
    have hcons : L[i] :: path node L i = a :: rest := hpath
    obtain ⟨rfl, rfl⟩ := List.cons.inj hcons
    have htake : L.take (i + 1) = L.take i ++ [L[i]] := by rw [List.take_add_one, hget]; rfl
    rw [oldPrefixPairs_even node (by omega), htake] at hsep
    rw [oldHead_even node e (by omega), htake] at h
    exact head_take_append_injective node e hi hsep h
termination_by L.length

/-- The left members of the pairs joined in the old tree come from the path. -/
theorem fst_mem_of_mem_oldPairs (s : Nat) : ∀ {i : Nat} {x : α} {P : List α} {q : α × α},
    q ∈ oldPairs node i s x P → q.1 ∈ P := by
  induction s using Nat.strong_induction_on with
  | _ s ih =>
    intro i x P q hq
    rw [oldPairs.eq_def] at hq
    split at hq
    · exact absurd hq List.not_mem_nil
    · have hdec : s / 2 < s := by omega
      split at hq
      · cases P with
        | nil => exact absurd hq List.not_mem_nil
        | cons p P =>
            rcases List.mem_cons.mp hq with rfl | hq
            · exact List.mem_cons_self
            · exact List.mem_cons_of_mem p (ih _ hdec hq)
      · split at hq
        · exact ih _ hdec hq
        · cases P with
          | nil => exact absurd hq List.not_mem_nil
          | cons p P => exact List.mem_cons_of_mem p (ih _ hdec hq)

/-- The left members of the pairs a prefix path joins in the old tree come from the path. -/
theorem fst_mem_of_mem_oldPrefixPairs (s : Nat) : ∀ {i : Nat} {x : α} {P : List α} {q : α × α},
    q ∈ oldPrefixPairs node i s x P → q.1 ∈ P := by
  induction s using Nat.strong_induction_on with
  | _ s ih =>
    intro i x P q hq
    rw [oldPrefixPairs] at hq
    split at hq
    · next hodd => exact ih _ (by omega) hq
    · exact fst_mem_of_mem_oldPairs node s hq

/-- The first two nodes of a prefix path are joined in the tree. -/
theorem mem_pairs_of_prefixPath {L : List α} {i : Nat} {a b : α} {rest : List α}
    (hi : i + 1 < L.length) (hpath : prefixPath node L i = a :: b :: rest) :
    (a, b) ∈ pairs node L := by
  by_cases hodd : i % 2 = 1
  · have hdec := length_pairUp_lt node (L := L) (by omega)
    rw [prefixPath_odd node hodd (by omega)] at hpath
    exact (mem_pairs node).mpr
      (Or.inr (mem_pairs_of_prefixPath (by rw [length_pairUp]; omega) hpath))
  · have ha : L[i]? = some L[i] := List.getElem?_eq_getElem (by omega)
    have hb : L[i + 1]? = some L[i + 1] := List.getElem?_eq_getElem hi
    rw [prefixPath_even node (by omega), path_even node (by omega) (by omega) hb, ha] at hpath
    obtain ⟨rfl, htail⟩ := List.cons.inj
      (show L[i] :: L[i + 1] :: path node (pairUp node L) (i / 2) = a :: b :: rest from hpath)
    obtain ⟨rfl, -⟩ := List.cons.inj htail
    exact (mem_pairs node).mpr (Or.inl (mem_adjacent_even (by omega) ha hb))
termination_by L.length

/-- If all nodes of the lowest level have a property that `node` establishes, so do the nodes of
every audit path. -/
theorem path_forall {Dig : α → Prop} (hnode : ∀ a b, Dig (node a b)) {L : List α} {i : Nat}
    (hL : ∀ x ∈ L, Dig x) : ∀ x ∈ path node L i, Dig x := by
  intro x hx
  by_cases hl : L.length ≤ 1
  · rw [path_of_length_le_one node i hl] at hx
    exact absurd hx List.not_mem_nil
  · have hdec := length_pairUp_lt node (L := L) (by omega)
    rw [path_of_one_lt_length node i (by omega)] at hx
    rcases List.mem_append.mp hx with hsib | habove
    · rw [Option.mem_toList, sibling] at hsib
      split at hsib <;> exact hL x (List.mem_of_getElem? hsib)
    · refine path_forall hnode (fun y hy => ?_) x habove
      rcases mem_pairUp node hy with h | ⟨q, -, rfl⟩
      exacts [hL y h, hnode _ _]
termination_by L.length

/-- If all nodes of the lowest level have a property that `node` establishes, so do the nodes of
every prefix path. -/
theorem prefixPath_forall {Dig : α → Prop} (hnode : ∀ a b, Dig (node a b)) {L : List α} {i : Nat}
    (hL : ∀ x ∈ L, Dig x) : ∀ x ∈ prefixPath node L i, Dig x := by
  intro x hx
  rw [prefixPath] at hx
  split at hx
  · have hdec := length_pairUp_lt node (L := L) (by omega)
    refine prefixPath_forall hnode (fun y hy => ?_) x hx
    rcases mem_pairUp node hy with h | ⟨q, -, rfl⟩
    exacts [hL y h, hnode _ _]
  · rcases List.mem_append.mp hx with h | h
    · rw [Option.mem_toList] at h
      exact hL x (List.mem_of_getElem? h)
    · exact path_forall node hnode hL x h
termination_by L.length

end OpenWright.MerkleTree
