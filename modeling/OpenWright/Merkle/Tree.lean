import OpenWright.Hash.Sha256
import OpenWright.MerkleTree.PrefixPath
import OpenWright.Python.Value

/-! # Tree heads and proofs

Leaf and node hashes, the recursive tree hash, and the generators of inclusion and consistency
proofs. The source splits every list at the largest power of two below its length; the section on
levels shows that this is the tree that is built level by level:

* **`treeHash_eq_head`**, **`inclusionProof_eq_path`**, **`prefixPath_eq_subproof`** — the tree hash
  is the head, an inclusion proof the audit path, and a consistency proof the prefix path less its
  first node where that is the old root. -/

namespace OpenWright.Merkle

open Hash Python MerkleTree

/-! ## Hashes -/

/-- `_LEAF_PREFIX`. -/
def leafPrefix : Bytes := [0x00]

/-- `_NODE_PREFIX`. -/
def nodePrefix : Bytes := [0x01]

/-- `leaf_hash`. -/
def leafHash (data : Bytes) : Bytes := sha256 (leafPrefix ++ data)

/-- `node_hash`. -/
def nodeHash (left right : Bytes) : Bytes := sha256 (nodePrefix ++ left ++ right)

/-- `empty_root`. -/
def emptyRoot : Bytes := sha256 []

/-- A leaf has 32 bytes, -/
@[simp] theorem length_leafHash (data : Bytes) : (leafHash data).length = 32 := length_sha256 _

/-- as has an inner node. -/
@[simp] theorem length_nodeHash (left right : Bytes) : (nodeHash left right).length = 32 :=
  length_sha256 _

/-! ## The split point -/

/-- The loop of `_largest_pow2_lt`. -/
def largestPow2LtLoop (n k : Nat) (hk : 0 < k) : Nat :=
  if k * 2 < n then largestPow2LtLoop n (k * 2) (by omega) else k
termination_by n - k

/-- `_largest_pow2_lt`. -/
def largestPow2Lt (n : Nat) : Nat := largestPow2LtLoop n 1 Nat.one_pos

/-- The loop stays on the powers of two and stops between half of `n` and `n`. -/
theorem largestPow2LtLoop_spec (n j : Nat) (hj : 2 ^ j < n) :
    ∃ i, largestPow2LtLoop n (2 ^ j) (Nat.two_pow_pos j) = 2 ^ i ∧ 2 ^ i < n ∧ n ≤ 2 ^ i * 2 := by
  rw [largestPow2LtLoop]
  by_cases hlt : 2 ^ j * 2 < n
  · have hpow : 2 ^ (j + 1) = 2 ^ j * 2 := Nat.pow_succ 2 j
    have hdec : n - 2 ^ (j + 1) < n - 2 ^ j := by have := Nat.two_pow_pos j; omega
    obtain ⟨i, hi, hlo, hup⟩ := largestPow2LtLoop_spec n (j + 1) (by omega)
    refine ⟨i, ?_, hlo, hup⟩
    rw [if_pos hlt, ← hi]
    congr 1
  · exact ⟨j, if_neg hlt, hj, by omega⟩
termination_by n - 2 ^ j

/-- **The split point** of `n ≥ 2` is a power of two `k` with `k < n ≤ 2k`. -/
theorem largestPow2Lt_spec {n : Nat} (hn : 2 ≤ n) :
    ∃ j, largestPow2Lt n = 2 ^ j ∧ 2 ^ j < n ∧ n ≤ 2 ^ j * 2 :=
  largestPow2LtLoop_spec n 0 (by omega)

/-- The split leaves something on the left, -/
theorem largestPow2Lt_pos {n : Nat} (hn : 2 ≤ n) : 0 < largestPow2Lt n := by
  obtain ⟨j, hj, -, -⟩ := largestPow2Lt_spec hn
  rw [hj]
  exact Nat.two_pow_pos j

/-- and something on the right. -/
theorem largestPow2Lt_lt {n : Nat} (hn : 2 ≤ n) : largestPow2Lt n < n := by
  obtain ⟨j, hj, hlt, -⟩ := largestPow2Lt_spec hn
  rwa [hj]

/-! ## Heads and proofs -/

/-- `tree_hash`. -/
def treeHash (leaves : List Bytes) : Bytes :=
  match leaves with
  | [] => emptyRoot
  | [leaf] => leaf
  | l₀ :: l₁ :: rest =>
    let k := largestPow2Lt (l₀ :: l₁ :: rest).length
    nodeHash (treeHash ((l₀ :: l₁ :: rest).take k)) (treeHash ((l₀ :: l₁ :: rest).drop k))
termination_by leaves.length
decreasing_by
  · have := largestPow2Lt_lt (n := (l₀ :: l₁ :: rest).length) (by simp)
    rw [List.length_take]; omega
  · have := largestPow2Lt_pos (n := (l₀ :: l₁ :: rest).length) (by simp)
    rw [List.length_drop]; simp only [List.length_cons] at *; omega

/-- `inclusion_proof`. -/
def inclusionProof (leaves : List Bytes) (m : Int) : Except PyErr (List Bytes) :=
  let n := leaves.length
  if ¬(0 ≤ m ∧ m < n) then
    .error { kind := .indexError
             msg := [.text (lit "leaf index "), .str (.int m),
               .text (lit " out of range for tree size "), .str (.int n)] }
  else if n = 1 then .ok []
  else
    let k := largestPow2Lt n
    -- the sibling of the part that the leaf is in closes the path
    if m < k then do
      let proof ← inclusionProof (leaves.take k) m
      return proof ++ [treeHash (leaves.drop k)]
    else do
      let proof ← inclusionProof (leaves.drop k) (m - k)
      return proof ++ [treeHash (leaves.take k)]
termination_by leaves.length
decreasing_by
  · have := largestPow2Lt_lt (n := leaves.length) (by omega)
    rw [List.length_take]; omega
  · have := largestPow2Lt_pos (n := leaves.length) (by omega)
    rw [List.length_drop]; omega

/-- `_subproof`, whose callers keep `m` between 1 and the number of leaves. -/
def subproof (m : Nat) (leaves : List Bytes) (b : Bool) (hm : 0 < m ∧ m ≤ leaves.length) :
    List Bytes :=
  if heq : m = leaves.length then
    -- the old tree is this whole tree, whose root the verifier may know
    if b then [] else [treeHash leaves]
  else
    have hlt := largestPow2Lt_lt (n := leaves.length) (by omega)
    have hpos := largestPow2Lt_pos (n := leaves.length) (by omega)
    -- the right part is new, so its root closes the proof
    if hk : m ≤ largestPow2Lt leaves.length then
      subproof m (leaves.take (largestPow2Lt leaves.length)) b (by rw [List.length_take]; omega)
        ++ [treeHash (leaves.drop (largestPow2Lt leaves.length))]
    else
      subproof (m - largestPow2Lt leaves.length) (leaves.drop (largestPow2Lt leaves.length)) false
          (by rw [List.length_drop]; omega)
        ++ [treeHash (leaves.take (largestPow2Lt leaves.length))]
termination_by leaves.length
decreasing_by
  · rw [List.length_take]; omega
  · rw [List.length_drop]; omega

/-- `consistency_proof`. -/
def consistencyProof (leaves : List Bytes) (m : Int) : Except PyErr (List Bytes) :=
  if h : 0 < m ∧ m ≤ leaves.length then
    if m = leaves.length then .ok []
    else .ok (subproof m.toNat leaves true (by omega))
  else
    .error { kind := .valueError
             msg := [.text (lit "old tree size "), .str (.int m),
               .text (lit " out of range for tree size "), .str (.int leaves.length)] }

/-! ## What is hashed -/

/-- The strings `tree_hash` hashes. -/
def hashedByTreeHash (leaves : List Bytes) : List Bytes :=
  match leaves with
  | [] => [[]]
  | [_] => []
  | l₀ :: l₁ :: rest =>
    let k := largestPow2Lt (l₀ :: l₁ :: rest).length
    let left := (l₀ :: l₁ :: rest).take k
    let right := (l₀ :: l₁ :: rest).drop k
    hashedByTreeHash left ++ hashedByTreeHash right
      ++ [nodePrefix ++ treeHash left ++ treeHash right]
termination_by leaves.length
decreasing_by
  · have := largestPow2Lt_lt (n := (l₀ :: l₁ :: rest).length) (by simp)
    rw [List.length_take]; omega
  · have := largestPow2Lt_pos (n := (l₀ :: l₁ :: rest).length) (by simp)
    rw [List.length_drop]; simp only [List.length_cons] at *; omega

/-! ## The tree, level by level -/

/-- The split of a list of at least two leaves: a perfect block, then at least one and at most as
many leaves again. -/
theorem exists_split {L : List Bytes} (hL : 2 ≤ L.length) :
    ∃ j, largestPow2Lt L.length = 2 ^ j ∧ (L.take (2 ^ j)).length = 2 ^ j ∧ L.drop (2 ^ j) ≠ [] ∧
      (L.drop (2 ^ j)).length ≤ 2 ^ j := by
  obtain ⟨j, hj, hlo, hup⟩ := largestPow2Lt_spec hL
  refine ⟨j, hj, by rw [List.length_take]; omega, ?_, by rw [List.length_drop]; omega⟩
  rw [← List.length_pos_iff, List.length_drop]
  omega

/-- The tree hash of at least two leaves. -/
theorem treeHash_split {L : List Bytes} (hL : 2 ≤ L.length) :
    treeHash L = nodeHash (treeHash (L.take (largestPow2Lt L.length)))
      (treeHash (L.drop (largestPow2Lt L.length))) := by
  match L, hL with
  | l₀ :: l₁ :: rest, _ => rw [treeHash]

/-- The strings hashed for at least two leaves. -/
theorem hashedByTreeHash_split {L : List Bytes} (hL : 2 ≤ L.length) :
    hashedByTreeHash L = hashedByTreeHash (L.take (largestPow2Lt L.length))
      ++ hashedByTreeHash (L.drop (largestPow2Lt L.length))
      ++ [nodePrefix ++ treeHash (L.take (largestPow2Lt L.length))
        ++ treeHash (L.drop (largestPow2Lt L.length))] := by
  match L, hL with
  | l₀ :: l₁ :: rest, _ => rw [hashedByTreeHash]

/-- The root of no leaves. -/
@[simp] theorem treeHash_nil : treeHash [] = emptyRoot := by rw [treeHash]

/-- The root of one leaf is the leaf. -/
@[simp] theorem treeHash_singleton (leaf : Bytes) : treeHash [leaf] = leaf := by rw [treeHash]

/-- Nothing is hashed for it. -/
@[simp] theorem hashedByTreeHash_singleton (leaf : Bytes) : hashedByTreeHash [leaf] = [] := by
  rw [hashedByTreeHash]

/-- Two leaves are joined directly. -/
theorem treeHash_pair (a b : Bytes) : treeHash [a, b] = nodeHash a b := by
  have hk : largestPow2Lt 2 = 1 := by decide +kernel
  rw [treeHash_split (by simp), show [a, b].length = 2 from rfl, hk, List.take_succ_cons,
    List.take_zero, List.drop_succ_cons,
    List.drop_zero, treeHash_singleton, treeHash_singleton]

/-- The tree of two leaves hashes one string. -/
theorem hashedByTreeHash_pair (a b : Bytes) :
    hashedByTreeHash [a, b] = [nodePrefix ++ a ++ b] := by
  have hk : largestPow2Lt 2 = 1 := by decide +kernel
  rw [hashedByTreeHash_split (by simp), show [a, b].length = 2 from rfl, hk, List.take_succ_cons,
    List.take_zero,
    List.drop_succ_cons, List.drop_zero, treeHash_singleton, treeHash_singleton,
    hashedByTreeHash_singleton, hashedByTreeHash_singleton]
  rfl

/-- **The tree hash is the head of the tree** built level by level. -/
theorem treeHash_eq_head (L : List Bytes) : treeHash L = head nodeHash emptyRoot L := by
  induction hn : L.length using Nat.strongRecOn generalizing L with
  | ind n ih =>
      match L, hn with
      | [], _ => rw [treeHash_nil, head_nil]
      | [leaf], _ => rw [treeHash_singleton, head_singleton]
      | l₀ :: l₁ :: rest, hn =>
          have hL : 2 ≤ (l₀ :: l₁ :: rest).length := by simp
          generalize l₀ :: l₁ :: rest = L at hn hL
          obtain ⟨j, hj, hA, hne, hB⟩ := exists_split hL
          have hlt := largestPow2Lt_lt hL
          have hpos := Nat.two_pow_pos j
          rw [treeHash_split hL, hj]
          calc nodeHash (treeHash (L.take (2 ^ j))) (treeHash (L.drop (2 ^ j)))
              = nodeHash (head nodeHash emptyRoot (L.take (2 ^ j)))
                  (head nodeHash emptyRoot (L.drop (2 ^ j))) := by
                rw [ih _ (by omega) _ hA, ih _ (by rw [List.length_drop]; omega) _ rfl]
            _ = head nodeHash emptyRoot (L.take (2 ^ j) ++ L.drop (2 ^ j)) :=
                (head_append nodeHash emptyRoot j hA hne hB).symm
            _ = head nodeHash emptyRoot L := by rw [List.take_append_drop]

/-- The head of a tree of 32-byte leaves has 32 bytes. -/
theorem length_treeHash {L : List Bytes} (hL : ∀ l ∈ L, l.length = 32) :
    (treeHash L).length = 32 := by
  by_cases hlen : 2 ≤ L.length
  · rw [treeHash_split hlen, length_nodeHash]
  · match L, hlen with
    | [], _ => rw [treeHash_nil]; exact length_sha256 _
    | [leaf], _ => rw [treeHash_singleton]; exact hL leaf (List.mem_singleton_self leaf)
    | _ :: _ :: _, hlen => simp at hlen

/-- **An inclusion proof is the audit path.** -/
theorem inclusionProof_eq_path (L : List Bytes) {i : Nat} (hi : i < L.length) :
    inclusionProof L i = .ok (path nodeHash L i) := by
  induction hn : L.length using Nat.strongRecOn generalizing L i with
  | ind n ih =>
      rw [inclusionProof]
      dsimp only
      rw [if_neg (by omega)]
      by_cases hone : L.length = 1
      · rw [if_pos hone, path_of_length_le_one nodeHash i (by omega)]
      · rw [if_neg hone]
        have hL : 2 ≤ L.length := by omega
        obtain ⟨j, hj, hA, hne, hB⟩ := exists_split hL
        have hlt := largestPow2Lt_lt hL
        have hpos := Nat.two_pow_pos j
        have hsplit : L.take (2 ^ j) ++ L.drop (2 ^ j) = L := List.take_append_drop (2 ^ j) L
        have hdrop : (L.drop (2 ^ j)).length = L.length - 2 ^ j := List.length_drop
        rw [hj]
        -- the part that the leaf is in, and the root of the other one
        by_cases hleft : i < 2 ^ j
        · rw [if_pos (by exact_mod_cast hleft), ih _ (by omega) _ (by omega) hA, treeHash_eq_head]
          conv_rhs => rw [← hsplit, path_append_left nodeHash emptyRoot j hA hne hB hleft]
          rfl
        · have hi' : ((i : Int) - ((2 ^ j : Nat) : Int)) = ((i - 2 ^ j : Nat) : Int) := by omega
          rw [if_neg (by exact_mod_cast hleft), hi', ih _ (by omega) _ (by omega) rfl,
            treeHash_eq_head]
          conv_rhs => rw [← hsplit, show i = 2 ^ j + (i - 2 ^ j) by omega,
            path_append_right nodeHash emptyRoot j hA (by omega) hB]
          rfl

/-- An index in range has the audit path as proof, any other index none. -/
theorem inclusionProof_eq_ok {L : List Bytes} {m : Int} {P : List Bytes} :
    inclusionProof L m = .ok P ↔ (0 ≤ m ∧ m < L.length) ∧ P = path nodeHash L m.toNat := by
  by_cases hm : 0 ≤ m ∧ m < L.length
  · obtain ⟨i, rfl⟩ := Int.eq_ofNat_of_zero_le hm.1
    have hi : i < L.length := by exact_mod_cast hm.2
    have hproof := inclusionProof_eq_path L hi
    rw [hproof, Except.ok.injEq, Int.toNat_natCast]
    exact ⟨fun h => ⟨hm, h.symm⟩, fun h => h.2.symm⟩
  · rw [inclusionProof]
    dsimp only
    rw [if_pos hm]
    constructor
    · intro h; cases h
    · exact fun h => absurd h.1 hm

/-- A number strictly between two neighbouring powers of two is no power of two. -/
theorem ne_two_pow {m j : Nat} (hlo : 2 ^ j < m) (hup : m < 2 ^ j * 2) (i : Nat) : m ≠ 2 ^ i := by
  rintro rfl
  have hpow : 2 ^ (j + 1) = 2 ^ j * 2 := Nat.pow_succ 2 j
  have hlt : j < i := (Nat.pow_lt_pow_iff_right (by omega)).mp hlo
  have hlt' : i < j + 1 := (Nat.pow_lt_pow_iff_right (by omega)).mp (hpow ▸ hup)
  omega

open Classical in
/-- **A consistency proof is the prefix path**, without its first node where that node is the old
root and the flag says that it is known. -/
theorem prefixPath_eq_subproof (L : List Bytes) (m : Nat) (b : Bool) (hm : 0 < m ∧ m ≤ L.length)
    (hfull : m = L.length → ∃ j, m = 2 ^ j) :
    prefixPath nodeHash L (m - 1)
      = (if b ∧ ∃ j, m = 2 ^ j then [treeHash (L.take m)] else []) ++ subproof m L b hm := by
  -- induction on the number of leaves, as the source recurs
  induction hn : L.length using Nat.strongRecOn generalizing L m b with
  | ind n ih =>
      rw [subproof]
      -- the old tree is this whole tree: a full one, whose root the flag may drop
      by_cases heq : m = L.length
      · obtain ⟨j, hj⟩ := hfull heq
        have htake : L.take m = L := by rw [heq, List.take_length]
        rw [dif_pos heq, hj, prefixPath_block nodeHash emptyRoot j (by omega), ← treeHash_eq_head,
          ← hj, htake]
        cases b with
        | true => rw [if_pos ⟨rfl, j, hj⟩, if_pos rfl]; rfl
        | false => rw [if_neg (by simp), if_neg (by simp)]; rfl
      · rw [dif_neg heq]
        have hL : 2 ≤ L.length := by omega
        obtain ⟨j, hj, hA, hne, hB⟩ := exists_split hL
        have hlt := largestPow2Lt_lt hL
        have hpos := Nat.two_pow_pos j
        have hsplit : L.take (2 ^ j) ++ L.drop (2 ^ j) = L := List.take_append_drop (2 ^ j) L
        have hdrop : (L.drop (2 ^ j)).length = L.length - 2 ^ j := List.length_drop
        simp only [hj]
        -- the old tree lies in the left part, so the right part is one node of the path
        by_cases hleft : m ≤ 2 ^ j
        · rw [dif_pos hleft, treeHash_eq_head (L.drop (2 ^ j))]
          conv_lhs => rw [← hsplit,
            prefixPath_append_left nodeHash emptyRoot j hA hne hB (by omega : m - 1 < 2 ^ j),
            ih _ (by omega) _ m b (by omega) (fun h => ⟨j, by omega⟩) hA]
          rw [List.take_take, Nat.min_eq_left hleft, List.append_assoc]
        -- it reaches into the right part, so the left part is full and a node of the path
        · have hnot : ¬(b = true ∧ ∃ i, m = 2 ^ i) := by
            rintro ⟨-, i, hi⟩
            exact @ne_two_pow m j (by omega) (by omega) i hi
          rw [dif_neg hleft, if_neg hnot, List.nil_append, treeHash_eq_head (L.take (2 ^ j))]
          conv_lhs => rw [← hsplit, show m - 1 = 2 ^ j + (m - 2 ^ j - 1) by omega,
            prefixPath_append_right nodeHash emptyRoot j hA (by omega) hB,
            ih _ (by omega) _ (m - 2 ^ j) false (by omega) (fun h => absurd h (by omega)) rfl]
          rw [if_neg (by simp), List.nil_append]

/-- The pairs of nodes joined in the tree are hashed by the tree hash. -/
theorem mem_hashedByTreeHash {L : List Bytes} {q : Bytes × Bytes} (hq : q ∈ pairs nodeHash L) :
    nodePrefix ++ q.1 ++ q.2 ∈ hashedByTreeHash L := by
  induction hn : L.length using Nat.strongRecOn generalizing L with
  | ind n ih =>
      have hL : 2 ≤ L.length := by
        by_contra hlt
        rw [pairs_of_length_le_one nodeHash (by omega)] at hq
        exact absurd hq List.not_mem_nil
      obtain ⟨j, hj, hA, hne, hB⟩ := exists_split hL
      have hlt := largestPow2Lt_lt hL
      have hpos := Nat.two_pow_pos j
      rw [hashedByTreeHash_split hL, hj]
      rw [← List.take_append_drop (2 ^ j) L, mem_pairs_append nodeHash emptyRoot j hA hne hB] at hq
      rcases hq with rfl | hq | hq
      · rw [treeHash_eq_head, treeHash_eq_head]
        exact List.mem_append_right _ (List.mem_singleton_self _)
      · exact List.mem_append_left _ (List.mem_append_left _ (ih _ (by omega) hq hA))
      · exact List.mem_append_left _ (List.mem_append_right _
          (ih _ (by rw [List.length_drop]; omega) hq rfl))

end OpenWright.Merkle
