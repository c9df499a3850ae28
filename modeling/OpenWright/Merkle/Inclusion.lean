import OpenWright.Merkle.Tree

/-! # Verifying inclusion

The iterative verifier of inclusion proofs. Its loop walks the bits of the leaf index `fn` and of
the last index `sn`; at the ragged right edge it hashes first and then skips the levels on which
the node moves up alone. `inclusionLoop_eq_climb` shows that this is the climb of the audit path,
which skips first.

* **`verifyInclusion_treeHash_iff`** — against the tree hash of 32-byte leaves, exactly the leaf at
  the index with its inclusion proof is accepted. -/

namespace OpenWright.Merkle

open Hash Python MerkleTree

/-! ## The verifier -/

/-- `while (fn & 1) == 0 and fn != 0`: skip the levels on which the node moves up alone. -/
def skipLevels (fn sn : Int) : Int × Int :=
  if fn % 2 = 0 ∧ fn ≠ 0 then skipLevels (fn / 2) (sn / 2) else (fn, sn)
termination_by fn.natAbs

/-- The loop of `verify_inclusion`: the `sn` and the node it ends with, `none` where it returns
`False`. -/
def inclusionLoop (fn sn : Int) (r : Bytes) : List Bytes → Option (Int × Bytes)
  | [] => some (sn, r)
  | p :: proof =>
    if sn = 0 then none
    else if fn % 2 = 1 ∨ fn = sn then
      let levels := if fn % 2 = 0 then skipLevels fn sn else (fn, sn)
      inclusionLoop (levels.1 / 2) (levels.2 / 2) (nodeHash p r) proof
    else inclusionLoop (fn / 2) (sn / 2) (nodeHash r p) proof

/-- `verify_inclusion`. -/
def verifyInclusion (leafIndex treeSize : Int) (leaf : Bytes) (proof : List Bytes) (root : Bytes) :
    Bool :=
  if leafIndex ≥ treeSize ∨ leafIndex < 0 then false
  else
    match inclusionLoop leafIndex (treeSize - 1) leaf proof with
    | none => false
    | some (sn, r) => sn = 0 ∧ r = root

/-- The strings the loop of `verify_inclusion` hashes. -/
def hashedByInclusionLoop (fn sn : Int) (r : Bytes) : List Bytes → List Bytes
  | [] => []
  | p :: proof =>
    if sn = 0 then []
    else if fn % 2 = 1 ∨ fn = sn then
      let levels := if fn % 2 = 0 then skipLevels fn sn else (fn, sn)
      (nodePrefix ++ p ++ r)
        :: hashedByInclusionLoop (levels.1 / 2) (levels.2 / 2) (nodeHash p r) proof
    else
      (nodePrefix ++ r ++ p) :: hashedByInclusionLoop (fn / 2) (sn / 2) (nodeHash r p) proof

/-- The strings `verify_inclusion` hashes. -/
def hashedByVerifyInclusion (leafIndex treeSize : Int) (leaf : Bytes) (proof : List Bytes) :
    List Bytes :=
  if leafIndex ≥ treeSize ∨ leafIndex < 0 then []
  else hashedByInclusionLoop leafIndex (treeSize - 1) leaf proof

/-! ## The loop climbs -/

section Steps

variable {fn sn : Int} (r p : Bytes) (proof : List Bytes)

/-- A node on the right joins its sibling on the left. -/
theorem inclusionLoop_right (hs : sn ≠ 0) (hfn : fn % 2 = 1) :
    inclusionLoop fn sn r (p :: proof) = inclusionLoop (fn / 2) (sn / 2) (nodeHash p r) proof ∧
      hashedByInclusionLoop fn sn r (p :: proof) = (nodePrefix ++ p ++ r)
        :: hashedByInclusionLoop (fn / 2) (sn / 2) (nodeHash p r) proof := by
  have hne : ¬fn % 2 = 0 := by omega
  rw [inclusionLoop, hashedByInclusionLoop]
  simp only [if_neg hs, if_pos (Or.inl hfn : fn % 2 = 1 ∨ fn = sn), if_neg hne, and_self]

/-- The last node of a level joins its sibling where it is on the right. -/
theorem inclusionLoop_last (hs : sn ≠ 0) (hfn : fn % 2 = 0) (hlast : fn = sn) {j : Int}
    (hskip : skipLevels fn sn = (j, j)) :
    inclusionLoop fn sn r (p :: proof) = inclusionLoop (j / 2) (j / 2) (nodeHash p r) proof ∧
      hashedByInclusionLoop fn sn r (p :: proof) = (nodePrefix ++ p ++ r)
        :: hashedByInclusionLoop (j / 2) (j / 2) (nodeHash p r) proof := by
  rw [inclusionLoop, hashedByInclusionLoop]
  simp only [if_neg hs, if_pos (Or.inr hlast : fn % 2 = 1 ∨ fn = sn), if_pos hfn, hskip, and_self]

/-- A node on the left joins its sibling on the right. -/
theorem inclusionLoop_left (hs : sn ≠ 0) (hfn : fn % 2 = 0) (hlast : fn ≠ sn) :
    inclusionLoop fn sn r (p :: proof) = inclusionLoop (fn / 2) (sn / 2) (nodeHash r p) proof ∧
      hashedByInclusionLoop fn sn r (p :: proof) = (nodePrefix ++ r ++ p)
        :: hashedByInclusionLoop (fn / 2) (sn / 2) (nodeHash r p) proof := by
  have hne : ¬(fn % 2 = 1 ∨ fn = sn) := by omega
  rw [inclusionLoop, hashedByInclusionLoop]
  simp only [if_neg hs, if_neg hne, and_self]

end Steps

/-- Skipping from the last position of a level ends on an odd last position; what moves up from even
last positions unchanged is the same there. -/
theorem skipLevels_last (i : Nat) (hi : i ≠ 0) :
    ∃ j : Nat, skipLevels i i = ((j : Int), (j : Int)) ∧ j % 2 = 1 ∧
      ∀ {β : Type} (f : Nat → β), (∀ k, k ≠ 0 → k % 2 = 0 → f k = f (k / 2)) → f i = f j := by
  induction i using Nat.strongRecOn with
  | ind i ih =>
      rw [skipLevels.eq_def]
      by_cases hpar : i % 2 = 1
      · exact ⟨i, if_neg (by omega), hpar, fun _ _ => rfl⟩
      · obtain ⟨j, hskip, hodd, hsame⟩ := ih (i / 2) (by omega) (by omega)
        refine ⟨j, (if_pos (by omega)).trans hskip, hodd, fun f hf => ?_⟩
        rw [hf i hi (by omega), hsame f hf]

/-- The climb moves up from an even last position. -/
theorem climb_move_up (x : Bytes) (P : List Bytes) (k : Nat) (hk : k ≠ 0) (hpar : k % 2 = 0) :
    climb nodeHash k k x P = climb nodeHash (k / 2) (k / 2) x P :=
  climb_last nodeHash hk hpar rfl x P

/-- The pairs of the climb move up from an even last position. -/
theorem climbPairs_move_up (x : Bytes) (P : List Bytes) (k : Nat) (hk : k ≠ 0) (hpar : k % 2 = 0) :
    climbPairs nodeHash k k x P = climbPairs nodeHash (k / 2) (k / 2) x P :=
  climbPairs_last nodeHash hk hpar rfl x P

/-- The node a loop reaches the top with. -/
def reached : Option (Int × Bytes) → Option Bytes
  | some (sn, r) => if sn = 0 then some r else none
  | none => none

/-- At the top of the tree no further node is taken. -/
theorem reached_inclusionLoop_top (fn : Int) (r : Bytes) : ∀ P : List Bytes,
    reached (inclusionLoop fn 0 r P) = if P.isEmpty then some r else none
  | [] => rfl
  | p :: P => by rw [inclusionLoop, if_pos rfl]; rfl

/-- Below the top an empty path does not lead anywhere. -/
theorem climb_empty {i s : Nat} (hs : s ≠ 0) (x : Bytes) :
    climb nodeHash i s x [] = none ∧ climbPairs nodeHash i s x [] = [] := by
  have odd : ∀ {j t : Nat}, t ≠ 0 → j % 2 = 1 → climb nodeHash j t x [] = none ∧
      climbPairs nodeHash j t x [] = [] := by
    intro j t ht hj
    exact ⟨climb_nil nodeHash ht (Or.inl hj) x, by rw [climbPairs, if_neg ht, if_pos hj]⟩
  by_cases hlast : i = s
  · subst hlast
    obtain ⟨j, -, hj, hsame⟩ := skipLevels_last i hs
    rw [hsame (fun k => climb nodeHash k k x []) (climb_move_up x []),
      hsame (fun k => climbPairs nodeHash k k x []) (climbPairs_move_up x [])]
    exact odd (by omega) hj
  · by_cases hpar : i % 2 = 1
    · exact odd hs hpar
    · refine ⟨climb_nil nodeHash hs (Or.inr hlast) x, ?_⟩
      rw [climbPairs, if_neg hs, if_neg hpar, if_neg hlast]

/-- **The loop climbs the audit path** and hashes the pairs of the climb. -/
theorem inclusionLoop_eq_climb : ∀ (P : List Bytes) {i s : Nat} (x : Bytes), i ≤ s →
    reached (inclusionLoop i s x P) = climb nodeHash i s x P ∧
      ∀ q ∈ climbPairs nodeHash i s x P, nodePrefix ++ q.1 ++ q.2 ∈ hashedByInclusionLoop i s x P := by
  intro P
  induction P with
  | nil =>
      intro i s x _
      by_cases hs : s = 0
      · subst hs
        rw [climb_top, climbPairs, if_pos rfl]
        exact ⟨reached_inclusionLoop_top i x [], fun q hq => absurd hq List.not_mem_nil⟩
      · obtain ⟨hclimb, hpairs⟩ := climb_empty (i := i) hs x
        rw [hclimb, hpairs, inclusionLoop, reached, if_neg (by exact_mod_cast hs)]
        exact ⟨rfl, fun q hq => absurd hq List.not_mem_nil⟩
  | cons p P ih =>
      intro i s x his
      by_cases hs : s = 0
      · subst hs
        rw [climb_top, climbPairs, if_pos rfl]
        exact ⟨reached_inclusionLoop_top i x (p :: P), fun q hq => absurd hq List.not_mem_nil⟩
      · have hs' : (s : Int) ≠ 0 := by exact_mod_cast hs
        by_cases hodd : i % 2 = 1
        · obtain ⟨hloop, hhashed⟩ := inclusionLoop_right x p P hs' (by omega : (i : Int) % 2 = 1)
          obtain ⟨hclimb, hmem⟩ := ih (i := i / 2) (s := s / 2) (nodeHash p x) (by omega)
          rw [hloop, hhashed, climb_odd nodeHash hs hodd, climbPairs_odd nodeHash hs hodd]
          exact ⟨hclimb, List.forall_mem_cons.mpr ⟨List.mem_cons_self,
            fun q hq => List.mem_cons_of_mem _ (hmem q hq)⟩⟩
        · by_cases hlast : i = s
          · -- the source joins before it skips, the climb skips before it joins
            subst hlast
            obtain ⟨j, hskip, hjodd, hsame⟩ := skipLevels_last i hs
            obtain ⟨hloop, hhashed⟩ := inclusionLoop_last x p P hs' (by omega) rfl hskip
            obtain ⟨hclimb, hmem⟩ := ih (i := j / 2) (s := j / 2) (nodeHash p x) (by omega)
            have hj : j ≠ 0 := by omega
            rw [hloop, hhashed,
              hsame (fun k => climb nodeHash k k x (p :: P)) (climb_move_up x (p :: P)),
              hsame (fun k => climbPairs nodeHash k k x (p :: P)) (climbPairs_move_up x (p :: P)),
              climb_odd nodeHash hj hjodd, climbPairs_odd nodeHash hj hjodd]
            exact ⟨hclimb, List.forall_mem_cons.mpr ⟨List.mem_cons_self,
              fun q hq => List.mem_cons_of_mem _ (hmem q hq)⟩⟩
          · obtain ⟨hloop, hhashed⟩ :=
              inclusionLoop_left x p P hs' (by omega : (i : Int) % 2 = 0) (by exact_mod_cast hlast)
            obtain ⟨hclimb, hmem⟩ := ih (i := i / 2) (s := s / 2) (nodeHash x p) (by omega)
            rw [hloop, hhashed, climb_even nodeHash hs (by omega) hlast,
              climbPairs_even nodeHash hs (by omega) hlast]
            exact ⟨hclimb, List.forall_mem_cons.mpr ⟨List.mem_cons_self,
              fun q hq => List.mem_cons_of_mem _ (hmem q hq)⟩⟩

/-! ## Soundness and completeness -/

/-- Acceptance, in terms of the climb. -/
theorem verifyInclusion_eq_true {m n : Int} {x root : Bytes} {P : List Bytes} :
    verifyInclusion m n x P root = true ↔ ∃ i s : Nat, m = i ∧ n = s + 1 ∧ i ≤ s ∧
      climb nodeHash i s x P = some root := by
  -- the loop accepts when the root is reached and the path is used up
  have accept : ∀ o : Option (Int × Bytes), (match o with
      | none => false
      | some (sn, r) => decide (sn = 0 ∧ r = root)) = true ↔ reached o = some root := by
    intro o
    cases o with
    | none => simp [reached]
    | some q =>
        obtain ⟨sn, r⟩ := q
        by_cases hsn : sn = 0
        · simp [reached, hsn]
        · simp [reached, hsn]
  constructor
  · intro h
    have hrange : ¬(m ≥ n ∨ m < 0) := by
      intro hout
      rw [verifyInclusion, if_pos hout] at h
      exact Bool.noConfusion h
    rw [verifyInclusion, if_neg hrange, accept] at h
    obtain ⟨i, rfl⟩ := Int.eq_ofNat_of_zero_le (show 0 ≤ m by omega)
    obtain ⟨s, hs⟩ := Int.eq_ofNat_of_zero_le (show 0 ≤ n - 1 by omega)
    rw [hs, (inclusionLoop_eq_climb P x (by omega)).1] at h
    exact ⟨i, s, rfl, by omega, by omega, h⟩
  · rintro ⟨i, s, rfl, rfl, his, h⟩
    rw [verifyInclusion, if_neg (by omega), accept, Int.add_sub_cancel,
      (inclusionLoop_eq_climb P x his).1, h]

/-- Two node strings agree only if their children do, when the children of one have 32 bytes and a
child of the other has. -/
theorem nodeString_injective {a b c d : Bytes} (hab : a.length = 32 ∨ b.length = 32)
    (hc : c.length = 32) (hd : d.length = 32)
    (h : nodePrefix ++ a ++ b = nodePrefix ++ c ++ d) : a = c ∧ b = d := by
  rw [List.append_assoc, List.append_assoc] at h
  have h' : a ++ b = c ++ d := List.append_cancel_left h
  have hlen : a.length + b.length = c.length + d.length := by
    rw [← List.length_append, h', List.length_append]
  exact List.append_inj h' (by omega)

/-- On strings that do not collide, the node hash keeps joined pairs apart. -/
theorem separates_of_collisionFree {Q T : List (Bytes × Bytes)} {S : List Bytes}
    (hS : CollisionFree S) (hQ : ∀ q ∈ Q, nodePrefix ++ q.1 ++ q.2 ∈ S)
    (hT : ∀ t ∈ T, nodePrefix ++ t.1 ++ t.2 ∈ S)
    (hQlen : ∀ q ∈ Q, q.1.length = 32 ∨ q.2.length = 32)
    (hTlen : ∀ t ∈ T, t.1.length = 32 ∧ t.2.length = 32) : Separates nodeHash Q T := by
  intro q hq t ht h
  obtain ⟨h₁, h₂⟩ := nodeString_injective (hQlen q hq) (hTlen t ht).1 (hTlen t ht).2
    (hS _ (hQ q hq) _ (hT t ht) h)
  exact Prod.ext h₁ h₂

/-- The pairs joined over 32-byte leaves are pairs of 32-byte nodes. -/
theorem length_of_mem_pairs {L : List Bytes} (hL : ∀ l ∈ L, l.length = 32) {q : Bytes × Bytes}
    (hq : q ∈ pairs nodeHash L) : q.1.length = 32 ∧ q.2.length = 32 :=
  pairs_forall nodeHash length_nodeHash hL hq

/-- A climb from a 32-byte node joins 32-byte nodes with whatever the path holds. -/
theorem length_of_mem_climbPairs {i s : Nat} {x : Bytes} {P : List Bytes} (hx : x.length = 32)
    {q : Bytes × Bytes} (hq : q ∈ climbPairs nodeHash i s x P) :
    q.1.length = 32 ∨ q.2.length = 32 :=
  @climbPairs_forall _ nodeHash (fun b => b.length = 32) length_nodeHash _ _ _ _ _ hx hq

/-- **Soundness**: what is accepted against the tree hash of 32-byte leaves is a leaf at its index
with its audit path. -/
theorem verifyInclusion_sound {L : List Bytes} (hL : ∀ l ∈ L, l.length = 32) {m : Int} {x : Bytes}
    (hx : x.length = 32) {P : List Bytes}
    (hS : CollisionFree (hashedByTreeHash L ++ hashedByVerifyInclusion m L.length x P))
    (h : verifyInclusion m L.length x P (treeHash L) = true) :
    ∃ i : Nat, m = i ∧ L[i]? = some x ∧ P = path nodeHash L i := by
  obtain ⟨i, s, rfl, hs, his, hclimb⟩ := verifyInclusion_eq_true.mp h
  have hs' : s = L.length - 1 := by omega
  subst hs'
  have hrange : ¬((i : Int) ≥ L.length ∨ (i : Int) < 0) := by omega
  have hlen : (L.length : Int) - 1 = ((L.length - 1 : Nat) : Int) := by omega
  rw [hashedByVerifyInclusion, if_neg hrange, hlen] at hS
  have hsep : Separates nodeHash (climbPairs nodeHash i (L.length - 1) x P) (pairs nodeHash L) := by
    refine separates_of_collisionFree hS (fun q hq => ?_) (fun t ht => ?_) (fun q hq => ?_)
      (fun t ht => length_of_mem_pairs hL ht)
    · exact List.mem_append_right _ ((inclusionLoop_eq_climb P x his).2 q hq)
    · exact List.mem_append_left _ (mem_hashedByTreeHash ht)
    · exact length_of_mem_climbPairs hx hq
  rw [treeHash_eq_head] at hclimb
  obtain ⟨hget, hP⟩ := climb_sound nodeHash emptyRoot (by omega) hsep hclimb
  exact ⟨i, rfl, hget, hP⟩

/-- **Completeness**: every leaf is accepted at its index with its audit path. -/
theorem verifyInclusion_complete {L : List Bytes} {i : Nat} {x : Bytes} (hx : L[i]? = some x) :
    verifyInclusion i L.length x (path nodeHash L i) (treeHash L) = true := by
  obtain ⟨hi, hget⟩ := List.getElem?_eq_some_iff.mp hx
  refine verifyInclusion_eq_true.mpr ⟨i, L.length - 1, rfl, by omega, by omega, ?_⟩
  rw [climb_path nodeHash emptyRoot hi, ← hget, List.set_getElem_self, treeHash_eq_head]

/-- **The verifier accepts exactly the true audit path**: against the tree hash of 32-byte leaves,
an index in range, the leaf at that index and its inclusion proof. -/
theorem verifyInclusion_treeHash_iff (L : List Bytes) (hL : ∀ l ∈ L, l.length = 32) (m : Int)
    (x : Bytes) (hx : x.length = 32) (P : List Bytes)
    (hS : CollisionFree (hashedByTreeHash L ++ hashedByVerifyInclusion m L.length x P)) :
    verifyInclusion m L.length x P (treeHash L) = true ↔
      (0 ≤ m ∧ m < L.length) ∧ L[m.toNat]? = some x ∧ inclusionProof L m = .ok P := by
  constructor
  · intro h
    obtain ⟨i, rfl, hget, hP⟩ := verifyInclusion_sound hL hx hS h
    have hi : i < L.length := (List.getElem?_eq_some_iff.mp hget).1
    have hrange : 0 ≤ (i : Int) ∧ (i : Int) < L.length := by omega
    exact ⟨hrange, hget, inclusionProof_eq_ok.mpr ⟨hrange, hP⟩⟩
  · rintro ⟨hrange, hget, hproof⟩
    obtain ⟨i, rfl⟩ := Int.eq_ofNat_of_zero_le hrange.1
    rw [(inclusionProof_eq_ok.mp hproof).2]
    exact verifyInclusion_complete hget

/-- Two leaves: the first one is accepted with the second one as its proof. -/
theorem verifyInclusion_treeHash_iff_two :
    verifyInclusion 0 2 (List.replicate 32 1) [List.replicate 32 2]
      (treeHash [List.replicate 32 1, List.replicate 32 2]) = true := by
  have hrun : hashedByVerifyInclusion 0 2 (List.replicate 32 1) [List.replicate 32 2]
      = [nodePrefix ++ List.replicate 32 1 ++ List.replicate 32 2] := rfl
  refine (verifyInclusion_treeHash_iff [List.replicate 32 1, List.replicate 32 2] (by decide) 0
    (List.replicate 32 1) (by decide) [List.replicate 32 2] ?_).mpr ⟨by decide, rfl, ?_⟩
  · -- the tree and the run hash the same single string
    refine collisionFree_of_forall_eq
      (s := nodePrefix ++ List.replicate 32 1 ++ List.replicate 32 2) fun t ht => ?_
    rw [hashedByTreeHash_pair] at ht
    rcases List.mem_append.mp ht with h | h
    · exact List.mem_singleton.mp h
    · exact List.mem_singleton.mp (hrun ▸ h)
  · rw [inclusionProof]
    decide +kernel

end OpenWright.Merkle
