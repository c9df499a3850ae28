import OpenWright.Merkle.Inclusion
import Mathlib.Data.Int.Bitwise

/-! # Verifying consistency

The iterative verifier of consistency proofs. It splices the old root in as the first node where the
old size is a power of two, skips to the lowest level on which the last old node is on the left, and
folds one path into both roots.

* **`verifyConsistency_complete`** — the generated proof is accepted between the two genuine roots.
* **`verifyConsistency_sound_iff`** — what is accepted against the tree hash of 32-byte leaves proves
  the old root, except where the proof's first node is longer or shorter than a digest and moves the
  cut between the first two nodes. -/

namespace OpenWright.Merkle

open Hash Python MerkleTree

/-! ## The verifier -/

/-- `while fn & 1`: skip to the level on which the last node of the old tree is on the left. (From
`fn = -1`, an old size of zero, the loop of the source would not end; that size never gets here.) -/
def skipOdd (fn sn : Int) : Int × Int :=
  if fn % 2 = 1 ∧ fn ≠ -1 then skipOdd (fn / 2) (sn / 2) else (fn, sn)
termination_by fn.natAbs

/-- The loop of `verify_consistency`: the `sn` and the two roots it ends with, `none` where it
returns `False`. -/
def consistencyLoop (fn sn : Int) (fr sr : Bytes) : List Bytes → Option (Int × Bytes × Bytes)
  | [] => some (sn, fr, sr)
  | c :: path =>
    if sn = 0 then none
    else if fn % 2 = 1 ∨ fn = sn then
      let levels := if fn % 2 = 0 then skipLevels fn sn else (fn, sn)
      consistencyLoop (levels.1 / 2) (levels.2 / 2) (nodeHash c fr) (nodeHash c sr) path
    else consistencyLoop (fn / 2) (sn / 2) fr (nodeHash sr c) path

/-- The path a proof stands for: a complete old tree has its root spliced in as first node. -/
def splicedPath (firstSize : Int) (firstRoot : Bytes) (proof : List Bytes) : List Bytes :=
  if Int.land firstSize (firstSize - 1) = 0 then firstRoot :: proof else proof

/-- `verify_consistency`. -/
def verifyConsistency (firstSize secondSize : Int) (firstRoot secondRoot : Bytes)
    (proof : List Bytes) : Bool :=
  if firstSize > secondSize then false
  else if firstSize = secondSize then proof.isEmpty && firstRoot == secondRoot
  -- every tree extends the empty one
  else if firstSize = 0 then proof.isEmpty
  else
    match splicedPath firstSize firstRoot proof with
    | [] => false
    | c :: path =>
      -- the nodes of the path up to the first joint have been left out of the proof
      let start := skipOdd (firstSize - 1) (secondSize - 1)
      match consistencyLoop start.1 start.2 c c path with
      | none => false
      | some (sn, fr, sr) => sn = 0 ∧ fr = firstRoot ∧ sr = secondRoot

/-- The strings the loop of `verify_consistency` hashes. -/
def hashedByConsistencyLoop (fn sn : Int) (fr sr : Bytes) : List Bytes → List Bytes
  | [] => []
  | c :: path =>
    if sn = 0 then []
    else if fn % 2 = 1 ∨ fn = sn then
      let levels := if fn % 2 = 0 then skipLevels fn sn else (fn, sn)
      (nodePrefix ++ c ++ fr) :: (nodePrefix ++ c ++ sr)
        :: hashedByConsistencyLoop (levels.1 / 2) (levels.2 / 2) (nodeHash c fr) (nodeHash c sr) path
    else
      (nodePrefix ++ sr ++ c) :: hashedByConsistencyLoop (fn / 2) (sn / 2) fr (nodeHash sr c) path

/-- The strings `verify_consistency` hashes. -/
def hashedByVerifyConsistency (firstSize secondSize : Int) (firstRoot : Bytes)
    (proof : List Bytes) : List Bytes :=
  if firstSize ≥ secondSize ∨ firstSize = 0 then []
  else
    match splicedPath firstSize firstRoot proof with
    | [] => []
    | c :: path =>
      let start := skipOdd (firstSize - 1) (secondSize - 1)
      hashedByConsistencyLoop start.1 start.2 c c path

/-! ## The loop climbs in both trees -/

section Steps

variable {fn sn : Int} (fr sr c : Bytes) (path : List Bytes)

/-- A node on the right joins its sibling on the left, in both trees. -/
theorem consistencyLoop_right (hs : sn ≠ 0) (hfn : fn % 2 = 1) :
    consistencyLoop fn sn fr sr (c :: path)
        = consistencyLoop (fn / 2) (sn / 2) (nodeHash c fr) (nodeHash c sr) path ∧
      hashedByConsistencyLoop fn sn fr sr (c :: path)
        = (nodePrefix ++ c ++ fr) :: (nodePrefix ++ c ++ sr)
          :: hashedByConsistencyLoop (fn / 2) (sn / 2) (nodeHash c fr) (nodeHash c sr) path := by
  have hne : ¬fn % 2 = 0 := by omega
  rw [consistencyLoop, hashedByConsistencyLoop]
  simp only [if_neg hs, if_pos (Or.inl hfn : fn % 2 = 1 ∨ fn = sn), if_neg hne, and_self]

/-- The last node of a level joins its sibling where it is on the right, in both trees. -/
theorem consistencyLoop_last (hs : sn ≠ 0) (hfn : fn % 2 = 0) (hlast : fn = sn) {j : Int}
    (hskip : skipLevels fn sn = (j, j)) :
    consistencyLoop fn sn fr sr (c :: path)
        = consistencyLoop (j / 2) (j / 2) (nodeHash c fr) (nodeHash c sr) path ∧
      hashedByConsistencyLoop fn sn fr sr (c :: path)
        = (nodePrefix ++ c ++ fr) :: (nodePrefix ++ c ++ sr)
          :: hashedByConsistencyLoop (j / 2) (j / 2) (nodeHash c fr) (nodeHash c sr) path := by
  rw [consistencyLoop, hashedByConsistencyLoop]
  simp only [if_neg hs, if_pos (Or.inr hlast : fn % 2 = 1 ∨ fn = sn), if_pos hfn, hskip, and_self]

/-- A node on the left joins its sibling on the right, in the new tree only. -/
theorem consistencyLoop_left (hs : sn ≠ 0) (hfn : fn % 2 = 0) (hlast : fn ≠ sn) :
    consistencyLoop fn sn fr sr (c :: path)
        = consistencyLoop (fn / 2) (sn / 2) fr (nodeHash sr c) path ∧
      hashedByConsistencyLoop fn sn fr sr (c :: path) = (nodePrefix ++ sr ++ c)
        :: hashedByConsistencyLoop (fn / 2) (sn / 2) fr (nodeHash sr c) path := by
  have hne : ¬(fn % 2 = 1 ∨ fn = sn) := by omega
  rw [consistencyLoop, hashedByConsistencyLoop]
  simp only [if_neg hs, if_neg hne, and_self]

end Steps

/-- The two nodes a loop reaches the top with. -/
def reachedBoth : Option (Int × Bytes × Bytes) → Option (Bytes × Bytes)
  | some (sn, fr, sr) => if sn = 0 then some (fr, sr) else none
  | none => none

/-- At the top of the tree no further node is taken. -/
theorem reachedBoth_consistencyLoop_top (fn : Int) (fr sr : Bytes) : ∀ P : List Bytes,
    reachedBoth (consistencyLoop fn 0 fr sr P) = if P.isEmpty then some (fr, sr) else none
  | [] => rfl
  | c :: P => by rw [consistencyLoop, if_pos rfl]; rfl

/-- The prefix climb moves up from an even last position. -/
theorem prefixClimb_move_up (x y : Bytes) (P : List Bytes) (k : Nat) (hk : k ≠ 0)
    (hpar : k % 2 = 0) :
    prefixClimb nodeHash k k x y P = prefixClimb nodeHash (k / 2) (k / 2) x y P :=
  prefixClimb_last nodeHash hk hpar rfl x y P

/-- The old pairs move up from an even last position. -/
theorem oldPairs_move_up (x : Bytes) (P : List Bytes) (k : Nat) (hk : k ≠ 0) (hpar : k % 2 = 0) :
    oldPairs nodeHash k k x P = oldPairs nodeHash (k / 2) (k / 2) x P :=
  oldPairs_last nodeHash hk hpar rfl x P

/-- Below the top an empty path does not lead anywhere. -/
theorem prefixClimb_empty {i s : Nat} (hs : s ≠ 0) (x y : Bytes) :
    prefixClimb nodeHash i s x y [] = none ∧ oldPairs nodeHash i s x [] = [] := by
  have odd : ∀ {j t : Nat}, t ≠ 0 → j % 2 = 1 → prefixClimb nodeHash j t x y [] = none ∧
      oldPairs nodeHash j t x [] = [] := by
    intro j t ht hj
    constructor
    · rw [prefixClimb, if_neg ht, if_pos hj]
    · rw [oldPairs, if_neg ht, if_pos hj]
  by_cases hlast : i = s
  · subst hlast
    obtain ⟨j, -, hj, hsame⟩ := skipLevels_last i hs
    rw [hsame (fun k => prefixClimb nodeHash k k x y []) (prefixClimb_move_up x y []),
      hsame (fun k => oldPairs nodeHash k k x []) (oldPairs_move_up x [])]
    exact odd (by omega) hj
  · by_cases hpar : i % 2 = 1
    · exact odd hs hpar
    · constructor
      · rw [prefixClimb, if_neg hs, if_neg hpar, if_neg hlast]
      · rw [oldPairs, if_neg hs, if_neg hpar, if_neg hlast]

/-- **The loop climbs in both trees** and hashes the pairs of both climbs. -/
theorem consistencyLoop_eq_prefixClimb : ∀ (P : List Bytes) {i s : Nat} (x y : Bytes), i ≤ s →
    reachedBoth (consistencyLoop i s x y P) = prefixClimb nodeHash i s x y P ∧
      (∀ q ∈ climbPairs nodeHash i s y P,
        nodePrefix ++ q.1 ++ q.2 ∈ hashedByConsistencyLoop i s x y P) ∧
      ∀ q ∈ oldPairs nodeHash i s x P,
        nodePrefix ++ q.1 ++ q.2 ∈ hashedByConsistencyLoop i s x y P := by
  intro P
  induction P with
  | nil =>
      intro i s x y _
      by_cases hs : s = 0
      · subst hs
        rw [prefixClimb_top, climbPairs, if_pos rfl, oldPairs, if_pos rfl]
        exact ⟨reachedBoth_consistencyLoop_top i x y [], fun q hq => absurd hq List.not_mem_nil,
          fun q hq => absurd hq List.not_mem_nil⟩
      · obtain ⟨hclimb, hold⟩ := prefixClimb_empty (i := i) hs x y
        rw [hclimb, hold, (climb_empty (i := i) hs y).2, consistencyLoop, reachedBoth,
          if_neg (by exact_mod_cast hs)]
        exact ⟨rfl, fun q hq => absurd hq List.not_mem_nil, fun q hq => absurd hq List.not_mem_nil⟩
  | cons c P ih =>
      intro i s x y his
      by_cases hs : s = 0
      · subst hs
        rw [prefixClimb_top, climbPairs, if_pos rfl, oldPairs, if_pos rfl]
        exact ⟨reachedBoth_consistencyLoop_top i x y (c :: P),
          fun q hq => absurd hq List.not_mem_nil, fun q hq => absurd hq List.not_mem_nil⟩
      · have hs' : (s : Int) ≠ 0 := by exact_mod_cast hs
        -- joining `c` on the left, in both trees, from position `j` of the level ending in `t`
        have joins : ∀ {j t : Nat}, j ≤ t → t ≠ 0 → j % 2 = 1 → ∀ S : List Bytes,
            (∀ q ∈ (nodePrefix ++ c ++ x) :: (nodePrefix ++ c ++ y)
              :: hashedByConsistencyLoop (j / 2 : Nat) (t / 2 : Nat) (nodeHash c x) (nodeHash c y) P,
              q ∈ S) →
            reachedBoth (consistencyLoop (j / 2 : Nat) (t / 2 : Nat) (nodeHash c x) (nodeHash c y) P)
                = prefixClimb nodeHash j t x y (c :: P) ∧
              (∀ q ∈ climbPairs nodeHash j t y (c :: P), nodePrefix ++ q.1 ++ q.2 ∈ S) ∧
              ∀ q ∈ oldPairs nodeHash j t x (c :: P), nodePrefix ++ q.1 ++ q.2 ∈ S := by
          intro j t hjt ht hj S hS
          obtain ⟨hclimb, hnew, hold⟩ :=
            ih (i := j / 2) (s := t / 2) (nodeHash c x) (nodeHash c y) (by omega)
          rw [prefixClimb_odd nodeHash ht hj, climbPairs_odd nodeHash ht hj,
            oldPairs_odd nodeHash ht hj]
          refine ⟨hclimb, List.forall_mem_cons.mpr ⟨?_, fun q hq => ?_⟩,
            List.forall_mem_cons.mpr ⟨?_, fun q hq => ?_⟩⟩
          · exact hS _ (List.mem_cons_of_mem _ List.mem_cons_self)
          · exact hS _ (List.mem_cons_of_mem _ (List.mem_cons_of_mem _ (hnew q hq)))
          · exact hS _ List.mem_cons_self
          · exact hS _ (List.mem_cons_of_mem _ (List.mem_cons_of_mem _ (hold q hq)))
        by_cases hodd : i % 2 = 1
        · obtain ⟨hloop, hhashed⟩ :=
            consistencyLoop_right x y c P hs' (by omega : (i : Int) % 2 = 1)
          rw [hloop, hhashed]
          exact joins his hs hodd _ fun q hq => hq
        · by_cases hlast : i = s
          · -- the source joins before it skips, the climb skips before it joins
            subst hlast
            obtain ⟨j, hskip, hjodd, hsame⟩ := skipLevels_last i hs
            obtain ⟨hloop, hhashed⟩ := consistencyLoop_last x y c P hs' (by omega) rfl hskip
            rw [hloop, hhashed,
              hsame (fun k => prefixClimb nodeHash k k x y (c :: P)) (prefixClimb_move_up x y _),
              hsame (fun k => climbPairs nodeHash k k y (c :: P)) (climbPairs_move_up y _),
              hsame (fun k => oldPairs nodeHash k k x (c :: P)) (oldPairs_move_up x _)]
            exact joins (Nat.le_refl j) (by omega) hjodd _ fun q hq => hq
          · obtain ⟨hloop, hhashed⟩ := consistencyLoop_left x y c P hs'
              (by omega : (i : Int) % 2 = 0) (by exact_mod_cast hlast)
            obtain ⟨hclimb, hnew, hold⟩ :=
              ih (i := i / 2) (s := s / 2) x (nodeHash y c) (by omega)
            rw [hloop, hhashed, prefixClimb_even nodeHash hs (by omega) hlast,
              climbPairs_even nodeHash hs (by omega) hlast,
              oldPairs_even nodeHash hs (by omega) hlast]
            exact ⟨hclimb, List.forall_mem_cons.mpr ⟨List.mem_cons_self,
              fun q hq => List.mem_cons_of_mem _ (hnew q hq)⟩,
              fun q hq => List.mem_cons_of_mem _ (hold q hq)⟩

/-- **The start of the loop**: skipping ends left of the last position on an even one, where the
prefix path is verified by the climb in both trees. -/
theorem skipOdd_spec (s : Nat) : ∀ {i : Nat}, i < s → ∃ j t : Nat,
    skipOdd i s = ((j : Int), (t : Int)) ∧ j < t ∧ j % 2 = 0 ∧
      ∀ (x : Bytes) (P : List Bytes),
        prefixVerify nodeHash i s x P = prefixClimb nodeHash j t x x P ∧
          newPairs nodeHash i s x P = climbPairs nodeHash j t x P ∧
          oldPrefixPairs nodeHash i s x P = oldPairs nodeHash j t x P := by
  induction s using Nat.strongRecOn with
  | ind s ih =>
      intro i his
      rw [skipOdd.eq_def]
      by_cases hodd : i % 2 = 1
      · obtain ⟨j, t, hskip, hjt, hj, hsame⟩ := ih (s / 2) (by omega) (i := i / 2) (by omega)
        refine ⟨j, t, (if_pos (by omega)).trans hskip, hjt, hj, fun x P => ?_⟩
        rw [prefixVerify_odd nodeHash hodd (by omega), newPairs_odd nodeHash hodd (by omega),
          oldPrefixPairs_odd nodeHash hodd (by omega)]
        exact hsame x P
      · refine ⟨i, s, if_neg (by omega), his, by omega, fun x P => ?_⟩
        exact ⟨prefixVerify_even nodeHash (by omega) x P, newPairs_even nodeHash (by omega) x P,
          oldPrefixPairs_even nodeHash (by omega) x P⟩

/-- A path is spliced exactly where the old size is a power of two. -/
theorem splicedPath_eq {m : Nat} (hm : 0 < m) (firstRoot : Bytes) (P : List Bytes)
    [Decidable (∃ j, m = 2 ^ j)] :
    splicedPath m firstRoot P = if ∃ j, m = 2 ^ j then firstRoot :: P else P := by
  have hpred : (m : Int) - 1 = ((m - 1 : Nat) : Int) := by omega
  have hland : Int.land m (m - 1) = 0 ↔ ∃ j, m = 2 ^ j := by
    rw [hpred]
    have hcast : Int.land m ((m - 1 : Nat) : Int) = ((m &&& (m - 1) : Nat) : Int) := rfl
    rw [hcast, Int.natCast_eq_zero]
    exact Nat.and_sub_one_eq_zero_iff_isPowerOfTwo (by omega)
  rw [splicedPath]
  exact if_congr hland rfl rfl

/-- Acceptance for `0 < m < n`, in terms of the prefix path. -/
theorem verifyConsistency_eq_true {m n : Nat} (hm : 0 < m) (hmn : m < n) {fr sr : Bytes}
    {P : List Bytes} : verifyConsistency m n fr sr P = true ↔
      ∃ c path, splicedPath m fr P = c :: path ∧
        prefixVerify nodeHash (m - 1) (n - 1) c path = some (fr, sr) := by
  -- the loop starts at the sizes less one
  have hm' : (m : Int) - 1 = ((m - 1 : Nat) : Int) := by omega
  have hn' : (n : Int) - 1 = ((n - 1 : Nat) : Int) := by omega
  -- the loop accepts when both roots are reached and the path is used up
  have accept : ∀ o : Option (Int × Bytes × Bytes), (match o with
      | none => false
      | some (sn, fr', sr') => decide (sn = 0 ∧ fr' = fr ∧ sr' = sr)) = true ↔
        reachedBoth o = some (fr, sr) := by
    intro o
    cases o with
    | none => simp [reachedBoth]
    | some q =>
        obtain ⟨sn, fr', sr'⟩ := q
        by_cases hsn : sn = 0
        · simp [reachedBoth, hsn]
        · simp [reachedBoth, hsn]
  rw [verifyConsistency, if_neg (by omega), if_neg (by omega), if_neg (by omega)]
  cases hpath : splicedPath m fr P with
  | nil =>
      constructor
      · intro h; exact Bool.noConfusion h
      · rintro ⟨c, path, h, -⟩; exact absurd h (by simp)
  -- the trailing ones are skipped first, which is where the climb of the old tree starts
  | cons c path =>
      obtain ⟨j, t, hskip, hjt, -, hsame⟩ := skipOdd_spec (n - 1) (i := m - 1) (by omega)
      dsimp only
      rw [hm', hn', hskip, accept, (consistencyLoop_eq_prefixClimb path c c (by omega)).1,
        ← (hsame c path).1]
      constructor
      · exact fun h => ⟨c, path, rfl, h⟩
      · rintro ⟨c', path', h, hv⟩
        obtain ⟨rfl, rfl⟩ := List.cons.inj h
        exact hv

/-! ## Completeness -/

open Classical in
/-- With the genuine old root spliced in, a consistency proof is the prefix path. -/
theorem splicedPath_eq_prefixPath (L : List Bytes) {m : Nat} (hm : 0 < m) (hmn : m < L.length) :
    ∃ P, consistencyProof L m = .ok P ∧
      splicedPath m (treeHash (L.take m)) P = prefixPath nodeHash L (m - 1) := by
  have hrange : 0 < (m : Int) ∧ (m : Int) ≤ L.length := by omega
  refine ⟨subproof m L true (by omega), ?_, ?_⟩
  · rw [consistencyProof, dif_pos hrange, if_neg (by omega)]
    rfl
  · rw [prefixPath_eq_subproof L m true (by omega) (fun h => absurd h (by omega)),
      splicedPath_eq hm]
    by_cases hpow : ∃ j, m = 2 ^ j
    · rw [if_pos hpow, if_pos ⟨rfl, hpow⟩]; rfl
    · rw [if_neg hpow, if_neg fun h => hpow h.2]; rfl

/-- **The generated proof is accepted** between the two tree hashes. -/
theorem verifyConsistency_of_consistencyProof {L : List Bytes} {m : Int} {P : List Bytes}
    (hproof : consistencyProof L m = .ok P) :
    verifyConsistency m L.length (treeHash (L.take m.toNat)) (treeHash L) P = true := by
  by_cases hrange : 0 < m ∧ m ≤ L.length
  · obtain ⟨i, rfl⟩ := Int.eq_ofNat_of_zero_le (show 0 ≤ m by omega)
    rw [Int.toNat_natCast]
    by_cases heq : i = L.length
    · rw [consistencyProof, dif_pos hrange, if_pos (by exact_mod_cast heq), Except.ok.injEq]
        at hproof
      rw [verifyConsistency, if_neg (by omega), if_pos (by exact_mod_cast heq), heq,
        List.take_length, ← hproof]
      simp
    · obtain ⟨P', hproof', hspliced⟩ := splicedPath_eq_prefixPath L (m := i) (by omega) (by omega)
      rw [hproof', Except.ok.injEq] at hproof
      rw [hproof] at hspliced
      refine (verifyConsistency_eq_true (by omega) (by omega)).mpr ?_
      obtain ⟨a, rest, hpath, -⟩ := exists_prefixPath_eq_cons nodeHash emptyRoot (L := L)
        (i := i - 1) (by omega)
      refine ⟨a, rest, hspliced.trans hpath, ?_⟩
      rw [prefixVerify_prefixPath nodeHash emptyRoot (by omega) hpath,
        Nat.sub_add_cancel (by omega), treeHash_eq_head, treeHash_eq_head]
  · rw [consistencyProof, dif_neg hrange] at hproof
    cases hproof

/-- Every size in range has a proof. -/
theorem exists_consistencyProof {L : List Bytes} {m : Int} (hm : 0 < m ∧ m ≤ L.length) :
    ∃ P, consistencyProof L m = .ok P := by
  rw [consistencyProof, dif_pos hm]
  split
  · exact ⟨_, rfl⟩
  · exact ⟨_, rfl⟩

/-- **Completeness of consistency proofs**: for every pair of sizes the recursive generator returns
a proof and the iterative verifier accepts it between the two tree hashes. -/
theorem verifyConsistency_complete (L : List Bytes) (m : Int) (hm : 0 < m) (hmn : m ≤ L.length) :
    ∃ P, consistencyProof L m = .ok P ∧
      verifyConsistency m L.length (treeHash (L.take m.toNat)) (treeHash L) P = true := by
  obtain ⟨P, hproof⟩ := exists_consistencyProof ⟨hm, hmn⟩
  exact ⟨P, hproof, verifyConsistency_of_consistencyProof hproof⟩

/-- Three leaves: the proof for the first two is accepted. -/
theorem verifyConsistency_complete_three :
    ∃ P, consistencyProof [[1], [2], [3]] 2 = .ok P ∧
      verifyConsistency 2 3 (treeHash [[1], [2]]) (treeHash [[1], [2], [3]]) P = true :=
  verifyConsistency_complete [[1], [2], [3]] 2 (by decide) (by decide)

/-! ## Soundness -/

/-- The pairs joined after the first one have a 32-byte member, whatever the path holds. -/
theorem length_of_mem_newPairs_tail {i s : Nat} (his : i < s) {x : Bytes} {P : List Bytes}
    {q : Bytes × Bytes} (hq : q ∈ (newPairs nodeHash i s x P).tail) :
    q.1.length = 32 ∨ q.2.length = 32 := by
  obtain ⟨j, t, -, hjt, hj, hsame⟩ := skipOdd_spec s his
  rw [(hsame x P).2.1] at hq
  cases P with
  | nil =>
      rw [(climb_empty (i := j) (by omega) x).2] at hq
      exact absurd hq List.not_mem_nil
  | cons c P =>
      rw [climbPairs_even nodeHash (by omega) hj (by omega), List.tail_cons] at hq
      exact length_of_mem_climbPairs (length_nodeHash x c) hq

/-- What a run on a spliced path hashes: the pairs of both climbs. -/
theorem mem_hashedByVerifyConsistency {m n : Nat} (hm : 0 < m) (hmn : m < n) {fr c : Bytes}
    {P path : List Bytes} (hpath : splicedPath m fr P = c :: path) {q : Bytes × Bytes}
    (hq : q ∈ newPairs nodeHash (m - 1) (n - 1) c path ∨
      q ∈ oldPrefixPairs nodeHash (m - 1) (n - 1) c path) :
    nodePrefix ++ q.1 ++ q.2 ∈ hashedByVerifyConsistency m n fr P := by
  have hm' : (m : Int) - 1 = ((m - 1 : Nat) : Int) := by omega
  have hn' : (n : Int) - 1 = ((n - 1 : Nat) : Int) := by omega
  obtain ⟨j, t, hskip, hjt, -, hsame⟩ := skipOdd_spec (n - 1) (i := m - 1) (by omega)
  obtain ⟨-, hnew, hold⟩ := consistencyLoop_eq_prefixClimb path (i := j) (s := t) c c (by omega)
  rw [hashedByVerifyConsistency, if_neg (by omega), hpath]
  dsimp only
  rw [hm', hn', hskip]
  rcases hq with hq | hq
  · exact hnew q ((hsame c path).2.1 ▸ hq)
  · exact hold q ((hsame c path).2.2 ▸ hq)

/-- The first pair joined in the new tree joins the first two nodes of the path, and the pairs joined
in the old tree do not depend on the second one. -/
theorem first_pairs {i s : Nat} (his : i < s) (c d d' : Bytes) (P : List Bytes) :
    (c, d) ∈ newPairs nodeHash i s c (d :: P) ∧
      oldPrefixPairs nodeHash i s c (d :: P) = oldPrefixPairs nodeHash i s c (d' :: P) := by
  obtain ⟨j, t, -, hjt, hj, hsame⟩ := skipOdd_spec s his
  rw [(hsame c _).2.1, (hsame c _).2.2, (hsame c _).2.2,
    climbPairs_even nodeHash (by omega) hj (by omega),
    oldPairs_even nodeHash (by omega) hj (by omega),
    oldPairs_even nodeHash (by omega) hj (by omega)]
  exact ⟨List.mem_cons_self, rfl⟩

/-- The given path is the genuine one of size `m`, except that its first two nodes are cut apart at
another place, and the given root is the one over that first node. -/
def Recut (L : List Bytes) (m : Nat) (firstRoot : Bytes) (P : List Bytes) : Prop :=
  m < L.length ∧ ∃ honest a b c d rest, consistencyProof L m = .ok honest ∧
    splicedPath m (treeHash (L.take m)) honest = a :: b :: rest ∧
    splicedPath m firstRoot P = c :: d :: rest ∧ c ++ d = a ++ b ∧ c ≠ a ∧
    firstRoot = oldHead nodeHash emptyRoot L (m - 1) c

/-- A 32-byte first node cannot be a recut of the genuine one. -/
theorem not_recut_of_length {L : List Bytes} (hL : ∀ l ∈ L, l.length = 32) {m : Nat} (hm : 1 ≤ m)
    {firstRoot : Bytes} {P : List Bytes}
    (hfirst : ∀ c path, splicedPath m firstRoot P = c :: path → c.length = 32) :
    ¬Recut L m firstRoot P := by
  rintro ⟨hlt, honest, a, b, c, d, rest, hproof, hspliced, hpath, hcut, hne, -⟩
  obtain ⟨honest', hproof', hspliced'⟩ := splicedPath_eq_prefixPath L hm hlt
  rw [hproof, Except.ok.injEq] at hproof'
  subst hproof'
  have ha : a.length = 32 := by
    refine prefixPath_forall nodeHash length_nodeHash (i := m - 1) hL a ?_
    rw [← hspliced', hspliced]
    exact List.mem_cons_self
  exact hne (List.append_inj hcut (by rw [hfirst c _ hpath, ha])).1

/-- Acceptance of a spliced path forces everything but the cut between its first two nodes. -/
theorem prefixVerify_treeHash_iff {L : List Bytes} (hL : ∀ l ∈ L, l.length = 32) {m : Nat}
    (hm : 1 ≤ m) (hlt : m < L.length) {firstRoot c : Bytes} {P path : List Bytes} {S : List Bytes}
    (hS : CollisionFree S) (htree : ∀ s ∈ hashedByTreeHash L, s ∈ S)
    (hrun : ∀ s ∈ hashedByVerifyConsistency m L.length firstRoot P, s ∈ S)
    (hpath : splicedPath m firstRoot P = c :: path) :
    prefixVerify nodeHash (m - 1) (L.length - 1) c path = some (firstRoot, treeHash L) ↔
      ∃ a b d rest, prefixPath nodeHash L (m - 1) = a :: b :: rest ∧ path = d :: rest ∧
        nodeHash c d = nodeHash a b ∧ firstRoot = oldHead nodeHash emptyRoot L (m - 1) c := by
  rw [treeHash_eq_head]
  refine prefixVerify_eq_some_iff nodeHash emptyRoot (by omega) ?_
  refine separates_of_collisionFree hS (fun q hq => ?_)
    (fun t ht => htree _ (mem_hashedByTreeHash ht)) (fun q hq => ?_)
    (fun t ht => length_of_mem_pairs hL ht)
  · exact hrun _ (mem_hashedByVerifyConsistency hm hlt hpath (Or.inl (List.mem_of_mem_tail hq)))
  · exact length_of_mem_newPairs_tail (by omega) hq

/-- What is accepted and no recut proves the old root. -/
theorem verifyConsistency_sound {L : List Bytes} (hL : ∀ l ∈ L, l.length = 32) {m : Nat}
    (hm : 1 ≤ m) (hmn : m ≤ L.length) {firstRoot : Bytes} {P : List Bytes} {S : List Bytes}
    (hS : CollisionFree S) (htree : ∀ s ∈ hashedByTreeHash L, s ∈ S)
    (hrun : ∀ s ∈ hashedByVerifyConsistency m L.length firstRoot P, s ∈ S)
    (hcut : ¬Recut L m firstRoot P)
    (haccept : verifyConsistency m L.length firstRoot (treeHash L) P = true) :
    firstRoot = treeHash (L.take m) := by
  by_cases heq : m = L.length
  · -- equal sizes: the roots are compared
    rw [verifyConsistency, if_neg (by omega), if_pos (by exact_mod_cast heq), Bool.and_eq_true,
      beq_iff_eq] at haccept
    rw [haccept.2, heq, List.take_length]
  have hlt : m < L.length := by omega
  obtain ⟨honest, hproof, hspliced⟩ := splicedPath_eq_prefixPath L (m := m) hm hlt
  obtain ⟨c, path, hpath, hverify⟩ := (verifyConsistency_eq_true hm hlt).mp haccept
  obtain ⟨a, b, d, rest, hgenuine, rfl, hjoin, hroot⟩ :=
    (prefixVerify_treeHash_iff hL hm hlt hS htree hrun hpath).mp hverify
  obtain ⟨a', rest', hgenuine', hold⟩ := exists_prefixPath_eq_cons nodeHash emptyRoot (L := L)
    (i := m - 1) (by omega)
  rw [hgenuine] at hgenuine'
  obtain ⟨rfl, -⟩ := List.cons.inj hgenuine'
  by_cases hca : c = a
  · rw [hroot, hca, hold, Nat.sub_add_cancel hm, treeHash_eq_head]
  · -- another first node only joins to the genuine one if the same bytes are cut elsewhere
    have hstring := hS _ (hrun _ (mem_hashedByVerifyConsistency hm hlt hpath
      (Or.inl (first_pairs (by omega) c d d rest).1))) _
      (htree _ (mem_hashedByTreeHash (q := (a, b))
        (mem_pairs_of_prefixPath nodeHash (by omega) hgenuine))) hjoin
    rw [List.append_assoc, List.append_assoc] at hstring
    exact absurd ⟨hlt, honest, a, b, c, d, rest, hproof, hspliced.trans hgenuine, hpath,
      List.append_cancel_left hstring, hca, hroot⟩ hcut

/-- A recut is accepted, for a root that is not the old one. -/
theorem Recut.accepted {L : List Bytes} (hL : ∀ l ∈ L, l.length = 32) {m : Nat} (hm : 1 ≤ m)
    {firstRoot : Bytes} {P : List Bytes}
    (hS : CollisionFree (hashedByTreeHash L ++ hashedByTreeHash (L.take m)
      ++ hashedByVerifyConsistency m L.length firstRoot P)) (hcut : Recut L m firstRoot P) :
    verifyConsistency m L.length firstRoot (treeHash L) P = true ∧
      firstRoot ≠ treeHash (L.take m) := by
  obtain ⟨hlt, honest, a, b, c, d, rest, hproof, hspliced, hpath, hcut, hne, hroot⟩ := hcut
  obtain ⟨honest', hproof', hspliced'⟩ := splicedPath_eq_prefixPath L (m := m) hm hlt
  rw [hproof, Except.ok.injEq] at hproof'
  subst hproof'
  have hgenuine : prefixPath nodeHash L (m - 1) = a :: b :: rest :=
    hspliced'.symm.trans hspliced
  have hjoin : nodeHash c d = nodeHash a b := by
    rw [nodeHash, nodeHash, List.append_assoc, List.append_assoc, hcut]
  constructor
  · refine (verifyConsistency_eq_true hm hlt).mpr ⟨c, d :: rest, hpath, ?_⟩
    refine (prefixVerify_treeHash_iff hL hm hlt hS (fun s hs => ?_) (fun s hs => ?_) hpath).mpr
      ⟨a, b, d, rest, hgenuine, rfl, hjoin, hroot⟩
    · exact List.mem_append_left _ (List.mem_append_left _ hs)
    · exact List.mem_append_right _ hs
  · intro hold
    -- the old root binds the first node, so it was cut where it should be
    refine hne (oldHead_injective nodeHash emptyRoot (by omega) hgenuine ?_ ?_)
    · rw [Nat.sub_add_cancel hm, (first_pairs (by omega) c b d rest).2]
      refine separates_of_collisionFree hS (fun q hq => ?_) (fun t ht => ?_) (fun q hq => ?_)
        (fun t ht => length_of_mem_pairs (fun l hl => hL l (List.mem_of_mem_take hl)) ht)
      · exact List.mem_append_right _ (mem_hashedByVerifyConsistency hm hlt hpath (Or.inr hq))
      · exact List.mem_append_left _ (List.mem_append_right _ (mem_hashedByTreeHash ht))
      · rw [(first_pairs (by omega) c d b rest).2] at hq
        refine Or.inl (prefixPath_forall nodeHash length_nodeHash (i := m - 1) hL _ ?_)
        rw [hgenuine]
        exact List.mem_cons_of_mem a (fst_mem_of_mem_oldPrefixPairs nodeHash _ hq)
    · rw [← hroot, hold, treeHash_eq_head, Nat.sub_add_cancel hm]

/-- **What consistency proofs prove.** Acceptance against the tree hash of 32-byte leaves proves the
old root unless the path is a recut of the genuine one. -/
theorem verifyConsistency_sound_iff (L : List Bytes) (hL : ∀ l ∈ L, l.length = 32) (m : Nat)
    (hm : 1 ≤ m) (hmn : m ≤ L.length) (firstRoot : Bytes) (P : List Bytes)
    (hS : CollisionFree (hashedByTreeHash L ++ hashedByTreeHash (L.take m)
      ++ hashedByVerifyConsistency m L.length firstRoot P)) :
    (verifyConsistency m L.length firstRoot (treeHash L) P = true →
        firstRoot = treeHash (L.take m)) ↔
      ¬Recut L m firstRoot P := by
  constructor
  · intro hsound hcut
    obtain ⟨haccept, hne⟩ := hcut.accepted hL hm hS
    exact hne (hsound haccept)
  · intro hcut
    refine verifyConsistency_sound hL hm hmn hS (fun s hs => ?_) (fun s hs => ?_) hcut
    · exact List.mem_append_left _ (List.mem_append_left _ hs)
    · exact List.mem_append_right _ hs

/-- Two leaves: the first one with the second one as its proof is no recut, and proves itself. -/
theorem verifyConsistency_sound_iff_two :
    verifyConsistency 1 2 (List.replicate 32 1)
        (treeHash [List.replicate 32 1, List.replicate 32 2]) [List.replicate 32 2] = true ∧
      List.replicate 32 1 = treeHash [List.replicate 32 1] := by
  have haccept : verifyConsistency 1 2 (List.replicate 32 1)
      (treeHash [List.replicate 32 1, List.replicate 32 2]) [List.replicate 32 2] = true := by
    decide +kernel
  have hrun : hashedByVerifyConsistency 1 2 (List.replicate 32 1) [List.replicate 32 2]
      = [nodePrefix ++ List.replicate 32 1 ++ List.replicate 32 2] := by
    decide +kernel
  refine ⟨haccept, (verifyConsistency_sound_iff [List.replicate 32 1, List.replicate 32 2] (by decide)
    1 (by decide) (by decide) (List.replicate 32 1) [List.replicate 32 2] ?_).mpr
      (not_recut_of_length (by decide) (by decide) fun c path hpath => ?_) haccept⟩
  -- only one string is hashed
  · refine collisionFree_of_forall_eq
      (s := nodePrefix ++ List.replicate 32 1 ++ List.replicate 32 2) fun t ht => ?_
    rw [hashedByTreeHash_pair, List.take_succ_cons, List.take_zero, hashedByTreeHash_singleton,
      List.append_nil] at ht
    rcases List.mem_append.mp ht with h | h
    · exact List.mem_singleton.mp h
    · exact List.mem_singleton.mp (hrun ▸ h)
  -- the root of the old tree is the first node of the path
  · have hspliced : splicedPath 1 (List.replicate 32 1) [List.replicate 32 2]
        = [List.replicate 32 1, List.replicate 32 2] := by decide +kernel
    rw [← (List.cons.inj (hspliced.symm.trans hpath)).1]
    decide

/-- One and two leaves: the old root and the proof node are the two leaves cut after 31 bytes. -/
theorem verifyConsistency_not_sound :
    ¬∀ (L : List Bytes), (∀ l ∈ L, l.length = 32) → ∀ (m : Nat), 1 ≤ m → m ≤ L.length →
      ∀ (firstRoot : Bytes) (P : List Bytes),
        CollisionFree (hashedByTreeHash L ++ hashedByTreeHash (L.take m)
          ++ hashedByVerifyConsistency m L.length firstRoot P) →
        verifyConsistency m L.length firstRoot (treeHash L) P = true →
        firstRoot = treeHash (L.take m) := by
  intro hclaim
  have hcut : List.replicate 31 1 ++ 1 :: List.replicate 32 2
      = (List.replicate 32 1 ++ List.replicate 32 2 : Bytes) := by decide
  have hrun : hashedByVerifyConsistency 1 2 (List.replicate 31 1) [1 :: List.replicate 32 2]
      = [nodePrefix ++ List.replicate 32 1 ++ List.replicate 32 2] := by
    decide +kernel
  have hforged := hclaim [List.replicate 32 1, List.replicate 32 2] (by decide) 1 (by decide)
    (by decide) (List.replicate 31 1) [1 :: List.replicate 32 2] ?_ ?_
  · rw [List.take_succ_cons, List.take_zero, treeHash_singleton] at hforged
    exact absurd hforged (by decide)
  · -- the tree and the run hash the same single string
    refine collisionFree_of_forall_eq
      (s := nodePrefix ++ List.replicate 32 1 ++ List.replicate 32 2) fun t ht => ?_
    rw [hashedByTreeHash_pair, List.take_succ_cons, List.take_zero, hashedByTreeHash_singleton,
      List.append_nil] at ht
    rcases List.mem_append.mp ht with h | h
    · exact List.mem_singleton.mp h
    · exact List.mem_singleton.mp (hrun ▸ h)
  · rw [treeHash_pair, nodeHash, List.append_assoc, ← hcut, ← List.append_assoc]
    refine (verifyConsistency_eq_true (by decide) (by decide)).mpr ⟨List.replicate 31 1,
      [1 :: List.replicate 32 2], by decide +kernel, ?_⟩
    rw [prefixVerify, if_neg (by decide), prefixClimb, if_neg (by decide), if_neg (by decide),
      if_neg (by decide)]
    exact prefixClimb_top nodeHash 0 _ _ []

end OpenWright.Merkle
