import OpenWright.Merkle.Content

/-! # Sharded logs under one root

The roots of the shards are the leaves of a super-tree, and an event is proved by its path to the root
of its shard followed by the path of that root to the super-root.

* **`verifyShardedInclusion_sound`** — what is accepted is a content of a shard, whatever positions and
  sizes are claimed.
* **`verifyConsistency_superRoots`** — no consistency proof leads from one super-root to another, since
  both trees have one leaf for each shard, however many events the shards hold. -/

namespace OpenWright.Merkle

open Hash Python

/-- `shard_super_root`. -/
def shardSuperRoot (shardRoots : List Bytes) : Bytes := treeHash (shardRoots.map leafHash)

/-- `shard_super_proof`. -/
def shardSuperProof (shardRoots : List Bytes) (shardIndex : Int) : Except PyErr (List Bytes) :=
  inclusionProof (shardRoots.map leafHash) shardIndex

/-- `verify_sharded_inclusion`. -/
def verifyShardedInclusion (leaf : Bytes) (leafIndex shardSize : Int) (shardProof : List Bytes)
    (shardRoot : Bytes) (shardIndex numShards : Int) (superProof : List Bytes) (superRoot : Bytes) :
    Bool :=
  if verifyInclusion leafIndex shardSize leaf shardProof shardRoot = false then false
  else verifyInclusion shardIndex numShards (leafHash shardRoot) superProof superRoot

/-- The strings `verify_sharded_inclusion` hashes. -/
def hashedByVerifyShardedInclusion (leaf : Bytes) (leafIndex shardSize : Int)
    (shardProof : List Bytes) (shardRoot : Bytes) (shardIndex numShards : Int)
    (superProof : List Bytes) : List Bytes :=
  hashedByVerifyInclusion leafIndex shardSize leaf shardProof
    ++ (leafPrefix ++ shardRoot)
      :: hashedByVerifyInclusion shardIndex numShards (leafHash shardRoot) superProof

/-- The strings that shards with the given contents hash, with their super-tree. -/
def hashedByShards (shards : List (List Bytes)) : List Bytes :=
  shards.flatMap hashedByContents ++ hashedByContents (shards.map contentRoot)

/-- Both steps of the verifier have to pass. -/
theorem verifyShardedInclusion_eq_true {leaf shardRoot superRoot : Bytes}
    {leafIndex shardSize shardIndex numShards : Int} {shardProof superProof : List Bytes} :
    verifyShardedInclusion leaf leafIndex shardSize shardProof shardRoot shardIndex numShards
        superProof superRoot = true ↔
      verifyInclusion leafIndex shardSize leaf shardProof shardRoot = true ∧
        verifyInclusion shardIndex numShards (leafHash shardRoot) superProof superRoot = true := by
  rw [verifyShardedInclusion]
  cases verifyInclusion leafIndex shardSize leaf shardProof shardRoot with
  | false => simp
  | true => simp

/-! ## Soundness of sharded inclusion -/

/-- **Sharded inclusion is sound.** Whatever indices, sizes and proofs are claimed, data accepted under
the super-root is one of the contents of a shard with the claimed shard root. -/
theorem verifyShardedInclusion_sound (shards : List (List Bytes)) (data : Bytes)
    (leafIndex shardSize : Int) (shardProof : List Bytes) (shardRoot : Bytes)
    (shardIndex numShards : Int) (superProof : List Bytes)
    (hS : CollisionFree (hashedByShards shards ++ (leafPrefix ++ data)
      :: hashedByVerifyShardedInclusion (leafHash data) leafIndex shardSize shardProof shardRoot
        shardIndex numShards superProof))
    (h : verifyShardedInclusion (leafHash data) leafIndex shardSize shardProof shardRoot shardIndex
      numShards superProof
      (shardSuperRoot (shards.map fun D => treeHash (D.map leafHash))) = true) :
    ∃ (j : Nat) (D : List Bytes), shards[j]? = some D ∧ shardRoot = treeHash (D.map leafHash) ∧
      data ∈ D := by
  obtain ⟨hshard, hsuper⟩ := verifyShardedInclusion_eq_true.mp h
  generalize hstrings : hashedByShards shards ++ (leafPrefix ++ data)
    :: hashedByVerifyShardedInclusion (leafHash data) leafIndex shardSize shardProof shardRoot
      shardIndex numShards superProof = S at hS
  have hmem : ∀ {s}, s ∈ hashedByShards shards ++ (leafPrefix ++ data)
      :: hashedByVerifyShardedInclusion (leafHash data) leafIndex shardSize shardProof shardRoot
        shardIndex numShards superProof → s ∈ S := fun hs => hstrings ▸ hs
  have hverify : ∀ {s}, s ∈ hashedByVerifyShardedInclusion (leafHash data) leafIndex shardSize
      shardProof shardRoot shardIndex numShards superProof → s ∈ S :=
    fun hs => hmem (List.mem_append_right _ (List.mem_cons_of_mem _ hs))
  -- the claimed shard root is one of the roots in the super-tree
  have hroots : Within S (shards.map contentRoot) :=
    fun s hs => hmem (List.mem_append_left _ (List.mem_append_right _ hs))
  have hroot : shardRoot ∈ shards.map contentRoot :=
    mem_of_verifyInclusion hS hroots (hverify (List.mem_append_right _ List.mem_cons_self))
      (fun s hs => hverify (List.mem_append_right _ (List.mem_cons_of_mem _ hs))) hsuper
  obtain ⟨D, hD, rfl⟩ := List.mem_map.mp hroot
  -- the data is one of the contents of that shard
  have hcontents : Within S D := fun s hs =>
    hmem (List.mem_append_left _ (List.mem_append_left _ (List.mem_flatMap.mpr ⟨D, hD, hs⟩)))
  have hdata : data ∈ D :=
    mem_of_verifyInclusion hS hcontents (hmem (List.mem_append_right _ List.mem_cons_self))
      (fun s hs => hverify (List.mem_append_left _ hs)) hshard
  obtain ⟨j, hj⟩ := List.mem_iff_getElem?.mp hD
  exact ⟨j, D, hj, rfl, hdata⟩

/-- A shard of two events and one of three. -/
def sampleShards : List (List Bytes) := [[[1], [2]], [[3], [4], [5]]]

/-- What they hash does not collide. -/
theorem collisionFree_sampleShards {S : List Bytes} (hS : ∀ s ∈ S, s ∈ hashedByShards sampleShards) :
    CollisionFree S :=
  @collisionFree_of_digests _ _ [[180, 19], [252, 240], [107, 207], [88, 60], [79, 53], [159, 26],
    [120, 133], [248, 74], [116, 159], [236, 166], [193, 14]] hS (by decide +kernel) (by decide)

/-- The second event of the second shard is proved by its two neighbours, and its shard by the root of
the first one. -/
theorem verifyShardedInclusion_sound_two : ∃ (j : Nat) (D : List Bytes), sampleShards[j]? = some D ∧
    treeHash ([[3], [4], [5]].map leafHash) = treeHash (D.map leafHash) ∧ [4] ∈ D := by
  refine verifyShardedInclusion_sound sampleShards [4] 1 3 [leafHash [3], leafHash [5]]
    (treeHash ([[3], [4], [5]].map leafHash)) 1 2 [leafHash (treeHash ([[1], [2]].map leafHash))]
    (collisionFree_sampleShards ?_) ?_
  · decide +kernel
  · decide +kernel

/-! ## Consistency of super-trees -/

/-- **The climb in both trees.** Where the old tree has at least the size of the new one at the top,
it does so at the bottom: a step to the right leaves equal halves behind, a step to the left makes the
new tree smaller. -/
theorem length_le_of_consistencyLoop {S : List Bytes} (hS : CollisionFree S) :
    ∀ {P : List Bytes} {fn sn sn' : Int} {fr sr : Bytes} {D E : List Bytes}, Within S D →
      Within S E → E.length ≤ D.length → sr.length = 32 →
      (∀ s ∈ hashedByConsistencyLoop fn sn fr sr P, s ∈ S) →
      consistencyLoop fn sn fr sr P = some (sn', contentRoot D, contentRoot E) →
      ∃ D' E', Within S D' ∧ Within S E' ∧ fr = contentRoot D' ∧ sr = contentRoot E' ∧
        E'.length ≤ D'.length
  | [], fn, sn, sn', fr, sr, D, E, hD, hE, hlen, _, _, h => by
      rw [consistencyLoop, Option.some.injEq, Prod.mk.injEq, Prod.mk.injEq] at h
      exact ⟨D, E, hD, hE, h.2.1, h.2.2, hlen⟩
  | c :: P, fn, sn, sn', fr, sr, D, E, hD, hE, hlen, hsr, hmem, h => by
      rw [consistencyLoop] at h
      rw [hashedByConsistencyLoop] at hmem
      split at h
      · cases h
      rename_i hsn
      rw [if_neg hsn] at hmem
      split at h
      · -- both trees get the node on the left, which is the left half of both
        rename_i hright
        rw [if_pos hright] at hmem
        obtain ⟨D', E', hD', hE', hfr, hsr', hlen'⟩ := length_le_of_consistencyLoop hS hD hE hlen
          (length_sha256 _)
          (fun s hs => hmem s (List.mem_cons_of_mem _ (List.mem_cons_of_mem _ hs))) h
        obtain ⟨hE2, hcE, hsrE⟩ := nodeHash_eq_contentRoot hS hE'
          (hmem _ (List.mem_cons_of_mem _ List.mem_cons_self)) (Or.inr hsr) hsr'
        have hc : c.length = 32 := by rw [hcE, length_contentRoot]
        obtain ⟨hD2, hcD, hfrD⟩ := nodeHash_eq_contentRoot hS hD' (hmem _ List.mem_cons_self)
          (Or.inl hc) hfr
        have hhalves := congrArg List.length
          (contentRoot_injective hS (hD'.split hD2).1 (hE'.split hE2).1 (hcD.symm.trans hcE))
        have hltD := largestPow2Lt_lt hD2
        have hltE := largestPow2Lt_lt hE2
        refine ⟨_, _, (hD'.split hD2).2.1, (hE'.split hE2).2.1, hfrD, hsrE, ?_⟩
        rw [List.length_take, List.length_take] at hhalves
        rw [List.length_drop, List.length_drop]
        omega
      · -- only the new tree gets a node, on the right
        rename_i hleft
        rw [if_neg hleft] at hmem
        obtain ⟨D', E', hD', hE', hfr, hsr', hlen'⟩ := length_le_of_consistencyLoop hS hD hE hlen
          (length_sha256 _) (fun s hs => hmem s (List.mem_cons_of_mem _ hs)) h
        obtain ⟨hE2, hsrE, -⟩ := nodeHash_eq_contentRoot hS hE' (hmem _ List.mem_cons_self)
          (Or.inl hsr) hsr'
        refine ⟨D', _, hD', (hE'.split hE2).1, hfr, hsrE, ?_⟩
        exact (List.length_take_le' _ E').trans hlen'

/-- **No consistency proof between trees of one size.** A proof for different sizes is refused, if
the two roots are those of trees with equally many contents. -/
theorem verifyConsistency_of_length_eq {S D E : List Bytes} (hS : CollisionFree S)
    (hD : Within S D) (hE : Within S E) (hlen : D.length = E.length) {m n : Nat} (hm : 0 < m)
    (hmn : m < n) {P : List Bytes}
    (hrun : ∀ s ∈ hashedByVerifyConsistency m n (contentRoot D) P, s ∈ S) :
    verifyConsistency m n (contentRoot D) (contentRoot E) P = false := by
  rw [hashedByVerifyConsistency, if_neg (by omega)] at hrun
  rw [verifyConsistency, if_neg (by omega), if_neg (by omega), if_neg (by omega)]
  cases hpath : splicedPath m (contentRoot D) P with
  | nil => rfl
  | cons c path =>
      rw [hpath] at hrun
      obtain ⟨j, t, hskip, hjt, hj, -⟩ := skipOdd_spec (n - 1) (i := m - 1) (by omega)
      have hm' : (m : Int) - 1 = ((m - 1 : Nat) : Int) := by omega
      have hn' : (n : Int) - 1 = ((n - 1 : Nat) : Int) := by omega
      dsimp only at hrun ⊢
      rw [hm', hn', hskip] at hrun ⊢
      cases path with
      | nil =>
          -- the path ends below the top
          refine decide_eq_false fun h => ?_
          have ht : (t : Int) = 0 := h.1
          omega
      | cons c' path =>
          -- the first step joins the node with a sibling on the right in the new tree only
          obtain ⟨hstep, hstrings⟩ := @consistencyLoop_left j t c c c' path (by omega) (by omega)
            (by omega)
          dsimp only at hrun ⊢
          rw [hstrings] at hrun
          rw [hstep]
          cases hloop : consistencyLoop (j / 2 : Int) (t / 2 : Int) c (nodeHash c c') path with
          | none => rfl
          | some q =>
              obtain ⟨sn, fr, sr⟩ := q
              refine decide_eq_false ?_
              rintro ⟨-, rfl, rfl⟩
              obtain ⟨D', E', hD', hE', hc, hnode, hle⟩ := length_le_of_consistencyLoop hS hD hE
                hlen.ge (length_sha256 _) (fun s hs => hrun s (List.mem_cons_of_mem _ hs)) hloop
              have hc32 : c.length = 32 := by rw [hc, length_contentRoot]
              obtain ⟨hE2, hcE, -⟩ := nodeHash_eq_contentRoot hS hE' (hrun _ List.mem_cons_self)
                (Or.inl hc32) hnode
              have hhalf := congrArg List.length
                (contentRoot_injective hS hD' (hE'.split hE2).1 (hc.symm.trans hcE))
              have hlt := largestPow2Lt_lt hE2
              rw [List.length_take] at hhalf
              omega

/-- **Super-roots have no consistency proof** for a number of events that has grown. -/
theorem verifyConsistency_superRoots {roots roots' : List Bytes} (hlen : roots.length = roots'.length)
    {m n : Nat} (hm : 0 < m) (hmn : m < n) {P : List Bytes}
    (hS : CollisionFree (hashedByContents roots ++ hashedByContents roots'
      ++ hashedByVerifyConsistency m n (shardSuperRoot roots) P)) :
    verifyConsistency m n (shardSuperRoot roots) (shardSuperRoot roots') P = false :=
  verifyConsistency_of_length_eq hS
    (fun _ hs => List.mem_append_left _ (List.mem_append_left _ hs))
    (fun _ hs => List.mem_append_left _ (List.mem_append_right _ hs)) hlen hm hmn
    (fun _ hs => List.mem_append_right _ hs)

end OpenWright.Merkle
