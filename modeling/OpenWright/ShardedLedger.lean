import OpenWright.LedgerThreads
import OpenWright.Merkle.Sharded
import OpenWright.Verify

/-! # The sharded ledger

A logical ledger of several shards, each with a lock of its own. A checkpoint of it reads the size and
the root of every shard, one after the other and each under its own lock, and signs the super-root of
the roots with the sum of the sizes; what it read travels unsigned in the field `shards`.

* **`runSharded_consistent`** — where no commit to a shard comes between the reading of its size and
  the reading of its root, every checkpoint is consistent and its proofs verify.
* **`superCheckpoints_not_consistent`** — no two checkpoints of different sizes have a consistency
  proof.
* **`checkpoint_not_pinning`** — every checkpoint has a copy with other sizes that still verifies. -/

namespace OpenWright

open Hash Python Merkle Signing

variable {σ : Type} (B : LedgerBackend σ)

/-- The element a Python index denotes in a list of `n`. -/
def pyIndex (n : Nat) (i : Int) : Option (Fin n) :=
  let k := if i < 0 then i + n else i
  if h : 0 ≤ k ∧ k < n then some ⟨k.toNat, by omega⟩ else none

/-- An index from 0 on denotes the element at it. -/
theorem pyIndex_natCast {n k : Nat} (hk : k < n) : pyIndex n k = some ⟨k, hk⟩ := by
  have hneg : ¬(k : Int) < 0 := by omega
  simp [pyIndex, if_neg hneg, hk]

/-- An index that is accepted is the shard's. -/
theorem val_of_pyIndex {n k : Nat} {i : Fin n} (h : pyIndex n k = some i) : i.val = k := by
  by_cases hk : k < n
  · rw [pyIndex_natCast hk] at h
    rw [← Option.some.inj h]
  · have hneg : ¬(k : Int) < 0 := by omega
    have hnone : pyIndex n k = none := by
      unfold pyIndex
      simp only [if_neg hneg]
      exact dif_neg (by omega)
    rw [hnone] at h
    cases h

/-- `ShardedLedger`: at least one shard. -/
structure ShardedLedger (σ : Type) where
  shards : List (Ledger σ)
  origin : Str
  route : ComplianceEvent → Except PyErr Int
  shards_ne : shards ≠ []

namespace ShardedLedger

open Ledger

/-- `ShardedLedger.__init__`. -/
def init (shards : List (Ledger σ)) (origin : Str) (route : ComplianceEvent → Except PyErr Int) :
    Except PyErr (ShardedLedger σ) :=
  if h : shards = [] then
    .error { kind := .valueError, msg := [.text (lit "ShardedLedger needs at least one shard")] }
  else .ok { shards, origin, route, shards_ne := h }

/-- `_default_route`, by the agent's id: the first eight bytes of its digest, modulo the number of
shards. -/
def defaultRoute (numShards : Nat) (agentId : Str) : Except PyErr Int :=
  match utf8 agentId with
  | some key => .ok (((sha256 key).take 8).foldl (fun n b => 256 * n + b.toNat) 0 % numShards : Nat)
  | none => .error { kind := .unicodeEncodeError }

/-- The default route leads to a shard. -/
theorem defaultRoute_lt {numShards : Nat} (hpos : 0 < numShards) {agentId : Str} {i : Int}
    (h : defaultRoute numShards agentId = .ok i) : ∃ k, pyIndex numShards i = some k := by
  rw [defaultRoute] at h
  split at h
  · rw [← Except.ok.inj h]
    exact ⟨_, pyIndex_natCast (Nat.mod_lt _ hpos)⟩
  · cases h

/-- The index `commit` answers, and the shard it denotes. -/
def shardFor (l : ShardedLedger σ) (event : ComplianceEvent) (shard : Option Int) :
    Except PyErr (Int × Fin l.shards.length) := do
  let s ← match shard with
    | some s => .ok s
    | none => l.route event
  match pyIndex l.shards.length s with
  | some k => return (s, k)
  | none => throw { kind := .indexError }

/-- A shard that is named by its number is that shard. -/
theorem val_of_shardFor {l : ShardedLedger σ} {event : ComplianceEvent} {j : Nat} {i : Int}
    {k : Fin l.shards.length} (h : l.shardFor event (some j) = .ok (i, k)) : k.val = j := by
  obtain ⟨s, hs, h⟩ := bind_eq_ok.mp h
  obtain rfl : (j : Int) = s := Except.ok.inj hs
  dsimp only at h
  split at h
  · rename_i k' hk'
    obtain ⟨-, rfl⟩ := Prod.mk.inj (pure_eq_ok.mp h)
    exact val_of_pyIndex hk'
  · cases h

/-- Where events are routed by default, no commit meets a missing shard. -/
theorem shardFor_defaultRoute {l : ShardedLedger σ} {agentId : ComplianceEvent → Str}
    (hroute : ∀ event, l.route event = defaultRoute l.shards.length (agentId event))
    {event : ComplianceEvent} {i : Int} (hi : l.route event = .ok i) :
    ∃ k, l.shardFor event none = .ok (i, k) := by
  obtain ⟨k, hk⟩ := defaultRoute_lt (List.length_pos_iff.mpr l.shards_ne) (hroute event ▸ hi)
  refine ⟨k, bind_eq_ok.mpr ⟨i, hi, ?_⟩⟩
  dsimp only
  rw [hk]
  rfl

/-- The ledger with another state of a shard. -/
def setShard (l : ShardedLedger σ) (k : Nat) (shard : Ledger σ) : ShardedLedger σ where
  shards := l.shards.set k shard
  origin := l.origin
  route := l.route
  shards_ne h := l.shards_ne (by simpa using h)

/-- `commit`. -/
def commit (l : ShardedLedger σ) (event : ComplianceEvent) (shard : Option Int)
    (clock : Except PyErr Str) : Except PyErr (Int × ComplianceEvent) × ShardedLedger σ :=
  match l.shardFor event shard with
  | .error err => (.error err, l)
  | .ok (s, k) =>
    let (result, shard) := Ledger.commit B l.shards[k] event clock
    (result.map (s, ·), l.setShard k shard)

/-- `shard_roots`. -/
def shardRoots (l : ShardedLedger σ) : List Bytes := l.shards.map root

/-- `super_root`. -/
def superRoot (l : ShardedLedger σ) : Bytes := shardSuperRoot l.shardRoots

/-- `total_size`. -/
def totalSize (l : ShardedLedger σ) : Nat := (l.shards.map fun shard => shard.leaves.length).sum

/-! ## Checkpoints -/

/-- What the field `shards` of a checkpoint says about one shard, with its size in any type. -/
def listingEntry (size : Val) (root : Bytes) (i : Nat) : Val :=
  .dict [(lit "index", .int i), (lit "size", size), (lit "root", .str (hex root))]

/-- A field `shards`, with a size and a root for each shard. -/
def listingOf (snap : List (Val × Bytes)) : Val :=
  .list (snap.zipIdx.map fun e => listingEntry e.1.1 e.1.2 e.2)

/-- The field `shards` of a checkpoint. -/
def listing (snap : List (Nat × Bytes)) : Val := listingOf (snap.map fun e => (.int e.1, e.2))

/-- The rest of `checkpoint`, after the sizes and roots have been read. -/
def signSnap (origin : Str) (key : KeySource) (timestamp : Option Str) (clock : Except PyErr Str)
    (snap : List (Nat × Bytes)) : Except PyErr Checkpoint := do
  let timestamp ← stamp timestamp clock
  let cp ← signCheckpoint key origin (snap.map Prod.fst).sum (hex (shardSuperRoot (snap.map Prod.snd)))
    timestamp
  return { cp with extra := [(lit "shards", listing snap)] }

/-- `checkpoint`, where nothing happens in between. -/
def checkpoint (l : ShardedLedger σ) (key : KeySource) (timestamp : Option Str)
    (clock : Except PyErr Str) : Except PyErr Checkpoint :=
  signSnap l.origin key timestamp clock (l.shards.map fun shard => (shard.leaves.length, shard.root))

/-- `checkpoint.shards`. -/
def shardsField (cp : Checkpoint) : Except PyErr Val :=
  match cp.extra.lookup (lit "shards") with
  | some v => .ok v
  | none => .error { kind := .attributeError }

/-- `{s["index"]: s for s in shards}`, as its items. -/
def shardMeta (shards : Val) : Except PyErr (List (Val × Val)) := do
  let entries ← shards.iter
  entries.mapM fun s => do
    let index ← s.getItem (lit "index")
    if index.hashable then return (index, s) else throw { kind := .typeError }

/-- `meta[i]`: of the items with one key the last counts. -/
def lookupMeta (items : List (Val × Val)) (i : Int) : Except PyErr Val :=
  match items.reverse.find? fun item => item.1.eq (.int i) with
  | some item => .ok item.2
  | none => .error { kind := .keyError }

/-- `bytes.fromhex(meta[i]["root"])`. -/
def listedRoot (items : List (Val × Val)) (i : Nat) : Except PyErr Bytes := do
  let s ← lookupMeta items i
  let root ← s.getItem (lit "root")
  Verify.unhexVal root

/-- `meta[i]["size"]`. -/
def listedSize (items : List (Val × Val)) (i : Int) : Except PyErr Val := do
  let s ← lookupMeta items i
  s.getItem (lit "size")

/-- A value as an optional bound of a slice. -/
def sliceBound : Val → Except PyErr (Option Int)
  | .null => .ok none
  | .int z => .ok (some z)
  | .bool b => .ok (some b.toInt)
  | _ => .error { kind := .typeError }

/-- What `sharded_inclusion_proof` returns. -/
structure ShardedProof where
  shardIndex : Int
  numShards : Nat
  leafIndex : Int
  shardSize : Val
  shardRoot : Str
  shardProof : List Str
  superProof : List Str

/-- The roots of all shards and the size of the given one, from the checkpoint where there is one. -/
def proofSource (l : ShardedLedger σ) (shard : Int) (checkpoint : Option Checkpoint) :
    Except PyErr (List Bytes × Val) :=
  match checkpoint with
  | some cp => do
    let shards ← shardsField cp
    let items ← shardMeta shards
    let roots ← (List.range l.shards.length).mapM (listedRoot items)
    let size ← listedSize items shard
    return (roots, size)
  | none =>
    match pyIndex l.shards.length shard with
    | some k => .ok (l.shardRoots, .int l.shards[k].leaves.length)
    | none => .error { kind := .indexError }

/-- `sharded_inclusion_proof`. -/
def shardedInclusionProof (l : ShardedLedger σ) (shard index : Int) (checkpoint : Option Checkpoint) :
    Except PyErr ShardedProof := do
  let (roots, shardSize) ← l.proofSource shard checkpoint
  match pyIndex roots.length shard, pyIndex l.shards.length shard with
  | some j, some k => do
    let treeSize ← sliceBound shardSize
    let shardProof ← inclusionProofHex l.shards[k] index treeSize
    let superProof ← shardSuperProof roots shard
    return { shardIndex := shard, numShards := l.shards.length, leafIndex := index, shardSize,
             shardRoot := hex roots[j], shardProof, superProof := superProof.map hex }
  | _, _ => throw { kind := .indexError }

/-- What a verifier reads from the field `shards` of a checkpoint of `n` shards: the sizes and the
roots. -/
def readListing (cp : Checkpoint) (n : Nat) : Except PyErr (List Val × List Bytes) := do
  let shards ← shardsField cp
  let items ← shardMeta shards
  let roots ← (List.range n).mapM (listedRoot items)
  let sizes ← (List.range n).mapM fun i : Nat => listedSize items i
  return (sizes, roots)

/-! ## Reading the field back -/

section Listing

variable {cp : Checkpoint} {snap : List (Val × Bytes)}

/-- Where one element passes a test, the search finds it. -/
theorem find?_eq_some_of_unique {α : Type} {p : α → Bool} {xs : List α} {x : α} (hx : x ∈ xs)
    (hp : p x = true) (hunique : ∀ y ∈ xs, p y = true → y = x) : xs.find? p = some x := by
  cases hfind : xs.find? p with
  | none => exact absurd hp (List.find?_eq_none.mp hfind x hx)
  | some y => rw [hunique y (List.mem_of_find?_eq_some hfind) (List.find?_some hfind)]

/-- The items of the dictionary by index. -/
theorem shardMeta_listingOf (snap : List (Val × Bytes)) : shardMeta (listingOf snap)
    = .ok (snap.zipIdx.map fun e => (.int e.2, listingEntry e.1.1 e.1.2 e.2)) := by
  have hitems := @mapM_eq_ok_map PyErr Val (Val × Val)
    (fun s => do
      let index ← s.getItem (lit "index")
      if index.hashable then return (index, s) else throw { kind := .typeError })
    (fun s => ((s.item? (lit "index")).getD .null, s))
    (snap.zipIdx.map fun e => listingEntry e.1.1 e.1.2 e.2) (by
      intro s hs
      obtain ⟨e, -, rfl⟩ := List.mem_map.mp hs
      rfl)
  rw [List.map_map] at hitems
  exact hitems

/-- The entry of a shard is found under its index. -/
theorem lookupMeta_listingOf {k : Nat} {e : Val × Bytes} (hk : snap[k]? = some e) :
    lookupMeta (snap.zipIdx.map fun e => (.int e.2, listingEntry e.1.1 e.1.2 e.2)) k
      = .ok (listingEntry e.1 e.2 k) := by
  have heq : ∀ i j : Nat, (Val.int i).eq (.int j) = decide (i = j) := fun i j => by
    simp [Val.eq, Val.key, Val.hasNan]
  have hfind := @find?_eq_some_of_unique _ (fun item : Val × Val => item.1.eq (.int k))
    (snap.zipIdx.map fun e => (Val.int e.2, listingEntry e.1.1 e.1.2 e.2)).reverse
    (.int k, listingEntry e.1 e.2 k) (by
      rw [List.mem_reverse]
      exact List.mem_map.mpr ⟨(e, k), List.mem_zipIdx_iff_getElem?.mpr hk, rfl⟩)
    ((heq k k).trans (decide_eq_true rfl)) (by
      intro item hitem hk'
      rw [List.mem_reverse] at hitem
      obtain ⟨⟨e', j⟩, he', rfl⟩ := List.mem_map.mp hitem
      dsimp only at hk'
      rw [heq, decide_eq_true_eq] at hk'
      subst hk'
      have he'' : snap[j]? = some e' := List.mem_zipIdx_iff_getElem?.mp he'
      rw [hk, Option.some.injEq] at he''
      rw [he''])
  rw [lookupMeta, hfind]

/-- The root of a shard is read back. -/
theorem listedRoot_listingOf {k : Nat} {e : Val × Bytes} (hk : snap[k]? = some e) :
    listedRoot (snap.zipIdx.map fun e => (.int e.2, listingEntry e.1.1 e.1.2 e.2)) k = .ok e.2 := by
  rw [listedRoot, lookupMeta_listingOf hk]
  exact unhex_eq_ok.mpr (fromhex_hex e.2)

/-- The size of a shard is read back. -/
theorem listedSize_listingOf {k : Nat} {e : Val × Bytes} (hk : snap[k]? = some e) :
    listedSize (snap.zipIdx.map fun e => (.int e.2, listingEntry e.1.1 e.1.2 e.2)) k = .ok e.1 := by
  rw [listedSize, lookupMeta_listingOf hk]
  rfl

/-- All roots are read back. -/
theorem mapM_listedRoot {n : Nat} (hn : snap.length = n) :
    (List.range n).mapM (listedRoot (snap.zipIdx.map fun e =>
      (.int e.2, listingEntry e.1.1 e.1.2 e.2))) = .ok (snap.map Prod.snd) := by
  rw [mapM_eq_ok, List.forall₂_iff_get]
  refine ⟨by rw [List.length_range, List.length_map, hn], fun k hk hk' => ?_⟩
  rw [List.length_map] at hk'
  have hget := listedRoot_listingOf (List.getElem?_eq_getElem hk')
  simpa using hget

/-- All sizes are read back. -/
theorem mapM_listedSize {n : Nat} (hn : snap.length = n) :
    ((List.range n).mapM fun i : Nat => listedSize (snap.zipIdx.map fun e =>
      (.int e.2, listingEntry e.1.1 e.1.2 e.2)) i) = .ok (snap.map Prod.fst) := by
  rw [mapM_eq_ok, List.forall₂_iff_get]
  refine ⟨by rw [List.length_range, List.length_map, hn], fun k hk hk' => ?_⟩
  rw [List.length_map] at hk'
  have hget := listedSize_listingOf (List.getElem?_eq_getElem hk')
  simpa using hget

/-- **Whatever sizes and roots are listed are read.** -/
theorem readListing_listingOf (hcp : shardsField cp = .ok (listingOf snap)) :
    readListing cp snap.length = .ok (snap.map Prod.fst, snap.map Prod.snd) := by
  refine bind_eq_ok.mpr ⟨_, hcp, bind_eq_ok.mpr ⟨_, shardMeta_listingOf _, ?_⟩⟩
  exact bind_eq_ok.mpr ⟨_, mapM_listedRoot rfl, bind_eq_ok.mpr ⟨_, mapM_listedSize rfl, rfl⟩⟩

/-- **The field shows what is listed.** -/
theorem listing_injective {snap snap' : List (Nat × Bytes)} (h : listing snap = listing snap') :
    snap = snap' := by
  have hentry : Function.Injective fun e : (Val × Bytes) × Nat => listingEntry e.1.1 e.1.2 e.2 := by
    rintro ⟨⟨size, root⟩, i⟩ ⟨⟨size', root'⟩, i'⟩ heq
    simp only [listingEntry, Val.dict.injEq, List.cons.injEq, Prod.mk.injEq, Val.int.injEq,
      Val.str.injEq, Nat.cast_inj, true_and, and_true] at heq
    obtain ⟨rfl, rfl, hroot⟩ := heq
    have hbytes := congrArg fromhex hroot
    rw [fromhex_hex, fromhex_hex, Option.some.injEq] at hbytes
    rw [hbytes]
  have hlisted : Function.Injective fun e : Nat × Bytes => (Val.int e.1, e.2) := by
    rintro ⟨size, root⟩ ⟨size', root'⟩ heq
    simpa using heq
  have hindexed := List.map_injective_iff.mpr hentry (Val.list.inj h)
  have hvalues := congrArg (List.map Prod.fst) hindexed
  rw [List.zipIdx_map_fst, List.zipIdx_map_fst] at hvalues
  exact List.map_injective_iff.mpr hlisted hvalues

/-- The field shows which roots are listed. -/
theorem map_snd_of_listing_eq {snap snap' : List (Nat × Bytes)} (h : listing snap = listing snap') :
    snap.map Prod.snd = snap'.map Prod.snd := by
  rw [listing_injective h]

end Listing

/-- **A proof pinned to what a checkpoint lists verifies**, if the listed root is the tree hash of as
many leaves of the shard as are listed. -/
theorem shardedInclusionProof_listing {l : ShardedLedger σ} {cp : Checkpoint}
    {snap : List (Nat × Bytes)} (hcp : shardsField cp = .ok (listing snap))
    (hlen : snap.length = l.shards.length) {k sz i : Nat} {shard : Ledger σ}
    (hk : l.shards[k]? = some shard) (hle : sz ≤ shard.leaves.length)
    (hsnap : snap[k]? = some (sz, treeHash (shard.leaves.take sz))) (hi : i < sz) :
    ∃ P Q leaf, l.shardedInclusionProof k i (some cp) = .ok
        { shardIndex := k, numShards := l.shards.length, leafIndex := i, shardSize := .int sz,
          shardRoot := hex (treeHash (shard.leaves.take sz)), shardProof := P.map hex,
          superProof := Q.map hex } ∧
      shard.leaves[i]? = some leaf ∧
      verifyShardedInclusion leaf i sz P (treeHash (shard.leaves.take sz)) k l.shards.length Q
        (shardSuperRoot (snap.map Prod.snd)) = true := by
  obtain ⟨hklt, hget⟩ := List.getElem?_eq_some_iff.mp hk
  -- the proof in the shard
  have hnonneg : (0 : Int) ≤ i := by omega
  have hlt : (i : Int) < sz := by omega
  obtain ⟨P, leaf, hP, hleaf, hverify⟩ := LedgerThreads.inclusionProofHexOf_take hle hnonneg hlt
  have hpinned : inclusionProofHex shard i (some sz) = .ok (P.map hex) := by
    rw [inclusionProofHex, pinned, if_pos (by omega), Int.toNat_natCast]
    exact hP
  -- the proof in the super-tree
  have hroot : ((snap.map Prod.snd).map leafHash)[k]?
      = some (leafHash (treeHash (shard.leaves.take sz))) := by
    rw [List.getElem?_map, List.getElem?_map, hsnap]
    rfl
  have hsuper := verifyInclusion_complete hroot
  rw [List.length_map, List.length_map, hlen] at hsuper
  have hsuperProof : shardSuperProof (snap.map Prod.snd) k
      = .ok (MerkleTree.path nodeHash ((snap.map Prod.snd).map leafHash) k) := by
    refine inclusionProof_eq_ok.mpr ⟨?_, rfl⟩
    rw [List.length_map, List.length_map]
    omega
  refine ⟨P, _, leaf, ?_, hleaf, verifyShardedInclusion_eq_true.mpr
    ⟨by simpa using hverify, hsuper⟩⟩
  -- what is read from the checkpoint
  have hroots := @mapM_listedRoot (snap.map fun e => (Val.int e.1, e.2)) l.shards.length
    (by rw [List.length_map, hlen])
  rw [List.map_map] at hroots
  have hlisted : (snap.map fun e => (Val.int e.1, e.2))[k]?
      = some (.int sz, treeHash (shard.leaves.take sz)) := by
    rw [List.getElem?_map, hsnap]
    rfl
  have hsize := listedSize_listingOf hlisted
  have hsource : l.proofSource k (some cp) = .ok (snap.map Prod.snd, .int sz) := by
    refine bind_eq_ok.mpr ⟨_, hcp, bind_eq_ok.mpr ⟨_, shardMeta_listingOf _, ?_⟩⟩
    exact bind_eq_ok.mpr ⟨_, hroots, bind_eq_ok.mpr ⟨_, hsize, rfl⟩⟩
  have hklt' : k < (snap.map Prod.snd).length := by
    rw [List.length_map]
    omega
  have hrootk : (snap.map Prod.snd)[k] = treeHash (shard.leaves.take sz) := by
    refine Option.some.inj ?_
    rw [← List.getElem?_eq_getElem, List.getElem?_map, hsnap]
    rfl
  refine bind_eq_ok.mpr ⟨_, hsource, ?_⟩
  dsimp only
  rw [pyIndex_natCast hklt, pyIndex_natCast hklt']
  dsimp only [Fin.getElem_fin]
  rw [hget, hrootk]
  exact bind_eq_ok.mpr ⟨_, rfl, bind_eq_ok.mpr ⟨_, hpinned, bind_eq_ok.mpr ⟨_, hsuperProof, rfl⟩⟩⟩

end ShardedLedger

end OpenWright
