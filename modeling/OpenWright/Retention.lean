import OpenWright.CanonicalEquality
import OpenWright.Report

/-! # Retention commitments

A commit assigns a record the time it was committed and, where the ledger has a retention period, the
time until which it is kept. `prove_retention` returns the two with an inclusion proof. They stand in
the `ledger` object of the record, which the leaf hash leaves out.

* **`proveRetention_binds_iff`** — a record with another retention commitment is refused under the
  signed root exactly when it differs from the committed record outside `ledger` too. -/

namespace OpenWright

open Hash Python Python.Val Canonical Merkle Signing Verify

/-! ## The proof -/

namespace Ledger

variable {σ : Type} (B : LedgerBackend σ) (reload : Reload)

/-- `prove_retention`. -/
def proveRetention (l : Ledger σ) (index : Nat) : Except PyErr Val := do
  let ev ← l.getEvent B reload index
  let led := entry (lit "ledger") ev
  let proof ← l.inclusionProofHex index
  return .dict [(lit "event_id", entry (lit "event_id") ev),
    (lit "committed_at", entry (lit "committed_at") led),
    (lit "retention_until", entry (lit "retention_until") led), (lit "leaf_index", .int index),
    (lit "inclusion_proof", .list (proof.map .str))]

end Ledger

/-- The retention commitment of a record. -/
def retentionCommitment (record : Val) : Val × Val :=
  let ledger := entry (lit "ledger") record
  (entry (lit "committed_at") ledger, entry (lit "retention_until") ledger)

/-! ## Presenting a record -/

/-- The entry passes the leaf-hash check and the inclusion check of the verifier. -/
def EntryPasses (n : Int) (root : Bytes) (item : Val) : Prop :=
  ∃ acc, checkEntry n root {} item = .ok acc ∧ acc.leafOk = true ∧ acc.inclOk = true

/-- The entry presents the record for the leaf index `i`. -/
def Presents (i : Nat) (record item : Val) : Prop :=
  entryEvent item = .ok record ∧
    ∃ index, item.getD (lit "leaf_index") .null = .ok index ∧ index.eq (.int i) = true

/-- A record without its `ledger`. -/
def outsideLedger : Val → Val
  | .dict kvs => .dict (withoutLedger kvs)
  | v => v

/-- The strings that hashing a record's leaf hashes. -/
def hashedByLeaf (record : Val) : List Bytes :=
  match record with
  | .dict kvs =>
    match canonicalBytes (.dict (withoutLedger kvs)) with
    | .ok data => [leafPrefix ++ data]
    | .error _ => []
  | _ => []

/-- The signed root refuses a record in the place of the one at index `i`: it has another leaf hash,
and no entry that presents it passes, where no two strings of `S` collide. -/
structure Refused (S : List Bytes) (n : Int) (root : Bytes) (i : Nat) (leaf : Bytes) (record : Val) :
    Prop where
  leaf_ne : leafFromEventDict record ≠ .ok leaf
  entry_fails : ∀ item, Presents i record item → (∀ s ∈ hashedByEntry n item, s ∈ S) →
    ¬EntryPasses n root item

/-- The entry that presents a record with the proof `prove_retention` returned. -/
def retentionEntry (proof : Val) (leaf : Bytes) (record : Val) : Val :=
  .dict [(lit "event", record), (lit "leaf_index", entry (lit "leaf_index") proof),
    (lit "leaf_hash", .str (lit "sha256:" ++ hex leaf)),
    (lit "inclusion_proof", entry (lit "inclusion_proof") proof)]

/-! ## The same content, the same leaf -/

/-- A record's leaf is the hash of its canonical content. -/
theorem leafFromEventDict_of {kvs : Items} {data : Bytes}
    (h : canonicalBytes (.dict (withoutLedger kvs)) = .ok data) :
    leafFromEventDict (.dict kvs) = .ok (leafHash data) :=
  bind_eq_ok.mpr ⟨data, h, rfl⟩

/-- Values with the content of a string are that string. -/
theorem eq_str_of_sorted_strip {v : Val} {s : Str} (h : Json.sorted (strip v) = .str s) :
    v = .str s := by
  cases v with
  | str t => exact h
  | _ => cases h

/-- In records of the same content a string stands under the same key, unless `None` does. -/
theorem lookup_of_sameContent {k s : Str} {kvs lvs : Items} {v : Val}
    (h : SameContent (.dict kvs) (.dict lvs)) (hlvs : lvs.lookup k = some (.str s))
    (hkvs : kvs.lookup k = some v) : v = .null ∨ v = .str s := by
  by_cases hnull : v = .null
  · exact Or.inl hnull
  have hstrip : ∀ {u : Val} {uvs : Items}, u ≠ .null → uvs.lookup k = some u →
      (sortKeys (Json.sortedItems (stripItems uvs))).lookup k = some (Json.sorted (strip u)) := by
    intro u uvs hu huvs
    rw [lookup_sortKeys, Json.sortedItems_eq_map, lookup_map_snd, lookup_stripItems hu huvs,
      Option.map_some]
  have hsorted : sortKeys (Json.sortedItems (stripItems kvs))
      = sortKeys (Json.sortedItems (stripItems lvs)) := Val.dict.inj h
  have hleft := hstrip hnull hkvs
  rw [hsorted, hstrip Val.noConfusion hlvs, Option.some.injEq] at hleft
  exact Or.inr (eq_str_of_sorted_strip hleft.symm)

/-! ## Presented entries -/

variable {leaves : List Bytes} {i : Nat}

/-- An index that is equal to an integer is that integer, a boolean or a float. -/
theorem asInt_of_eq_int {index : Val} (h : index.eq (.int i) = true) :
    asInt index = some (i : Int) ∨ index = .float (.finite i) := by
  have hkey := key_eq_of_eq h
  cases index with
  | int z => exact Or.inl (congrArg some (Val.int.inj hkey))
  | bool b => exact Or.inl (congrArg some (Val.int.inj hkey))
  | float x =>
      refine Or.inr ?_
      cases x with
      | finite q =>
          have hfinite : key (.float (.finite q))
              = if q.den = 1 then .int q.num else .float (.finite q) :=
            rfl
          rw [hfinite] at hkey
          split at hkey
          · rename_i hden
            have hnum : q.num = (i : Int) := Val.int.inj hkey
            have hq : q = (i : Rat) := Rat.ext hnum hden
            rw [hq]
          · cases hkey
      | inf negative => cases hkey
      | nan => cases hkey
  | _ => cases hkey

/-- **An entry that passes presents the leaf at its index.** -/
theorem leaf_of_entryPasses (hlen : ∀ l ∈ leaves, l.length = 32) (hi : i < leaves.length)
    {record item : Val} {S : List Bytes} (hS : CollisionFree S)
    (htree : ∀ s ∈ hashedByTreeHash leaves, s ∈ S) (hpresents : Presents i record item)
    (hitem : ∀ s ∈ hashedByEntry leaves.length item, s ∈ S)
    (h : EntryPasses leaves.length (treeHash leaves) item) :
    leafFromEventDict record = .ok leaves[i] := by
  obtain ⟨acc, hacc, hleafOk, hinclOk⟩ := h
  obtain ⟨index, -, leaf, -, -, -, hpassed⟩ := checkEntry_eq_ok hacc
  obtain ⟨-, -, event, proof, hevent, hindex, hleaf, -, hproof, hincluded⟩ := hpassed hleafOk hinclOk
  obtain ⟨hrecord, index', hindex', heq⟩ := hpresents
  rw [hrecord, Except.ok.injEq] at hevent
  subst hevent
  rw [hindex', Except.ok.injEq] at hindex
  subst hindex
  rw [hleaf]
  refine congrArg Except.ok ?_
  obtain ⟨kvs, data, rfl, hdata, rfl⟩ := leafFromEventDict_eq_ok hleaf
  rcases asInt_of_eq_int heq with hint | rfl
  · -- an integer, maybe as a boolean
    have hverify : verifyInclusion i leaves.length (leafHash data) proof (treeHash leaves) = true := by
      cases index' with
      | int z => obtain rfl := Option.some.inj hint; exact Except.ok.inj hincluded
      | bool b =>
          have hb : b.toInt = i := Option.some.inj hint
          rw [verifyInclusionAt, hb] at hincluded
          exact Except.ok.inj hincluded
      | _ => cases hint
    have hentry : ∀ s ∈ hashedByVerifyInclusion i leaves.length (leafHash data) proof, s ∈ S := by
      intro s hs
      refine hitem s ?_
      rw [hashedByEntry, hrecord, hindex', hproof]
      dsimp only
      rw [hdata, hint]
      exact List.mem_cons_of_mem _ hs
    obtain ⟨j, hj, hget, -⟩ := verifyInclusion_sound hlen (length_leafHash data)
      (hS.mono fun s hs => (List.mem_append.mp hs).elim (htree s) (hentry s)) hverify
    obtain rfl : i = j := Int.ofNat.inj hj
    exact (Option.some.inj (hget.symm.trans (List.getElem?_eq_getElem hi))).trans rfl
  · -- a float passes only where the leaf is the whole tree
    unfold verifyInclusionAt at hincluded
    dsimp only at hincluded
    split at hincluded
    · cases hincluded
    · cases proof with
      | nil =>
          have hroot := of_decide_eq_true (Except.ok.inj hincluded)
          obtain ⟨leaf', rfl⟩ := List.length_eq_one_iff.mp (show leaves.length = 1 by omega)
          rw [treeHash_singleton] at hroot
          obtain rfl : i = 0 := Nat.lt_one_iff.mp hi
          exact hroot.2
      | cons p proof =>
          dsimp only at hincluded
          split at hincluded
          · cases hincluded
          · cases hincluded

/-- **A record with the committed content passes** with the proof `prove_retention` returned. -/
theorem entryPasses_retentionEntry {σ : Type} {B : LedgerBackend σ} {reload : Reload} {l : Ledger σ}
    (hi : i < l.leaves.length) {altered : Items}
    (hleaf : leafFromEventDict (.dict altered) = .ok l.leaves[i])
    (hid : ∀ v, altered.lookup (lit "event_id") = some v → v.hashable = true) (hne : altered ≠ [])
    {proof : Val} (hproof : l.proveRetention B reload i = .ok proof) :
    EntryPasses l.leaves.length (treeHash l.leaves)
      (retentionEntry proof l.leaves[i] (.dict altered)) := by
  rw [Ledger.proveRetention] at hproof
  obtain ⟨ev, -, hproof⟩ := bind_eq_ok.mp hproof
  obtain ⟨nodes, hnodes, hproof⟩ := bind_eq_ok.mp hproof
  rw [← pure_eq_ok.mp hproof]
  -- the proof is the audit path of the leaf
  obtain ⟨P, leaf, hP, hget, hverify⟩ :=
    @LedgerThreads.inclusionProofHexOf_take l.leaves l.leaves.length le_rfl i (Int.natCast_nonneg i)
      (by omega)
  rw [List.take_length] at hP hverify
  rw [Ledger.inclusionProofHex, Ledger.pinned, hP, Except.ok.injEq] at hnodes
  rw [Int.toNat_natCast, List.getElem?_eq_getElem hi, Option.some.injEq] at hget
  subst hget
  rw [← hnodes]
  -- the steps of the loop body
  have hevent : ∀ rest, entryEvent (.dict ((lit "event", .dict altered) :: rest))
      = .ok (.dict altered) := by
    intro rest
    refine bind_eq_ok.mpr ⟨.dict altered, getD_eq_ok rfl _, ?_⟩
    rw [orElse, if_pos (by rw [truthy]; exact decide_eq_true hne)]
    rfl
  obtain ⟨id, hid', hhash⟩ : ∃ id, (Val.dict altered).getD (lit "event_id") .null = .ok id ∧
      id.hashable = true := by
    rw [getD, Val.get]
    cases hlookup : altered.lookup (lit "event_id") with
    | none => exact ⟨.null, rfl, rfl⟩
    | some v => exact ⟨v, rfl, hid v hlookup⟩
  have hlast : afterLast (cp 58) (lit "sha256:" ++ hex l.leaves[i]) = hex l.leaves[i] :=
    afterLast_append (lit "sha256") (not_mem_hex _)
  have hstored : ∀ event index path, storedLeaf (.dict [(lit "event", event), (lit "leaf_index", index),
      (lit "leaf_hash", .str (lit "sha256:" ++ hex l.leaves[i])), (lit "inclusion_proof", path)])
      = .ok l.leaves[i] := by
    intro event index path
    refine bind_eq_ok.mpr ⟨_, getD_eq_ok rfl _, ?_⟩
    rw [if_pos (by rfl)]
    dsimp only
    rw [hlast]
    exact unhex_eq_ok.mpr (fromhex_hex _)
  refine ⟨{ leavesByIndex := [((i : Int), l.leaves[i])], presentIds := [id] }, ?_, rfl, rfl⟩
  rw [checkEntry, retentionEntry, hevent]
  refine bind_eq_ok.mpr ⟨_, rfl, bind_eq_ok.mpr ⟨.int i, getD_eq_ok rfl _,
    bind_eq_ok.mpr ⟨id, hid', ?_⟩⟩⟩
  rw [if_neg (by simp [hhash])]
  refine bind_eq_ok.mpr ⟨_, hleaf, bind_eq_ok.mpr ⟨_, hstored _ _ _, bind_eq_ok.mpr ⟨P, ?_,
    bind_eq_ok.mpr ⟨true, congrArg Except.ok hverify, ?_⟩⟩⟩⟩
  · exact bind_eq_ok.mpr ⟨_, getD_eq_ok rfl _, bind_eq_ok.mpr ⟨_, rfl, mapM_unhexVal P⟩⟩
  · refine congrArg Except.ok ?_
    simp [asInt, setLeaf]

/-! ## What the signed root refuses -/

/-- A record that is accepted as the leaf of another has its content. -/
theorem sameContent_of_leaf {kvs altered : Items} {leaf : Bytes} {S : List Bytes}
    (hS : CollisionFree S) (hkvs : ∀ s ∈ hashedByLeaf (.dict kvs), s ∈ S)
    (haltered : ∀ s ∈ hashedByLeaf (.dict altered), s ∈ S)
    (h : leafFromEventDict (.dict kvs) = .ok leaf) (h' : leafFromEventDict (.dict altered) = .ok leaf) :
    SameContent (outsideLedger (.dict altered)) (outsideLedger (.dict kvs)) := by
  obtain ⟨_, data, hdict, hdata, rfl⟩ := leafFromEventDict_eq_ok h
  obtain rfl := Val.dict.inj hdict
  obtain ⟨_, data', hdict', hdata', hsame⟩ := leafFromEventDict_eq_ok h'
  obtain rfl := Val.dict.inj hdict'
  have hstring : leafPrefix ++ data ∈ S := hkvs _ (by simp only [hashedByLeaf, hdata]; simp)
  have hstring' : leafPrefix ++ data' ∈ S := haltered _ (by simp only [hashedByLeaf, hdata']; simp)
  obtain rfl := List.append_cancel_left (hS _ hstring _ hstring' hsame)
  exact (sameContent_iff hdata').mpr hdata

/-- A record with the content of another has its leaf. -/
theorem leaf_of_sameContent {kvs altered : Items} {leaf : Bytes}
    (h : leafFromEventDict (.dict kvs) = .ok leaf)
    (hsame : SameContent (outsideLedger (.dict altered)) (outsideLedger (.dict kvs))) :
    leafFromEventDict (.dict altered) = .ok leaf := by
  obtain ⟨_, data, hdict, hdata, rfl⟩ := leafFromEventDict_eq_ok h
  obtain rfl := Val.dict.inj hdict
  exact leafFromEventDict_of ((sameContent_iff hdata).mp hsame.symm)

/-- The event id of a record with the content of a dumped event can be looked up. -/
theorem hashable_of_sameContent {kvs altered : Items}
    (hrecord : ∃ event : ComplianceEvent, event.dump = .ok (.dict kvs))
    (hsame : SameContent (outsideLedger (.dict altered)) (outsideLedger (.dict kvs))) :
    altered ≠ [] ∧ ∀ v, altered.lookup (lit "event_id") = some v → v.hashable = true := by
  obtain ⟨eventId, rest, hdict⟩ := exists_eventId hrecord
  obtain rfl := Val.dict.inj hdict
  have hkept : ∀ lvs : Items, (withoutLedger lvs).lookup (lit "event_id") = lvs.lookup (lit "event_id") :=
    fun lvs => lookup_filter_of (p := fun k => k ≠ lit "ledger") (by decide) lvs
  have hid : (withoutLedger ((lit "event_id", Val.str eventId) :: rest)).lookup (lit "event_id")
      = some (.str eventId) := by
    rw [hkept]
    rfl
  constructor
  · rintro rfl
    have hstripped := lookup_stripItems Val.noConfusion hid
    have hsorted : sortKeys (Json.sortedItems (stripItems []))
        = sortKeys (Json.sortedItems (stripItems _)) := Val.dict.inj hsame
    have hlookup : (sortKeys (Json.sortedItems (stripItems []))).lookup (lit "event_id")
        = some (.str eventId) := by
      rw [hsorted, lookup_sortKeys, Json.sortedItems_eq_map, lookup_map_snd, hstripped]
      rfl
    cases hlookup
  · intro v hv
    rw [← hkept] at hv
    rcases lookup_of_sameContent hsame hid hv with rfl | rfl
    · rfl
    · rfl

/-- The head a checkpoint carries. -/
theorem checkpointHead_dump {c : Checkpoint} {root : Bytes} (h : c.rootHash = hex root) :
    checkpointHead c.dump = .ok (root, c.treeSize) := by
  have hroot : c.dump.getItem (lit "root_hash") = .ok (.str (hex root)) := by
    rw [← h]
    exact getItem_eq_ok rfl
  have hsize : c.dump.getItem (lit "tree_size") = .ok (.int c.treeSize) := getItem_eq_ok rfl
  rw [checkpointHead, hroot, hsize]
  exact bind_eq_ok.mpr ⟨_, rfl, bind_eq_ok.mpr ⟨root, unhex_eq_ok.mpr (fromhex_hex root), rfl⟩⟩

/-- **What binds a retention commitment.** In every state a ledger reaches, for every checkpoint signed
there and every committed record: a record dictionary with another `committed_at` or
`retention_until` is refused in its place exactly when its content outside `ledger` is another one
too; otherwise it passes with the very proof `prove_retention` returns. -/
theorem Ledger.proveRetention_binds_iff {σ : Type} (B : LedgerBackend σ) (reload : Reload) (store : σ)
    (hstore : B.records store = []) (origin : Str) (retention : Option (Str → Except PyErr Str))
    (calls : List LedgerCall) :
    ∃ l₀, Ledger.init B store origin retention = .ok l₀ ∧
      let l := run B l₀ calls
      ∀ key timestamp clock c, l.checkpoint key timestamp clock = .ok c →
        ∃ root n, checkpointHead c.dump = .ok (root, n) ∧
          ∀ i record, (B.records l.store)[i]? = some record →
            ∃ leaf, leafFromEventDict record = .ok leaf ∧
              ∀ altered S, retentionCommitment (.dict altered) ≠ retentionCommitment record →
                CollisionFree S →
                (∀ s ∈ hashedByTreeHash l.leaves ++ hashedByLeaf record ++ hashedByLeaf (.dict altered),
                  s ∈ S) →
                (Refused S n root i leaf (.dict altered) ↔
                  ¬SameContent (outsideLedger (.dict altered)) (outsideLedger record)) ∧
                ∀ proof, l.proveRetention B reload i = .ok proof →
                  SameContent (outsideLedger (.dict altered)) (outsideLedger record) →
                  EntryPasses n root (retentionEntry proof leaf (.dict altered)) := by
  obtain ⟨l₀, hinit, hinv₀⟩ := init_empty hstore origin retention
  refine ⟨l₀, hinit, ?_⟩
  intro l key timestamp clock c hc
  have hinv : Inv B l := hinv₀.run calls
  have hdumped : Dumped B l := (dumped_init_empty hstore hinit).run calls
  have hroot : l.tree.root = treeHash l.leaves := hinv.tree.root_eq
  obtain ⟨hsize, hrootHash⟩ := signSnapshot_eq_ok hc
  have hhead := checkpointHead_dump hrootHash
  rw [hroot, (show c.treeSize = l.leaves.length from hsize)] at hhead
  refine ⟨_, _, hhead, fun i record hrecord => ?_⟩
  have hi : i < l.leaves.length := hinv.length_records ▸ (List.getElem?_eq_some_iff.mp hrecord).1
  have hleaf : leafFromEventDict record = .ok l.leaves[i] :=
    (hinv.recorded i record _ hrecord (List.getElem?_eq_getElem hi)).leaf_eq
  refine ⟨l.leaves[i], hleaf, fun altered S _ hS hsub => ?_⟩
  obtain ⟨kvs, data, rfl, hdata, -⟩ := leafFromEventDict_eq_ok hleaf
  -- each part of the hashed strings by itself
  have htree : ∀ s ∈ hashedByTreeHash l.leaves, s ∈ S := fun s hs =>
    hsub s (List.mem_append_left _ (List.mem_append_left _ hs))
  have hkvs : ∀ s ∈ hashedByLeaf (.dict kvs), s ∈ S := fun s hs =>
    hsub s (List.mem_append_left _ (List.mem_append_right _ hs))
  have haltered : ∀ s ∈ hashedByLeaf (.dict altered), s ∈ S := fun s hs =>
    hsub s (List.mem_append_right _ hs)
  -- every leaf is a hash
  have hlen : ∀ leaf ∈ l.leaves, leaf.length = 32 := by
    intro leaf hmem
    obtain ⟨j, hj, rfl⟩ := List.getElem_of_mem hmem
    have hj' : j < (B.records l.store).length := hinv.length_records ▸ hj
    obtain ⟨_, _, _, _, hhash⟩ := leafFromEventDict_eq_ok (hinv.recorded j _ _
      (List.getElem?_eq_getElem hj') (List.getElem?_eq_getElem hj)).leaf_eq
    rw [hhash]
    exact length_leafHash _
  refine ⟨⟨fun hrefused hsame => hrefused.leaf_ne (leaf_of_sameContent hleaf hsame), fun hother => ?_⟩,
    fun proof hproof hsame => ?_⟩
  -- another content has another leaf, and no entry with that leaf passes in its place
  · have hne : leafFromEventDict (.dict altered) ≠ .ok l.leaves[i] := fun h =>
      hother (sameContent_of_leaf hS hkvs haltered hleaf h)
    exact ⟨hne, fun item hpresents hitem hpasses =>
      hne (leaf_of_entryPasses hlen hi hS htree hpresents hitem hpasses)⟩
  -- the content is the same, so the leaf is, and the proof is its own
  · obtain ⟨hnonempty, hhashable⟩ :=
      hashable_of_sameContent (hdumped _ (List.mem_of_getElem? hrecord)) hsame
    exact entryPasses_retentionEntry hi (leaf_of_sameContent hleaf hsame) hhashable hnonempty hproof

/-! ## The sample ledger -/

/-- A record with another content and another commitment than the sample record. -/
def sampleOther : Items :=
  [(lit "event_id", .str (lit "evt_1")),
    (lit "ledger", .dict [(lit "committed_at", .str (lit "2036-01-01T00:00:00Z"))])]

/-- The sample record with another commitment. -/
def sampleAltered : Items :=
  [(lit "event_id", .str (lit "evt_19e720c5a36bc08eec958330a7c88197cf94569d")),
    (lit "schema_version", .str (lit "1.0.0")), (lit "timestamp", .str (lit "2026-01-01T00:00:00Z")),
    (lit "kind", .str (lit "agent_decision")),
    (lit "actor", .dict [(lit "agent_id", .str (lit "agent-1"))]), (lit "provenance", .dict []),
    (lit "risk", .dict [(lit "classification", .str (lit "high"))]), (lit "attributes", .dict []),
    (lit "labels", .dict []), (lit "source", .dict [(lit "format", .str (lit "sdk"))]),
    (lit "ledger", .dict [(lit "leaf_hash", .str (lit "sha256:" ++ hex sampleLeaf)),
      (lit "leaf_index", .int 0), (lit "committed_at", .str (lit "2025-01-01T00:00:00Z")),
      (lit "retention_until", .str (lit "2025-02-01T00:00:00Z"))])]

/-- The other record is refused in the place of the sample record. -/
theorem Ledger.proveRetention_binds_iff_sample : ∃ l₀ root n leaf,
    Ledger.init inMemoryLedgerBackend [] (lit "openwright") none = .ok l₀ ∧
      checkpointHead sampleCheckpoint.dump = .ok (root, n) ∧
      Refused (hashedByLeaf sampleRecord ++ hashedByLeaf (.dict sampleOther)) n root 0 leaf
        (.dict sampleOther) := by
  obtain ⟨l₀, hinit, h⟩ := Ledger.proveRetention_binds_iff inMemoryLedgerBackend sampleReload [] rfl
    (lit "openwright") none [.commit sampleDecision (.ok (lit "2026-01-01T00:00:00Z"))]
  have hnew : Ledger.init inMemoryLedgerBackend [] (lit "openwright") none = .ok sampleNew := rfl
  obtain rfl : sampleNew = l₀ := Except.ok.inj (hnew.symm.trans hinit)
  rw [run_sampleDecision] at h
  obtain ⟨root, n, hhead, h⟩ := h _ _ _ _ (@checkpoint_sampleLedger [])
  obtain ⟨leaf, hleaf, h⟩ := h 0 sampleRecord rfl
  obtain ⟨kvs, data, hdict, hdata, hdigest⟩ := leafFromEventDict_eq_ok hleaf
  obtain ⟨data', hdata', hother⟩ : ∃ data',
      canonicalBytes (outsideLedger (.dict sampleOther)) = .ok data' ∧
      leafHash data' ≠ sampleLeaf := by
    have hbytes : (canonicalBytes (outsideLedger (.dict sampleOther))).toOption.map
        (fun data' => decide (leafHash data' ≠ sampleLeaf)) = some true := by decide +kernel
    cases hcanonical : canonicalBytes (outsideLedger (.dict sampleOther)) with
    | error err => rw [hcanonical] at hbytes; cases hbytes
    | ok data' =>
        rw [hcanonical] at hbytes
        exact ⟨data', rfl, of_decide_eq_true (Option.some.inj hbytes)⟩
  have hstrings : hashedByLeaf sampleRecord = [leafPrefix ++ data] := by
    rw [hdict, hashedByLeaf, hdata]
  have hstrings' : hashedByLeaf (.dict sampleOther) = [leafPrefix ++ data'] := by
    rw [outsideLedger] at hdata'
    rw [hashedByLeaf, hdata']
  have hfree : CollisionFree (hashedByLeaf sampleRecord ++ hashedByLeaf (.dict sampleOther)) := by
    rw [hstrings, hstrings']
    refine collisionFree_of_forall_or (s := leafPrefix ++ data) (t := leafPrefix ++ data')
      (fun u hu => by simpa using hu) fun hsame => hother ?_
    rw [leaf_sampleRecord, Except.ok.injEq] at hleaf
    exact hsame.symm.trans (hdigest.symm.trans hleaf.symm)
  obtain ⟨hiff, -⟩ := h sampleOther _ (by decide) hfree (fun s hs => by
    rw [List.append_assoc] at hs
    rcases List.mem_append.mp hs with htree | hs
    · rw [sampleLedger, hashedByTreeHash_singleton] at htree
      cases htree
    · exact hs)
  refine ⟨sampleNew, root, n, leaf, hnew, hhead, hiff.mpr fun hsame => ?_⟩
  -- the event ids differ
  rcases lookup_of_sameContent (k := lit "event_id") hsame rfl rfl with hid | hid
  · cases hid
  · exact absurd hid (by decide)

/-- The sample record has a retention proof. -/
theorem exists_proveRetention_sampleLedger : ∃ proof,
    sampleLedger.proveRetention inMemoryLedgerBackend sampleReload 0 = .ok proof := by
  have hnodes : sampleLedger.inclusionProofHex (0 : Nat) = .ok [] := by
    refine bind_eq_ok.mpr ⟨[], ?_, rfl⟩
    decide +kernel
  exact ⟨_, bind_eq_ok.mpr ⟨sampleRecord, rfl, bind_eq_ok.mpr ⟨[], hnodes, rfl⟩⟩⟩

/-- A record whose commitment was altered has the same leaf, and passes under the checkpoint that was
signed over the ledger. -/
theorem Ledger.proveRetention_not_binds : ∃ key proof root,
    Ledger.init inMemoryLedgerBackend [] (lit "openwright") none = .ok sampleNew ∧
      (Ledger.commit inMemoryLedgerBackend sampleNew sampleDecision
        (.ok (lit "2026-01-01T00:00:00Z"))).2 = sampleLedger ∧
      sampleLedger.proveRetention inMemoryLedgerBackend sampleReload 0 = .ok proof ∧
      sampleLedger.checkpoint key none (.ok (lit "2026-01-01T00:00:00Z")) = .ok sampleCheckpoint ∧
      checkpointHead sampleCheckpoint.dump = .ok (root, 1) ∧
      sampleLedger.store[0]? = some sampleRecord ∧
      (retentionCommitment (.dict sampleAltered)).1 ≠ (retentionCommitment sampleRecord).1 ∧
      (retentionCommitment (.dict sampleAltered)).2 ≠ (retentionCommitment sampleRecord).2 ∧
      leafFromEventDict (.dict sampleAltered) = leafFromEventDict sampleRecord ∧
      EntryPasses 1 root (retentionEntry proof sampleLeaf (.dict sampleAltered)) := by
  -- only what is in `ledger` was altered
  have hsame : outsideLedger (.dict sampleAltered) = outsideLedger sampleRecord := by
    decide +kernel
  have hleaf : leafFromEventDict (.dict sampleAltered) = .ok sampleLeaf :=
    leaf_of_sameContent leaf_sampleRecord (by rw [SameContent, hsame]; rfl)
  obtain ⟨proof, hproof⟩ := exists_proveRetention_sampleLedger
  have hhead : checkpointHead sampleCheckpoint.dump = .ok (treeHash sampleLedger.leaves, 1) := by
    rw [sampleLedger, treeHash_singleton]
    exact checkpointHead_dump rfl
  have hlt : 0 < sampleLedger.leaves.length := Nat.one_pos
  have hget : sampleLedger.leaves[0] = sampleLeaf := rfl
  -- its id is a text, as it was
  have hid : ∀ v, sampleAltered.lookup (lit "event_id") = some v → v.hashable = true := by
    intro v hv
    rw [sampleAltered, List.lookup_cons_self, Option.some.injEq] at hv
    rw [← hv]
    rfl
  rw [← hget] at hleaf
  have hpasses := entryPasses_retentionEntry hlt hleaf hid (List.cons_ne_nil _ _) hproof
  rw [hget] at hleaf hpasses
  exact ⟨_, proof, _, rfl, commit_sampleDecision, hproof, @checkpoint_sampleLedger [], hhead, rfl,
    by decide, by decide, hleaf.trans leaf_sampleRecord.symm, hpasses⟩

end OpenWright
