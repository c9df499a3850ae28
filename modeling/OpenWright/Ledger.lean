import OpenWright.Encodable
import OpenWright.Events
import OpenWright.Signing
import OpenWright.Merkle.Incremental

/-! # The evidence ledger

A ledger keeps three copies of its log: the records of a storage backend, the list of leaf hashes,
and the frontier of the Merkle tree. `commit` prepares an event (id, leaf hash, timestamps) and then,
under the ledger's lock, appends to the three in turn; opening a ledger reads the leaf hashes back
from the records.

* **`run_inv`** — the three copies agree in every reachable state, through failing commits and
  reopenings. -/

namespace OpenWright

open Python Canonical Merkle Signing

/-! ## Backends -/

/-- `LedgerBackend`: append-only storage with states `σ`. An append either appends the record or
raises and leaves the records as they are. -/
structure LedgerBackend (σ : Type) where
  /-- What `iter_records` yields; `size` counts it and `get_record` indexes it. -/
  records : σ → List Val
  appendRecord : σ → Val → Except PyErr Unit × σ
  records_append : ∀ s r, (appendRecord s r).1 = .ok () →
    records (appendRecord s r).2 = records s ++ [r]
  records_refuse : ∀ s r err, (appendRecord s r).1 = .error err →
    records (appendRecord s r).2 = records s

/-- `InMemoryLedgerBackend`. -/
def inMemoryLedgerBackend : LedgerBackend (List Val) where
  records := id
  appendRecord s r := (.ok (), s ++ [r])
  records_append _ _ _ := rfl
  records_refuse _ _ _ h := by cases h

variable {σ : Type} (B : LedgerBackend σ)

/-! ## The ledger -/

/-- `Ledger`. The clock is not part of it: what it shows is an argument of the methods. -/
structure Ledger (σ : Type) where
  store : σ
  origin : Str
  /-- The time `retention` after a timestamp: `fromisoformat`, addition and `to_rfc3339`. -/
  retention : Option (Str → Except PyErr Str)
  leaves : List Bytes
  tree : IncrementalMerkleTree

/-- `_leaf_bytes_from_record`. -/
def leafBytesFromRecord (record : Val) : Except PyErr Bytes := do
  let ledger ← record.getD (lit "ledger") (.dict [])
  let ref ← ledger.getD (lit "leaf_hash") (.str [])
  match ref with
  | .str s => unhex (afterLast (cp 58) s)
  | _ => .error { kind := .attributeError }

namespace Ledger

/-- `Ledger.__init__`: the leaf hashes are read back from the records. -/
def init (store : σ) (origin : Str) (retention : Option (Str → Except PyErr Str)) :
    Except PyErr (Ledger σ) := do
  let leaves ← (B.records store).mapM leafBytesFromRecord
  return { store, origin, retention, leaves, tree := .fromLeaves leaves }

/-- What `commit` has computed when it takes the lock. -/
structure Prepared where
  /-- The event with its id. -/
  event : ComplianceEvent
  leaf : Bytes
  committedAt : Str
  retentionUntil : Option Str
  /-- The leaf is the hash of the event's leaf content. -/
  leaf_spec : ∃ data, event.leafContentBytes = .ok data ∧ leaf = leafHash data

/-- The part of `commit` before the lock. -/
def prepare (retention : Option (Str → Except PyErr Str)) (event : ComplianceEvent)
    (clock : Except PyErr Str) : Except PyErr Prepared := do
  -- the id is derived first, since it is part of the leaf
  let event ← event.finalizeId
  match hdata : event.leafContentBytes with
  | .error err => .error err
  | .ok data =>
    -- the clock is read before the lock is taken, so times need not be in the order of the records
    let committedAt ← clock
    let retentionUntil ← retention.mapM (· committedAt)
    return { event, leaf := leafHash data, committedAt, retentionUntil,
             leaf_spec := ⟨data, hdata, rfl⟩ }

/-- The ledger fields `commit` assigns. -/
def ledgerFields (p : Prepared) (leafIndex : Nat) : LedgerFields where
  leafHash := some (lit "sha256:" ++ hex p.leaf)
  leafIndex := some leafIndex
  committedAt := some p.committedAt
  retentionUntil := p.retentionUntil

/-- The locked block of `commit`. -/
def commitLocked (l : Ledger σ) (p : Prepared) : Except PyErr ComplianceEvent × Ledger σ :=
  let event := { p.event with ledger := some (ledgerFields p (B.records l.store).length) }
  match event.dump with
  | .error err => (.error err, l)
  | .ok record =>
    -- the record is durable before the leaf is in the tree
    match B.appendRecord l.store record with
    | (.error err, store) => (.error err, { l with store })
    | (.ok (), store) =>
      (.ok event, { l with store, leaves := l.leaves ++ [p.leaf], tree := l.tree.append p.leaf })

/-- `commit`. -/
def commit (l : Ledger σ) (event : ComplianceEvent) (clock : Except PyErr Str) :
    Except PyErr ComplianceEvent × Ledger σ :=
  match prepare l.retention event clock with
  | .error err => (.error err, l)
  | .ok p => commitLocked B l p

/-- The event `correct` commits. -/
def correctionEvent (timestamp targetEventId reason actorId : Str) : ComplianceEvent where
  content := .ok [(lit "schema_version", .str (lit "1.0.0")), (lit "timestamp", .str timestamp),
    (lit "kind", .str (lit "correction")), (lit "actor", .dict [(lit "agent_id", .str actorId)]),
    (lit "provenance", .dict []),
    (lit "attributes", .dict [(lit "corrects_event_id", .str targetEventId),
      (lit "reason", .str reason)]),
    (lit "labels", .dict []), (lit "source", .dict [(lit "format", .str (lit "sdk"))])]
  content_keys := by
    intro kvs hkvs kv hkv
    rw [← Except.ok.inj hkvs] at hkv
    simp only [List.mem_cons, List.not_mem_nil, or_false] at hkv
    rcases hkv with rfl | rfl | rfl | rfl | rfl | rfl | rfl | rfl <;>
      exact ⟨by simp only; decide, by simp only; decide⟩

/-- `correct`: a correction is a new event. The clock is read twice. -/
def correct (l : Ledger σ) (targetEventId reason actorId : Str) (clock clock' : Except PyErr Str) :
    Except PyErr ComplianceEvent × Ledger σ :=
  match clock with
  | .error err => (.error err, l)
  | .ok timestamp =>
    commit B l (correctionEvent timestamp targetEventId reason actorId) clock'

/-- `root`. -/
def root (l : Ledger σ) : Bytes := l.tree.root

/-! ## What the methods do -/

/-- The locked block raises and leaves the records as they are, or it appends to all three copies
the record of the event and its leaf. -/
theorem commitLocked_cases (l : Ledger σ) (p : Prepared) :
    (∃ err store, commitLocked B l p = (.error err, { l with store }) ∧
        B.records store = B.records l.store) ∨
      ∃ event record store, commitLocked B l p = (.ok event,
          { l with store, leaves := l.leaves ++ [p.leaf], tree := l.tree.append p.leaf }) ∧
        event = { p.event with ledger := some (ledgerFields p (B.records l.store).length) } ∧
        event.dump = .ok record ∧ B.records store = B.records l.store ++ [record] := by
  rw [commitLocked]
  split
  · rename_i err _
    exact Or.inl ⟨err, l.store, rfl, rfl⟩
  · rename_i record hrecord
    split
    · rename_i err store happend
      refine Or.inl ⟨err, store, rfl, ?_⟩
      have hrefuse := B.records_refuse l.store record err
      rw [happend] at hrefuse
      exact hrefuse rfl
    · rename_i store happend
      refine Or.inr ⟨_, record, store, rfl, rfl, hrecord, ?_⟩
      have hok := B.records_append l.store record
      rw [happend] at hok
      exact hok rfl

/-- `commit` raises and leaves the records as they are, or it is the locked block of what it
prepared. -/
theorem commit_cases (l : Ledger σ) (event : ComplianceEvent) (clock : Except PyErr Str) :
    (∃ err, commit B l event clock = (.error err, l)) ∨
      ∃ p, prepare l.retention event clock = .ok p ∧ commit B l event clock = commitLocked B l p := by
  rw [commit]
  cases hprepare : prepare l.retention event clock with
  | error err => exact Or.inl ⟨err, rfl⟩
  | ok p => exact Or.inr ⟨p, rfl, rfl⟩

/-- Preparing an event changes its id only. -/
theorem content_of_prepare {retention : Option (Str → Except PyErr Str)} {event : ComplianceEvent}
    {clock : Except PyErr Str} {p : Prepared} (h : prepare retention event clock = .ok p) :
    p.event.content = event.content := by
  rw [prepare] at h
  obtain ⟨event', hevent', h⟩ := bind_eq_ok.mp h
  have hcontent : event'.content = event.content := by
    rw [ComplianceEvent.finalizeId] at hevent'
    obtain ⟨eventId, -, hid⟩ := bind_eq_ok.mp hevent'
    rw [← pure_eq_ok.mp hid]
  split at h
  · cases h
  · obtain ⟨committedAt, -, h⟩ := bind_eq_ok.mp h
    obtain ⟨retentionUntil, -, h⟩ := bind_eq_ok.mp h
    rw [← pure_eq_ok.mp h]
    exact hcontent

/-- An event is prepared where it has an id and leaf content. -/
theorem prepare_of {event : ComplianceEvent} {eventId committedAt : Str} {data : Bytes}
    (hid : event.finalizeId = .ok { event with eventId })
    (hdata : ({ event with eventId } : ComplianceEvent).leafContentBytes = .ok data) :
    prepare none event (.ok committedAt) = .ok {
      event := { event with eventId }
      leaf := leafHash data
      committedAt
      retentionUntil := none
      leaf_spec := ⟨data, hdata, rfl⟩ } := by
  rw [prepare, hid]
  refine bind_eq_ok.mpr ⟨_, rfl, ?_⟩
  split
  · rename_i err herr
    rw [hdata] at herr
    cases herr
  · rename_i data' hdata'
    rw [hdata] at hdata'
    cases hdata'
    rfl

/-- The dump of a prepared event with its ledger fields. -/
theorem dump_committed {p : Prepared} {kvs : Items} (h : p.event.content = .ok kvs) (i : Nat) :
    ({ p.event with ledger := some (ledgerFields p i) } : ComplianceEvent).dump
      = .ok (.dict ((lit "event_id", .str p.event.eventId) :: kvs
        ++ [(lit "ledger", (ledgerFields p i).dump)])) := by
  have hcontent : ({ p.event with ledger := some (ledgerFields p i) } : ComplianceEvent).content
      = .ok kvs := h
  rw [ComplianceEvent.dump, ComplianceEvent.dumpItems_eq hcontent]
  rfl

/-- The memory backend stores every event with a dump. -/
theorem commitLocked_inMemory {l : Ledger (List Val)} {p : Prepared} {kvs : Items}
    (h : p.event.content = .ok kvs) :
    commitLocked inMemoryLedgerBackend l p
      = (.ok { p.event with ledger := some (ledgerFields p l.store.length) }, { l with
          store := l.store ++ [.dict ((lit "event_id", .str p.event.eventId) :: kvs
            ++ [(lit "ledger", (ledgerFields p l.store.length).dump)])]
          leaves := l.leaves ++ [p.leaf]
          tree := l.tree.append p.leaf }) := by
  rw [commitLocked]
  dsimp only [inMemoryLedgerBackend, id]
  rw [dump_committed h]

/-- An encodable event has an id. -/
theorem exists_finalizeId {event : ComplianceEvent} {kvs : Items} (hkvs : event.content = .ok kvs)
    (h : EncodableItems kvs) :
    ∃ eventId, Scalar eventId ∧ event.finalizeId = .ok { event with eventId } := by
  obtain ⟨content, hcontent⟩ : ∃ b, canonicalBytes (.dict kvs) = .ok b := exists_canonicalBytes h
  refine ⟨lit "evt_" ++ (sha256Hex content).take 40, ?_, ?_⟩
  · refine scalar_append.mpr ⟨scalar_lit _, fun c hc => ?_⟩
    exact scalar_hex _ c (List.mem_of_mem_take hc)
  · rw [ComplianceEvent.finalizeId, ComplianceEvent.deriveEventId,
      ComplianceEvent.contentForId_eq hkvs]
    exact bind_eq_ok.mpr ⟨_, bind_eq_ok.mpr ⟨_, rfl, bind_eq_ok.mpr ⟨_, hcontent, rfl⟩⟩, rfl⟩

/-- What `commit` adds to an event has no surrogates. -/
structure Prepared.Encodable (p : Prepared) : Prop where
  eventId : Scalar p.event.eventId
  committedAt : Scalar p.committedAt
  retentionUntil : ∀ t, p.retentionUntil = some t → Scalar t

/-- The ledger fields are encodable. -/
theorem Prepared.Encodable.ledgerFields {p : Prepared} (h : p.Encodable) (i : Nat) :
    Canonical.Encodable (Ledger.ledgerFields p i).dump := by
  have hretention := h.retentionUntil
  rw [Ledger.ledgerFields]
  cases hp : p.retentionUntil with
  | none => simp [LedgerFields.dump, Canonical.Encodable, EncodableItems, h.committedAt]
  | some t =>
      simp [LedgerFields.dump, Canonical.Encodable, EncodableItems, h.committedAt, hretention t hp]

/-- **An encodable event is committed.** -/
theorem exists_commit {l : Ledger (List Val)} {event : ComplianceEvent} {kvs : Items}
    {committedAt : Str} (hretention : l.retention = none) (hkvs : event.content = .ok kvs)
    (h : EncodableItems kvs) (hcommitted : Scalar committedAt) :
    ∃ p : Prepared, p.Encodable ∧ p.event.content = .ok kvs ∧
      commit inMemoryLedgerBackend l event (.ok committedAt)
        = commitLocked inMemoryLedgerBackend l p := by
  obtain ⟨eventId, hscalar, hid⟩ := exists_finalizeId hkvs h
  have hcontent : ({ event with eventId } : ComplianceEvent).content = .ok kvs := hkvs
  obtain ⟨data, hdata⟩ : ∃ b, ({ event with eventId } : ComplianceEvent).leafContentBytes
      = .ok b := by
    rw [ComplianceEvent.leafContentBytes, ComplianceEvent.leafContent_eq hcontent]
    exact exists_canonicalBytes ⟨scalar_lit _, hscalar, h⟩
  have hprepare := @prepare_of _ _ committedAt _ hid hdata
  rw [← hretention] at hprepare
  refine ⟨_, ⟨hscalar, hcommitted, fun _ ht => ?_⟩, hkvs, by rw [commit, hprepare]⟩
  cases ht

/-- **A commit that raises leaves the three copies unchanged.** -/
theorem commit_error {l : Ledger σ} {event : ComplianceEvent} {clock : Except PyErr Str} {err : PyErr}
    (h : (commit B l event clock).1 = .error err) :
    B.records (commit B l event clock).2.store = B.records l.store ∧
      (commit B l event clock).2.leaves = l.leaves ∧ (commit B l event clock).2.tree = l.tree := by
  rcases commit_cases B l event clock with ⟨err', hcommit⟩ | ⟨p, -, hcommit⟩
  · rw [hcommit]
    exact ⟨rfl, rfl, rfl⟩
  · rcases commitLocked_cases B l p with ⟨err', store, hlocked, hrecords⟩ | ⟨_, _, _, hlocked, -⟩
    · rw [hcommit, hlocked]
      exact ⟨hrecords, rfl, rfl⟩
    · rw [hcommit, hlocked] at h
      cases h

/-! ## The invariant -/

/-- A record is stored at index `i` with the given leaf hash. -/
structure Recorded (i : Nat) (leaf : Bytes) (record : Val) : Prop where
  leaf_eq : leafFromEventDict record = .ok leaf
  ledger_eq : ∃ ledger, record.item? (lit "ledger") = some ledger ∧
    ledger.item? (lit "leaf_index") = some (.int i) ∧
    ledger.item? (lit "leaf_hash") = some (.str (lit "sha256:" ++ hex leaf))

/-- The three copies of the log agree. -/
structure Inv (l : Ledger σ) : Prop where
  tree : l.tree.Represents l.leaves
  length_records : (B.records l.store).length = l.leaves.length
  recorded : ∀ i record leaf, (B.records l.store)[i]? = some record → l.leaves[i]? = some leaf →
    Recorded i leaf record

/-- What `commit` appends is recorded. -/
theorem recorded_of_dump {p : Prepared} {i : Nat} {record : Val}
    (h : ({ p.event with ledger := some (ledgerFields p i) } : ComplianceEvent).dump = .ok record) :
    Recorded i p.leaf record := by
  obtain ⟨data, hdata, hleaf⟩ := p.leaf_spec
  constructor
  · rw [hleaf]
    refine ComplianceEvent.leafFromEventDict_dump h ?_
    rwa [ComplianceEvent.leafContentBytes_eq_ok] at hdata ⊢
  · refine ⟨_, ComplianceEvent.item?_ledger h, ?_, ?_⟩
    · rfl
    · rfl

/-- The stored leaf hash is read back. -/
theorem Recorded.leafBytesFromRecord_eq {i : Nat} {leaf : Bytes} {record : Val}
    (h : Recorded i leaf record) : leafBytesFromRecord record = .ok leaf := by
  obtain ⟨ledger, hledger, -, hhash⟩ := h.ledger_eq
  rw [leafBytesFromRecord, Val.getD_eq_ok hledger]
  refine bind_eq_ok.mpr ⟨ledger, rfl, ?_⟩
  rw [Val.getD_eq_ok hhash]
  refine bind_eq_ok.mpr ⟨_, rfl, ?_⟩
  have hlast : afterLast (cp 58) (lit "sha256:" ++ hex leaf) = hex leaf :=
    afterLast_append (lit "sha256") (not_mem_hex leaf)
  dsimp only
  rw [hlast]
  exact unhex_eq_ok.mpr (fromhex_hex leaf)

variable {B}

/-- A failed append keeps the invariant. -/
theorem Inv.withStore {l : Ledger σ} (h : Inv B l) {store : σ}
    (hrecords : B.records store = B.records l.store) : Inv B { l with store } where
  tree := h.tree
  length_records := hrecords ▸ h.length_records
  recorded := hrecords ▸ h.recorded

/-- **The locked block keeps the invariant.** -/
theorem Inv.commitLocked {l : Ledger σ} (h : Inv B l) (p : Prepared) :
    Inv B (commitLocked B l p).2 := by
  rcases commitLocked_cases B l p with
    ⟨err, store, hlocked, hrecords⟩ | ⟨event, record, store, hlocked, rfl, hdump, hrecords⟩
  · rw [hlocked]
    exact h.withStore hrecords
  · rw [hlocked]
    refine ⟨h.tree.append p.leaf, ?_, fun i record' leaf hrecord hleaf => ?_⟩
    · rw [hrecords, List.length_append, List.length_append, h.length_records]
      rfl
    · dsimp only at hrecord hleaf
      rw [hrecords] at hrecord
      rcases Nat.lt_or_ge i l.leaves.length with hlt | hge
      · -- an earlier record
        rw [List.getElem?_append_left (h.length_records ▸ hlt)] at hrecord
        rw [List.getElem?_append_left hlt] at hleaf
        exact h.recorded i record' leaf hrecord hleaf
      · -- the new one
        rw [List.getElem?_append_right (h.length_records ▸ hge), h.length_records] at hrecord
        rw [List.getElem?_append_right hge] at hleaf
        obtain ⟨hi, rfl⟩ := List.getElem?_eq_some_iff.mp hleaf
        have hzero : i - l.leaves.length = 0 := Nat.lt_one_iff.mp hi
        simp only [hzero, List.getElem?_cons_zero, Option.some.injEq] at hrecord
        simp only [hzero, List.getElem_cons_zero]
        have hi' : i = (B.records l.store).length := by rw [h.length_records]; omega
        rw [← hrecord, hi']
        exact recorded_of_dump hdump

/-- Committing keeps the invariant. -/
theorem Inv.commit {l : Ledger σ} (h : Inv B l) (event : ComplianceEvent) (clock : Except PyErr Str) :
    Inv B (commit B l event clock).2 := by
  rcases commit_cases B l event clock with ⟨err, hcommit⟩ | ⟨p, -, hcommit⟩
  · rwa [hcommit]
  · rw [hcommit]
    exact h.commitLocked p

/-- **Reopening reads the same leaves back.** -/
theorem Inv.init {l : Ledger σ} (h : Inv B l) (origin : Str)
    (retention : Option (Str → Except PyErr Str)) :
    init B l.store origin retention = .ok { l with origin, retention, tree := .fromLeaves l.leaves } := by
  have hread : (B.records l.store).mapM leafBytesFromRecord = .ok l.leaves := by
    refine mapM_eq_ok.mpr (List.forall₂_iff_get.mpr ⟨h.length_records, fun i hi hi' => ?_⟩)
    exact (h.recorded i _ _ (List.getElem?_eq_getElem hi)
      (List.getElem?_eq_getElem hi')).leafBytesFromRecord_eq
  rw [Ledger.init, hread]
  rfl

/-- A new ledger on an empty backend. -/
theorem init_empty {store : σ} (hstore : B.records store = []) (origin : Str)
    (retention : Option (Str → Except PyErr Str)) :
    ∃ l, Ledger.init B store origin retention = .ok l ∧ Inv B l := by
  refine ⟨{ store, origin, retention, leaves := [], tree := .new }, ?_, ?_⟩
  · rw [Ledger.init, hstore]
    rfl
  · refine ⟨IncrementalMerkleTree.represents_new, by rw [hstore]; rfl, fun i record leaf h => ?_⟩
    rw [hstore] at h
    cases h

/-! ## Runs -/

/-- What happens to a ledger. -/
inductive LedgerCall
  | commit (event : ComplianceEvent) (clock : Except PyErr Str)
  | correct (targetEventId reason actorId : Str) (clock clock' : Except PyErr Str)
  | reopen (origin : Str) (retention : Option (Str → Except PyErr Str))

variable (B)

/-- The ledger after a call; a new one after a reopening. -/
def step (l : Ledger σ) : LedgerCall → Ledger σ
  | .commit event clock => (commit B l event clock).2
  | .correct targetEventId reason actorId clock clock' =>
    (correct B l targetEventId reason actorId clock clock').2
  | .reopen origin retention =>
    match Ledger.init B l.store origin retention with
    | .ok l' => l'
    | .error _ => l

/-- The ledger after a sequence of calls. -/
def run (l : Ledger σ) (calls : List LedgerCall) : Ledger σ := calls.foldl (step B) l

variable {B}

/-- **Every call keeps the invariant.** -/
theorem Inv.step {l : Ledger σ} (h : Inv B l) (call : LedgerCall) : Inv B (step B l call) := by
  cases call with
  | commit event clock => exact h.commit event clock
  | correct targetEventId reason actorId clock clock' =>
      cases clock with
      | error err => exact h
      | ok timestamp => exact h.commit _ clock'
  | reopen origin retention =>
      rw [Ledger.step, h.init origin retention]
      exact ⟨IncrementalMerkleTree.represents_fromLeaves l.leaves, h.length_records, h.recorded⟩

/-- **Every run keeps the invariant.** -/
theorem Inv.run {l : Ledger σ} (h : Inv B l) (calls : List LedgerCall) : Inv B (run B l calls) := by
  induction calls generalizing l with
  | nil => exact h
  | cons call calls ih => exact ih (h.step call)

/-! ## Records are dumps -/

variable (B) in
/-- Every record is the dump of an event. -/
def Dumped (l : Ledger σ) : Prop :=
  ∀ record ∈ B.records l.store, ∃ event : ComplianceEvent, event.dump = .ok record

/-- A new ledger on an empty backend has no records. -/
theorem dumped_init_empty {store : σ} (hstore : B.records store = []) {origin : Str}
    {retention : Option (Str → Except PyErr Str)} {l : Ledger σ}
    (h : Ledger.init B store origin retention = .ok l) : Dumped B l := by
  rw [Ledger.init] at h
  obtain ⟨leaves, -, h⟩ := bind_eq_ok.mp h
  rw [← pure_eq_ok.mp h]
  intro record hrecord
  dsimp only at hrecord
  rw [hstore] at hrecord
  cases hrecord

/-- The locked block appends a dump. -/
theorem Dumped.commitLocked {l : Ledger σ} (h : Dumped B l) (p : Prepared) :
    Dumped B (commitLocked B l p).2 := by
  rcases commitLocked_cases B l p with
    ⟨err, store, hlocked, hrecords⟩ | ⟨event, record, store, hlocked, -, hdump, hrecords⟩
  · rw [hlocked]
    intro record hrecord
    exact h record (hrecords ▸ hrecord)
  · rw [hlocked]
    intro record' hrecord'
    dsimp only at hrecord'
    rw [hrecords] at hrecord'
    rcases List.mem_append.mp hrecord' with hmem | hmem
    · exact h record' hmem
    · exact ⟨event, List.mem_singleton.mp hmem ▸ hdump⟩

/-- A commit appends a dump, or nothing. -/
theorem Dumped.commit {l : Ledger σ} (h : Dumped B l) (event : ComplianceEvent)
    (clock : Except PyErr Str) : Dumped B (commit B l event clock).2 := by
  rcases commit_cases B l event clock with ⟨err, hcommit⟩ | ⟨p, -, hcommit⟩
  · rwa [hcommit]
  · rw [hcommit]
    exact h.commitLocked p

/-- Each call appends dumps, or nothing. -/
theorem Dumped.step {l : Ledger σ} (h : Dumped B l) (call : LedgerCall) : Dumped B (step B l call) := by
  cases call with
  | commit event clock => exact h.commit event clock
  | correct targetEventId reason actorId clock clock' =>
      cases clock with
      | error err => exact h
      | ok timestamp => exact h.commit _ clock'
  | reopen origin retention =>
      rw [Ledger.step]
      split
      · rename_i l' hinit
        rw [Ledger.init] at hinit
        obtain ⟨leaves, -, hinit⟩ := bind_eq_ok.mp hinit
        rw [← pure_eq_ok.mp hinit]
        exact h
      · exact h

/-- **In every run the records are dumps of events.** -/
theorem Dumped.run {l : Ledger σ} (h : Dumped B l) (calls : List LedgerCall) :
    Dumped B (run B l calls) := by
  induction calls generalizing l with
  | nil => exact h
  | cons call calls ih => exact ih (h.step call)

/-- A correction that raises leaves the three copies unchanged. -/
theorem correct_error {l : Ledger σ} {targetEventId reason actorId : Str}
    {clock clock' : Except PyErr Str} {err : PyErr}
    (h : (correct B l targetEventId reason actorId clock clock').1 = .error err) :
    let l' := (correct B l targetEventId reason actorId clock clock').2
    B.records l'.store = B.records l.store ∧ l'.leaves = l.leaves ∧ l'.tree = l.tree := by
  cases clock with
  | error err' => exact ⟨rfl, rfl, rfl⟩
  | ok timestamp =>
      have hcorrect : correct B l targetEventId reason actorId (.ok timestamp) clock'
          = commit B l (correctionEvent timestamp targetEventId reason actorId) clock' := rfl
      rw [hcorrect] at h ⊢
      exact commit_error B h

/-- **The representation invariant of the ledger.** In every state that commits, corrections and
reopenings reach from an empty backend: the records, the leaves and the tree have one size; record
`i` has leaf index `i` and the leaf hash of its content, which is leaf `i`; the root is the tree hash
of the leaves; a commit or correction that raises changes none of the three; and reopening gives the
same size and root. -/
theorem run_inv (B : LedgerBackend σ) (store : σ) (hstore : B.records store = []) (origin : Str)
    (retention : Option (Str → Except PyErr Str)) (calls : List LedgerCall) :
    ∃ l₀, Ledger.init B store origin retention = .ok l₀ ∧
      let l := run B l₀ calls
      (B.records l.store).length = l.leaves.length ∧ l.tree.size = l.leaves.length ∧
      (∀ i record, (B.records l.store)[i]? = some record →
        ∃ leaf, l.leaves[i]? = some leaf ∧ Recorded i leaf record) ∧
      l.root = treeHash l.leaves ∧
      (∀ event clock err, (commit B l event clock).1 = .error err →
        let l' := (commit B l event clock).2
        B.records l'.store = B.records l.store ∧ l'.leaves = l.leaves ∧ l'.tree = l.tree) ∧
      (∀ target reason actor clock clock' err,
        (correct B l target reason actor clock clock').1 = .error err →
        let l' := (correct B l target reason actor clock clock').2
        B.records l'.store = B.records l.store ∧ l'.leaves = l.leaves ∧ l'.tree = l.tree) ∧
      ∀ origin' retention', ∃ l', Ledger.init B l.store origin' retention' = .ok l' ∧
        l'.root = l.root ∧ l'.leaves.length = l.leaves.length := by
  obtain ⟨l₀, hinit, hinv₀⟩ := init_empty hstore origin retention
  refine ⟨l₀, hinit, ?_⟩
  have hinv := hinv₀.run calls
  intro l
  have hroot : l.root = treeHash l.leaves := hinv.tree.root_eq
  -- one invariant gives all the parts, and what raises leaves the state that has it
  refine ⟨hinv.length_records, hinv.tree.size_eq, fun i record hrecord => ?_, hroot,
    fun event clock err => commit_error B, fun target reason actor clock clock' err => correct_error,
    fun origin' retention' => ⟨_, hinv.init origin' retention', ?_, rfl⟩⟩
  · have hi := (List.getElem?_eq_some_iff.mp hrecord).1
    rw [hinv.length_records] at hi
    exact ⟨l.leaves[i], List.getElem?_eq_getElem hi,
      hinv.recorded i record _ hrecord (List.getElem?_eq_getElem hi)⟩
  · exact (IncrementalMerkleTree.represents_fromLeaves l.leaves).root_eq.trans hroot.symm

/-- A correction is committed, an event with a float in it is refused, and the ledger is opened
again. -/
def sampleCalls : List LedgerCall :=
  [.correct (lit "evt_1") (lit "wrong model") (lit "agent-1") (.ok (lit "2026-01-01T00:00:00Z"))
      (.ok (lit "2026-01-01T00:00:01Z")),
    .commit { content := .ok [(lit "score", .float (.finite (1 / 2)))],
              content_keys := by
                intro kvs hkvs kv hkv
                rw [← Except.ok.inj hkvs, List.mem_singleton] at hkv
                rw [hkv]
                exact ⟨by simp only; decide, by simp only; decide⟩ }
      (.ok (lit "2026-01-01T00:00:02Z")),
    .reopen (lit "demo") none]

/-- The invariant after the sample calls on a ledger in memory. -/
theorem run_inv_sample : ∃ l₀, Ledger.init inMemoryLedgerBackend [] (lit "demo") none = .ok l₀ ∧
    let l := run inMemoryLedgerBackend l₀ sampleCalls
    (inMemoryLedgerBackend.records l.store).length = l.leaves.length ∧
      l.root = treeHash l.leaves := by
  obtain ⟨l₀, hinit, h⟩ := run_inv inMemoryLedgerBackend [] rfl (lit "demo") none sampleCalls
  exact ⟨l₀, hinit, h.1, h.2.2.2.1⟩

end Ledger

end OpenWright
