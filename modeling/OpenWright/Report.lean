import Mathlib.Data.List.Dedup
import OpenWright.DeepVerify
import OpenWright.Encodable
import OpenWright.LedgerThreads
import OpenWright.Python.Text
import OpenWright.VerifyAccepts

/-! # Reports

The producer of signed reports: the signed checkpoint, every event with its inclusion proof at the
checkpoint's size, the results of the controls, and a signature over all of it.

* **`buildReport_verifies`** — a report built while the ledger is at rest is found valid by the deep
  verifier, with the verdicts that were reported. -/

namespace OpenWright

open Python Python.Val Canonical Signing Verify

/-- `REPORT_VERSION`. -/
def reportVersion : Str := lit "1.0.0"

/-- `__version__`. -/
def toolVersion : Str := lit "0.7.1"

/-- `BOUNDARY_STATEMENT`. -/
def boundaryStatement : Str :=
  lit "This report constitutes EVIDENCE that the listed controls were exercised at "
    ++ lit "runtime, attested with a tamper-evident Merkle log and an Ed25519 signature. "
    ++ lit "It DOES NOT constitute legal compliance, certification, conformity assessment, "
    ++ lit "or an audit opinion. Determinations of compliance are reserved for qualified "
    ++ lit "auditors, notified bodies, and counsel. Crosswalks are maintainer-authored, "
    ++ lit "rigorously cited, and pending qualified legal/standards review."

/-! ## Reading the ledger -/

/-- An event of a report, with what is read off it. -/
structure ReportEntry where
  /-- The dump of the event. -/
  event : Val
  leafIndex : Nat
  proof : List Str
  timestamp : Str
  agentId : Str
deriving DecidableEq

/-- The item of a report's event list. -/
def ReportEntry.dump (e : ReportEntry) : Val :=
  .dict [(lit "event", e.event), (lit "leaf_index", .int e.leafIndex),
    (lit "leaf_hash", entry (lit "leaf_hash") (entry (lit "ledger") e.event)),
    (lit "inclusion_proof", .list (e.proof.map .str))]

/-- An attribute of type `str`. -/
def strAttr : Val → Except PyErr Str
  | .str s => .ok s
  | _ => .error { kind := .attributeError }

namespace Ledger

variable {σ : Type} (B : LedgerBackend σ) (reload : Reload)

/-- `get_event`, dumped. -/
def getEvent (l : Ledger σ) (index : Nat) : Except PyErr Val :=
  match (B.records l.store)[index]? with
  | some record => reload record
  | none => .error { kind := .indexError }

/-- `list(ledger.events())`, dumped. -/
def events (l : Ledger σ) : Except PyErr (List Val) := (B.records l.store).mapM reload

/-- The body of the loop of `build_report` over the leaf indices. -/
def reportEntry (l : Ledger σ) (treeSize : Int) (index : Nat) : Except PyErr ReportEntry := do
  let event ← l.getEvent B reload index
  let timestamp ← strAttr (entry (lit "timestamp") event)
  let agentId ← strAttr (entry (lit "agent_id") (entry (lit "actor") event))
  let proof ← l.inclusionProofHex index (some treeSize)
  return { event, leafIndex := index, proof, timestamp, agentId }

end Ledger

/-! ## Assembling a report -/

/-- The options of `build_report`. -/
structure ReportOptions where
  scopeDescription : Str
  agentIds : Option (List Str) := none
  period : Option (List (Str × Str)) := none
  checkpoint : Option Checkpoint := none
  reportId : Option Str := none
  generatedAt : Option Str := none

/-- What a report takes from outside: a fresh id, the two clocks, the PEM writer, and the decision
of the authorizer. -/
structure ReportEnv where
  uuid : Str
  now : Except PyErr Str
  clock : Except PyErr Str
  publicKeyPem : Bytes → Except PyErr Str
  authorized : Except PyErr Unit := .ok ()

/-- `s or d` for an optional string. -/
def orDefault (s : Option Str) (d : Str) : Str :=
  match s with
  | none | some [] => d
  | some t => t

/-- The period a report covers: the given one, or that of the timestamps. -/
def reportPeriod (period : Option (List (Str × Str))) (timestamps : List Str) : Items :=
  match period with
  | some kvs => kvs.map fun kv => (kv.1, .str kv.2)
  | none =>
    match timestamps.min?, timestamps.max? with
    | some first, some last => [(lit "start", .str first), (lit "end", .str last)]
    | _, _ => []

/-- `sorted(agent_ids or seen_agents)`, where `seen_agents` is a set. -/
def reportAgents (agentIds : Option (List Str)) (seenAgents : List Str) : List Str :=
  match agentIds with
  | none | some [] => seenAgents.dedup.insertionSort (· ≤ ·)
  | some ids => ids.insertionSort (· ≤ ·)

/-- An attested evidence gap at the top level of a report. -/
def evidenceGap (e : ReportEntry) : Val :=
  let attrs := attributes e.event
  .dict [(lit "event_id", entry (lit "event_id") e.event), (lit "leaf_index", .int e.leafIndex),
    (lit "dropped_events", entry (lit "dropped_events") attrs),
    (lit "window_start", entry (lit "window_start") attrs),
    (lit "window_end", entry (lit "window_end") attrs)]

/-- `model_dump(mode="json")` of a checkpoint. -/
def Signing.Checkpoint.dump (c : Checkpoint) : Val :=
  jsonMode <| .dict <| [(lit "origin", .str c.origin), (lit "tree_size", .int c.treeSize),
    (lit "root_hash", .str c.rootHash), (lit "timestamp", .str c.timestamp),
    (lit "public_key_id", .str c.publicKeyId), (lit "signature", .str c.signature)] ++ c.extra

/-- An optional string. -/
def optStr (s : Option Str) : Val := (s.map Val.str).getD .null

/-- The crosswalk block of a report. -/
def CrosswalkResult.block (cr : CrosswalkResult) : Val :=
  .dict [(lit "id", .str cr.crosswalkId), (lit "title", .str cr.crosswalkTitle),
    (lit "version", .str cr.crosswalkVersion),
    (lit "content_hash", optStr cr.crosswalkContentHash), (lit "source", .str cr.source),
    (lit "reviewed_as_of", .str cr.reviewedAsOf), (lit "disclaimer", optStr cr.disclaimer)]

/-- The summary block of a report. -/
def CrosswalkResult.summary (cr : CrosswalkResult) : Val :=
  .dict [(lit "total", .int cr.controls.length), (lit "satisfied", .int (cr.count .satisfied)),
    (lit "not_satisfied", .int (cr.count .notSatisfied)),
    (lit "insufficient_evidence", .int (cr.count .insufficientEvidence))]

/-- The report without its signature. -/
def unsignedReport (cr : CrosswalkResult) (options : ReportOptions) (reportId generatedAt pem : Str)
    (c : Checkpoint) (entries gaps : List ReportEntry) : Items :=
  [(lit "report_version", .str reportVersion), (lit "report_id", .str reportId),
    (lit "generated_at", .str generatedAt),
    (lit "tool", .dict [(lit "name", .str (lit "openwright")), (lit "version", .str toolVersion)]),
    (lit "boundary_statement", .str boundaryStatement),
    (lit "scope", .dict [(lit "description", .str options.scopeDescription),
      (lit "agent_ids", strings (reportAgents options.agentIds (entries.map (·.agentId))))]),
    (lit "period", .dict (reportPeriod options.period (entries.map (·.timestamp)))),
    (lit "crosswalk", cr.block), (lit "summary", cr.summary),
    (lit "controls", .list (cr.controls.map ControlResult.dump)),
    (lit "evidence_gaps", .list (gaps.map evidenceGap)), (lit "checkpoint", c.dump),
    (lit "events", .list (entries.map ReportEntry.dump)), (lit "public_key_pem", .str pem)]

/-- `_signing_payload`. -/
def signingPayload (report : Items) : Except PyErr Bytes :=
  canonicalBytes (.dict (report.filter fun kv => kv.1 ≠ lit "signature"))

/-- The signature block of a report. -/
def signatureBlock (key : KeySource) (signature : Bytes) : Val :=
  .dict [(lit "algorithm", .str (lit "ed25519")), (lit "public_key_id", .str key.keyId),
    (lit "signature", .str (b64encode signature))]

/-- The part of `build_report` after the events have been read. -/
def assembleReport (cr : CrosswalkResult) (key : KeySource) (options : ReportOptions)
    (env : ReportEnv) (c : Checkpoint) (entries : List ReportEntry) : Except PyErr Items := do
  let gaps ← select (fun e => isGapMarker e.event) entries
  -- a time that is given goes before the clock
  let generatedAt ← Ledger.stamp options.generatedAt env.now
  let pem ← env.publicKeyPem key.publicKeyRaw
  let report := unsignedReport cr options (orDefault options.reportId (lit "rpt_" ++ env.uuid))
    generatedAt pem c entries gaps
  let payload ← signingPayload report
  let signature ← key.sign payload
  return report ++ [(lit "signature", signatureBlock key signature)]

/-- The checkpoint of a report: the given one, or a new one. -/
def reportCheckpointOf {σ : Type} (l : Ledger σ) (key : KeySource) (options : ReportOptions)
    (env : ReportEnv) : Except PyErr Checkpoint :=
  match options.checkpoint with
  | some c => .ok c
  | none => l.checkpoint key none env.clock

/-- `build_report`. -/
def buildReport {σ : Type} (B : LedgerBackend σ) (reload : Reload) (l : Ledger σ)
    (cr : CrosswalkResult) (key : KeySource) (options : ReportOptions) (env : ReportEnv) :
    Except PyErr Items := do
  env.authorized
  let c ← reportCheckpointOf l key options env
  let entries ← (List.range c.treeSize.toNat).mapM (l.reportEntry B reload c.treeSize)
  assembleReport cr key options env c entries

/-! ## Entries are genuine -/

variable {ed : Ed25519} {pem : PemReader} {key : KeySource} {records : List Val} {leaves : List Bytes}

/-- A log of records that are dumps of events, with their leaf hashes. -/
structure Logged (records : List Val) (leaves : List Bytes) : Prop where
  length_eq : records.length = leaves.length
  recorded : ∀ i record leaf, records[i]? = some record → leaves[i]? = some leaf →
    Ledger.Recorded i leaf record
  dumped : ∀ record ∈ records, ∃ event : ComplianceEvent, event.dump = .ok record

/-- The first entries of a log are a log. -/
theorem Logged.take (h : Logged records leaves) (n : Nat) :
    Logged (records.take n) (leaves.take n) where
  length_eq := by rw [List.length_take, List.length_take, h.length_eq]
  recorded i record leaf hrecord hleaf := by
    rw [List.getElem?_take] at hrecord hleaf
    split at hrecord
    · rename_i hi
      rw [if_pos hi] at hleaf
      exact h.recorded i record leaf hrecord hleaf
    · cases hrecord
  dumped record hrecord := h.dumped record (List.mem_of_mem_take hrecord)

/-- The log of a consistent ledger. -/
theorem logged_of_inv {σ : Type} {B : LedgerBackend σ} {l : Ledger σ} (h : Ledger.Inv B l)
    (hdumped : Ledger.Dumped B l) : Logged (B.records l.store) l.leaves :=
  ⟨h.length_records, h.recorded, hdumped⟩

/-- A dumped event is a dictionary that starts with its id. -/
theorem exists_eventId {record : Val} (h : ∃ event : ComplianceEvent, event.dump = .ok record) :
    ∃ eventId rest, record = .dict ((lit "event_id", .str eventId) :: rest) := by
  obtain ⟨event, hevent⟩ := h
  obtain ⟨kvs, -, rfl⟩ := ComplianceEvent.exists_content hevent
  exact ⟨event.eventId, _, rfl⟩

/-- An entry of the event at an index, with a proof under the root of the log. -/
structure EntryOf (records : List Val) (leaves : List Bytes) (i : Nat) (e : ReportEntry) : Prop where
  event : records[i]? = some e.event
  index : e.leafIndex = i
  proof : ∃ P leaf, e.proof = P.map hex ∧ leaves[i]? = some leaf ∧
    Merkle.verifyInclusion i leaves.length leaf P (Merkle.treeHash leaves) = true

/-- The event of an entry whose event has an id. -/
theorem entryEvent_dump {e : ReportEntry} {eventId : Str} {rest : Items}
    (h : e.event = .dict ((lit "event_id", .str eventId) :: rest)) :
    entryEvent e.dump = .ok e.event := by
  have hget : e.dump.getD (lit "event") .null = .ok e.event := getD_eq_ok rfl _
  rw [entryEvent, hget]
  refine bind_eq_ok.mpr ⟨_, rfl, congrArg Except.ok ?_⟩
  rw [h]
  rfl

/-- The id of an entry. -/
theorem entryId_dump {e : ReportEntry} {eventId : Str} {rest : Items}
    (h : e.event = .dict ((lit "event_id", .str eventId) :: rest)) :
    entryId e.dump = .ok (.str eventId) := by
  rw [entryId, entryEvent_dump h]
  refine bind_eq_ok.mpr ⟨_, rfl, ?_⟩
  rw [h]
  exact getD_eq_ok rfl _

/-- Hexadecimal nodes are read back. -/
theorem mapM_unhexVal (P : List Bytes) : ((P.map hex).map Val.str).mapM unhexVal = .ok P := by
  rw [List.map_map]
  refine (mapM_eq_ok.mpr ?_)
  rw [List.forall₂_map_left_iff, List.forall₂_same]
  exact fun b _ => unhex_eq_ok.mpr (fromhex_hex b)

/-- **An entry of a log is genuine.** -/
theorem EntryOf.genuine (hlog : Logged records leaves) {i : Nat} {e : ReportEntry}
    (h : EntryOf records leaves i e) : ∃ leaf, leaves[i]? = some leaf ∧
      GenuineEntry leaves.length (Merkle.treeHash leaves) i leaf e.dump := by
  obtain ⟨P, leaf, hproof, hleaf, hverify⟩ := h.proof
  obtain ⟨eventId, rest, hevent⟩ := exists_eventId (hlog.dumped _ (List.mem_of_getElem? h.event))
  obtain ⟨hrecomputed, ledger, hledger, -, hhash⟩ := hlog.recorded i _ _ h.event hleaf
  refine ⟨leaf, hleaf, ⟨e.event, P, entryEvent_dump hevent, ?_, hrecomputed, ?_, ?_, ?_⟩,
    .str eventId, entryId_dump hevent, rfl⟩
  · rw [← h.index]
    exact getD_eq_ok rfl _
  · -- the leaf hash the ledger assigned
    have hget : e.dump.getD (lit "leaf_hash") (.str [])
        = .ok (.str (lit "sha256:" ++ hex leaf)) := by
      have hentry : entry (lit "leaf_hash") (entry (lit "ledger") e.event)
          = .str (lit "sha256:" ++ hex leaf) := by
        rw [entry, entry, hledger, Option.getD_some, hhash, Option.getD_some]
      rw [← hentry]
      exact getD_eq_ok rfl _
    have hlast : afterLast (cp 58) (lit "sha256:" ++ hex leaf) = hex leaf :=
      afterLast_append (lit "sha256") (not_mem_hex leaf)
    have htruthy : (Val.str (lit "sha256:" ++ hex leaf)).truthy = true := rfl
    rw [storedLeaf, hget]
    refine bind_eq_ok.mpr ⟨_, rfl, ?_⟩
    rw [if_pos htruthy]
    dsimp only
    rw [hlast]
    exact unhex_eq_ok.mpr (fromhex_hex leaf)
  · have hget : e.dump.getD (lit "inclusion_proof") (.list [])
        = .ok (.list (e.proof.map .str)) := getD_eq_ok rfl _
    rw [proofNodes, hget]
    refine bind_eq_ok.mpr ⟨_, rfl, bind_eq_ok.mpr ⟨_, rfl, ?_⟩⟩
    rw [hproof]
    exact mapM_unhexVal P
  · exact congrArg Except.ok hverify

/-! ## The head is signed -/

/-- The verifier's checkpoint payload is what was signed. -/
theorem checkpointPayload_dump (c : Checkpoint) :
    checkpointPayload c.dump = checkpointSigningBytes c.origin c.treeSize c.rootHash c.timestamp := by
  have horigin : c.dump.getItem (lit "origin") = .ok (.str c.origin) := getItem_eq_ok rfl
  have hroot : c.dump.getItem (lit "root_hash") = .ok (.str c.rootHash) := getItem_eq_ok rfl
  have htimestamp : c.dump.getItem (lit "timestamp") = .ok (.str c.timestamp) := getItem_eq_ok rfl
  have hsize : c.dump.getItem (lit "tree_size") = .ok (.int c.treeSize) := getItem_eq_ok rfl
  rw [checkpointPayload, horigin, hroot, htimestamp, hsize]
  rfl

/-- **A signed snapshot is a signed head.** -/
theorem signedHead_of_signSnapshot {origin : Str} {timestamp : Option Str} {clock : Except PyErr Str}
    {n : Nat} {root : Bytes} {c : Checkpoint}
    (hed : ∀ data sig, key.sign data = .ok sig → ed key.publicKeyRaw sig data = true)
    (h : Ledger.signSnapshot origin key timestamp clock (n, hex root) = .ok c) :
    SignedHead ed key.publicKeyRaw c.dump root n := by
  rw [Ledger.signSnapshot] at h
  obtain ⟨t, -, h⟩ := bind_eq_ok.mp h
  rw [signCheckpoint] at h
  obtain ⟨data, hdata, h⟩ := bind_eq_ok.mp h
  obtain ⟨sig, hsig, h⟩ := bind_eq_ok.mp h
  rw [← pure_eq_ok.mp h]
  refine ⟨signedBlock_of rfl rfl ?_ (hed data sig hsig), rfl, rfl⟩
  rw [checkpointPayload_dump]
  exact hdata

/-! ## The report is genuine -/

/-- What a report is made of. -/
theorem assembleReport_eq_ok {cr : CrosswalkResult} {options : ReportOptions} {env : ReportEnv}
    {c : Checkpoint} {entries : List ReportEntry} {report : Items}
    (h : assembleReport cr key options env c entries = .ok report) :
    ∃ gaps reportId generatedAt pemText payload signature,
      select (fun e => isGapMarker e.event) entries = .ok gaps ∧
      env.publicKeyPem key.publicKeyRaw = .ok pemText ∧
      signingPayload (unsignedReport cr options reportId generatedAt pemText c entries gaps)
        = .ok payload ∧ key.sign payload = .ok signature ∧
      report = unsignedReport cr options reportId generatedAt pemText c entries gaps
        ++ [(lit "signature", signatureBlock key signature)] := by
  rw [assembleReport] at h
  obtain ⟨gaps, hgaps, h⟩ := bind_eq_ok.mp h
  obtain ⟨generatedAt, -, h⟩ := bind_eq_ok.mp h
  obtain ⟨pemText, hpem, h⟩ := bind_eq_ok.mp h
  obtain ⟨payload, hpayload, h⟩ := bind_eq_ok.mp h
  obtain ⟨signature, hsignature, h⟩ := bind_eq_ok.mp h
  exact ⟨gaps, _, generatedAt, pemText, payload, signature, hgaps, hpem, hpayload, hsignature,
    (pure_eq_ok.mp h).symm⟩

/-- A report is assembled where each of its parts is. -/
theorem assembleReport_of {cr : CrosswalkResult} {options : ReportOptions} {env : ReportEnv}
    {c : Checkpoint} {entries gaps : List ReportEntry} {generatedAt pemText : Str}
    {payload signature : Bytes}
    (hgaps : select (fun e => isGapMarker e.event) entries = .ok gaps)
    (hgenerated : Ledger.stamp options.generatedAt env.now = .ok generatedAt)
    (hpem : env.publicKeyPem key.publicKeyRaw = .ok pemText)
    (hpayload : signingPayload (unsignedReport cr options
      (orDefault options.reportId (lit "rpt_" ++ env.uuid)) generatedAt pemText c entries gaps)
      = .ok payload)
    (hsign : key.sign payload = .ok signature) :
    assembleReport cr key options env c entries = .ok (unsignedReport cr options
      (orDefault options.reportId (lit "rpt_" ++ env.uuid)) generatedAt pemText c entries gaps
        ++ [(lit "signature", signatureBlock key signature)]) := by
  rw [assembleReport]
  exact bind_eq_ok.mpr ⟨gaps, hgaps, bind_eq_ok.mpr ⟨generatedAt, hgenerated, bind_eq_ok.mpr
    ⟨pemText, hpem, bind_eq_ok.mpr ⟨payload, hpayload, bind_eq_ok.mpr ⟨signature, hsign, rfl⟩⟩⟩⟩⟩

/-- A report is built where the checkpoint is taken, the entries are read, and it is assembled. -/
theorem buildReport_of {σ : Type} {B : LedgerBackend σ} {reload : Reload} {l : Ledger σ}
    {cr : CrosswalkResult} {options : ReportOptions} {env : ReportEnv} {c : Checkpoint}
    {entries : List ReportEntry} {report : Items} (hauthorized : env.authorized = .ok ())
    (hc : reportCheckpointOf l key options env = .ok c)
    (hentries : (List.range c.treeSize.toNat).mapM (l.reportEntry B reload c.treeSize) = .ok entries)
    (h : assembleReport cr key options env c entries = .ok report) :
    buildReport B reload l cr key options env = .ok report := by
  rw [buildReport, hauthorized]
  exact bind_eq_ok.mpr ⟨(), rfl, bind_eq_ok.mpr ⟨c, hc, bind_eq_ok.mpr ⟨entries, hentries, h⟩⟩⟩

section Parts

variable {cr : CrosswalkResult} {options : ReportOptions} {reportId generatedAt pemText : Str}
  {c : Checkpoint} {entries gaps : List ReportEntry} {block : Val}

/-- The payload of the signed report is that of the unsigned one. -/
theorem reportSigningPayload_signed :
    reportSigningPayload (unsignedReport cr options reportId generatedAt pemText c entries gaps
      ++ [(lit "signature", block)])
      = signingPayload (unsignedReport cr options reportId generatedAt pemText c entries gaps) := by
  rw [reportSigningPayload, signingPayload, List.filter_append]
  simp

/-- The entries of a report. -/
theorem reportEvents_signed :
    (reportEvents (unsignedReport cr options reportId generatedAt pemText c entries gaps
      ++ [(lit "signature", block)])).iter = .ok (entries.map ReportEntry.dump) := by
  cases entries with
  | nil => rfl
  | cons e entries => rfl

/-- The controls of a report. -/
theorem reportControls_signed :
    (reportControls (unsignedReport cr options reportId generatedAt pemText c entries gaps
      ++ [(lit "signature", block)])).iter = .ok (cr.controls.map ControlResult.dump) := rfl

/-- The events of a report are counted. -/
theorem len_listedEvents_signed :
    (listedEvents (unsignedReport cr options reportId generatedAt pemText c entries gaps
      ++ [(lit "signature", block)])).len = .ok entries.length := by
  have hlisted : listedEvents (unsignedReport cr options reportId generatedAt pemText c entries gaps
      ++ [(lit "signature", block)]) = .list (entries.map ReportEntry.dump) := rfl
  rw [hlisted, len, iter, Except.map, List.length_map]

end Parts

/-- The evidence ids of a dumped result. -/
theorem citedIds_dump {r : ControlResult} (h : ∀ id ∈ r.evidenceEventIds, isStr id = true) :
    citedIds r.dump = .ok r.evidenceEventIds := by
  have hjson : jsonModeList r.evidenceEventIds = r.evidenceEventIds := by
    have hlist : jsonMode (.list r.evidenceEventIds) = .list r.evidenceEventIds :=
      jsonMode_list_eq.mpr fun id hid => by
        cases id with
        | str s => rfl
        | _ => exact absurd (h _ hid) (by simp [isStr])
    rwa [jsonMode, list.injEq] at hlist
  have hget : r.dump.getD (lit "evidence_event_ids") (.list [])
      = .ok (.list (jsonModeList r.evidenceEventIds)) := getD_eq_ok rfl _
  rw [citedIds, hget, hjson]
  rfl

/-- The entry of an evaluated event has its id. -/
theorem exists_entry_of_isEventId (hlog : Logged records leaves) {entries : List ReportEntry}
    (hentries : List.Forall₂ (EntryOf records leaves) (List.range leaves.length) entries) {id : Val}
    (h : IsEventId records id) : id.hashable = true ∧
      ∃ item ∈ entries.map ReportEntry.dump, ∃ eid, entryId item = .ok eid ∧ id.eq eid = true := by
  obtain ⟨hstr, ev, hev, hget⟩ := h
  obtain ⟨eventId, rest, rfl⟩ := exists_eventId (hlog.dumped ev hev)
  obtain rfl : .str eventId = id := by
    rw [getItem_eq_ok (w := .str eventId) rfl, Except.ok.injEq] at hget
    exact hget
  obtain ⟨i, hi, hrecord⟩ := List.getElem_of_mem hev
  have hlen : i < entries.length := by
    rw [← hentries.length_eq, List.length_range, ← hlog.length_eq]
    exact hi
  have hentry := (List.forall₂_iff_get.mp hentries).2 i (by
    rw [List.length_range, ← hlog.length_eq]; exact hi) hlen
  rw [List.get_eq_getElem, List.get_eq_getElem, List.getElem_range] at hentry
  have hevent := hentry.event
  rw [List.getElem?_eq_getElem hi, hrecord, Option.some.injEq] at hevent
  exact ⟨rfl, _, List.mem_map_of_mem (List.getElem_mem hlen), _, entryId_dump hevent.symm,
    str_eq_self eventId⟩

/-- **The report on a log is genuine.** -/
theorem genuineReport_of_assemble (hlog : Logged records leaves) {cr : CrosswalkResult}
    {options : ReportOptions} {env : ReportEnv} {c : Checkpoint} {entries : List ReportEntry}
    {report : Items} (h : assembleReport cr key options env c entries = .ok report)
    (hhead : SignedHead ed key.publicKeyRaw c.dump (Merkle.treeHash leaves) leaves.length)
    (hentries : List.Forall₂ (EntryOf records leaves) (List.range leaves.length) entries)
    (hevidence : ∀ r ∈ cr.controls, ∀ id ∈ r.evidenceEventIds, IsEventId records id)
    (hed : ∀ data sig, key.sign data = .ok sig → ed key.publicKeyRaw sig data = true)
    (hpem : ∀ raw text, env.publicKeyPem raw = .ok text → pem (.str text) = .ok raw) :
    GenuineReport ed pem key.publicKeyRaw leaves report (entries.map ReportEntry.dump) := by
  obtain ⟨gaps, reportId, generatedAt, pemText, payload, signature, -, hpemText, hpayload, hsign,
    rfl⟩ := assembleReport_eq_ok h
  refine ⟨fun raw' hraw' => ?_, ?_, hhead, reportEvents_signed, ?_, ?_⟩
  · have hembedded : pem (.str pemText) = .ok raw' := hraw'
    rw [hpem _ _ hpemText, Except.ok.injEq] at hembedded
    exact hembedded.symm
  · rw [reportSigningPayload_signed]
    exact signedBlock_of rfl rfl hpayload (hed payload signature hsign)
  · rw [List.forall₂_map_right_iff]
    exact hentries.imp fun i e he => he.genuine hlog
  · refine ⟨_, reportControls_signed, fun control hcontrol => ?_⟩
    obtain ⟨r, hr, rfl⟩ := List.mem_map.mp hcontrol
    refine ⟨_, r.evidenceEventIds, rfl, citedIds_dump fun id hid => (hevidence r hr id hid).1,
      fun id hid => exists_entry_of_isEventId hlog hentries (hevidence r hr id hid)⟩

/-! ## The verdicts are re-derived -/

/-- The events of the entries are the records of the log. -/
theorem map_event_of_entries (hlog : Logged records leaves) {entries : List ReportEntry}
    (hentries : List.Forall₂ (EntryOf records leaves) (List.range leaves.length) entries) :
    entries.map (·.event) = records := by
  have hlen : entries.length = records.length := by
    rw [← hentries.length_eq, List.length_range, hlog.length_eq]
  refine List.ext_getElem (by rw [List.length_map, hlen]) fun i hi hi' => ?_
  rw [List.length_map] at hi
  have hentry := (List.forall₂_iff_get.mp hentries).2 i (by rw [hentries.length_eq]; exact hi) hi
  rw [List.get_eq_getElem, List.get_eq_getElem, List.getElem_range] at hentry
  have hevent := hentry.event
  rw [List.getElem?_eq_getElem hi', Option.some.injEq] at hevent
  rw [List.getElem_map, hevent]

/-- The dumped result of a control agrees with the results, where no other control has its id. -/
theorem agrees_dump {results : List ControlResult} (hids : (results.map (·.controlId)).Nodup)
    {r : ControlResult} (hr : r ∈ results) : Agrees results r.dump :=
  ⟨.str r.controlId, .str r.status.value, .str r.status.value, getD_eq_ok rfl _, getD_eq_ok rfl _,
    recomputed_of_mem hids hr, str_eq_self _⟩

variable {cw : Crosswalk} {cr : CrosswalkResult} {listed : List ControlResult}
  {options : ReportOptions} {env : ReportEnv} {c : Checkpoint} {entries : List ReportEntry}
  {report : Items} {reload : Reload} {builtins : Builtins} {crosswalk : Option Crosswalk}

/-- **The verdicts of a report are re-derived** when they are among those of its records. -/
theorem rederives_of_assemble (hlog : Logged records leaves)
    (h : assembleReport { cr with controls := listed } key options env c entries = .ok report)
    (hlisted : listed ⊆ cr.controls)
    (hentries : List.Forall₂ (EntryOf records leaves) (List.range leaves.length) entries)
    (hids : (cw.controls.map (·.id)).Nodup)
    (hreload : ∀ record ∈ records, reload record = .ok record)
    (heval : cw.evaluate records = .ok cr) : Rederives cw reload report := by
  obtain ⟨gaps, reportId, generatedAt, pemText, payload, signature, -, -, -, -, rfl⟩ :=
    assembleReport_eq_ok h
  refine ⟨records, cr, _, ?_, heval, reportControls_signed, fun control hcontrol => ?_⟩
  -- an event that reloads as itself is read back from its entry
  · have hread : ∀ item ∈ entries.map ReportEntry.dump, (do
        let event ← entryEvent item
        reload event) = .ok (entry (lit "event") item) := by
      intro item hitem
      obtain ⟨e, he, rfl⟩ := List.mem_map.mp hitem
      have hmem : e.event ∈ records := by
        rw [← map_event_of_entries hlog hentries]
        exact List.mem_map_of_mem he
      obtain ⟨eventId, rest, hevent⟩ := exists_eventId (hlog.dumped _ hmem)
      exact bind_eq_ok.mpr ⟨_, entryEvent_dump hevent, hreload _ hmem⟩
    have hevents : (entries.map ReportEntry.dump).map (entry (lit "event")) = records := by
      rw [List.map_map, ← map_event_of_entries hlog hentries]
      rfl
    rw [reloadEvents]
    refine bind_eq_ok.mpr ⟨entries.map ReportEntry.dump, rfl, ?_⟩
    rw [mapM_eq_ok_map hread, hevents]
  -- what is listed was found, under an id of its own
  · obtain ⟨r, hr, rfl⟩ := List.mem_map.mp hcontrol
    rw [← Crosswalk.evaluate_ids heval] at hids
    exact agrees_dump hids (hlisted hr)

/-- A content hash is not empty. -/
theorem truthy_contentHash {obj : Val} {hash : Str} (h : contentHash obj = .ok hash) :
    (Val.str hash).truthy = true := by
  rw [contentHash] at h
  obtain ⟨data, -, h⟩ := bind_eq_ok.mp h
  rw [← pure_eq_ok.mp h]
  rfl

/-- A report is pinned to the crosswalk its results come from. -/
theorem pinned_of_assemble
    (h : assembleReport { cr with controls := listed } key options env c entries = .ok report)
    (heval : cw.evaluate records = .ok cr)
    (hchoose : chooseCrosswalk builtins crosswalk cr.block = .ok (.ok cw)) :
    Pinned builtins crosswalk report cw := by
  obtain ⟨gaps, reportId, generatedAt, pemText, payload, signature, -, -, -, -, rfl⟩ :=
    assembleReport_eq_ok h
  obtain ⟨controls, hash, -, hhash, rfl⟩ := Crosswalk.evaluate_eq_ok heval
  exact ⟨.str hash, hash, getD_eq_ok rfl _, truthy_contentHash hhash, hchoose, hhash,
    str_eq_self hash⟩

/-- **A report on a log deep-verifies** when its verdicts are among those of the log. -/
theorem verifyReportDeep_of_assemble (hlog : Logged records leaves)
    (h : assembleReport { cr with controls := listed } key options env c entries = .ok report)
    (hlisted : listed ⊆ cr.controls)
    (hhead : SignedHead ed key.publicKeyRaw c.dump (Merkle.treeHash leaves) leaves.length)
    (hentries : List.Forall₂ (EntryOf records leaves) (List.range leaves.length) entries)
    (hids : (cw.controls.map (·.id)).Nodup)
    (hreload : ∀ record ∈ records, reload record = .ok record)
    (heval : cw.evaluate records = .ok cr)
    (hchoose : chooseCrosswalk builtins crosswalk cr.block = .ok (.ok cw))
    (hed : ∀ data sig, key.sign data = .ok sig → ed key.publicKeyRaw sig data = true)
    (hpem : ∀ raw text, env.publicKeyPem raw = .ok text → pem (.str text) = .ok raw) :
    ∃ res, verifyReportDeep ed pem builtins reload report (some key.publicKeyRaw) crosswalk = .ok res ∧
      res.valid = true := by
  have hgenuine := genuineReport_of_assemble hlog h hhead hentries
    (fun r hr id hid => Crosswalk.evaluate_evidence heval (hlisted hr) hid) hed hpem
  have hpinned := pinned_of_assemble h heval hchoose
  have hrederives := rederives_of_assemble hlog h hlisted hentries hids hreload heval
  obtain ⟨gaps, reportId, generatedAt, pemText, payload, signature, -, -, -, -, rfl⟩ :=
    assembleReport_eq_ok h
  obtain ⟨treeSize, hsize⟩ := exists_disclosedOf hgenuine.head.treeSize entries.length
  exact verifyReport_of_genuine hgenuine fun res =>
    deepVerify_of_rederives hpinned len_listedEvents_signed hsize hrederives res

/-! ## The report survives a JSON dump and load -/

/-- Strings dump as themselves. -/
theorem jsonMode_strings (ss : List Str) : jsonMode (strings ss) = strings ss := by
  refine jsonMode_list_eq.mpr fun v hv => ?_
  obtain ⟨s, -, rfl⟩ := List.mem_map.mp hv
  rfl

/-- A text that may be left out is dumped as it is, -/
theorem jsonMode_optStr (s : Option Str) : jsonMode (optStr s) = optStr s := by
  cases s <;> rfl

/-- and so is a period, -/
theorem jsonMode_reportPeriod (period : Option (List (Str × Str))) (timestamps : List Str) :
    jsonMode (.dict (reportPeriod period timestamps)) = .dict (reportPeriod period timestamps) := by
  unfold reportPeriod
  cases period with
  | some kvs =>
      refine jsonMode_dict_eq.mpr fun kv hkv => ?_
      obtain ⟨kv', -, rfl⟩ := List.mem_map.mp hkv
      rfl
  | none =>
      dsimp only
      split <;> rfl

/-- The attributes of a dumped event dump as themselves. -/
theorem jsonMode_attributes {v : Val} (h : jsonMode v = v) : jsonMode (attributes v) = attributes v := by
  rw [attributes, Val.orElse]
  split
  · exact jsonMode_entry h _
  · rfl

/-- an entry with an event that is, -/
theorem jsonMode_entryDump {e : ReportEntry} (h : jsonMode e.event = e.event) :
    jsonMode e.dump = e.dump := by
  rw [ReportEntry.dump, jsonMode_dict_eq]
  simp only [List.forall_mem_cons]
  exact ⟨h, rfl, jsonMode_entry (jsonMode_entry h _) _, jsonMode_strings e.proof,
    fun _ hkv => absurd hkv List.not_mem_nil⟩

/-- and a gap with such an entry. -/
theorem jsonMode_evidenceGap {e : ReportEntry} (h : jsonMode e.event = e.event) :
    jsonMode (evidenceGap e) = evidenceGap e := by
  have hattrs := jsonMode_attributes h
  rw [evidenceGap, jsonMode_dict_eq]
  simp only [List.forall_mem_cons]
  exact ⟨jsonMode_entry h _, rfl, jsonMode_entry hattrs _, jsonMode_entry hattrs _,
    jsonMode_entry hattrs _, fun _ hkv => absurd hkv List.not_mem_nil⟩

/-- The unsigned report has no tuples where its events have none. -/
theorem jsonMode_unsignedReport {reportId generatedAt pemText : Str} {gaps : List ReportEntry}
    (hentries : ∀ e ∈ entries, jsonMode e.event = e.event)
    (hgaps : ∀ e ∈ gaps, jsonMode e.event = e.event) :
    jsonMode (.dict (unsignedReport cr options reportId generatedAt pemText c entries gaps))
      = .dict (unsignedReport cr options reportId generatedAt pemText c entries gaps) := by
  have hscope : jsonMode (.dict [(lit "description", .str options.scopeDescription),
      (lit "agent_ids", strings (reportAgents options.agentIds (entries.map (·.agentId))))])
      = .dict [(lit "description", .str options.scopeDescription),
        (lit "agent_ids", strings (reportAgents options.agentIds (entries.map (·.agentId))))] := by
    rw [jsonMode_dict_eq]
    simp only [List.forall_mem_cons]
    exact ⟨rfl, jsonMode_strings _, fun _ hkv => absurd hkv List.not_mem_nil⟩
  have hblock : jsonMode cr.block = cr.block := by
    rw [CrosswalkResult.block, jsonMode_dict_eq]
    simp only [List.forall_mem_cons]
    exact ⟨rfl, rfl, rfl, jsonMode_optStr _, rfl, rfl, jsonMode_optStr _,
      fun _ hkv => absurd hkv List.not_mem_nil⟩
  have hlist : ∀ {α : Type} (f : α → Val) (as : List α), (∀ a ∈ as, jsonMode (f a) = f a) →
      jsonMode (.list (as.map f)) = .list (as.map f) := by
    intro α f as has
    refine jsonMode_list_eq.mpr fun v hv => ?_
    obtain ⟨a, ha, rfl⟩ := List.mem_map.mp hv
    exact has a ha
  -- entry by entry
  rw [unsignedReport, jsonMode_dict_eq]
  simp only [List.forall_mem_cons]
  exact ⟨rfl, rfl, rfl, rfl, rfl, hscope, jsonMode_reportPeriod _ _, hblock, rfl,
    hlist _ _ fun r _ => jsonMode_jsonMode _, hlist _ _ fun e he => jsonMode_evidenceGap (hgaps e he),
    jsonMode_jsonMode _, hlist _ _ fun e he => jsonMode_entryDump (hentries e he), rfl,
    fun _ hkv => absurd hkv List.not_mem_nil⟩

/-- **The report is read back** from its JSON text. -/
theorem loads_report (h : assembleReport cr key options env c entries = .ok report)
    (hentries : ∀ e ∈ entries, jsonMode e.event = e.event) :
    loads (Json.dumps (.dict report)) = .ok (.dict report) := by
  obtain ⟨gaps, reportId, generatedAt, pemText, payload, signature, hgaps, -, hpayload, -, rfl⟩ :=
    assembleReport_eq_ok h
  -- the signed part has no floats, and no tuples
  have hunsigned : Json.Plain
      (.dict (unsignedReport cr options reportId generatedAt pemText c entries gaps)) := by
    have hself : (unsignedReport cr options reportId generatedAt pemText c entries gaps).filter
        (fun kv => kv.1 ≠ lit "signature")
        = unsignedReport cr options reportId generatedAt pemText c entries gaps := rfl
    rw [signingPayload, hself] at hpayload
    obtain ⟨w, hw, -⟩ := canonicalBytes_eq_ok.mp hpayload
    refine plain_of_clean_of_jsonMode hw (jsonMode_unsignedReport hentries fun e he => ?_)
    rw [(select_eq_ok.mp hgaps).2] at he
    exact hentries e (List.mem_of_mem_filter he)
  have hplain : Json.Plain (.dict
      (unsignedReport cr options reportId generatedAt pemText c entries gaps
        ++ [(lit "signature", signatureBlock key signature)])) := by
    refine Json.plainItems_iff.mpr fun kv hkv => ?_
    rcases List.mem_append.mp hkv with hmem | hmem
    · exact Json.plainItems_iff.mp hunsigned kv hmem
    · rw [List.mem_singleton.mp hmem]
      exact ⟨trivial, trivial, trivial, trivial⟩
  rw [loads, Json.read_dumps hplain.isJson]

/-! ## The report can be signed -/

/-- A list of encodable strings. -/
theorem encodable_strings {ss : List Str} (h : ∀ s ∈ ss, Scalar s) : Encodable (strings ss) := by
  refine encodableList_iff.mpr fun v hv => ?_
  obtain ⟨s, hs, rfl⟩ := List.mem_map.mp hv
  exact h s hs

/-- What is read of an encodable value is encodable. -/
theorem encodable_entry {v : Val} (h : Encodable v) (k : Str) : Encodable (entry k v) := by
  rw [entry]
  cases hitem : v.item? k with
  | none => trivial
  | some w =>
      cases v with
      | dict kvs =>
          obtain ⟨l₁, l₂, rfl, -⟩ := List.lookup_eq_some_iff.mp hitem
          exact (encodableItems_iff.mp h (k, w)
            (List.mem_append_right l₁ List.mem_cons_self)).2
      | _ => cases hitem

/-- The item of an entry with an encodable event. -/
theorem encodable_entryDump {e : ReportEntry} (hevent : Encodable e.event)
    (hproof : ∀ s ∈ e.proof, Scalar s) : Encodable e.dump := by
  refine encodableItems_iff.mpr ?_
  simp only [List.forall_mem_cons]
  exact ⟨⟨scalar_lit _, hevent⟩, ⟨scalar_lit _, trivial⟩,
    ⟨scalar_lit _, encodable_entry (encodable_entry hevent _) _⟩,
    ⟨scalar_lit _, encodable_strings hproof⟩, fun _ hkv => absurd hkv List.not_mem_nil⟩

/-- A gap marker with an encodable event. -/
theorem encodable_evidenceGap {e : ReportEntry} (hevent : Encodable e.event) :
    Encodable (evidenceGap e) := by
  have hattrs : Encodable (attributes e.event) := by
    rw [attributes, Val.orElse]
    split
    · exact encodable_entry hevent _
    · trivial
  refine encodableItems_iff.mpr ?_
  simp only [List.forall_mem_cons]
  exact ⟨⟨scalar_lit _, encodable_entry hevent _⟩, ⟨scalar_lit _, trivial⟩,
    ⟨scalar_lit _, encodable_entry hattrs _⟩, ⟨scalar_lit _, encodable_entry hattrs _⟩,
    ⟨scalar_lit _, encodable_entry hattrs _⟩, fun _ hkv => absurd hkv List.not_mem_nil⟩

/-- The period of encodable timestamps. -/
theorem encodable_reportPeriod {period : Option (List (Str × Str))} {timestamps : List Str}
    (hperiod : ∀ kvs, period = some kvs → ∀ kv ∈ kvs, Scalar kv.1 ∧ Scalar kv.2)
    (htimestamps : ∀ t ∈ timestamps, Scalar t) :
    Encodable (.dict (reportPeriod period timestamps)) := by
  have : Std.MaxEqOr Str :=
    ⟨fun a b => (le_total b a).imp (fun h => max_eq_left h) (fun h => max_eq_right h)⟩
  refine encodableItems_iff.mpr fun kv hkv => ?_
  unfold reportPeriod at hkv
  split at hkv
  · rename_i kvs
    obtain ⟨kv', hkv', rfl⟩ := List.mem_map.mp hkv
    exact hperiod kvs rfl kv' hkv'
  · split at hkv
    · rename_i first last hfirst hlast
      simp only [List.mem_cons, List.not_mem_nil, or_false] at hkv
      rcases hkv with rfl | rfl
      · exact ⟨scalar_lit _, htimestamps first (List.min?_mem hfirst)⟩
      · exact ⟨scalar_lit _, htimestamps last (List.max?_mem hlast)⟩
    · cases hkv

/-- The agents named in a report are the given ones or those of its events. -/
theorem scalar_reportAgents {agentIds : Option (List Str)} {seenAgents : List Str}
    (hgiven : ∀ ids, agentIds = some ids → ∀ id ∈ ids, Scalar id)
    (hseen : ∀ id ∈ seenAgents, Scalar id) : ∀ id ∈ reportAgents agentIds seenAgents, Scalar id := by
  intro id hid
  unfold reportAgents at hid
  split at hid
  · exact hseen id (List.mem_dedup.mp ((List.perm_insertionSort _ _).mem_iff.mp hid))
  · exact hseen id (List.mem_dedup.mp ((List.perm_insertionSort _ _).mem_iff.mp hid))
  · exact hgiven _ rfl id ((List.perm_insertionSort _ _).mem_iff.mp hid)

/-- The strings that a caller passes to `build_report` have no surrogates. -/
structure ReportOptions.Encodable (options : ReportOptions) : Prop where
  scopeDescription : Scalar options.scopeDescription
  agentIds : ∀ ids, options.agentIds = some ids → ∀ id ∈ ids, Scalar id
  period : ∀ kvs, options.period = some kvs → ∀ kv ∈ kvs, Scalar kv.1 ∧ Scalar kv.2

/-- What is read of the ledger for an entry has no floats and no surrogates. -/
structure ReportEntry.Encodable (e : ReportEntry) : Prop where
  event : Canonical.Encodable e.event
  proof : ∀ s ∈ e.proof, Scalar s
  timestamp : Scalar e.timestamp
  agentId : Scalar e.agentId

/-- **A report of encodable parts can be signed**: it has a signing payload. -/
theorem exists_signingPayload {cr : CrosswalkResult} {options : ReportOptions}
    {reportId generatedAt pemText : Str} {c : Checkpoint} {entries gaps : List ReportEntry}
    (hblock : Encodable cr.block) (hcontrols : ∀ r ∈ cr.controls, Encodable r.dump)
    (hoptions : options.Encodable) (hid : Scalar reportId) (hgenerated : Scalar generatedAt)
    (hpem : Scalar pemText) (hcheckpoint : Encodable c.dump) (hentries : ∀ e ∈ entries, e.Encodable)
    (hgaps : ∀ e ∈ gaps, e.Encodable) :
    ∃ payload, signingPayload (unsignedReport cr options reportId generatedAt pemText c entries gaps)
      = .ok payload := by
  have hlist : ∀ {α : Type} (f : α → Val) (as : List α), (∀ a ∈ as, Encodable (f a)) →
      Encodable (.list (as.map f)) := by
    intro α f as has
    refine encodableList_iff.mpr fun v hv => ?_
    obtain ⟨a, ha, rfl⟩ := List.mem_map.mp hv
    exact has a ha
  have hagents := scalar_reportAgents hoptions.agentIds fun id hid => by
    obtain ⟨e, he, rfl⟩ := List.mem_map.mp hid
    exact (hentries e he).agentId
  have hperiod := encodable_reportPeriod hoptions.period fun t ht => by
    obtain ⟨e, he, rfl⟩ := List.mem_map.mp ht
    exact (hentries e he).timestamp
  have hboundary : Scalar boundaryStatement := by simp [boundaryStatement]
  have hself : (unsignedReport cr options reportId generatedAt pemText c entries gaps).filter
      (fun kv => kv.1 ≠ lit "signature")
      = unsignedReport cr options reportId generatedAt pemText c entries gaps := rfl
  -- without a signature there is nothing to leave out
  rw [signingPayload, hself]
  refine exists_canonicalBytes (encodableItems_iff.mpr ?_)
  -- entry by entry
  simp only [unsignedReport, List.forall_mem_cons]
  refine ⟨⟨scalar_lit _, scalar_lit _⟩, ⟨scalar_lit _, hid⟩, ⟨scalar_lit _, hgenerated⟩,
    ⟨scalar_lit _, by simp [Canonical.Encodable, EncodableItems, toolVersion]⟩, ⟨scalar_lit _, hboundary⟩,
    ⟨scalar_lit _, ⟨scalar_lit _, hoptions.scopeDescription, scalar_lit _, encodable_strings hagents,
      trivial⟩⟩, ⟨scalar_lit _, hperiod⟩, ⟨scalar_lit _, hblock⟩,
    ⟨scalar_lit _, by simp [CrosswalkResult.summary, Canonical.Encodable, EncodableItems]⟩,
    ⟨scalar_lit _, hlist _ _ hcontrols⟩,
    ⟨scalar_lit _, hlist _ _ fun e he => encodable_evidenceGap (hgaps e he).event⟩,
    ⟨scalar_lit _, hcheckpoint⟩,
    ⟨scalar_lit _, hlist _ _ fun e he => encodable_entryDump (hentries e he).event
      (hentries e he).proof⟩, ⟨scalar_lit _, hpem⟩, fun _ hkv => absurd hkv List.not_mem_nil⟩

/-- A checkpoint's dump is encodable where its strings are. -/
theorem encodable_checkpointDump {c : Checkpoint} (horigin : Scalar c.origin)
    (hroot : Scalar c.rootHash) (htimestamp : Scalar c.timestamp) (hkeyId : Scalar c.publicKeyId)
    (hsignature : Scalar c.signature) (hextra : c.extra = []) : Encodable c.dump := by
  rw [Checkpoint.dump, hextra, List.append_nil]
  refine encodable_jsonMode (encodableItems_iff.mpr ?_)
  simp only [List.forall_mem_cons]
  exact ⟨⟨scalar_lit _, horigin⟩, ⟨scalar_lit _, trivial⟩, ⟨scalar_lit _, hroot⟩,
    ⟨scalar_lit _, htimestamp⟩, ⟨scalar_lit _, hkeyId⟩, ⟨scalar_lit _, hsignature⟩,
    fun _ hkv => absurd hkv List.not_mem_nil⟩

/-- Key ids are ASCII. -/
theorem scalar_keyIdFor (raw : Bytes) : Scalar (keyIdFor raw) :=
  scalar_append.mpr ⟨scalar_lit _, fun c hc => scalar_hex _ c (List.mem_of_mem_take hc)⟩

/-! ## Entries and checkpoints that are made -/

namespace Ledger

/-- An event with a timestamp and an agent has an entry. -/
theorem exists_reportEntry {σ : Type} {B : LedgerBackend σ} {reload : Reload} {l : Ledger σ}
    {i n : Nat} {event : Val} {timestamp agentId : Str} (hevent : l.getEvent B reload i = .ok event)
    (htimestamp : entry (lit "timestamp") event = .str timestamp)
    (hagent : entry (lit "agent_id") (entry (lit "actor") event) = .str agentId) (hi : i < n)
    (hn : n ≤ l.leaves.length) :
    ∃ proof : List Bytes, l.reportEntry B reload n i
      = .ok { event, leafIndex := i, proof := proof.map hex, timestamp, agentId } := by
  obtain ⟨proof, hproof⟩ : ∃ proof, Merkle.inclusionProof (l.leaves.take n) i = .ok proof := by
    refine ⟨_, Merkle.inclusionProof_eq_ok.mpr ⟨⟨Int.natCast_nonneg i, ?_⟩, rfl⟩⟩
    rw [List.length_take, Nat.min_eq_left hn]
    exact_mod_cast hi
  have hhex : l.inclusionProofHex (i : Int) (some (n : Int)) = .ok (proof.map hex) := by
    rw [inclusionProofHex, pinned, if_pos (Int.natCast_nonneg n), Int.toNat_natCast]
    exact bind_eq_ok.mpr ⟨proof, hproof, rfl⟩
  rw [reportEntry, hevent]
  refine ⟨proof, bind_eq_ok.mpr ⟨event, rfl, ?_⟩⟩
  rw [htimestamp, hagent]
  exact bind_eq_ok.mpr ⟨_, rfl, bind_eq_ok.mpr ⟨_, rfl, bind_eq_ok.mpr ⟨_, hhex, rfl⟩⟩⟩

/-- A producer that signs everything signs the head of a ledger. -/
theorem exists_checkpoint {σ : Type} {l : Ledger σ} {key : KeySource} {timestamp : Str}
    (horigin : Scalar l.origin) (htimestamp : Scalar timestamp)
    (hsign : ∀ data, ∃ signature, key.sign data = .ok signature) :
    ∃ c, l.checkpoint key none (.ok timestamp) = .ok c ∧ c.treeSize = l.leaves.length ∧
      Canonical.Encodable c.dump := by
  obtain ⟨data, hdata⟩ : ∃ data, checkpointSigningBytes l.origin l.leaves.length (hex l.tree.root)
      timestamp = .ok data := by
    refine exists_canonicalBytes ?_
    simp [Canonical.Encodable, EncodableItems, horigin, htimestamp]
  obtain ⟨signature, hsignature⟩ := hsign data
  refine ⟨_, bind_eq_ok.mpr ⟨timestamp, rfl, bind_eq_ok.mpr ⟨data, hdata,
    bind_eq_ok.mpr ⟨signature, hsignature, rfl⟩⟩⟩, rfl, ?_⟩
  exact encodable_checkpointDump horigin (scalar_hex _) htimestamp (scalar_keyIdFor _)
    (scalar_b64encode _) rfl

end Ledger

/-! ## Reports on a ledger -/

section OnLedger

variable {σ : Type} {B : LedgerBackend σ} {l : Ledger σ}

/-- What is read of the ledger for one index, with a proof pinned to a size, is an entry of the log of
that size. -/
theorem entryOf_reportEntry
    (hreload : ∀ record ∈ B.records l.store, reload record = .ok record) {n i : Nat}
    (hn : n ≤ l.leaves.length) (hi : i < n) {e : ReportEntry}
    (h : l.reportEntry B reload n i = .ok e) :
    EntryOf ((B.records l.store).take n) (l.leaves.take n) i e := by
  rw [Ledger.reportEntry] at h
  obtain ⟨event, hevent, h⟩ := bind_eq_ok.mp h
  obtain ⟨timestamp, -, h⟩ := bind_eq_ok.mp h
  obtain ⟨agentId, -, h⟩ := bind_eq_ok.mp h
  obtain ⟨proof, hproof, h⟩ := bind_eq_ok.mp h
  rw [← pure_eq_ok.mp h]
  obtain ⟨P, leaf, hP, hleaf, hverify⟩ :=
    @LedgerThreads.inclusionProofHexOf_take l.leaves n hn i (Int.natCast_nonneg i) (by omega)
  have hlen : (l.leaves.take n).length = n := by rw [List.length_take, Nat.min_eq_left hn]
  refine ⟨?_, rfl, P, leaf, ?_, ?_, ?_⟩
  -- the event is the record at its index
  · rw [Ledger.getEvent] at hevent
    split at hevent
    · rename_i record hrecord
      rw [hreload record (List.mem_of_getElem? hrecord), Except.ok.injEq] at hevent
      rw [List.getElem?_take_of_lt hi, hrecord, hevent]
    · cases hevent
  -- the proof is pinned to the size, so it is one of the first leaves only
  · have hpinned : l.pinned (some (n : Int)) = l.leaves.take n := by
      rw [Ledger.pinned]
      simp
    rw [Ledger.inclusionProofHex, hpinned, hP] at hproof
    exact (Except.ok.inj hproof).symm
  · rw [List.getElem?_take_of_lt hi]
    exact hleaf
  · rw [hlen]
    exact hverify

/-- What is read for all indices, with proofs pinned to a size, are the entries of the log of that
size. -/
theorem entries_of_reportEntry
    (hreload : ∀ record ∈ B.records l.store, reload record = .ok record) {n : Nat}
    (hn : n ≤ l.leaves.length) {entries : List ReportEntry}
    (h : (List.range n).mapM (l.reportEntry B reload n) = .ok entries) :
    List.Forall₂ (EntryOf ((B.records l.store).take n) (l.leaves.take n)) (List.range n) entries := by
  rw [mapM_eq_ok] at h
  refine List.forall₂_iff_get.mpr ⟨h.length_eq, fun i hi hi' => ?_⟩
  have hentry := (List.forall₂_iff_get.mp h).2 i hi hi'
  rw [List.length_range] at hi
  simp only [List.get_eq_getElem, List.getElem_range] at hentry ⊢
  exact entryOf_reportEntry hreload hn hi hentry

/-- **An honest report verifies.** Let a ledger be reached from an empty backend, let a crosswalk with
distinct control ids be evaluated over its events, and let a report be built with the result before
the ledger changes (under a checkpoint of that ledger, if one is given). Read back from its JSON text,
the report is found valid by the deep verifier under the signer's key.

Signatures that the key makes verify, the PEM text of a key is read back, JSON-mode dumps have no
tuples, and validating a record of the ledger and dumping it again gives the record. -/
theorem buildReport_verifies (B : LedgerBackend σ) (store : σ) (hstore : B.records store = [])
    (origin : Str) (retention : Option (Str → Except PyErr Str)) (calls : List Ledger.LedgerCall)
    (cw : Crosswalk) (hids : (cw.controls.map (·.id)).Nodup) (key : KeySource) (ed : Ed25519)
    (hed : ∀ data sig, key.sign data = .ok sig → ed key.publicKeyRaw sig data = true)
    (pem : PemReader) (env : ReportEnv)
    (hpem : ∀ raw text, env.publicKeyPem raw = .ok text → pem (.str text) = .ok raw)
    (reload : Reload) (hjson : ∀ v w, reload v = .ok w → jsonMode w = w) (builtins : Builtins)
    (options : ReportOptions) :
    ∃ l₀, Ledger.init B store origin retention = .ok l₀ ∧
      let l := Ledger.run B l₀ calls
      (∀ record ∈ B.records l.store, reload record = .ok record) →
      (∀ c, options.checkpoint = some c → ∃ timestamp clock, l.checkpoint key timestamp clock = .ok c) →
      ∀ dicts cr report, l.events B reload = .ok dicts → cw.evaluate dicts = .ok cr →
        buildReport B reload l cr key options env = .ok report →
        ∃ loaded res, loads (Json.dumps (.dict report)) = .ok (.dict loaded) ∧
          verifyReportDeep ed pem builtins reload loaded (some key.publicKeyRaw) (some cw) = .ok res ∧
          res.valid = true := by
  obtain ⟨l₀, hinit, hinv₀⟩ := Ledger.init_empty hstore origin retention
  refine ⟨l₀, hinit, ?_⟩
  intro l hreload hcheckpoint dicts cr report hevents heval hbuild
  have hinv : Ledger.Inv B l := hinv₀.run calls
  have hdumped : Ledger.Dumped B l := (Ledger.dumped_init_empty hstore hinit).run calls
  have hlog := logged_of_inv hinv hdumped
  -- the events of the ledger are its records
  have hdicts : dicts = B.records l.store := by
    have hself : l.events B reload = .ok ((B.records l.store).map id) := mapM_eq_ok_map hreload
    rw [hself, List.map_id, Except.ok.injEq] at hevents
    exact hevents.symm
  subst hdicts
  -- the checkpoint is one of the ledger
  rw [buildReport] at hbuild
  obtain ⟨_, -, hbuild⟩ := bind_eq_ok.mp hbuild
  obtain ⟨c, hc, hbuild⟩ := bind_eq_ok.mp hbuild
  obtain ⟨entries, hentries, hbuild⟩ := bind_eq_ok.mp hbuild
  obtain ⟨timestamp, clock, htaken⟩ : ∃ timestamp clock, l.checkpoint key timestamp clock = .ok c := by
    rw [reportCheckpointOf] at hc
    split at hc
    · rename_i c' hgiven
      exact hcheckpoint c (hgiven.trans (congrArg some (Except.ok.inj hc)))
    · exact ⟨_, _, hc⟩
  rw [Ledger.checkpoint, Ledger.snapshot, hinv.tree.root_eq] at htaken
  have hhead := signedHead_of_signSnapshot hed htaken
  have hsize := (Ledger.signSnapshot_eq_ok htaken).1
  -- the entries are those of the whole log
  have hentries' : List.Forall₂ (EntryOf (B.records l.store) l.leaves) (List.range l.leaves.length)
      entries := by
    rw [hsize, Int.toNat_natCast] at hentries
    have hread := entries_of_reportEntry hreload le_rfl hentries
    rwa [List.take_length, ← hinv.length_records, List.take_length, hinv.length_records] at hread
  obtain ⟨res, hres, hvalid⟩ := verifyReportDeep_of_assemble hlog hbuild
    (List.Subset.refl _) hhead hentries' hids hreload
    heval (rfl : chooseCrosswalk builtins (some cw) cr.block = .ok (.ok cw)) hed hpem
  refine ⟨report, res, loads_report hbuild fun e he => ?_, hres, hvalid⟩
  have hmem : e.event ∈ B.records l.store := by
    rw [← map_event_of_entries hlog hentries']
    exact List.mem_map_of_mem he
  exact hjson _ _ (hreload _ hmem)

end OnLedger

/-! ## Sample ledgers -/

/-- The PEM text of the sample producer's key. -/
def samplePem : Str :=
  lit "-----BEGIN PUBLIC KEY-----\n"
    ++ b64encode ([48, 42, 48, 5, 6, 3, 43, 101, 112, 3, 33, 0] ++ sampleKey)
    ++ lit "\n-----END PUBLIC KEY-----\n"

/-- The sample producer's key is written as its PEM text. -/
def sampleEnv : ReportEnv where
  uuid := lit "1"
  now := .ok (lit "2026-01-01T00:00:00Z")
  clock := .ok (lit "2026-01-01T00:00:00Z")
  publicKeyPem raw := if raw = sampleKey then .ok samplePem else .error { kind := .valueError }

/-- The PEM text of the sample key, -/
theorem publicKeyPem_sampleKey : sampleEnv.publicKeyPem sampleKey = .ok samplePem := by
  simp [sampleEnv]

/-- The text is read back. -/
def samplePemReader : PemReader := fun text =>
  if text = .str samplePem then .ok sampleKey else .error []

/-- which is read back. -/
theorem samplePemReader_of (raw : Bytes) (text : Str) (h : sampleEnv.publicKeyPem raw = .ok text) :
    samplePemReader (.str text) = .ok raw := by
  rw [sampleEnv] at h
  dsimp only at h
  split at h
  · rename_i hraw
    rw [hraw, ← Except.ok.inj h, samplePemReader, if_pos rfl]
  · cases h

/-- A high-risk decision of an agent. -/
def sampleDecision : ComplianceEvent where
  content := .ok [(lit "schema_version", .str (lit "1.0.0")),
    (lit "timestamp", .str (lit "2026-01-01T00:00:00Z")), (lit "kind", .str (lit "agent_decision")),
    (lit "actor", .dict [(lit "agent_id", .str (lit "agent-1"))]), (lit "provenance", .dict []),
    (lit "risk", .dict [(lit "classification", .str (lit "high"))]), (lit "attributes", .dict []),
    (lit "labels", .dict []), (lit "source", .dict [(lit "format", .str (lit "sdk"))])]
  content_keys := by
    intro kvs hkvs kv hkv
    rw [← Except.ok.inj hkvs] at hkv
    simp only [List.mem_cons, List.not_mem_nil, or_false] at hkv
    rcases hkv with rfl | rfl | rfl | rfl | rfl | rfl | rfl | rfl | rfl <;>
      exact ⟨by simp only; decide, by simp only; decide⟩

/-- Its leaf hash. -/
def sampleLeaf : Bytes :=
  [207, 208, 110, 102, 226, 250, 192, 108, 139, 233, 67, 37, 229, 177, 20, 169, 150, 49, 216, 29,
    140, 79, 131, 42, 172, 13, 93, 169, 214, 140, 192, 249]

/-- Its record at the first index of a ledger. -/
def sampleRecord : Val :=
  .dict [(lit "event_id", .str (lit "evt_19e720c5a36bc08eec958330a7c88197cf94569d")),
    (lit "schema_version", .str (lit "1.0.0")), (lit "timestamp", .str (lit "2026-01-01T00:00:00Z")),
    (lit "kind", .str (lit "agent_decision")),
    (lit "actor", .dict [(lit "agent_id", .str (lit "agent-1"))]), (lit "provenance", .dict []),
    (lit "risk", .dict [(lit "classification", .str (lit "high"))]), (lit "attributes", .dict []),
    (lit "labels", .dict []), (lit "source", .dict [(lit "format", .str (lit "sdk"))]),
    (lit "ledger", .dict [(lit "leaf_hash", .str (lit "sha256:" ++ hex sampleLeaf)),
      (lit "leaf_index", .int 0), (lit "committed_at", .str (lit "2026-01-01T00:00:00Z"))])]

/-- A new ledger in memory. -/
def sampleNew : Ledger (List Val) where
  store := []
  origin := lit "openwright"
  retention := none
  leaves := []
  tree := .new

/-- The ledger with that record. -/
def sampleLedger : Ledger (List Val) where
  store := [sampleRecord]
  origin := lit "openwright"
  retention := none
  leaves := [sampleLeaf]
  tree := Merkle.IncrementalMerkleTree.append .new sampleLeaf

/-- The decision is recorded. -/
theorem commit_sampleDecision : (Ledger.commit inMemoryLedgerBackend sampleNew sampleDecision
    (.ok (lit "2026-01-01T00:00:00Z"))).2 = sampleLedger := by
  have hstore : (Ledger.commit inMemoryLedgerBackend sampleNew sampleDecision
      (.ok (lit "2026-01-01T00:00:00Z"))).2.store = [sampleRecord] := by
    decide +kernel
  have hleaf : leafBytesFromRecord sampleRecord = .ok sampleLeaf := by decide +kernel
  rcases Ledger.commit_cases inMemoryLedgerBackend sampleNew sampleDecision
    (.ok (lit "2026-01-01T00:00:00Z")) with ⟨err, hcommit⟩ | ⟨p, -, hcommit⟩
  · rw [hcommit] at hstore
    cases hstore
  rw [hcommit] at hstore ⊢
  rcases Ledger.commitLocked_cases inMemoryLedgerBackend sampleNew p with
    ⟨err, store, hlocked, hrecords⟩ | ⟨event, record, store, hlocked, rfl, hdump, hrecords⟩
  · rw [hlocked] at hstore
    rw [show store = [sampleRecord] from hstore] at hrecords
    cases hrecords
  · rw [hlocked] at hstore ⊢
    -- the record says which leaf was appended
    obtain rfl : store = [sampleRecord] := hstore
    obtain rfl : sampleRecord = record := List.head_eq_of_cons_eq hrecords
    have hrecorded := (Ledger.recorded_of_dump hdump).leafBytesFromRecord_eq
    rw [hleaf, Except.ok.injEq] at hrecorded
    rw [← hrecorded]
    rfl

/-- The sample run commits the decision. -/
theorem run_sampleDecision : Ledger.run inMemoryLedgerBackend sampleNew
    [.commit sampleDecision (.ok (lit "2026-01-01T00:00:00Z"))] = sampleLedger := by
  rw [Ledger.run, List.foldl_cons, List.foldl_nil, Ledger.step]
  exact commit_sampleDecision

/-- The log of the sample ledger. -/
theorem logged_sample : Logged [sampleRecord] [sampleLeaf] := by
  obtain ⟨l₀, hinit, hinv⟩ := @Ledger.init_empty _ inMemoryLedgerBackend [] rfl (lit "openwright") none
  have hdumped := Ledger.dumped_init_empty rfl hinit
  obtain rfl : sampleNew = l₀ := Except.ok.inj hinit
  have hlog := logged_of_inv (hinv.run [.commit sampleDecision (.ok (lit "2026-01-01T00:00:00Z"))])
    (hdumped.run _)
  rwa [run_sampleDecision] at hlog

/-- The leaf of the sample record. -/
theorem leaf_sampleRecord : leafFromEventDict sampleRecord = .ok sampleLeaf :=
  (logged_sample.recorded 0 sampleRecord sampleLeaf rfl rfl).leaf_eq

/-- The records of the sample ledger are read as they are. -/
def sampleReload : Reload := fun v => .ok (jsonMode v)

/-- The producer's signature of the head of the sample ledger. -/
def sampleHeadSig : Bytes :=
  [78, 91, 225, 14, 80, 89, 243, 114, 164, 87, 199, 80, 106, 102, 188, 71, 236, 126, 209, 250,
    238, 157, 170, 204, 32, 158, 184, 118, 246, 1, 222, 51, 174, 113, 182, 7, 86, 120, 184, 73, 44,
    241, 144, 219, 111, 98, 203, 126, 95, 226, 85, 219, 204, 100, 99, 207, 112, 69, 189, 222, 21,
    159, 185, 1]

/-- The checkpoint of the sample ledger. -/
def sampleCheckpoint : Checkpoint := sampleHead 1 sampleLeaf sampleHeadSig

/-- The entry of the record. -/
def sampleEntry : ReportEntry where
  event := sampleRecord
  leafIndex := 0
  proof := []
  timestamp := lit "2026-01-01T00:00:00Z"
  agentId := lit "agent-1"

/-- The sample entry is encodable. -/
theorem encodable_sampleEntry : ∀ e ∈ [sampleEntry], e.Encodable := by
  intro e he
  rw [List.mem_singleton.mp he]
  refine ⟨?_, fun s hs => absurd hs List.not_mem_nil, scalar_lit _, scalar_lit _⟩
  simp [sampleEntry, sampleRecord, Canonical.Encodable, EncodableItems]

/-- The sample checkpoint is taken. -/
theorem checkpoint_sampleLedger {made : List (Bytes × Bytes)} :
    sampleLedger.checkpoint (madeKey sampleKey (sampleCheckpoint.signedAs sampleHeadSig :: made)) none
      (.ok (lit "2026-01-01T00:00:00Z")) = .ok sampleCheckpoint := by
  have hroot : sampleLedger.tree.root = sampleLeaf := by decide +kernel
  exact checkpoint_sampleHead rfl (congrArg (fun root => (1, hex root)) hroot)

/-- The sample record has no tuples. -/
theorem sampleReload_sampleRecord : sampleReload sampleRecord = .ok sampleRecord := rfl

/-- The sample entry is read. -/
theorem reportEntry_sampleLedger :
    sampleLedger.reportEntry inMemoryLedgerBackend sampleReload 1 0 = .ok sampleEntry := by
  have hproof : sampleLedger.inclusionProofHex (0 : Nat) (some 1) = .ok [] := by
    refine bind_eq_ok.mpr ⟨[], ?_, rfl⟩
    decide +kernel
  have hevent : sampleLedger.getEvent inMemoryLedgerBackend sampleReload 0 = .ok sampleRecord := rfl
  rw [Ledger.reportEntry, hevent]
  refine bind_eq_ok.mpr ⟨sampleRecord, rfl, bind_eq_ok.mpr ⟨_, rfl, bind_eq_ok.mpr ⟨_, rfl, ?_⟩⟩⟩
  rw [hproof]
  rfl

/-- The sample entry marks no gap. -/
theorem select_sampleEntry :
    select (fun e : ReportEntry => isGapMarker e.event) [sampleEntry] = .ok [] :=
  eq_ok_of_toOption (by decide +kernel)

/-! ## A report on three events -/

/-- The options of a sample report. -/
def sampleOptions : ReportOptions where
  scopeDescription := lit "agent"

/-- The sample report on a result, without its signature. -/
def agentReport (cr : CrosswalkResult) (c : Checkpoint) (entries : List ReportEntry) : Items :=
  unsignedReport cr sampleOptions (lit "rpt_1") (lit "2026-01-01T00:00:00Z") samplePem c entries []

/-- A checkpoint of the sample producer is encodable. -/
theorem encodable_sampleHead (treeSize : Int) (root sig : Bytes) :
    Encodable (sampleHead treeSize root sig).dump :=
  encodable_checkpointDump (scalar_lit _) (scalar_hex _) (scalar_lit _) (scalar_keyIdFor _)
    (scalar_b64encode _) rfl

/-- The block of a result is encodable where its texts and the crosswalk are. -/
theorem encodable_block {cw : Crosswalk} {cr : CrosswalkResult} (hcw : Encodable cw.dump)
    (hhash : cr.crosswalkContentHash = (crosswalkContentHash cw).toOption)
    (hblock : Canonical.Encodable { cr with crosswalkContentHash := none }.block) :
    Encodable cr.block := by
  obtain ⟨hash, hcontent, hscalar⟩ := exists_contentHash hcw
  rw [crosswalkContentHash, hcontent, Except.toOption] at hhash
  simp only [CrosswalkResult.block, Canonical.Encodable, EncodableItems, hhash, optStr,
    Option.map_some, Option.getD_some, Option.map_none, Option.getD_none] at hblock ⊢
  simpa only [hscalar, true_and] using hblock

/-- Where the key has signed it, the sample report on an encodable result is assembled. -/
theorem exists_agentReport {cr : CrosswalkResult} {c : Checkpoint} {entries : List ReportEntry}
    {made : List (Bytes × Bytes)} {sig : Bytes} (hblock : Encodable cr.block)
    (hcontrols : ∀ r ∈ cr.controls, Encodable r.dump) (hc : Encodable c.dump)
    (hentries : ∀ e ∈ entries, e.Encodable)
    (hgaps : select (fun e => isGapMarker e.event) entries = .ok [])
    (hmade : ((signingPayload (agentReport cr c entries)).toOption.getD [], sig) ∈ made) :
    ∃ signature, assembleReport cr (madeKey sampleKey made) sampleOptions sampleEnv c entries
      = .ok (agentReport cr c entries
        ++ [(lit "signature", signatureBlock (madeKey sampleKey made) signature)]) := by
  have hoptions : sampleOptions.Encodable :=
    ⟨scalar_lit _, fun ids hids => (by cases hids), fun kvs hkvs => (by cases hkvs)⟩
  obtain ⟨payload, hpayload⟩ : ∃ payload, signingPayload (agentReport cr c entries) = .ok payload :=
    exists_signingPayload hblock hcontrols hoptions (scalar_lit _) (scalar_lit _)
      (by simp [samplePem]) hc hentries fun e he => absurd he List.not_mem_nil
  rw [hpayload] at hmade
  obtain ⟨signature, hsign⟩ := exists_sign_of_mem hmade
  have hid : orDefault sampleOptions.reportId (lit "rpt_" ++ sampleEnv.uuid) = lit "rpt_1" := by decide
  rw [agentReport, ← hid] at hpayload ⊢
  exact ⟨signature, assembleReport_of hgaps rfl publicKeyPem_sampleKey hpayload hsign⟩

/-- A citation of the sample policy. -/
def policyCitation : Items :=
  [(lit "instrument", .str (lit "internal policy")), (lit "paragraphs", .list [])]

/-- Three controls: events are recorded, high-risk decisions name an approval, and, for banks,
incidents are recorded. -/
def sampleCrosswalk : Crosswalk where
  id := lit "demo"
  title := lit "Demo"
  version := lit "1.0.0"
  source := lit "internal policy"
  reviewedAsOf := lit "2026-01-01"
  controls := [
    { id := lit "records", title := lit "Records", requirement := lit "Events are recorded.",
      citation := policyCitation,
      condition := .mk (lit "committed") none none .null none none [] },
    { id := lit "oversight", title := lit "Oversight", requirement := lit "Decisions are approved.",
      citation := policyCitation,
      scope := { kind := some [lit "agent_decision"], riskClassification := some [lit "high"] },
      condition := .mk (lit "linked") none none .null (some (lit "approval_ref"))
        (some { kind := some [lit "human_approval"], oversightStatus := some [lit "approved"] }) [] },
    { id := lit "incidents", title := lit "Incidents", requirement := lit "Incidents are recorded.",
      citation := policyCitation, scope := { kind := some [lit "incident"] },
      condition := .mk (lit "committed") none none .null none none [],
      appliesToProfiles := [lit "bank"] }]

/-- The fields of an event of the sample agent. -/
def agentEvent (kind : Str) (fields : Items) : Items :=
  [(lit "schema_version", .str (lit "1.0.0")), (lit "timestamp", .str (lit "2026-01-01T00:00:00Z")),
    (lit "kind", .str kind), (lit "actor", .dict [(lit "agent_id", .str (lit "agent-1"))]),
    (lit "provenance", .dict [])] ++ fields ++
    [(lit "attributes", .dict []), (lit "labels", .dict []),
      (lit "source", .dict [(lit "format", .str (lit "sdk"))])]

/-- Those of an approval, and of a high-risk decision that names it. -/
def approvalFields : Items :=
  agentEvent (lit "human_approval") [(lit "oversight", .dict [(lit "status", .str (lit "approved"))])]

def approvedFields : Items :=
  agentEvent (lit "agent_decision")
    [(lit "oversight", .dict [(lit "status", .str (lit "approved")),
        (lit "approval_ref", .str (lit "evt_633a2e8ec3f0058eb33b021876adea35673cf405"))]),
      (lit "risk", .dict [(lit "classification", .str (lit "high"))])]

/-- The two events. -/
def sampleApproval : ComplianceEvent where
  content := .ok approvalFields
  content_keys := by
    intro kvs hkvs
    rw [← Except.ok.inj hkvs]
    decide

def sampleApproved : ComplianceEvent where
  content := .ok approvedFields
  content_keys := by
    intro kvs hkvs
    rw [← Except.ok.inj hkvs]
    decide

/-- A decision without an approval, an approval, and a decision that names it. -/
def threeCalls : List Ledger.LedgerCall :=
  [.commit sampleDecision (.ok (lit "2026-01-01T00:00:00Z")),
    .commit sampleApproval (.ok (lit "2026-01-01T00:00:00Z")),
    .commit sampleApproved (.ok (lit "2026-01-01T00:00:00Z"))]

/-- The ledger of the three events. -/
def threeLedger : Ledger (List Val) := Ledger.run inMemoryLedgerBackend sampleNew threeCalls

/-- The sample run commits the three. -/
theorem run_threeCalls : Ledger.run inMemoryLedgerBackend sampleNew threeCalls = threeLedger := rfl

attribute [irreducible] threeLedger

/-- The leaf hashes of the second and third events, and the root. -/
def approvalLeaf : Bytes :=
  [175, 71, 177, 159, 8, 28, 116, 109, 251, 246, 141, 47, 60, 245, 113, 55, 223, 167, 192, 172, 129,
    203, 241, 140, 26, 140, 156, 62, 37, 28, 217, 128]

def approvedLeaf : Bytes :=
  [76, 201, 43, 22, 227, 84, 161, 210, 143, 53, 249, 223, 207, 85, 200, 37, 87, 242, 178, 205, 172,
    223, 112, 124, 103, 177, 86, 9, 18, 179, 17, 54]

def threeRoot : Bytes :=
  [49, 31, 88, 19, 75, 88, 123, 244, 25, 227, 34, 16, 79, 183, 196, 126, 245, 95, 69, 85, 189, 40, 153,
    252, 10, 45, 71, 61, 56, 192, 187, 109]

/-- The record of an event at an index. -/
def recordAt (eventId : String) (fields : Items) (index : Int) (leaf : Bytes) : Val :=
  .dict <| (lit "event_id", .str (lit eventId)) :: fields ++
    [(lit "ledger", .dict [(lit "leaf_hash", .str (lit "sha256:" ++ hex leaf)),
      (lit "leaf_index", .int index), (lit "committed_at", .str (lit "2026-01-01T00:00:00Z"))])]

/-- The records of the approval and of the decision that names it. -/
def approvalRecord : Val :=
  recordAt "evt_633a2e8ec3f0058eb33b021876adea35673cf405" approvalFields 1 approvalLeaf

def approvedRecord : Val :=
  recordAt "evt_255df9eb28af5d9d418e2c65d08e49deb0b22587" approvedFields 2 approvedLeaf

/-- The records of the three. -/
def threeRecords : List Val := [sampleRecord, approvalRecord, approvedRecord]

/-- The entry of an event of the sample agent. -/
def entryAt (event : Val) (index : Nat) (proof : List Bytes) : ReportEntry where
  event
  leafIndex := index
  proof := proof.map hex
  timestamp := lit "2026-01-01T00:00:00Z"
  agentId := lit "agent-1"

/-- The entries of the three. -/
def threeEntries : List ReportEntry :=
  [entryAt sampleRecord 0 [approvalLeaf, approvedLeaf],
    entryAt approvalRecord 1 [sampleLeaf, approvedLeaf],
    entryAt approvedRecord 2 [Merkle.treeHash [sampleLeaf, approvalLeaf]]]


/-- The producer's signature of the head of the three. -/
def threeHeadSig : Bytes :=
  [217, 89, 176, 189, 124, 88, 131, 236, 117, 134, 109, 38, 45, 226, 221, 58, 26, 179, 83, 203, 0,
    42, 89, 65, 224, 112, 245, 234, 158, 222, 129, 188, 179, 164, 172, 41, 136, 140, 195, 236, 14,
    27, 87, 188, 193, 140, 238, 144, 74, 69, 145, 171, 126, 135, 32, 105, 239, 134, 101, 253, 233,
    56, 22, 13]

/-- The checkpoint of the three. -/
def threeCheckpoint : Checkpoint := sampleHead 3 threeRoot threeHeadSig

/-- The result of the sample crosswalk on the three, with all three states. -/
def sampleResult : CrosswalkResult where
  crosswalkId := lit "demo"
  crosswalkTitle := lit "Demo"
  crosswalkVersion := lit "1.0.0"
  crosswalkContentHash := (crosswalkContentHash sampleCrosswalk).toOption
  source := lit "internal policy"
  reviewedAsOf := lit "2026-01-01"
  controls := [
    { controlId := lit "records", title := lit "Records", status := .satisfied,
      requirement := lit "Events are recorded.", citation := policyCitation,
      reason := lit "All 3 in-scope event(s) satisfied the required predicate.",
      evaluatedCount := 3, satisfiedCount := 3,
      evidenceEventIds := [.str (lit "evt_19e720c5a36bc08eec958330a7c88197cf94569d"),
        .str (lit "evt_633a2e8ec3f0058eb33b021876adea35673cf405"),
        .str (lit "evt_255df9eb28af5d9d418e2c65d08e49deb0b22587")] },
    { controlId := lit "oversight", title := lit "Oversight", status := .notSatisfied,
      requirement := lit "Decisions are approved.", citation := policyCitation,
      reason := lit "1 of 2 in-scope event(s) did not satisfy the required predicate.",
      evaluatedCount := 2, satisfiedCount := 1,
      evidenceEventIds := [.str (lit "evt_255df9eb28af5d9d418e2c65d08e49deb0b22587")],
      gapEventIds := [.str (lit "evt_19e720c5a36bc08eec958330a7c88197cf94569d")] },
    { controlId := lit "incidents", title := lit "Incidents", status := .insufficientEvidence,
      requirement := lit "Incidents are recorded.", citation := policyCitation,
      reason := emptyReason .insufficientEvidence, evaluatedCount := 0, satisfiedCount := 0 }]

/-- The report on the three without its signature. -/
def sampleUnsigned : Items := agentReport sampleResult threeCheckpoint threeEntries

/-- The producer's signature of it. -/
def sampleReportSig : Bytes :=
  [15, 140, 77, 242, 203, 0, 117, 51, 138, 15, 105, 145, 90, 31, 49, 88, 0, 171, 124, 19, 204, 238,
    220, 138, 28, 165, 133, 158, 110, 175, 57, 43, 11, 129, 62, 212, 244, 99, 234, 19, 232, 194, 198,
    254, 110, 168, 64, 165, 95, 112, 140, 69, 208, 0, 98, 51, 96, 209, 23, 254, 95, 23, 66, 14]

/-- The two signatures the producer makes: of the head and of the report. -/
def sampleMade : List (Bytes × Bytes) :=
  [threeCheckpoint.signedAs threeHeadSig,
    ((signingPayload sampleUnsigned).toOption.getD [], sampleReportSig)]

/-- What is read of the ledger of the three. -/
theorem reads_threeLedger : threeLedger.origin = lit "openwright" ∧ threeLedger.store = threeRecords ∧
    threeLedger.leaves = [sampleLeaf, approvalLeaf, approvedLeaf] ∧
    threeLedger.snapshot = (3, hex threeRoot) ∧
    ((List.range 3).mapM (threeLedger.reportEntry inMemoryLedgerBackend sampleReload 3)).toOption
      = some threeEntries := by
  decide +kernel

/-- The checkpoint of the three is taken. -/
theorem checkpoint_threeLedger {made : List (Bytes × Bytes)} :
    threeLedger.checkpoint (madeKey sampleKey (threeCheckpoint.signedAs threeHeadSig :: made)) none
      (.ok (lit "2026-01-01T00:00:00Z")) = .ok threeCheckpoint :=
  checkpoint_sampleHead reads_threeLedger.1 reads_threeLedger.2.2.2.1

/-- Validating a record of the three and dumping it again gives the record. -/
theorem sampleReload_threeRecords : ∀ record ∈ threeRecords, sampleReload record = .ok record := by
  intro record hrecord
  simp only [threeRecords, List.mem_cons, List.not_mem_nil, or_false] at hrecord
  rcases hrecord with rfl | rfl | rfl <;> rfl

/-- The records of the ledger. -/
theorem records_threeLedger : inMemoryLedgerBackend.records threeLedger.store = threeRecords := by
  rw [reads_threeLedger.2.1]
  rfl

/-- The events of the ledger are those records. -/
theorem events_threeLedger :
    threeLedger.events inMemoryLedgerBackend sampleReload = .ok threeRecords := by
  rw [Ledger.events, records_threeLedger]
  exact mapM_eq_ok.mpr (List.forall₂_same.mpr sampleReload_threeRecords)

/-- The entries of the three are encodable. -/
theorem encodable_threeEntries : ∀ e ∈ threeEntries, e.Encodable := by
  have hentry : ∀ event index proof, Canonical.Encodable event →
      (entryAt event index proof).Encodable := by
    intro event index proof hevent
    refine ⟨hevent, fun s hs => ?_, scalar_lit _, scalar_lit _⟩
    obtain ⟨node, -, rfl⟩ := List.mem_map.mp hs
    exact scalar_hex node
  intro e he
  simp only [threeEntries, List.mem_cons, List.not_mem_nil, or_false] at he
  rcases he with rfl | rfl | rfl <;> refine hentry _ _ _ ?_ <;>
    simp [sampleRecord, approvalRecord, approvedRecord, recordAt, approvalFields, approvedFields,
        agentEvent,
      Canonical.Encodable, EncodableItems]

/-- None of them marks a gap. -/
theorem select_threeEntries : select (fun e => isGapMarker e.event) threeEntries = .ok [] :=
  eq_ok_of_toOption (by decide +kernel)

/-- The sample crosswalk is encodable. -/
theorem encodable_sampleCrosswalk : Encodable sampleCrosswalk.dump := by
  simp [sampleCrosswalk, policyCitation, Crosswalk.dump, Control.dump, EventFilter.dump, Condition.dump,
    Condition.dumpList, Canonical.Encodable, EncodableItems, EncodableList, ifSet, strings, jsonMode,
    jsonModeItems, jsonModeList, EmptyScopePolicy.value]

/-- The results are encodable. -/
theorem encodable_sampleResult :
    Encodable sampleResult.block ∧ ∀ r ∈ sampleResult.controls, Encodable r.dump := by
  refine ⟨encodable_block encodable_sampleCrosswalk (by rw [sampleResult]) ?_, fun r hr => ?_⟩
  · simp [sampleResult, CrosswalkResult.block, Canonical.Encodable, EncodableItems, optStr]
  · simp only [sampleResult, List.mem_cons, List.not_mem_nil, or_false] at hr
    rcases hr with rfl | rfl | rfl <;> refine encodable_jsonMode ?_ <;>
      simp [Canonical.Encodable, EncodableItems, EncodableList, ControlStatus.value, policyCitation,
        emptyReason]

/-- The sample report is built. -/
theorem exists_sampleReport : ∃ report, buildReport inMemoryLedgerBackend sampleReload threeLedger
    sampleResult (madeKey sampleKey sampleMade) sampleOptions sampleEnv = .ok report := by
  obtain ⟨signature, hassemble⟩ := exists_agentReport encodable_sampleResult.1 encodable_sampleResult.2
    (encodable_sampleHead 3 threeRoot threeHeadSig) encodable_threeEntries select_threeEntries
    (List.mem_cons_of_mem _ List.mem_cons_self : _ ∈ sampleMade)
  exact ⟨_, buildReport_of rfl checkpoint_threeLedger (eq_ok_of_toOption reads_threeLedger.2.2.2.2)
    hassemble⟩

/-- One control is satisfied, one is not, and one has too little evidence. -/
theorem evaluate_threeRecords : sampleCrosswalk.evaluate threeRecords = .ok sampleResult := by
  have hcontrols : sampleCrosswalk.controlResults threeRecords = .ok sampleResult.controls :=
    eq_ok_of_toOption (by decide +kernel)
  obtain ⟨hash, hhash, -⟩ := exists_contentHash encodable_sampleCrosswalk
  rw [Crosswalk.evaluate, hcontrols]
  refine bind_eq_ok.mpr ⟨_, rfl, ?_⟩
  rw [sampleResult, crosswalkContentHash, hhash]
  rfl

/-- The report on the three verifies. -/
theorem buildReport_verifies_sample : ∃ l₀ report loaded res,
    Ledger.init inMemoryLedgerBackend [] (lit "openwright") none = .ok l₀ ∧
      (Ledger.run inMemoryLedgerBackend l₀ threeCalls).store = threeRecords ∧
      buildReport inMemoryLedgerBackend sampleReload (Ledger.run inMemoryLedgerBackend l₀ threeCalls)
        sampleResult (madeKey sampleKey sampleMade) sampleOptions sampleEnv = .ok report ∧
      loads (Json.dumps (.dict report)) = .ok (.dict loaded) ∧
      verifyReportDeep (madeBy sampleKey sampleMade) samplePemReader [] sampleReload loaded
        (some sampleKey) (some sampleCrosswalk) = .ok res ∧ res.valid = true := by
  obtain ⟨report, hreport⟩ := exists_sampleReport
  obtain ⟨l₀, hinit, h⟩ := buildReport_verifies inMemoryLedgerBackend [] rfl (lit "openwright") none
    threeCalls sampleCrosswalk (by decide) (madeKey sampleKey sampleMade) (madeBy sampleKey sampleMade)
    (fun _ _ h => madeBy_of_sign h) samplePemReader sampleEnv samplePemReader_of sampleReload
    (fun v w h => by rw [← Except.ok.inj h, jsonMode_jsonMode]) [] sampleOptions
  obtain rfl : sampleNew = l₀ := Except.ok.inj hinit
  rw [run_threeCalls] at h
  obtain ⟨loaded, res, hloaded, hres, hvalid⟩ := h
    (fun record hrecord => sampleReload_threeRecords record (records_threeLedger ▸ hrecord))
    (fun c hc => by cases hc)
    threeRecords sampleResult report events_threeLedger evaluate_threeRecords hreport
  refine ⟨sampleNew, report, loaded, res, hinit, ?_⟩
  rw [run_threeCalls]
  exact ⟨reads_threeLedger.2.1, hreport, hloaded, hres, hvalid⟩

end OpenWright
