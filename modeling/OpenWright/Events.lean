import OpenWright.Canonical
import OpenWright.Merkle.Tree

/-! # Compliance events

The record every signal becomes, and the bytes that get hashed: everything except `event_id` and
`ledger` derives the event's id, everything except `ledger` is the payload of its Merkle leaf.

* **`leafFromEventDict_dump`** — a verifier that strips `ledger` from a dumped event recomputes the
  leaf hash of the event. -/

namespace OpenWright

open Python Canonical Merkle

/-! ## The model -/

/-- `LedgerFields`: assigned at commit time. -/
structure LedgerFields where
  leafHash : Option Str := none
  leafIndex : Option Int := none
  checkpointId : Option Str := none
  committedAt : Option Str := none
  retentionUntil : Option Str := none
  /-- The fields `extra="allow"` lets through, without the unset ones. -/
  extra : Items := []

/-- `model_dump(mode="json", exclude_none=True)` of ledger fields. -/
def LedgerFields.dump (f : LedgerFields) : Val :=
  .dict <| ((f.leafHash.map fun s => (lit "leaf_hash", Val.str s)).toList
    ++ (f.leafIndex.map fun z => (lit "leaf_index", Val.int z)).toList
    ++ (f.checkpointId.map fun s => (lit "checkpoint_id", Val.str s)).toList
    ++ (f.committedAt.map fun s => (lit "committed_at", Val.str s)).toList
    ++ (f.retentionUntil.map fun s => (lit "retention_until", Val.str s)).toList) ++ f.extra

/-- `ComplianceEvent`. Its id and its ledger fields are assigned by the ledger; of the other fields
the ledger only sees the JSON-mode dump, or the exception that dumping them raises. -/
structure ComplianceEvent where
  eventId : Str := []
  ledger : Option LedgerFields := none
  /-- The dump of the other fields, without the unset ones. -/
  content : Except PyErr Items
  /-- None of the other fields is called `event_id` or `ledger`. -/
  content_keys : ∀ kvs, content = .ok kvs →
    ∀ kv ∈ kvs, kv.1 ≠ lit "event_id" ∧ kv.1 ≠ lit "ledger"

/-- `ComplianceEvent.model_validate`, and the JSON-mode dump of the event it returns. -/
abbrev Reload := Val → Except PyErr Val

namespace ComplianceEvent

/-- The items of `model_dump(mode="json", exclude_none=True)`. -/
def dumpItems (e : ComplianceEvent) : Except PyErr Items := do
  let kvs ← e.content
  return (lit "event_id", .str e.eventId) :: kvs
    ++ (e.ledger.map fun f => (lit "ledger", f.dump)).toList

/-- `model_dump(mode="json", exclude_none=True)`. -/
def dump (e : ComplianceEvent) : Except PyErr Val := do
  let kvs ← e.dumpItems
  return .dict kvs

/-- `_dump`: the dump without some of the top-level keys. -/
def dumpExcept (e : ComplianceEvent) (excludeTop : List Str) : Except PyErr Val := do
  let kvs ← e.dumpItems
  return .dict (kvs.filter fun kv => kv.1 ∉ excludeTop)

/-- `content_for_id`. -/
def contentForId (e : ComplianceEvent) : Except PyErr Val :=
  e.dumpExcept [lit "event_id", lit "ledger"]

/-- `leaf_content`. -/
def leafContent (e : ComplianceEvent) : Except PyErr Val := e.dumpExcept [lit "ledger"]

/-- `derive_event_id`. -/
def deriveEventId (e : ComplianceEvent) : Except PyErr Str := do
  let content ← e.contentForId
  let data ← canonicalBytes content
  return lit "evt_" ++ (sha256Hex data).take 40

/-- `finalize_id`. -/
def finalizeId (e : ComplianceEvent) : Except PyErr ComplianceEvent := do
  let eventId ← e.deriveEventId
  return { e with eventId }

/-- `leaf_content_bytes`. -/
def leafContentBytes (e : ComplianceEvent) : Except PyErr Bytes := do
  let content ← e.leafContent
  canonicalBytes content

end ComplianceEvent

/-! ## The leaf a verifier recomputes -/

/-- `{k: v for k, v in event.items() if k != "ledger"}`. -/
def withoutLedger (kvs : Items) : Items := kvs.filter fun kv => kv.1 ≠ lit "ledger"

/-- `_leaf_from_event_dict` of the verifier. -/
def leafFromEventDict : Val → Except PyErr Bytes
  | .dict kvs => do
    let data ← canonicalBytes (.dict (withoutLedger kvs))
    return leafHash data
  | _ => .error { kind := .attributeError }

/-- Filtering out a key that is not there. -/
theorem withoutLedger_of_ne {kvs : Items} (h : ∀ kv ∈ kvs, kv.1 ≠ lit "ledger") :
    withoutLedger kvs = kvs :=
  List.filter_eq_self.mpr fun kv hkv => decide_eq_true (h kv hkv)

namespace ComplianceEvent

variable {e : ComplianceEvent} {kvs : Items}

/-- What an event with a dump dumps. -/
theorem dumpItems_eq (h : e.content = .ok kvs) :
    e.dumpItems = .ok ((lit "event_id", .str e.eventId) :: kvs
      ++ (e.ledger.map fun f => (lit "ledger", f.dump)).toList) := by
  rw [dumpItems, h]
  rfl

/-- The dump without its `ledger` is the leaf content. -/
theorem withoutLedger_dumpItems (h : e.content = .ok kvs) :
    withoutLedger ((lit "event_id", .str e.eventId) :: kvs
        ++ (e.ledger.map fun f => (lit "ledger", f.dump)).toList)
      = (lit "event_id", .str e.eventId) :: kvs := by
  have hkeys : ∀ kv ∈ (lit "event_id", .str e.eventId) :: kvs, kv.1 ≠ lit "ledger" := by
    intro kv hkv
    rcases List.mem_cons.mp hkv with rfl | hmem
    · exact (by decide : lit "event_id" ≠ lit "ledger")
    · exact (e.content_keys kvs h kv hmem).2
  have hledger : withoutLedger (e.ledger.map fun f => (lit "ledger", f.dump)).toList = [] := by
    cases e.ledger with
    | none => rfl
    | some f => rfl
  rw [withoutLedger, List.filter_append]
  exact (congrArg₂ _ (withoutLedger_of_ne hkeys) hledger).trans (List.append_nil _)

/-- The leaf content of an event with a dump. -/
theorem leafContent_eq (h : e.content = .ok kvs) :
    e.leafContent = .ok (.dict ((lit "event_id", .str e.eventId) :: kvs)) := by
  rw [leafContent, dumpExcept, dumpItems_eq h]
  refine congrArg (fun items => Except.ok (Val.dict items)) (Eq.trans ?_ (withoutLedger_dumpItems h))
  exact List.filter_congr fun kv _ => by simp

/-- The content an id is derived from. -/
theorem contentForId_eq (h : e.content = .ok kvs) : e.contentForId = .ok (.dict kvs) := by
  have hkeep : kvs.filter (fun kv => kv.1 ∉ [lit "event_id", lit "ledger"]) = kvs := by
    refine List.filter_eq_self.mpr fun kv hkv => decide_eq_true fun hmem => ?_
    obtain ⟨hid, hledger⟩ := e.content_keys kvs h kv hkv
    rcases List.mem_pair.mp hmem with heq | heq
    · exact hid heq
    · exact hledger heq
  have hledger : (e.ledger.map fun f => (lit "ledger", f.dump)).toList.filter
      (fun kv => kv.1 ∉ [lit "event_id", lit "ledger"]) = [] := by
    cases e.ledger with
    | none => rfl
    | some f => rfl
  rw [contentForId, dumpExcept, dumpItems_eq h]
  refine bind_eq_ok.mpr ⟨_, rfl, ?_⟩
  rw [List.filter_append, hledger, List.append_nil]
  exact congrArg (fun items => Except.ok (Val.dict items)) hkeep

/-- An event with a dump and leaf content has them from the same items. -/
theorem exists_content {record : Val} (h : e.dump = .ok record) :
    ∃ kvs, e.content = .ok kvs ∧ record = .dict ((lit "event_id", .str e.eventId) :: kvs
      ++ (e.ledger.map fun f => (lit "ledger", f.dump)).toList) := by
  rw [dump] at h
  obtain ⟨items, hitems, h⟩ := bind_eq_ok.mp h
  have hitems' := hitems
  rw [dumpItems] at hitems'
  obtain ⟨kvs, hkvs, -⟩ := bind_eq_ok.mp hitems'
  rw [dumpItems_eq hkvs, Except.ok.injEq] at hitems
  exact ⟨kvs, hkvs, (pure_eq_ok.mp h).symm.trans (congrArg Val.dict hitems.symm)⟩

/-- **The verifier recomputes the leaf** from the dumped event, whatever its ledger fields are. -/
theorem leafFromEventDict_dump {record : Val} {data : Bytes} (hdump : e.dump = .ok record)
    (hdata : e.leafContentBytes = .ok data) : leafFromEventDict record = .ok (leafHash data) := by
  obtain ⟨kvs, hkvs, rfl⟩ := exists_content hdump
  rw [leafContentBytes, leafContent_eq hkvs] at hdata
  rw [leafFromEventDict, withoutLedger_dumpItems hkvs]
  exact bind_eq_ok.mpr ⟨data, hdata, rfl⟩

/-- Leaf content comes from items, and is the cleaned text of the event with its id. -/
theorem leafContentBytes_eq_ok {data : Bytes} :
    e.leafContentBytes = .ok data ↔ ∃ kvs, e.content = .ok kvs ∧
      canonicalBytes (.dict ((lit "event_id", .str e.eventId) :: kvs)) = .ok data := by
  constructor
  · intro h
    rw [leafContentBytes] at h
    obtain ⟨content, hcontent, h⟩ := bind_eq_ok.mp h
    have hcontent' := hcontent
    rw [leafContent, dumpExcept] at hcontent'
    obtain ⟨items, hitems, -⟩ := bind_eq_ok.mp hcontent'
    rw [dumpItems] at hitems
    obtain ⟨kvs, hkvs, -⟩ := bind_eq_ok.mp hitems
    rw [leafContent_eq hkvs, Except.ok.injEq] at hcontent
    exact ⟨kvs, hkvs, hcontent ▸ h⟩
  · rintro ⟨kvs, hkvs, h⟩
    rw [leafContentBytes, leafContent_eq hkvs]
    exact h

/-- The `ledger` of a dumped event. -/
theorem item?_ledger {record : Val} (h : e.dump = .ok record) :
    record.item? (lit "ledger") = e.ledger.map LedgerFields.dump := by
  obtain ⟨kvs, hkvs, rfl⟩ := exists_content h
  have hnone : ((lit "event_id", Val.str e.eventId) :: kvs).lookup (lit "ledger") = none := by
    refine List.lookup_eq_none_iff.mpr fun kv hkv => ?_
    rcases List.mem_cons.mp hkv with rfl | hmem
    · exact (by decide : (lit "ledger" != lit "event_id") = true)
    · exact bne_iff_ne.mpr (e.content_keys kvs hkvs kv hmem).2.symm
  rw [Val.item?, List.lookup_append, hnone]
  cases e.ledger with
  | none => rfl
  | some f => simp

end ComplianceEvent

end OpenWright
