import OpenWright.Go.Leaf
import OpenWright.Report

/-! # Committed records in Go

A ledger in Python stores the dumps of validated events. Read by the event model in Go, such a record
gives back the leaf that the ledger hashed, as long as the record stays within what the Go structs
declare.

* **`leafHash_run`** — in every run of a ledger, the leaf of a readable record is the one that Go
  computes from it. -/

namespace OpenWright.Go

open Python Python.Val Canonical EventModel

/-! ## Encoding a record -/

/-- The document without its ledger is that of the record without its ledger. -/
theorem withoutLedger_goItems {items : Items} (hkeys : ScalarKeys items) :
    withoutLedger (goItems items) = goItems (OpenWright.withoutLedger items) := by
  rw [withoutLedger, OpenWright.withoutLedger, goItems_eq_map, goItems_eq_map, List.filter_map]
  refine congrArg _ (List.filter_congr fun kv hkv => decide_eq_decide.mpr (not_congr ⟨fun h => ?_, ?_⟩))
  · exact ofStr_injective (hkeys kv hkv) (scalar_lit _) h
  · exact fun h => congrArg ofStr h

/-- Go's bytes of a value are the canonical ones. -/
theorem encode_of_canonicalBytes {v : Val} {b : Bytes} (hv : Encodable v)
    (h : Canonical.canonicalBytes v = .ok b) : encode (goVal v) = .ok b := by
  obtain ⟨c, hc, hutf8⟩ := canonicalBytes_eq_ok.mp h
  rw [encode_goVal hv hc, ofStr, hutf8, Option.getD_some]

/-! ## Records -/

/-- What the event model in Go declares of a record. -/
structure WithinModel (items : Items) : Prop where
  noOtherCase : NoOtherCase items
  noNestedExtras : NoNestedExtras items
  tokensFit : TokensFit items

/-- A record that Go reads as it is: its text is UTF-8, its keys are distinct, and it stays within the
event model. -/
structure Readable (items : Items) : Prop where
  plain : Plain (.dict items)
  within : WithinModel items

/-- The id of an event is a declared field. -/
theorem eventId_of_name {p : Model.Field} (hp : p ∈ complianceEvent) (hname : p.name = lit "event_id") :
    p = defaulted "event_id" (.str []) Model.str := by
  have hnames : (complianceEvent.map (·.name)).Nodup := by decide
  have hid : defaulted "event_id" (.str []) Model.str ∈ complianceEvent :=
    List.mem_cons_of_mem _ List.mem_cons_self
  exact List.inj_on_of_nodup_map hnames hp hid hname

/-- **The dump of a validated event is a record** of the event model. -/
theorem eventRecord_of_dump {e : ComplianceEvent} (hmodel : e.Modelled) {items : Items}
    (hdump : e.dump = .ok (.dict items)) (hplain : Plain (.dict items)) : EventRecord items := by
  obtain ⟨input, out, hout, hcontent⟩ := hmodel
  obtain ⟨kvs, hkvs, heq⟩ := ComplianceEvent.exists_content hdump
  obtain rfl := Except.ok.inj (hcontent.symm.trans hkvs)
  obtain rfl := Val.dict.inj heq
  -- what the record binds a field but the ledger to
  have hledger : ∀ {k : Str}, k ≠ lit "ledger" →
      ((e.ledger.map fun f => (lit "ledger", f.dump)).toList : Items).lookup k = none := by
    intro k hk
    cases e.ledger with
    | none => rfl
    | some f =>
        rw [Option.map_some, Option.toList_some, List.lookup_cons, beq_false_of_ne hk]
        rfl
  have hlookup : ∀ p ∈ complianceEvent, p.name ≠ lit "ledger" → p.name ≠ lit "event_id" →
      ((lit "event_id", Val.str e.eventId) :: (out.filter fun kv =>
        kv.1 ∉ [lit "event_id", lit "ledger"]) ++
          (e.ledger.map fun f => (lit "ledger", f.dump)).toList).lookup p.name
        = (out.filter fun kv => kv.1 ∉ [lit "event_id", lit "ledger"]).lookup p.name := by
    intro p _ hp hid
    rw [List.lookup_append, hledger hp, Option.or_none, List.lookup_cons, beq_false_of_ne hid]
  have hbound : ∀ p ∈ complianceEvent, p.name ≠ lit "ledger" → p.name ≠ lit "event_id" →
      p.name ∉ [lit "event_id", lit "ledger"] := by
    intro p _ hp hid hmem
    rcases List.mem_pair.mp hmem with h | h
    · exact hid h
    · exact hp h
  refine ⟨fun p hp hname w hw => ?_, fun p hp hname hnone => ?_, hplain.2, ?_⟩
  · by_cases hid : p.name = lit "event_id"
    · rw [eventId_of_name hp hid] at hw ⊢
      rw [List.lookup_append, show (defaulted "event_id" (.str []) Model.str).name = lit "event_id"
        from rfl, List.lookup_cons_self, Option.some_or, Option.some.injEq] at hw
      exact ⟨w, Or.inl ⟨w, hw ▸ rfl⟩, rfl⟩
    · rw [hlookup p hp hname hid] at hw
      exact ⟨w, (ComplianceEvent.lookup_content hout hp (hbound p hp hname hid)).2 w hw, rfl⟩
  · by_cases hid : p.name = lit "event_id"
    · rw [hid, List.lookup_append, List.lookup_cons_self, Option.some_or] at hnone
      cases hnone
    · rw [hlookup p hp hname hid] at hnone
      exact (ComplianceEvent.lookup_content hout hp (hbound p hp hname hid)).1 hnone
  · refine encodableItems_iff.mpr fun kv hkv => ?_
    exact encodableItems_iff.mp hplain.1 kv (List.mem_of_mem_filter hkv)

/-- **Go recomputes the leaf of a record** that it reads as it is. -/
theorem leafHash_of_record {items : Items} {leaf : Bytes} (hrecord : EventRecord items)
    (hread : Readable items) (hleaf : leafFromEventDict (.dict items) = .ok leaf) :
    ∃ e, Event.unmarshalJson (goVal (.dict items)) = .ok e ∧ e.leafHash = .ok leaf := by
  obtain ⟨e, content, he, hcontent, hencode⟩ := (hrecord.reproduced hread.within.noOtherCase
    hread.within.noNestedExtras hread.within.tokensFit).encode_eq
  refine ⟨e, he, ?_⟩
  rw [leafFromEventDict] at hleaf
  obtain ⟨data, hdata, hleaf⟩ := bind_eq_ok.mp hleaf
  rw [withoutLedger_goItems hrecord.scalarKeys] at hencode
  have hbytes : encode (.map content) = .ok data :=
    hencode.trans (encode_of_canonicalBytes hrecord.encodable hdata)
  rw [Event.leafHash, Event.canonicalBytes, hcontent]
  refine bind_eq_ok.mpr ⟨data, bind_eq_ok.mpr ⟨content, rfl, ?_⟩, ?_⟩
  · rw [canonicalBytes, hbytes]
    rfl
  · exact pure_eq_ok.mpr (pure_eq_ok.mp hleaf)

/-! ## Sorted records -/

/-- The items of a sorted dictionary. -/
def sortedRecord (items : Items) : Items := sortKeys (Json.sortedItems items)

/-- What a sorted dictionary binds a key to. -/
theorem lookup_sortedRecord (items : Items) (k : Str) :
    (sortedRecord items).lookup k = (items.lookup k).map Json.sorted := by
  rw [sortedRecord, lookup_sortKeys, Json.sortedItems_eq_map, lookup_map_snd]

/-- What a sorted dictionary binds was there before. -/
theorem exists_lookup_of_sortedRecord {items : Items} {k : Str} {w : Val}
    (h : (sortedRecord items).lookup k = some w) :
    ∃ v, items.lookup k = some v ∧ w = Json.sorted v := by
  rw [lookup_sortedRecord, Option.map_eq_some_iff] at h
  obtain ⟨v, hv, rfl⟩ := h
  exact ⟨v, hv, rfl⟩

/-- An entry of a sorted dictionary was there before. -/
theorem exists_mem_of_sortedRecord {items : Items} {kv : Str × Val} (h : kv ∈ sortedRecord items) :
    ∃ v, (kv.1, v) ∈ items ∧ kv.2 = Json.sorted v := by
  rw [sortedRecord, mem_sortKeys, Json.sortedItems_eq_map] at h
  obtain ⟨lv, hlv, rfl⟩ := List.mem_map.mp h
  exact ⟨lv.2, hlv, rfl⟩

/-- A record is one with its keys in order. -/
theorem EventRecord.sorted {items : Items} (h : EventRecord items) :
    EventRecord (sortedRecord items) where
  bound p hp hname w hw := by
    obtain ⟨v, hv, rfl⟩ := exists_lookup_of_sortedRecord hw
    obtain ⟨w', hw', hsame⟩ := h.bound p hp hname v hv
    exact ⟨w', hw', (sorted_sorted v).trans hsame⟩
  unbound p hp hname hnone := by
    rw [lookup_sortedRecord, Option.map_eq_none_iff] at hnone
    exact h.unbound p hp hname hnone
  distinct := distinct_sorted h.distinct
  encodable := by
    refine encodableItems_iff.mpr fun kv hkv => ?_
    obtain ⟨hmem, hledger⟩ := List.mem_filter.mp hkv
    obtain ⟨v, hv, heq⟩ := exists_mem_of_sortedRecord hmem
    obtain ⟨hk, henc⟩ := encodableItems_iff.mp h.encodable (kv.1, v) (List.mem_filter.mpr ⟨hv, hledger⟩)
    exact ⟨hk, heq ▸ encodable_sorted.mpr henc⟩

/-- Sorting keeps the keys of a dictionary. -/
theorem DeclaredIn.sorted {fields : List Model.Field} {v : Val} (h : DeclaredIn fields v) :
    DeclaredIn fields (Json.sorted v) := by
  intro kvs hkvs kv hkv
  cases v with
  | dict items =>
      obtain rfl := Val.dict.inj hkvs
      obtain ⟨v, hv, -⟩ := exists_mem_of_sortedRecord hkv
      exact h items rfl (kv.1, v) hv
  | _ => simp [Json.sorted] at hkvs

/-- What a sorted value binds a key to. -/
theorem item?_sorted (v : Val) (k : Str) : (Json.sorted v).item? k = (v.item? k).map Json.sorted := by
  cases v with
  | dict items => exact lookup_sortedRecord items k
  | _ => rfl

/-- A record that Go reads as it is is read so with its keys in order. -/
theorem Readable.sorted {items : Items} (h : Readable items) : Readable (sortedRecord items) where
  plain := ⟨encodable_sorted.mpr h.plain.1, distinct_sorted h.plain.2⟩
  within := {
    noOtherCase := fun kv hkv f hf hfold => by
      obtain ⟨v, hv, -⟩ := exists_mem_of_sortedRecord hkv
      exact h.within.noOtherCase _ hv f hf hfold
    noNestedExtras := by
      constructor
      · intro p hp w hw
        obtain ⟨v, hv, rfl⟩ := exists_lookup_of_sortedRecord hw
        exact (h.within.noNestedExtras.nested p hp v hv).sorted
      · intro a ha w hw
        obtain ⟨v, hv, rfl⟩ := exists_lookup_of_sortedRecord ha
        rw [item?_sorted, Option.mem_def, Option.map_eq_some_iff] at hw
        obtain ⟨u, hu, rfl⟩ := hw
        exact (h.within.noNestedExtras.identityClaim v hv u hu).sorted
    tokensFit := by
      intro io hio k hk z hz
      obtain ⟨v, hv, rfl⟩ := exists_lookup_of_sortedRecord hio
      rw [item?_sorted, Option.map_eq_some_iff] at hz
      obtain ⟨u, hu, hint⟩ := hz
      rw [eq_int_of_sorted (z := z) hint] at hu
      exact h.within.tokensFit v hv k hk z hu }

/-- The leaf of a record does not depend on the order of its keys. -/
theorem leafFromEventDict_sorted {items : Items} {leaf : Bytes}
    (hdistinct : distinct (.dict items) = true) (h : leafFromEventDict (.dict items) = .ok leaf) :
    leafFromEventDict (.dict (sortedRecord items)) = .ok leaf := by
  rw [leafFromEventDict] at h ⊢
  obtain ⟨data, hdata, h⟩ := bind_eq_ok.mp h
  refine bind_eq_ok.mpr ⟨data, ?_, h⟩
  have hwithout : ∀ {kvs : Items}, distinct (.dict kvs) = true →
      distinct (.dict (OpenWright.withoutLedger kvs)) = true := by
    intro kvs hkvs
    rw [distinct_dict] at hkvs ⊢
    exact ⟨hkvs.1.sublist (List.filter_sublist.map Prod.fst),
      fun kv hkv => hkvs.2 kv (List.mem_of_mem_filter hkv)⟩
  have hsorted : distinct (.dict (sortedRecord items)) = true := distinct_sorted hdistinct
  refine (sameContent_iff hdata).mp (sameContent_of_jsonEq (hwithout hdistinct) (hwithout hsorted) ?_)
  rw [jsonEq_iff_sorted (hwithout hdistinct) (hwithout hsorted), Json.sorted, Json.sorted]
  refine congrArg Val.dict (sortKeys_eq_of_perm ?_ ?_)
  · -- what is left of the sorted record are the sorted entries of what is left of the record
    have hperm := (sortKeys_perm (Json.sortedItems items)).filter fun kv => decide (kv.1 ≠ lit "ledger")
    have hitems := (hperm.map fun kv : Str × Val => (kv.1, Json.sorted kv.2)).symm
    have hmap : ((Json.sortedItems items).filter fun kv => decide (kv.1 ≠ lit "ledger")).map
        (fun kv => (kv.1, Json.sorted kv.2)) = Json.sortedItems (OpenWright.withoutLedger items) := by
      rw [Json.sortedItems_eq_map, List.filter_map, List.map_map, Json.sortedItems_eq_map]
      exact List.map_congr_left fun kv _ => Prod.ext rfl (sorted_sorted kv.2)
    rw [hmap, ← Json.sortedItems_eq_map] at hitems
    exact hitems
  · rw [Json.sortedItems_eq_map, List.map_map]
    exact (distinct_dict.mp (hwithout hdistinct)).1

end OpenWright.Go

/-! ## Runs of a ledger -/

namespace OpenWright.Ledger

open Python EventModel

variable {σ : Type} (B : LedgerBackend σ)

/-- Whether an event is validated depends on its content only. -/
theorem modelled_of_content {e e' : ComplianceEvent} (h : e.Modelled)
    (hcontent : e'.content = e.content) :
    e'.Modelled := by
  obtain ⟨input, out, hout, hkvs⟩ := h
  exact ⟨input, out, hout, hcontent.trans hkvs⟩

/-- The event of a correction is validated. -/
theorem modelled_correctionEvent (timestamp targetEventId reason actorId : Str) :
    (correctionEvent timestamp targetEventId reason actorId).Modelled :=
  ⟨.dict [(lit "timestamp", .str timestamp), (lit "kind", .str (lit "correction")),
    (lit "actor", .dict [(lit "agent_id", .str actorId)]),
    (lit "source", .dict [(lit "format", .str (lit "sdk"))]),
    (lit "attributes", .dict [(lit "corrects_event_id", .str targetEventId),
      (lit "reason", .str reason)])], _, rfl, rfl⟩

/-- Every record is the dump of a validated event. -/
def ModelledRecords (l : Ledger σ) : Prop :=
  ∀ record ∈ B.records l.store, ∃ event : ComplianceEvent, event.Modelled ∧ event.dump = .ok record

/-- The events that a call commits are validated. -/
def LedgerCall.Modelled : LedgerCall → Prop
  | .commit event _ => event.Modelled
  | _ => True

variable {B}

/-- Committing a validated event keeps the records dumps of such. -/
theorem ModelledRecords.commit {l : Ledger σ} (h : ModelledRecords B l) {event : ComplianceEvent}
    (hevent : event.Modelled) (clock : Except PyErr Str) :
    ModelledRecords B (commit B l event clock).2 := by
  rcases commit_cases B l event clock with ⟨err, hcommit⟩ | ⟨p, hprepare, hcommit⟩
  · rwa [hcommit]
  · rw [hcommit]
    rcases commitLocked_cases B l p with
      ⟨err, store, hlocked, hrecords⟩ | ⟨committed, record, store, hlocked, hcommitted, hdump, hrecords⟩
    · rw [hlocked]
      exact fun record hrecord => h record (hrecords ▸ hrecord)
    · rw [hlocked]
      intro record' hrecord'
      dsimp only at hrecord'
      rw [hrecords] at hrecord'
      rcases List.mem_append.mp hrecord' with hmem | hmem
      · exact h record' hmem
      · obtain rfl := List.mem_singleton.mp hmem
        refine ⟨committed, modelled_of_content hevent ?_, hdump⟩
        rw [hcommitted]
        exact content_of_prepare hprepare

/-- Every call with validated events does. -/
theorem ModelledRecords.step {l : Ledger σ} (h : ModelledRecords B l) {call : LedgerCall}
    (hcall : call.Modelled) : ModelledRecords B (step B l call) := by
  cases call with
  | commit event clock => exact h.commit hcall clock
  | correct targetEventId reason actorId clock clock' =>
      cases clock with
      | error err => exact h
      | ok timestamp => exact h.commit (modelled_correctionEvent _ _ _ _) clock'
  | reopen origin retention =>
      rw [Ledger.step]
      split
      · rename_i l' hinit
        rw [Ledger.init] at hinit
        obtain ⟨leaves, -, hinit⟩ := bind_eq_ok.mp hinit
        rw [← pure_eq_ok.mp hinit]
        exact h
      · exact h

/-- **In every run over validated events** the records are dumps of such. -/
theorem ModelledRecords.run {l : Ledger σ} (h : ModelledRecords B l) {calls : List LedgerCall}
    (hcalls : ∀ call ∈ calls, call.Modelled) : ModelledRecords B (run B l calls) := by
  induction calls generalizing l with
  | nil => exact h
  | cons call calls ih =>
      rw [List.forall_mem_cons] at hcalls
      exact ih (h.step hcalls.1) hcalls.2

/-- A new ledger on an empty backend has no records yet. -/
theorem modelledRecords_init_empty {store : σ} (hstore : B.records store = []) {origin : Str}
    {retention : Option (Str → Except PyErr Str)} {l : Ledger σ}
    (hinit : init B store origin retention = .ok l) : ModelledRecords B l := by
  intro record hrecord
  rw [init] at hinit
  obtain ⟨leaves, -, hinit⟩ := bind_eq_ok.mp hinit
  rw [← pure_eq_ok.mp hinit] at hrecord
  dsimp only at hrecord
  rw [hstore] at hrecord
  cases hrecord

end OpenWright.Ledger

namespace OpenWright.Go

open Python Canonical

/-- **The event model in Go reproduces the leaves of a ledger.** In every state that commits of
validated events, corrections and reopenings reach from an empty backend, every record that Go reads
as it is decodes to an event whose leaf hash is the leaf of the record: the one in the tree, and the
one that the record stores. -/
theorem leafHash_run {σ : Type} (B : LedgerBackend σ) (store : σ) (hstore : B.records store = [])
    (origin : Str) (retention : Option (Str → Except PyErr Str)) (calls : List Ledger.LedgerCall)
    (hcalls : ∀ call ∈ calls, call.Modelled) :
    ∃ l₀, Ledger.init B store origin retention = .ok l₀ ∧
      let l := Ledger.run B l₀ calls
      ∀ (i : Nat) (items : Items), (B.records l.store)[i]? = some (.dict items) → Readable items →
        ∃ e leaf, Event.unmarshalJson (goVal (.dict items)) = .ok e ∧ e.leafHash = .ok leaf ∧
          l.leaves[i]? = some leaf ∧ leafBytesFromRecord (.dict items) = .ok leaf := by
  obtain ⟨l₀, hinit, hinv₀⟩ := Ledger.init_empty hstore origin retention
  refine ⟨l₀, hinit, ?_⟩
  intro l i items hitems hread
  have hinv : Ledger.Inv B l := hinv₀.run calls
  obtain ⟨event, hevent, hdump⟩ :=
    (Ledger.modelledRecords_init_empty hstore hinit).run hcalls _ (List.mem_of_getElem? hitems)
  have hi := (List.getElem?_eq_some_iff.mp hitems).1
  rw [hinv.length_records] at hi
  have hleaf : l.leaves[i]? = some l.leaves[i] := List.getElem?_eq_getElem hi
  have hrecorded := hinv.recorded i _ _ hitems hleaf
  obtain ⟨e, he, hhash⟩ := leafHash_of_record (eventRecord_of_dump hevent hdump hread.plain) hread
    hrecorded.leaf_eq
  exact ⟨e, _, he, hhash, hleaf, hrecorded.leafBytesFromRecord_eq⟩

/-! ## Four records -/

/-- A dictionary has no keys but the declared ones. -/
theorem declaredIn_dict {fields : List Model.Field} {kvs : Items}
    (h : ∀ k ∈ kvs.map Prod.fst, k ∈ fields.map (·.name)) : DeclaredIn fields (.dict kvs) := by
  rintro _ ⟨⟩ kv hkv
  exact h kv.1 (List.mem_map_of_mem hkv)

/-- Go reads the records of the sample agent as they are. -/
theorem readable_threeRecords {items : Items} (h : .dict items ∈ threeRecords) : Readable items := by
  simp only [threeRecords, sampleRecord, approvalRecord, approvedRecord, recordAt, approvalFields,
    approvedFields, agentEvent, List.mem_cons, List.not_mem_nil, or_false, Val.dict.injEq] at h
  rcases h with rfl | rfl | rfl
  all_goals exact {
    plain := by
      constructor
      · simp [Canonical.Encodable, EncodableItems]
      · rfl
    within := {
      noOtherCase := by
        -- the keys of all three records are among these
        have hkeys : ∀ k ∈ [lit "event_id", lit "schema_version", lit "timestamp", lit "kind",
              lit "actor", lit "provenance", lit "oversight", lit "risk", lit "attributes", lit "labels",
              lit "source", lit "ledger"],
            ∀ n ∈ leafFields.map (·.name), equalFold n (ofStr k) = true → n = ofStr k := by
          decide
        intro kv hkv f hf
        refine hkeys kv.1 ?_ f.name (List.mem_map_of_mem hf)
        have hmem := List.mem_map_of_mem (f := Prod.fst) hkv
        simp only [List.map_cons, List.map_nil, List.cons_append, List.nil_append] at hmem
        revert hmem
        simp +contextual only [List.mem_cons, List.not_mem_nil, or_false, or_imp, true_or, or_true,
          implies_true, and_self]
      noNestedExtras := by
        constructor
        · simp only [nestedModels, List.forall_mem_cons]
          refine ⟨?_, ?_, ?_, ?_, ?_, ?_, ?_, ?_, fun _ h => absurd h List.not_mem_nil⟩ <;>
            rintro v ⟨⟩ <;> exact declaredIn_dict (by decide)
        · rintro a ⟨⟩ v ⟨⟩
      tokensFit := by
        rintro io ⟨⟩ } }

/-- The sample decision is validated. -/
theorem modelled_sampleDecision : sampleDecision.Modelled :=
  ⟨.dict [(lit "timestamp", .str (lit "2026-01-01T00:00:00Z")), (lit "kind", .str (lit "agent_decision")),
    (lit "actor", .dict [(lit "agent_id", .str (lit "agent-1"))]),
    (lit "risk", .dict [(lit "classification", .str (lit "high"))]),
    (lit "source", .dict [(lit "format", .str (lit "sdk"))])], _, rfl, rfl⟩

/-- The calls that fill the ledger commit validated events. -/
theorem modelled_threeCalls : ∀ call ∈ threeCalls, call.Modelled := by
  simp only [threeCalls, List.mem_cons, List.not_mem_nil, or_false]
  rintro call (rfl | rfl | rfl)
  · exact modelled_sampleDecision
  · exact ⟨.dict approvalFields, _, rfl, rfl⟩
  · exact ⟨.dict approvedFields, _, rfl, rfl⟩

/-- The id of the event that is corrected. -/
def correctedId : String := "evt_19e720c5a36bc08eec958330a7c88197cf94569d"

/-- The record of a correction at an index of a ledger. -/
def correctionItems (p : Ledger.Prepared) (i : Nat) : Items :=
  (lit "event_id", .str p.event.eventId) ::
    [(lit "schema_version", .str (lit "1.0.0")), (lit "timestamp", .str (lit "2026-01-01T00:00:00Z")),
      (lit "kind", .str (lit "correction")),
      (lit "actor", .dict [(lit "agent_id", .str (lit "auditor"))]),
      (lit "provenance", .dict []),
      (lit "attributes", .dict [(lit "corrects_event_id", .str (lit correctedId)),
        (lit "reason", .str (lit "duplicate"))]),
      (lit "labels", .dict []), (lit "source", .dict [(lit "format", .str (lit "sdk"))])]
    ++ [(lit "ledger", (Ledger.ledgerFields p i).dump)]

/-- Go reads it as it is. -/
theorem readable_correctionItems {p : Ledger.Prepared} (hp : p.Encodable) (i : Nat) :
    Readable (correctionItems p i) where
  plain := by
    constructor
    · have hledger := hp.ledgerFields i
      simp [correctionItems, Canonical.Encodable, EncodableItems, hp.eventId, hledger]
    · rw [correctionItems, Ledger.ledgerFields]
      cases p.retentionUntil <;> rfl
  within := {
    noOtherCase := by
      -- no other spelling of a key is a field of Go
      have hkeys : ∀ k ∈ [lit "event_id", lit "schema_version", lit "timestamp", lit "kind",
            lit "actor", lit "provenance", lit "attributes", lit "labels", lit "source", lit "ledger"],
          ∀ n ∈ leafFields.map (·.name), equalFold n (ofStr k) = true → n = ofStr k := by
        decide
      exact fun kv hkv f hf =>
        hkeys kv.1 (List.mem_map_of_mem (f := Prod.fst) hkv) f.name (List.mem_map_of_mem hf)
    noNestedExtras := by
      constructor
      · simp only [nestedModels, List.forall_mem_cons]
        refine ⟨?_, ?_, ?_, ?_, ?_, ?_, ?_, ?_, fun _ h => absurd h List.not_mem_nil⟩ <;> rintro v ⟨⟩ <;>
          exact declaredIn_dict (by decide)
      · rintro a ⟨⟩ v ⟨⟩
    tokensFit := by
      rintro io ⟨⟩ }

/-- The call of `correct` that appends it. -/
def correctionCall : Ledger.LedgerCall :=
  .correct (lit correctedId) (lit "duplicate") (lit "auditor") (.ok (lit "2026-01-01T00:00:00Z"))
    (.ok (lit "2026-01-01T00:00:00Z"))

/-- The correction is appended to the sample ledger. -/
theorem exists_correction : ∃ p : Ledger.Prepared, p.Encodable ∧
    (Ledger.run inMemoryLedgerBackend sampleNew (threeCalls ++ [correctionCall])).store
      = threeRecords ++ [.dict (correctionItems p 3)] := by
  have hretention : threeLedger.retention = none :=
    Option.isNone_iff_eq_none.mp (by decide +kernel)
  obtain ⟨p, hp, hcontent, hcommit⟩ := @Ledger.exists_commit threeLedger
    (Ledger.correctionEvent (lit "2026-01-01T00:00:00Z") (lit correctedId) (lit "duplicate")
      (lit "auditor")) _ (lit "2026-01-01T00:00:00Z") hretention rfl
    (by simp [EncodableItems, Canonical.Encodable]) (scalar_lit _)
  rw [Ledger.commitLocked_inMemory hcontent, reads_threeLedger.2.1] at hcommit
  have hrun : Ledger.run inMemoryLedgerBackend sampleNew (threeCalls ++ [correctionCall])
      = Ledger.step inMemoryLedgerBackend threeLedger correctionCall := by
    rw [Ledger.run, List.foldl_append, ← run_threeCalls]
    rfl
  have hstep : Ledger.step inMemoryLedgerBackend threeLedger correctionCall = _ :=
    congrArg Prod.snd hcommit
  exact ⟨p, hp, by rw [hrun, hstep]; rfl⟩

/-- Go computes the leaves of three events of an agent and of the correction of the first one. -/
theorem leafHash_run_correction : ∃ correction : Items,
    (Ledger.run inMemoryLedgerBackend sampleNew (threeCalls ++ [correctionCall])).store
      = threeRecords ++ [.dict correction] ∧
    ∀ (i : Nat) (items : Items), (threeRecords ++ [Val.dict correction])[i]? = some (.dict items) →
      ∃ e leaf, Event.unmarshalJson (goVal (.dict items)) = .ok e ∧ e.leafHash = .ok leaf ∧
        (Ledger.run inMemoryLedgerBackend sampleNew (threeCalls ++ [correctionCall])).leaves[i]?
          = some leaf ∧ leafBytesFromRecord (.dict items) = .ok leaf := by
  obtain ⟨p, hp, hstore⟩ := exists_correction
  obtain ⟨l, hinit, hrun⟩ := leafHash_run inMemoryLedgerBackend [] rfl (lit "openwright") none
    (threeCalls ++ [correctionCall])
    (List.forall_mem_append.mpr ⟨modelled_threeCalls, List.forall_mem_singleton.mpr trivial⟩)
  obtain rfl : sampleNew = l := Except.ok.inj hinit
  refine ⟨correctionItems p 3, hstore, fun i items hitems => ?_⟩
  refine hrun i items (by rw [hstore]; exact hitems) ?_
  rcases List.mem_append.mp (List.mem_of_getElem? hitems) with hmem | hmem
  · exact readable_threeRecords hmem
  · rw [Val.dict.inj (List.mem_singleton.mp hmem)]
    exact readable_correctionItems hp 3

end OpenWright.Go
