import OpenWright.Go.Decode
import OpenWright.Merkle.Tree

/-! # The event model in Go

The Go mirror of `ComplianceEvent`: structs, how they are decoded from a record, and the leaf content
that is hashed. An absent pointer is `none`.

* **`leafContent_eq`** — the leaf content of an event is what its fields give, and its extra entries. -/

namespace OpenWright.Go

open Python

/-! ## The structs -/

/-- `IdentityClaim`. -/
structure IdentityClaim where
  claimType : Option GoString := none
  publicKeyId : Option GoString := none
  agentCardHash : Option GoString := none
  signatureB64 : Option GoString := none

/-- `Actor`. -/
structure Actor where
  agentId : GoString := []
  agentCardRef : Option GoString := none
  identityClaim : Option IdentityClaim := none

/-- `Provenance`. -/
structure Provenance where
  taskId : Option GoString := none
  contextId : Option GoString := none
  parentTaskId : Option GoString := none
  rootTaskId : Option GoString := none

/-- `IORef`. -/
structure IORef where
  inputRef : Option GoString := none
  outputRef : Option GoString := none
  argumentsRef : Option GoString := none
  inputTokens : Option Int := none
  outputTokens : Option Int := none
  totalTokens : Option Int := none
  cost : Option GoString := none
  costCurrency : Option GoString := none

/-- `ModelInfo`. -/
structure ModelInfo where
  provider : Option GoString := none
  requestModel : Option GoString := none
  responseModel : Option GoString := none

/-- `ToolInfo`. -/
structure ToolInfo where
  name : Option GoString := none
  callId : Option GoString := none

/-- `Oversight`. -/
structure Oversight where
  status : Option GoString := none
  approvalRef : Option GoString := none
  reviewer : Option GoString := none

/-- `Risk`. -/
structure Risk where
  classification : Option GoString := none
  rationaleRef : Option GoString := none
  framework : Option GoString := none

/-- `SourceMeta`. -/
structure SourceMeta where
  format : GoString := []
  spanId : Option GoString := none
  traceId : Option GoString := none
  collectorVersion : Option GoString := none
  ingestedAt : Option GoString := none

/-- A `json.RawMessage`, by the value it is decoded to, if it can be decoded. -/
abbrev RawMessage := Option GoVal

/-- `Event`. -/
structure Event where
  schemaVersion : GoString := []
  eventId : GoString := []
  timestamp : GoString := []
  kind : GoString := []
  actor : Actor := {}
  provenance : Option Provenance := none
  io : Option IORef := none
  model : Option ModelInfo := none
  tool : Option ToolInfo := none
  oversight : Option Oversight := none
  risk : Option Risk := none
  attributes : Option GoItems := none
  labels : Option StringItems := none
  source : SourceMeta := {}
  extra : List (GoString × RawMessage) := []
  ledger : RawMessage := none

/-! ## Maps without the absent fields -/

/-- `putStr`, of a map that has not got the key. -/
def putStr (k : String) (v : Option GoString) : GoItems :=
  (v.map fun s => (goLit k, GoVal.string s)).toList

/-- `putInt`, of a map that has not got the key. -/
def putInt (k : String) (v : Option Int) : GoItems := (v.map fun z => (goLit k, GoVal.int64 z)).toList

/-- The map of `identity_claim` inside `actorMap`. -/
def identityClaimMap (ic : IdentityClaim) : GoItems :=
  putStr "claim_type" ic.claimType ++ putStr "public_key_id" ic.publicKeyId
    ++ putStr "agent_card_hash" ic.agentCardHash ++ putStr "signature_b64" ic.signatureB64

/-- `actorMap`. -/
def actorMap (a : Actor) : GoItems :=
  [(goLit "agent_id", .string a.agentId)] ++ putStr "agent_card_ref" a.agentCardRef
    ++ (a.identityClaim.map fun ic => (goLit "identity_claim", .map (identityClaimMap ic))).toList

/-- `provenanceMap`. -/
def provenanceMap : Option Provenance → GoItems
  | none => []
  | some p => putStr "task_id" p.taskId ++ putStr "context_id" p.contextId
      ++ putStr "parent_task_id" p.parentTaskId ++ putStr "root_task_id" p.rootTaskId

/-- `ioMap`. -/
def ioMap (io : IORef) : GoItems :=
  putStr "input_ref" io.inputRef ++ putStr "output_ref" io.outputRef
    ++ putStr "arguments_ref" io.argumentsRef ++ putInt "input_tokens" io.inputTokens
    ++ putInt "output_tokens" io.outputTokens ++ putInt "total_tokens" io.totalTokens
    ++ putStr "cost" io.cost ++ putStr "cost_currency" io.costCurrency

/-- `modelMap`. -/
def modelMap (mi : ModelInfo) : GoItems :=
  putStr "provider" mi.provider ++ putStr "request_model" mi.requestModel
    ++ putStr "response_model" mi.responseModel

/-- `toolMap`. -/
def toolMap (t : ToolInfo) : GoItems := putStr "name" t.name ++ putStr "call_id" t.callId

/-- `oversightMap`. -/
def oversightMap (o : Oversight) : GoItems :=
  putStr "status" o.status ++ putStr "approval_ref" o.approvalRef ++ putStr "reviewer" o.reviewer

/-- `riskMap`. -/
def riskMap (r : Risk) : GoItems :=
  putStr "classification" r.classification ++ putStr "rationale_ref" r.rationaleRef
    ++ putStr "framework" r.framework

/-- `sourceMap`. -/
def sourceMap (s : SourceMeta) : GoItems :=
  [(goLit "format", .string s.format)] ++ putStr "span_id" s.spanId ++ putStr "trace_id" s.traceId
    ++ putStr "collector_version" s.collectorVersion ++ putStr "ingested_at" s.ingestedAt

/-- `attributesValue`. -/
def attributesValue (a : Option GoItems) : GoVal := .map (a.getD [])

/-- `labelsValue`. -/
def labelsValue (l : Option StringItems) : GoVal := .map (stringValues (l.getD []))

/-! ## The leaf content -/

/-- The errors of a leaf: of an extra field that cannot be decoded, and of the encoder. -/
inductive LeafErr
  /-- `extra field "...": ...`. -/
  | extra (field : GoString)
  | encode (err : EncodeErr)

/-- Put the extra entries into a map. -/
def putExtra (out : GoItems) (kv : GoString × RawMessage) : Except LeafErr GoItems :=
  match kv.2 with
  | some v => .ok (assign out kv.1 v)
  | none => .error (.extra kv.1)

namespace Event

/-- The entries of the leaf content for the fields of an event. -/
def fieldEntries (e : Event) : GoItems :=
  [(goLit "schema_version", .string e.schemaVersion), (goLit "event_id", .string e.eventId),
    (goLit "timestamp", .string e.timestamp), (goLit "kind", .string e.kind),
    (goLit "actor", .map (actorMap e.actor)), (goLit "source", .map (sourceMap e.source)),
    (goLit "provenance", .map (provenanceMap e.provenance)),
    (goLit "attributes", attributesValue e.attributes), (goLit "labels", labelsValue e.labels)]
    -- a nil pointer gives no entry
    ++ (e.io.map fun io => (goLit "io", GoVal.map (ioMap io))).toList
    ++ (e.model.map fun mi => (goLit "model", GoVal.map (modelMap mi))).toList
    ++ (e.tool.map fun t => (goLit "tool", GoVal.map (toolMap t))).toList
    ++ (e.oversight.map fun o => (goLit "oversight", GoVal.map (oversightMap o))).toList
    ++ (e.risk.map fun r => (goLit "risk", GoVal.map (riskMap r))).toList

/-- `leafContent`. -/
def leafContent (e : Event) : Except LeafErr GoItems := e.extra.foldlM putExtra e.fieldEntries

/-- `Event.CanonicalBytes`. -/
def canonicalBytes (e : Event) : Except LeafErr Bytes := do
  let content ← e.leafContent
  (Go.canonicalBytes (.map content)).mapError .encode

/-- `Event.LeafHash`. -/
def leafHash (e : Event) : Except LeafErr Bytes := do
  let cb ← e.canonicalBytes
  return Merkle.leafHash cb

end Event

/-! ## Decoding -/

/-- The fields of `IdentityClaim`. -/
def identityClaimFields : List (Field IdentityClaim) :=
  [stringPtrField (goLit "claim_type") (·.claimType) fun s t => { s with claimType := t },
    stringPtrField (goLit "public_key_id") (·.publicKeyId) fun s t => { s with publicKeyId := t },
    stringPtrField (goLit "agent_card_hash") (·.agentCardHash) fun s t => { s with agentCardHash := t },
    stringPtrField (goLit "signature_b64") (·.signatureB64) fun s t => { s with signatureB64 := t }]

/-- The fields of `Actor`. -/
def actorFields : List (Field Actor) :=
  [stringField (goLit "agent_id") (·.agentId) fun s t => { s with agentId := t },
    stringPtrField (goLit "agent_card_ref") (·.agentCardRef) fun s t => { s with agentCardRef := t },
    structPtrField (goLit "identity_claim") identityClaimFields identityClaimMap {} (·.identityClaim)
      fun s t => { s with identityClaim := t }]

/-- The fields of `Provenance`. -/
def provenanceFields : List (Field Provenance) :=
  [stringPtrField (goLit "task_id") (·.taskId) fun s t => { s with taskId := t },
    stringPtrField (goLit "context_id") (·.contextId) fun s t => { s with contextId := t },
    stringPtrField (goLit "parent_task_id") (·.parentTaskId) fun s t => { s with parentTaskId := t },
    stringPtrField (goLit "root_task_id") (·.rootTaskId) fun s t => { s with rootTaskId := t }]

/-- The fields of `IORef`. -/
def ioFields : List (Field IORef) :=
  [stringPtrField (goLit "input_ref") (·.inputRef) fun s t => { s with inputRef := t },
    stringPtrField (goLit "output_ref") (·.outputRef) fun s t => { s with outputRef := t },
    stringPtrField (goLit "arguments_ref") (·.argumentsRef) fun s t => { s with argumentsRef := t },
    int64PtrField (goLit "input_tokens") (·.inputTokens) fun s t => { s with inputTokens := t },
    int64PtrField (goLit "output_tokens") (·.outputTokens) fun s t => { s with outputTokens := t },
    int64PtrField (goLit "total_tokens") (·.totalTokens) fun s t => { s with totalTokens := t },
    stringPtrField (goLit "cost") (·.cost) fun s t => { s with cost := t },
    stringPtrField (goLit "cost_currency") (·.costCurrency) fun s t => { s with costCurrency := t }]

/-- The fields of `ModelInfo`. -/
def modelFields : List (Field ModelInfo) :=
  [stringPtrField (goLit "provider") (·.provider) fun s t => { s with provider := t },
    stringPtrField (goLit "request_model") (·.requestModel) fun s t => { s with requestModel := t },
    stringPtrField (goLit "response_model") (·.responseModel) fun s t => { s with responseModel := t }]

/-- The fields of `ToolInfo`. -/
def toolFields : List (Field ToolInfo) :=
  [stringPtrField (goLit "name") (·.name) fun s t => { s with name := t },
    stringPtrField (goLit "call_id") (·.callId) fun s t => { s with callId := t }]

/-- The fields of `Oversight`. -/
def oversightFields : List (Field Oversight) :=
  [stringPtrField (goLit "status") (·.status) fun s t => { s with status := t },
    stringPtrField (goLit "approval_ref") (·.approvalRef) fun s t => { s with approvalRef := t },
    stringPtrField (goLit "reviewer") (·.reviewer) fun s t => { s with reviewer := t }]

/-- The fields of `Risk`. -/
def riskFields : List (Field Risk) :=
  [stringPtrField (goLit "classification") (·.classification) fun s t => { s with classification := t },
    stringPtrField (goLit "rationale_ref") (·.rationaleRef) fun s t => { s with rationaleRef := t },
    stringPtrField (goLit "framework") (·.framework) fun s t => { s with framework := t }]

/-- The fields of `SourceMeta`. -/
def sourceFields : List (Field SourceMeta) :=
  [stringField (goLit "format") (·.format) fun s t => { s with format := t },
    stringPtrField (goLit "span_id") (·.spanId) fun s t => { s with spanId := t },
    stringPtrField (goLit "trace_id") (·.traceId) fun s t => { s with traceId := t },
    stringPtrField (goLit "collector_version") (·.collectorVersion)
      fun s t => { s with collectorVersion := t },
    stringPtrField (goLit "ingested_at") (·.ingestedAt) fun s t => { s with ingestedAt := t }]

/-- The field `Ledger`, which is read and put nowhere. -/
def ledgerField : Field Event where
  name := goLit "ledger"
  get := (·.ledger)
  set s t := { s with ledger := t }
  dec _ v := .ok (some v)
  emit _ := none

/-- The fields of `Event` that are put into the leaf content, in its order. -/
def leafFields : List (Field Event) :=
  [stringField (goLit "schema_version") (·.schemaVersion) fun s t => { s with schemaVersion := t },
    stringField (goLit "event_id") (·.eventId) fun s t => { s with eventId := t },
    stringField (goLit "timestamp") (·.timestamp) fun s t => { s with timestamp := t },
    stringField (goLit "kind") (·.kind) fun s t => { s with kind := t },
    structField (goLit "actor") actorFields actorMap (·.actor) fun s t => { s with actor := t },
    structField (goLit "source") sourceFields sourceMap (·.source) fun s t => { s with source := t },
    keptStructPtrField (goLit "provenance") provenanceFields (fun p => provenanceMap (some p)) {}
      (·.provenance) fun s t => { s with provenance := t },
    mapField (goLit "attributes") (·.attributes) fun s t => { s with attributes := t },
    stringMapField (goLit "labels") (·.labels) fun s t => { s with labels := t },
    structPtrField (goLit "io") ioFields ioMap {} (·.io) fun s t => { s with io := t },
    structPtrField (goLit "model") modelFields modelMap {} (·.model) fun s t => { s with model := t },
    structPtrField (goLit "tool") toolFields toolMap {} (·.tool) fun s t => { s with tool := t },
    structPtrField (goLit "oversight") oversightFields oversightMap {} (·.oversight)
      fun s t => { s with oversight := t },
    structPtrField (goLit "risk") riskFields riskMap {} (·.risk) fun s t => { s with risk := t }]

/-- The fields of `Event`. -/
def eventFields : List (Field Event) := leafFields ++ [ledgerField]

/-- `eventKnownKeys`. -/
def eventKnownKeys : List GoString :=
  [goLit "schema_version", goLit "event_id", goLit "timestamp", goLit "kind", goLit "actor",
    goLit "provenance", goLit "io", goLit "model", goLit "tool", goLit "oversight", goLit "risk",
    goLit "attributes", goLit "labels", goLit "source", goLit "ledger"]

/-- The entries of a document, as a map of raw messages. -/
def rawEntries : GoVal → Except DecodeErr (List (GoString × RawMessage))
  | .nil => .ok []
  | .map kvs => .ok (kvs.foldl (fun m kv => assign m kv.1 (some kv.2)) [])
  | _ => .error .unmarshalType

/-- `Event.UnmarshalJSON`. -/
def Event.unmarshalJson (data : GoVal) : Except DecodeErr Event := do
  let e ← decodeStruct eventFields {} data
  let raw ← rawEntries data
  return { e with extra := raw.filter fun kv => kv.1 ∉ eventKnownKeys }

/-! ## The fields of each struct -/

/-- The fields of a claim are apart. -/
theorem lawful_identityClaimFields : Lawful identityClaimFields where
  get_set := by simp [identityClaimFields, stringPtrField]
  apart := by simp [identityClaimFields, Apart, stringPtrField]
  names := by decide

/-- The fields of an actor are apart. -/
theorem lawful_actorFields : Lawful actorFields where
  get_set := by simp [actorFields, stringField, stringPtrField, structPtrField]
  apart := by simp [actorFields, Apart, stringField, stringPtrField, structPtrField]
  names := by decide

/-- The fields of provenance are apart. -/
theorem lawful_provenanceFields : Lawful provenanceFields where
  get_set := by simp [provenanceFields, stringPtrField]
  apart := by simp [provenanceFields, Apart, stringPtrField]
  names := by decide

/-- The fields of references are apart. -/
theorem lawful_ioFields : Lawful ioFields where
  get_set := by simp [ioFields, stringPtrField, int64PtrField]
  apart := by
    simp only [ioFields, List.pairwise_cons, List.forall_mem_cons, List.not_mem_nil, false_imp_iff,
      implies_true, List.Pairwise.nil, and_true]
    and_intros <;> exact fun _ _ => rfl
  names := by decide

/-- The fields of a model are apart. -/
theorem lawful_modelFields : Lawful modelFields where
  get_set := by simp [modelFields, stringPtrField]
  apart := by simp [modelFields, Apart, stringPtrField]
  names := by decide

/-- The fields of a tool are apart. -/
theorem lawful_toolFields : Lawful toolFields where
  get_set := by simp [toolFields, stringPtrField]
  apart := by simp [toolFields, Apart, stringPtrField]
  names := by decide

/-- The fields of oversight are apart. -/
theorem lawful_oversightFields : Lawful oversightFields where
  get_set := by simp [oversightFields, stringPtrField]
  apart := by simp [oversightFields, Apart, stringPtrField]
  names := by decide

/-- The fields of a risk are apart. -/
theorem lawful_riskFields : Lawful riskFields where
  get_set := by simp [riskFields, stringPtrField]
  apart := by simp [riskFields, Apart, stringPtrField]
  names := by decide

/-- The fields of a source are apart. -/
theorem lawful_sourceFields : Lawful sourceFields where
  get_set := by simp [sourceFields, stringField, stringPtrField]
  apart := by
    simp only [sourceFields, List.pairwise_cons, List.forall_mem_cons, List.not_mem_nil, false_imp_iff,
      implies_true, List.Pairwise.nil, and_true]
    and_intros <;> exact fun _ _ => rfl
  names := by decide

/-- The fields of an event are apart. -/
theorem lawful_eventFields : Lawful eventFields where
  get_set := by
    simp only [eventFields, leafFields, List.cons_append, List.nil_append, List.forall_mem_cons,
      List.not_mem_nil, false_imp_iff, implies_true, and_true]
    and_intros <;> exact fun _ _ => rfl
  apart := by
    -- one conjunct for each ordered pair of fields
    simp only [eventFields, leafFields, List.cons_append, List.nil_append, List.pairwise_cons,
      List.forall_mem_cons, List.not_mem_nil, false_imp_iff, implies_true, List.Pairwise.nil, and_true]
    and_intros <;> exact fun _ _ => rfl
  names := by decide

/-! Each of the maps is what the fields of its struct give. -/

/-- The map of a claim lists its fields. -/
theorem identityClaimMap_eq (ic : IdentityClaim) :
    identityClaimMap ic = entries identityClaimFields ic := by
  simp [identityClaimMap, entries, identityClaimFields, stringPtrField, putStr, Function.comp_def]

/-- The map of an actor lists its fields. -/
theorem actorMap_eq (a : Actor) : actorMap a = entries actorFields a := by
  simp [actorMap, entries, actorFields, stringField, stringPtrField, structPtrField, putStr,
    Function.comp_def]

/-- The map of provenance lists its fields. -/
theorem provenanceMap_eq (p : Provenance) : provenanceMap (some p) = entries provenanceFields p := by
  simp [provenanceMap, entries, provenanceFields, stringPtrField, putStr, Function.comp_def]

/-- The map of references lists its fields. -/
theorem ioMap_eq (io : IORef) : ioMap io = entries ioFields io := by
  simp [ioMap, entries, ioFields, stringPtrField, int64PtrField, putStr, putInt, Function.comp_def]

/-- The map of a model lists its fields. -/
theorem modelMap_eq (mi : ModelInfo) : modelMap mi = entries modelFields mi := by
  simp [modelMap, entries, modelFields, stringPtrField, putStr, Function.comp_def]

/-- The map of a tool lists its fields. -/
theorem toolMap_eq (t : ToolInfo) : toolMap t = entries toolFields t := by
  simp [toolMap, entries, toolFields, stringPtrField, putStr, Function.comp_def]

/-- The map of oversight lists its fields. -/
theorem oversightMap_eq (o : Oversight) : oversightMap o = entries oversightFields o := by
  simp [oversightMap, entries, oversightFields, stringPtrField, putStr, Function.comp_def]

/-- The map of a risk lists its fields. -/
theorem riskMap_eq (r : Risk) : riskMap r = entries riskFields r := by
  simp [riskMap, entries, riskFields, stringPtrField, putStr, Function.comp_def]

/-- The map of a source lists its fields. -/
theorem sourceMap_eq (m : SourceMeta) : sourceMap m = entries sourceFields m := by
  simp [sourceMap, entries, sourceFields, stringField, stringPtrField, putStr, Function.comp_def]

/-- The leaf content has the entries of the fields. -/
theorem Event.fieldEntries_eq (e : Event) : e.fieldEntries = entries leafFields e := by
  have hprovenance : provenanceMap e.provenance = provenanceMap (some (e.provenance.getD {})) := by
    cases e.provenance with
    | none => rfl
    | some p => rfl
  rw [fieldEntries, hprovenance]
  simp [entries, leafFields, structField, stringField, structPtrField, keptStructPtrField, mapField,
    stringMapField, attributesValue, labelsValue, Function.comp_def]

/-- The keys that are known are the names of the fields. -/
theorem mem_eventKnownKeys {k : GoString} :
    k ∈ eventKnownKeys ↔ k ∈ leafFields.map (·.name) ∨ k = goLit "ledger" := by
  have hknown : ∀ k ∈ eventKnownKeys, k ∈ leafFields.map (·.name) ∨ k = goLit "ledger" := by decide
  have hnames : ∀ k ∈ leafFields.map (·.name), k ∈ eventKnownKeys := by decide
  refine ⟨hknown k, ?_⟩
  rintro (hk | rfl)
  · exact hnames k hk
  · decide

/-- The fields of the ledger are not in the leaf. -/
theorem ledger_not_mem_leafFields : goLit "ledger" ∉ leafFields.map (·.name) := by decide

/-! ## Events that are taken over -/

/-- The document without its ledger. -/
def withoutLedger (kvs : GoItems) : GoItems := kvs.filter fun kv => kv.1 ≠ goLit "ledger"

/-- The extra entries are put into the map one after the other. -/
theorem foldlM_putExtra (extra : GoItems) (out : GoItems) :
    (extra.map fun kv => (kv.1, some kv.2)).foldlM putExtra out
      = .ok (extra.foldl (fun m kv => assign m kv.1 kv.2) out) := by
  induction extra generalizing out with
  | nil => rfl
  | cons kv extra ih =>
      rw [List.map_cons, List.foldlM_cons, List.foldl_cons]
      exact ih _

/-- The entries of a document with distinct keys are its raw entries. -/
theorem rawEntries_map {kvs : GoItems} (hkeys : (kvs.map Prod.fst).Nodup) :
    rawEntries (.map kvs) = .ok (kvs.map fun kv => (kv.1, some kv.2)) := by
  have hfold := @foldl_assign RawMessage (kvs.map fun kv => (kv.1, some kv.2)) [] (by
    rw [List.nil_append, List.map_map]
    exact hkeys)
  rw [List.foldl_map, List.nil_append] at hfold
  exact congrArg Except.ok hfold

/-- What an event is decoded to from a document with distinct keys. -/
theorem Event.unmarshalJson_eq_ok {kvs : GoItems} (hkeys : (kvs.map Prod.fst).Nodup) {e : Event} :
    Event.unmarshalJson (.map kvs) = .ok e ↔ ∃ e', kvs.foldlM (store eventFields) {} = .ok e' ∧
      e = { e' with extra := (kvs.filter fun kv => kv.1 ∉ eventKnownKeys).map fun kv =>
        (kv.1, some kv.2) } := by
  have hextra : (kvs.map fun kv => (kv.1, some kv.2)).filter (fun kv => kv.1 ∉ eventKnownKeys)
      = (kvs.filter fun kv => kv.1 ∉ eventKnownKeys).map fun kv => (kv.1, some kv.2) := by
    rw [List.filter_map]
    rfl
  rw [unmarshalJson, decodeStruct, rawEntries_map hkeys, bind_eq_ok]
  constructor
  · rintro ⟨e', he', h⟩
    exact ⟨e', he', (pure_eq_ok.mp h).symm.trans (by rw [hextra])⟩
  · rintro ⟨e', he', rfl⟩
    exact ⟨e', he', by rw [← hextra]; rfl⟩

/-- The extra entries are not those of fields. -/
theorem nodup_fieldEntries_append (e : Event) {kvs : GoItems} (hkeys : (kvs.map Prod.fst).Nodup) :
    ((e.fieldEntries ++ kvs.filter fun kv => kv.1 ∉ eventKnownKeys).map Prod.fst).Nodup := by
  rw [e.fieldEntries_eq, List.map_append, List.nodup_append]
  have hnames := lawful_eventFields.names
  rw [eventFields, List.map_append, List.nodup_append] at hnames
  refine ⟨hnames.1.sublist (keys_entries_sublist leafFields e),
    hkeys.sublist (List.filter_sublist.map _), fun k hk l hl heq => ?_⟩
  obtain ⟨kv, hkv, rfl⟩ := List.mem_map.mp hl
  have hunknown := of_decide_eq_true (List.mem_filter.mp hkv).2
  have hname := (keys_entries_sublist leafFields e).mem hk
  exact hunknown (mem_eventKnownKeys.mpr (Or.inl (heq ▸ hname)))

/-- The leaf content of an event that is decoded from a document with distinct keys. -/
theorem Event.leafContent_eq {kvs : GoItems} (hkeys : (kvs.map Prod.fst).Nodup) {e e' : Event}
    (h : e = { e' with extra := (kvs.filter fun kv => kv.1 ∉ eventKnownKeys).map fun kv =>
      (kv.1, some kv.2) }) :
    e.leafContent = .ok (e'.fieldEntries ++ kvs.filter fun kv => kv.1 ∉ eventKnownKeys) := by
  rw [leafContent, h, foldlM_putExtra]
  exact congrArg Except.ok (foldl_assign (nodup_fieldEntries_append e' hkeys))

/-- A document that the event model takes over: no key but one of the ledger is the name of a field
in another case, and each field takes its value or has none. -/
structure ReproducedEvent (kvs : GoItems) : Prop where
  keys : (kvs.map Prod.fst).Nodup
  exact : ∀ kv ∈ kvs, ∀ f ∈ leafFields, matchField eventFields kv.1 = some f → f.name = kv.1
  bound : ∀ f ∈ leafFields, ∀ v, kvs.lookup f.name = some v → f.Repro (f.get {}) v
  unbound : ∀ f ∈ leafFields, kvs.lookup f.name = none → (f.emit (f.get {})).bind written = none

/-- **An event that is taken over** is decoded, and its leaf content is encoded as the document without
its ledger. -/
theorem ReproducedEvent.encode_eq {kvs : GoItems} (h : ReproducedEvent kvs) :
    ∃ e content, Event.unmarshalJson (.map kvs) = .ok e ∧ e.leafContent = .ok content ∧
      encode (.map content) = encode (.map (withoutLedger kvs)) := by
  obtain ⟨e', he'⟩ := @Lawful.exists_foldlM _ _ lawful_eventFields kvs {} h.keys
    fun kv hkv f hmatch => by
      rcases List.mem_append.mp (mem_of_matchField hmatch) with hf | hf
      · have hname := h.exact kv hkv f hf hmatch
        obtain ⟨t, ht, -⟩ := h.bound f hf kv.2 ((Val.lookup_eq_some_iff h.keys).mpr (hname ▸ hkv))
        exact Or.inl ⟨hname, t, ht⟩
      · rw [List.mem_singleton.mp hf]
        exact Or.inr fun _ v => ⟨some v, rfl⟩
  refine ⟨_, _, (Event.unmarshalJson_eq_ok h.keys).mpr ⟨e', he', rfl⟩, Event.leafContent_eq h.keys rfl,
    encode_map_congr (nodup_fieldEntries_append e' h.keys)
      (h.keys.sublist (List.filter_sublist.map _)) fun k => ?_⟩
  rw [e'.fieldEntries_eq, List.lookup_append]
  by_cases hk : k ∈ leafFields.map (·.name)
  · -- a field
    obtain ⟨f, hf, rfl⟩ := List.mem_map.mp hk
    have hnames := lawful_eventFields.names
    rw [eventFields, List.map_append, List.nodup_append] at hnames
    have hwritten := written_of_foldlM lawful_eventFields (List.mem_append_left _ hf)
      (fun kv hkv => h.exact kv hkv f hf) h.keys he' (h.bound f hf) (h.unbound f hf)
    have hledger : f.name ≠ goLit "ledger" := fun heq => ledger_not_mem_leafFields (heq ▸ hk)
    have hextra : (kvs.filter fun kv => kv.1 ∉ eventKnownKeys).lookup f.name = none := by
      refine List.lookup_eq_none_iff.mpr fun kv hkv => bne_iff_ne.mpr fun heq => ?_
      exact of_decide_eq_true (List.mem_filter.mp hkv).2
        (mem_eventKnownKeys.mpr (Or.inl (heq ▸ hk)))
    rw [lookup_entries hnames.1 hf, hextra, Option.or_none, hwritten, withoutLedger,
      lookup_filter_of (p := fun l => l ≠ goLit "ledger") (decide_eq_true hledger)]
  · rw [lookup_entries_of_ne hk, Option.none_or]
    by_cases hledger : k = goLit "ledger"
    · -- the ledger is in neither
      have hnone : ∀ {p : GoString → Bool}, p (goLit "ledger") = false →
          (kvs.filter fun kv => p kv.1).lookup (goLit "ledger") = none := by
        intro p hp
        refine List.lookup_eq_none_iff.mpr fun kv hkv => bne_iff_ne.mpr fun heq => ?_
        have hkey := (List.mem_filter.mp hkv).2
        rw [← heq, hp] at hkey
        cases hkey
      rw [hledger, hnone (p := fun k => k ∉ eventKnownKeys) (by decide), withoutLedger,
        hnone (p := fun k => k ≠ goLit "ledger") (by decide)]
    · -- an extra entry
      have hunknown : k ∉ eventKnownKeys := fun hmem =>
        (mem_eventKnownKeys.mp hmem).elim hk hledger
      rw [lookup_filter_of (p := fun k => k ∉ eventKnownKeys) (decide_eq_true hunknown), withoutLedger,
        lookup_filter_of (p := fun k => k ≠ goLit "ledger") (decide_eq_true hledger)]

end OpenWright.Go
