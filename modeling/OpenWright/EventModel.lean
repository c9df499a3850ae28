import OpenWright.Events
import OpenWright.Python.Model

/-! # The declared fields of events

`ComplianceEvent` and the models inside it, with the fields they declare: everything else passes
through, at every level.

* **`ComplianceEvent.Modelled`** — an event whose content is the dump of a validated event. -/

namespace OpenWright.EventModel

open Python Python.Model

/-! ## Fields -/

/-- A field without a default. -/
def required (name : String) (validate : Validator) : Field :=
  { name := lit name, presence := .required, validate }

/-- A field `Optional[...] = None`. -/
def optional (name : String) (validate : Validator) : Field :=
  { name := lit name, presence := .optional, validate }

/-- A field with a default, given by its dump. -/
def defaulted (name : String) (dump : Val) (validate : Validator) : Field :=
  { name := lit name, presence := .default dump, validate }

/-- `EventKind`. -/
def eventKinds : List Str :=
  [lit "llm_call", lit "tool_call", lit "agent_decision", lit "human_approval",
    lit "risk_classification", lit "policy_decision", lit "incident", lit "conformance_finding",
    lit "identity_claim", lit "task_status", lit "correction", lit "generic"]

/-- `OversightStatus`. -/
def oversightStatuses : List Str :=
  [lit "not_required", lit "pending", lit "approved", lit "rejected", lit "unknown"]

/-- `IdentityClaim`. -/
def identityClaim : List Field :=
  [defaulted "claim_type" (.str (lit "agentcard-binding")) str, optional "public_key_id" str,
    optional "agent_card_hash" str, optional "signature_b64" str]

/-- `Actor`. -/
def actor : List Field :=
  [required "agent_id" str, optional "agent_card_ref" str,
    optional "identity_claim" (model identityClaim)]

/-- `Provenance`. -/
def provenance : List Field :=
  [optional "task_id" str, optional "context_id" str, optional "parent_task_id" str,
    optional "root_task_id" str]

/-- `IORef`. -/
def ioRef : List Field :=
  [optional "input_ref" str, optional "output_ref" str, optional "arguments_ref" str,
    optional "input_tokens" int, optional "output_tokens" int, optional "total_tokens" int,
    optional "cost" str, optional "cost_currency" str]

/-- `ModelInfo`. -/
def modelInfo : List Field :=
  [optional "provider" str, optional "request_model" str, optional "response_model" str]

/-- `ToolInfo`. -/
def toolInfo : List Field := [optional "name" str, optional "call_id" str]

/-- `Oversight`. -/
def oversight : List Field :=
  [defaulted "status" (.str (lit "unknown")) (enum oversightStatuses), optional "approval_ref" str,
    optional "reviewer" str]

/-- `Risk`. -/
def risk : List Field :=
  [optional "classification" str, optional "rationale_ref" str, optional "framework" str]

/-- `SourceMeta`. -/
def sourceMeta : List Field :=
  [required "format" str, optional "span_id" str, optional "trace_id" str,
    optional "collector_version" str, optional "ingested_at" str]

/-- `LedgerFields`. -/
def ledgerFields : List Field :=
  [optional "leaf_hash" str, optional "leaf_index" int, optional "checkpoint_id" str,
    optional "committed_at" str, optional "retention_until" str]

mutual
/-- `check` of `_no_floats_in_attributes`: whether it finds a float. -/
def findsFloat : Val → Bool
  | .float _ => true
  | .dict kvs => findsFloatItems kvs
  | .list vs => findsFloatList vs
  | _ => false

/-- `check` of the elements. -/
def findsFloatList : List Val → Bool
  | [] => false
  | v :: vs => findsFloat v || findsFloatList vs

/-- `check` of the values. -/
def findsFloatItems : Items → Bool
  | [] => false
  | (_, v) :: kvs => findsFloat v || findsFloatItems kvs
end

/-- `ComplianceEvent`. -/
def complianceEvent : List Field :=
  [defaulted "schema_version" (.str (lit "1.0.0")) str, defaulted "event_id" (.str []) str,
    required "timestamp" str, required "kind" (enum eventKinds), required "actor" (model actor),
    defaulted "provenance" (.dict []) (model provenance), optional "io" (model ioRef),
    optional "model" (model modelInfo), optional "tool" (model toolInfo),
    optional "oversight" (model oversight), optional "risk" (model risk),
    defaulted "attributes" (.dict []) (guarded findsFloat anyDict),
    defaulted "labels" (.dict []) strDict, required "source" (model sourceMeta),
    optional "ledger" (model ledgerFields)]

/-! ## Values of the fields -/

/-- A text field is dumped as text. -/
theorem exists_str {v w : Val} (h : str v = some w) : ∃ s, w = .str s := by
  cases v with
  | str s => exact ⟨s, (Option.some.inj h).symm⟩
  | _ => cases h

/-- So is an enumeration. -/
theorem exists_str_of_enum {members : List Str} {v w : Val} (h : enum members v = some w) :
    ∃ s, w = .str s := by
  cases v with
  | str s =>
      rw [enum] at h
      split at h
      · exact ⟨s, (Option.some.inj h).symm⟩
      · cases h
  | _ => cases h

/-- An integer field is dumped as an integer. -/
theorem exists_int {v w : Val} (h : int v = some w) : ∃ z, w = .int z := by
  cases v with
  | int z => exact ⟨z, (Option.some.inj h).symm⟩
  | bool b => exact ⟨b.toInt, (Option.some.inj h).symm⟩
  | float x =>
      cases x with
      | finite q =>
          rw [int] at h
          split at h
          · exact ⟨q.num, (Option.some.inj h).symm⟩
          · cases h
      | _ => cases h
  | str s =>
      rw [int, Option.map_eq_some_iff] at h
      obtain ⟨z, -, rfl⟩ := h
      exact ⟨z, rfl⟩
  | _ => cases h

/-- A dictionary of strings is dumped as one. -/
theorem exists_strDict {v w : Val} (h : strDict v = some w) :
    ∃ kvs, w = .dict kvs ∧ ∀ kv ∈ kvs, ∃ s, kv.2 = .str s := by
  cases v with
  | dict kvs =>
      rw [strDict] at h
      split at h
      · rename_i hall
        refine ⟨kvs, (Option.some.inj h).symm, fun kv hkv => ?_⟩
        obtain ⟨w, hw⟩ := Option.isSome_iff_exists.mp (List.all_eq_true.mp hall kv hkv)
        obtain ⟨k, u⟩ := kv
        cases u with
        | str s => exact ⟨s, rfl⟩
        | _ => cases hw
      · cases h
  | _ => cases h

/-- Attributes are dumped as a dictionary. -/
theorem exists_attributes {v w : Val} (h : guarded findsFloat anyDict v = some w) :
    ∃ kvs, w = .dict kvs := by
  rw [guarded] at h
  split at h
  · cases h
  · cases v with
    | dict kvs => exact ⟨Val.jsonModeItems kvs, (Option.some.inj h).symm⟩
    | _ => cases h

/-- A model is dumped as a dictionary. -/
theorem exists_model {fields : List Field} {v w : Val} (h : model fields v = some w) :
    ∃ out, w = .dict out ∧ model fields v = some (.dict out) := by
  obtain ⟨kvs, own, -, -, rfl⟩ := model_eq_some h
  exact ⟨_, rfl, h⟩

end OpenWright.EventModel

namespace OpenWright.ComplianceEvent

open Python EventModel

/-- The event's content is that of a validated event: its id and its ledger fields apart. -/
def Modelled (e : ComplianceEvent) : Prop :=
  ∃ input out, Model.model complianceEvent input = some (.dict out) ∧
    e.content = .ok (out.filter fun kv => kv.1 ∉ [lit "event_id", lit "ledger"])

/-- What the content of such an event binds a declared field to. -/
theorem lookup_content {input : Val} {out : Items}
    (hmodel : Model.model complianceEvent input = some (.dict out)) {f : Model.Field}
    (hf : f ∈ complianceEvent) (hname : f.name ∉ [lit "event_id", lit "ledger"]) :
    ((out.filter fun kv => kv.1 ∉ [lit "event_id", lit "ledger"]).lookup f.name = none →
        f.presence = .optional) ∧
      ∀ w, (out.filter fun kv => kv.1 ∉ [lit "event_id", lit "ledger"]).lookup f.name = some w →
        f.Yields w := by
  rw [lookup_filter_of (p := fun k => k ∉ [lit "event_id", lit "ledger"]) (decide_eq_true hname)]
  exact Model.lookup_model hmodel (by decide) hf

end OpenWright.ComplianceEvent
