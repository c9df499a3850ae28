import OpenWright.EventModel
import OpenWright.Python.Validated

/-! # Events as adapters build them

An adapter builds a `ComplianceEvent` field by field; what it gives a text field is validated to be a
text, and the attributes hold no float.

* **`model_val`** — what an adapter builds is an event that the model validates.
* **`modelled_toEvent`** — so its content is that of a validated event. -/

namespace OpenWright.Adapters

open Python Python.Val EventModel

/-! ## The interpreter -/

/-- What the interpreter writes: `str(v)` of a value that is not a text, which is never empty;
`s.lower()`; and a sum of rates for thousands of tokens, in decimal arithmetic and with six digits. -/
structure Interpreter where
  text : Val → Except PyErr Str
  text_ne_nil : ∀ v s, text v = .ok s → s ≠ []
  lower : Str → Str
  decimalText : List (Val × Int) → Except PyErr Str

/-- `str(v)`. -/
def Interpreter.str (I : Interpreter) : Val → Except PyErr Str
  | .str s => .ok s
  | v => I.text v

/-- The text of a value that is true is not empty. -/
theorem Interpreter.str_ne_nil {I : Interpreter} {v : Val} {s : Str} (h : I.str v = .ok s)
    (hv : v.truthy = true) : s ≠ [] := by
  cases v with
  | str t =>
      obtain rfl := Except.ok.inj h
      simpa [truthy] using hv
  | _ => exact I.text_ne_nil _ _ h

/-- An interpreter that writes booleans and integers, and none of the others. -/
def sampleInterpreter : Interpreter where
  text
    | .null => .ok (lit "None")
    | .bool b => .ok (if b then lit "True" else lit "False")
    | .int z => .ok (Json.intText z)
    | _ => .error { kind := .other }
  text_ne_nil := by
    intro v s h
    cases v with
    | null => rw [← Except.ok.inj h]; decide
    | bool b => rw [← Except.ok.inj h]; cases b <;> decide
    | int z =>
        obtain ⟨c, rest, hcons, -⟩ := Json.intText_cons z
        rw [← Except.ok.inj h, hcons]
        exact List.cons_ne_nil c rest
    | _ => cases h
  lower s := s
  decimalText _ := .error { kind := .other }

/-- `d.get(k)`. -/
def attr (items : Items) (k : String) : Val := (items.lookup (lit k)).getD .null

/-- Only a dictionary has the method. -/
theorem exists_dict_of_getD_null {v w : Val} {k : String} (h : v.getD (lit k) .null = .ok w) :
    ∃ kvs, v = .dict kvs ∧ attr kvs k = w := by
  cases v with
  | dict kvs => exact ⟨kvs, rfl, Except.ok.inj h⟩
  | _ => cases h

/-! ## Validated fields -/

/-- What pydantic raises. -/
def invalid : PyErr := { kind := .validationError }

/-- A field `str`. -/
def requiredStr : Val → Except PyErr Str
  | .str s => .ok s
  | _ => .error invalid

/-- A field `Optional[str] = None`. -/
def optionalStr : Val → Except PyErr (Option Str)
  | .null => .ok none
  | .str s => .ok (some s)
  | _ => .error invalid

/-- Only a text is a required text. -/
theorem requiredStr_eq_ok {v : Val} {s : Str} : requiredStr v = .ok s ↔ v = .str s := by
  cases v with
  | str t => rw [requiredStr, Except.ok.injEq, Val.str.injEq]
  | _ => exact iff_of_false (fun h => nomatch h) fun h => nomatch h

/-- A required text is read from a text, and from nothing else. -/
theorem exists_requiredStr {v : Val} : (∃ s, requiredStr v = .ok s) ↔ ∃ s, v = .str s := by
  simp only [requiredStr_eq_ok]

/-- A text, if it is true. -/
def TextIfTrue (v : Val) : Prop := v.truthy = true → ∃ s, v = .str s

/-- A required text with a default. -/
theorem exists_requiredStr_orElse {v : Val} {d : Str} :
    (∃ s, requiredStr (v.orElse (.str d)) = .ok s) ↔ TextIfTrue v := by
  rw [exists_requiredStr, orElse, TextIfTrue]
  split
  · rename_i h
    exact ⟨fun hs _ => hs, fun hs => hs h⟩
  · rename_i h
    exact iff_of_true ⟨d, rfl⟩ fun htrue => absurd htrue h

/-! ## The models -/

/-- `EventKind`. -/
inductive EventKind
  | llmCall
  | toolCall
  | agentDecision
  | humanApproval
  | riskClassification
  | policyDecision
  | incident
  | conformanceFinding
  | identityClaim
  | taskStatus
  | correction
  | generic
deriving DecidableEq

/-- The value of a kind. -/
def EventKind.value : EventKind → Str
  | llmCall => lit "llm_call"
  | toolCall => lit "tool_call"
  | agentDecision => lit "agent_decision"
  | humanApproval => lit "human_approval"
  | riskClassification => lit "risk_classification"
  | policyDecision => lit "policy_decision"
  | incident => lit "incident"
  | conformanceFinding => lit "conformance_finding"
  | identityClaim => lit "identity_claim"
  | taskStatus => lit "task_status"
  | correction => lit "correction"
  | generic => lit "generic"

/-- The model knows every kind. -/
theorem EventKind.value_mem (kind : EventKind) : kind.value ∈ eventKinds := by
  cases kind <;> decide

/-- `IdentityClaim`, with the fields that `extra="allow"` lets through. -/
structure IdentityClaim where
  claimType : Str
  publicKeyId : Option Str := none
  agentCardHash : Option Str := none
  signatureB64 : Option Str := none
  extra : Items := []
  /-- The other fields are not declared, and they are set. -/
  extra_undeclared : ∀ kv ∈ extra, kv.1 ∉ EventModel.identityClaim.map (·.name) ∧ kv.2 ≠ .null

/-- `Actor`. -/
structure Actor where
  agentId : Str
  agentCardRef : Option Str := none
  identityClaim : Option IdentityClaim := none

/-- `Provenance`. -/
structure Provenance where
  taskId : Option Str := none
  contextId : Option Str := none
  parentTaskId : Option Str := none
  rootTaskId : Option Str := none
deriving DecidableEq

/-- `IORef`. -/
structure IORef where
  inputRef : Option Str := none
  outputRef : Option Str := none
  argumentsRef : Option Str := none
  inputTokens : Option Int := none
  outputTokens : Option Int := none
  totalTokens : Option Int := none
  cost : Option Str := none
  costCurrency : Option Str := none
deriving DecidableEq

/-- `ModelInfo`. -/
structure ModelInfo where
  provider : Option Str := none
  requestModel : Option Str := none
  responseModel : Option Str := none
deriving DecidableEq

/-- `ToolInfo`. -/
structure ToolInfo where
  name : Option Str := none
  callId : Option Str := none
deriving DecidableEq

/-- `SourceMeta`. -/
structure SourceMeta where
  format : Str
  spanId : Option Str := none
  traceId : Option Str := none
  collectorVersion : Option Str := none
  ingestedAt : Option Str := none
deriving DecidableEq

/-- Attributes that `_no_floats_in_attributes` accepts. -/
structure Attributes where
  items : Items
  noFloats : findsFloatItems items = false

/-- The check of the attributes. -/
def attributes (items : Items) : Except PyErr Attributes :=
  if h : findsFloatItems items = false then .ok ⟨items, h⟩ else .error invalid

/-- Attributes are accepted where there is no float in them. -/
theorem exists_attributes {items : Items} :
    (∃ a, attributes items = .ok a) ↔ findsFloatItems items = false := by
  rw [attributes]
  split
  · rename_i h
    exact iff_of_true ⟨_, rfl⟩ h
  · rename_i h
    exact iff_of_false (fun ⟨_, heq⟩ => nomatch heq) h

/-- Accepted attributes are the ones that were given. -/
theorem items_of_attributes {items : Items} {a : Attributes} (h : attributes items = .ok a) :
    a.items = items := by
  rw [attributes] at h
  split at h
  · rw [← Except.ok.inj h]
  · cases h

/-- `attributes[k] = v`. -/
def setItem (items : Items) (k : Str) (v : Val) : Items :=
  if (items.lookup k).isSome then items.map fun kv => if kv.1 = k then (k, v) else kv
  else items ++ [(k, v)]

/-- A float in a dictionary is in one of its values. -/
theorem findsFloatItems_eq_any (items : Items) :
    findsFloatItems items = items.any fun kv => findsFloat kv.2 := by
  induction items with
  | nil => rfl
  | cons kv items ih => rw [findsFloatItems, List.any_cons, ih]

/-- A float in a list is in one of its elements. -/
theorem findsFloatList_eq_any (vs : List Val) : findsFloatList vs = vs.any findsFloat := by
  induction vs with
  | nil => rfl
  | cons v vs ih => rw [findsFloatList, List.any_cons, ih]

/-- No float is set, so none is found. -/
theorem findsFloatItems_setItem {items : Items} {v : Val} (h : findsFloatItems items = false)
    (hv : findsFloat v = false) (k : Str) : findsFloatItems (setItem items k v) = false := by
  rw [findsFloatItems_eq_any, List.any_eq_false] at h ⊢
  rw [setItem]
  intro kv hkv
  split at hkv
  · obtain ⟨lv, hlv, rfl⟩ := List.mem_map.mp hkv
    split
    · simp [hv]
    · exact h lv hlv
  · rcases List.mem_append.mp hkv with hkv | hkv
    · exact h kv hkv
    · rw [List.mem_singleton.mp hkv]
      simp [hv]

/-- A value without floats is set. -/
def Attributes.set (a : Attributes) (k : Str) (v : Val) (hv : findsFloat v = false) : Attributes :=
  ⟨setItem a.items k v, findsFloatItems_setItem a.noFloats hv k⟩

/-- `ComplianceEvent`, with the fields that adapters give it: the others keep their defaults. -/
structure Event where
  timestamp : Str
  kind : EventKind
  actor : Actor
  provenance : Provenance := {}
  io : Option IORef := none
  model : Option ModelInfo := none
  tool : Option ToolInfo := none
  attributes : Attributes
  source : SourceMeta

/-! ## What is passed on, and what is dumped -/

/-- A claim, with the other fields as they are or as they are dumped. -/
def IdentityClaim.val (g : Val → Val) (c : IdentityClaim) : Val :=
  .dict (Model.present EventModel.identityClaim [some (.str c.claimType),
    c.publicKeyId.map .str, c.agentCardHash.map .str, c.signatureB64.map .str]
    ++ c.extra.map fun kv => (kv.1, g kv.2))

/-- An actor. -/
def Actor.val (g : Val → Val) (a : Actor) : Val :=
  .dict (Model.present EventModel.actor [some (.str a.agentId), a.agentCardRef.map .str,
    a.identityClaim.map (IdentityClaim.val g)])

/-- Provenance. -/
def Provenance.val (p : Provenance) : Val :=
  .dict (Model.present EventModel.provenance [p.taskId.map .str, p.contextId.map .str,
    p.parentTaskId.map .str, p.rootTaskId.map .str])

/-- References to what went in and came out. -/
def IORef.val (r : IORef) : Val :=
  .dict (Model.present EventModel.ioRef [r.inputRef.map .str, r.outputRef.map .str,
    r.argumentsRef.map .str, r.inputTokens.map .int, r.outputTokens.map .int, r.totalTokens.map .int,
    r.cost.map .str, r.costCurrency.map .str])

/-- A model. -/
def ModelInfo.val (m : ModelInfo) : Val :=
  .dict (Model.present EventModel.modelInfo [m.provider.map .str, m.requestModel.map .str,
    m.responseModel.map .str])

/-- A tool. -/
def ToolInfo.val (t : ToolInfo) : Val :=
  .dict (Model.present EventModel.toolInfo [t.name.map .str, t.callId.map .str])

/-- A source. -/
def SourceMeta.val (s : SourceMeta) : Val :=
  .dict (Model.present EventModel.sourceMeta [some (.str s.format), s.spanId.map .str,
    s.traceId.map .str, s.collectorVersion.map .str, s.ingestedAt.map .str])

namespace Event

/-- What the model is given. -/
def input (e : Event) : Items :=
  Model.present complianceEvent [none, none, some (.str e.timestamp), some (.str e.kind.value),
    some (e.actor.val id), some e.provenance.val, e.io.map IORef.val, e.model.map ModelInfo.val,
    e.tool.map ToolInfo.val, none, none, some (.dict e.attributes.items), none, some e.source.val, none]

/-- `model_dump(mode="json", exclude_none=True)`. -/
def dump (e : Event) : Items :=
  Model.present complianceEvent [some (.str (lit "1.0.0")), some (.str []), some (.str e.timestamp),
    some (.str e.kind.value), some (e.actor.val jsonMode), some e.provenance.val,
    e.io.map IORef.val, e.model.map ModelInfo.val, e.tool.map ToolInfo.val, none, none,
    some (jsonMode (.dict e.attributes.items)), some (.dict []), some e.source.val, none]

end Event

/-! ### Each part is dumped as it is -/

section Parts

variable {f : Model.Field}

/-- A field that is given a text. -/
theorem dumps_given_str {s : Str} {w : Val} (h : f.validate (.str s) = some w) :
    f.Dumps (some (.str s)) (some w) := by
  refine ⟨fun hnull => ?_, h⟩
  cases hnull

/-- A field that is given a dictionary. -/
theorem dumps_given_dict {kvs : Items} {w : Val} (h : f.validate (.dict kvs) = some w) :
    f.Dumps (some (.dict kvs)) (some w) := by
  refine ⟨fun hnull => ?_, h⟩
  cases hnull

/-- A text field that may be left out. -/
theorem dumps_str (h : f.validate = Model.str) (hopt : f.presence = .optional) (o : Option Str) :
    f.Dumps (o.map .str) (o.map .str) := by
  cases o with
  | none => exact hopt
  | some s => exact dumps_given_str (by rw [h]; rfl)

/-- An integer field that may be left out. -/
theorem dumps_int (h : f.validate = Model.int) (hopt : f.presence = .optional) (o : Option Int) :
    f.Dumps (o.map .int) (o.map .int) := by
  cases o with
  | none => exact hopt
  | some z =>
      refine ⟨fun hnull => ?_, by rw [h]; rfl⟩
      cases hnull

/-- A model inside an event. -/
theorem dumps_model {α : Type} {fields : List Model.Field} {input dump : α → Val}
    (h : f.validate = Model.model fields) (hopt : f.presence = .optional)
    (hval : ∀ a, Model.model fields (input a) = some (dump a)) (o : Option α) :
    f.Dumps (o.map input) (o.map dump) := by
  cases o with
  | none => exact hopt
  | some a =>
      refine ⟨fun hnull => ?_, by rw [h]; exact hval a⟩
      have hdump := hval a
      rw [hnull] at hdump
      cases hdump

/-- A model without other fields. -/
theorem model_present_nil {fields : List Model.Field} {vs ws : List (Option Val)}
    (hnames : (fields.map (·.name)).Nodup) (h : Model.Dumps fields vs ws) :
    Model.model fields (.dict (Model.present fields vs)) = some (.dict (Model.present fields ws)) := by
  have hnone : ∀ kv ∈ ([] : Items), kv.1 ∉ fields.map (·.name) ∧ kv.2 ≠ .null :=
    fun kv hkv => absurd hkv List.not_mem_nil
  have hmodel := Model.model_present hnames h hnone
  rwa [List.map_nil, List.append_nil, List.append_nil] at hmodel

end Parts

/-- An identity claim is dumped with its other entries in JSON mode. -/
theorem IdentityClaim.model_val (c : IdentityClaim) :
    Model.model EventModel.identityClaim (c.val id) = some (c.val jsonMode) := by
  have hmore : c.extra.map (fun kv => (kv.1, id kv.2)) = c.extra := by simp
  rw [val, hmore]
  refine Model.model_present (by decide) ⟨dumps_given_str rfl, dumps_str rfl rfl _,
    dumps_str rfl rfl _, dumps_str rfl rfl _, trivial⟩ c.extra_undeclared

/-- An actor is dumped with its claim in JSON mode. -/
theorem Actor.model_val (a : Actor) :
    Model.model EventModel.actor (a.val id) = some (a.val jsonMode) :=
  model_present_nil (by decide) ⟨dumps_given_str rfl, dumps_str rfl rfl _,
    dumps_model rfl rfl IdentityClaim.model_val _, trivial⟩

/-- Provenance is dumped as it is. -/
theorem Provenance.model_val (p : Provenance) :
    Model.model EventModel.provenance p.val = some p.val :=
  model_present_nil (by decide) ⟨dumps_str rfl rfl _, dumps_str rfl rfl _, dumps_str rfl rfl _,
    dumps_str rfl rfl _, trivial⟩

/-- References are dumped as they are. -/
theorem IORef.model_val (r : IORef) : Model.model EventModel.ioRef r.val = some r.val :=
  model_present_nil (by decide) ⟨dumps_str rfl rfl _, dumps_str rfl rfl _, dumps_str rfl rfl _,
    dumps_int rfl rfl _, dumps_int rfl rfl _, dumps_int rfl rfl _, dumps_str rfl rfl _,
    dumps_str rfl rfl _, trivial⟩

/-- A model is dumped as it is. -/
theorem ModelInfo.model_val (m : ModelInfo) : Model.model EventModel.modelInfo m.val = some m.val :=
  model_present_nil (by decide) ⟨dumps_str rfl rfl _, dumps_str rfl rfl _, dumps_str rfl rfl _,
    trivial⟩

/-- A tool is dumped as it is. -/
theorem ToolInfo.model_val (t : ToolInfo) : Model.model EventModel.toolInfo t.val = some t.val :=
  model_present_nil (by decide) ⟨dumps_str rfl rfl _, dumps_str rfl rfl _, trivial⟩

/-- A source is dumped as it is. -/
theorem SourceMeta.model_val (s : SourceMeta) :
    Model.model EventModel.sourceMeta s.val = some s.val :=
  model_present_nil (by decide) ⟨dumps_given_str rfl, dumps_str rfl rfl _,
    dumps_str rfl rfl _, dumps_str rfl rfl _, dumps_str rfl rfl _, trivial⟩

namespace Event

/-- **What an adapter builds is validated**, and dumped field by field. -/
theorem model_val (e : Event) :
    Model.model complianceEvent (.dict e.input) = some (.dict e.dump) := by
  have hkind : Model.enum eventKinds (.str e.kind.value) = some (.str e.kind.value) :=
    if_pos e.kind.value_mem
  have hattributes : Model.guarded findsFloat Model.anyDict (.dict e.attributes.items)
      = some (jsonMode (.dict e.attributes.items)) := by
    rw [Model.guarded, findsFloat, e.attributes.noFloats]
    rfl
  exact model_present_nil (by decide) ⟨rfl, rfl, dumps_given_str rfl, dumps_given_str hkind,
    dumps_given_dict e.actor.model_val, dumps_given_dict e.provenance.model_val,
    dumps_model rfl rfl IORef.model_val _,
    dumps_model rfl rfl ModelInfo.model_val _, dumps_model rfl rfl ToolInfo.model_val _, rfl, rfl,
    dumps_given_dict hattributes, rfl, dumps_given_dict e.source.model_val, rfl, trivial⟩

/-- The event as the ledger takes it. -/
def toEvent (e : Event) : ComplianceEvent where
  content := .ok (e.dump.filter fun kv => kv.1 ∉ [lit "event_id", lit "ledger"])
  content_keys := by
    intro kvs hkvs kv hkv
    rw [← Except.ok.inj hkvs] at hkv
    simpa using of_decide_eq_true (List.mem_filter.mp hkv).2

/-- **Its content is that of a validated event.** -/
theorem modelled_toEvent (e : Event) : e.toEvent.Modelled :=
  ⟨_, e.dump, e.model_val, rfl⟩

end Event

end OpenWright.Adapters
