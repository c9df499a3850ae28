import OpenWright.Adapters.Event
import OpenWright.Canonical
import OpenWright.SpillBuffer
import OpenWright.Timestamps

/-! # From spans to events

A span is normalized by the GenAI conventions; values of `langfuse.*` attributes take precedence, and
A2A identifiers give the provenance, with the roots of the tasks that the pipeline has seen. -/

namespace OpenWright.Adapters

open Python Python.Val Canonical

/-! ## GenAI conventions -/

/-- `_OPERATION_TO_KIND.get(operation, EventKind.GENERIC)`. -/
def operationToKind (operation : Val) : Except PyErr EventKind :=
  if operation.hashable then
    match operation with
    | .str s => .ok (([(lit "chat", EventKind.llmCall), (lit "generate_content", .llmCall),
        (lit "text_completion", .llmCall), (lit "embeddings", .llmCall),
        (lit "execute_tool", .toolCall), (lit "invoke_agent", .agentDecision),
        (lit "create_agent", .agentDecision), (lit "invoke_workflow", .agentDecision)].lookup s).getD
          .generic)
    | _ => .ok .generic
  else .error { kind := .typeError }

/-- `_first`. -/
def first (attrs : Items) (keys : List String) : Val :=
  ((keys.map (attr attrs)).find? (· ≠ .null)).getD .null

/-- `_coerce_int`. -/
def coerceInt (value : Val) : Except PyErr (Option Int) :=
  if value = .null then .ok none
  else
    match value.toInt with
    | .ok z => .ok (some z)
    | .error err => if err.kind ∈ [.typeError, .valueError] then .ok none else .error err

/-- `_coerce_str_list`, with no list for `None`. -/
def coerceStrList (I : Interpreter) : Val → Except PyErr (List Str)
  | .null => .ok []
  | .list vs => vs.mapM I.str
  | .tuple vs => vs.mapM I.str
  | v => do
    let s ← I.str v
    return [s]

/-- `detected_semconv`. -/
def detectedSemconv (attrs : Items) : Str :=
  let binds (k : String) := (attrs.lookup (lit k)).isSome
  if binds "gen_ai.provider.name" ∨ binds "gen_ai.usage.input_tokens" then lit "gen_ai/latest"
  else if binds "gen_ai.system" ∨ binds "gen_ai.usage.prompt_tokens" then lit "gen_ai/legacy"
  else lit "gen_ai/unknown"

/-- `hash_payload`. -/
def hashPayload : Val → Except PyErr Str
  | .str s =>
    match utf8 s with
    | some b => .ok (lit "sha256:" ++ sha256Hex b)
    | none => .error { kind := .unicodeEncodeError }
  | v => contentHash v

/-- `hash_payload(payload) if payload is not None else None`. -/
def payloadRef (payload : Val) : Except PyErr (Option Str) :=
  if payload = .null then .ok none else (hashPayload payload).map some

/-- `pricing.get(model) if model else None`. -/
def modelRates (pricing : Items) (model : Val) : Except PyErr Val :=
  if !model.truthy then .ok .null
  else if model.hashable then
    match model with
    | .str s => .ok ((pricing.lookup s).getD .null)
    | _ => .ok .null
  else .error { kind := .typeError }

/-- What some tokens are charged at. Without tokens there is no charge, and it is not asked whether the
rates are a dictionary. -/
def charge (rates : Val) (tokens : Option Int) (k : String) : Except PyErr (List (Val × Int)) :=
  if tokens.getD 0 = 0 then .ok []
  else (rates.getD (lit k) (.int 0)).map fun rate => [(rate, tokens.getD 0)]

/-- `_compute_cost`. -/
def computeCost (I : Interpreter) (pricing : Items) (model : Val) (inTok outTok : Option Int) :
    Except PyErr (Option Str) := do
  let rates ← modelRates pricing model
  -- a model without a price takes the default one
  let rates := rates.orElse (attr pricing "default")
  if rates.truthy then
    let input ← charge rates inTok "input_per_1k"
    let output ← charge rates outTok "output_per_1k"
    let cost ← I.decimalText (input ++ output)
    return some cost
  else return none

/-- `agent_id or attrs.get(...) or span.resource.get("service.name") or "unknown-agent"`. -/
def resolveAgent (agentId : Option Str) (attrs : Items) (resource : Val) : Except PyErr Val :=
  let agent := ((agentId.map Val.str).getD .null).orElse (attr attrs "gen_ai.agent.name")
  if agent.truthy then .ok agent
  else do
    let service ← resource.getD (lit "service.name") .null
    return service.orElse (.str (lit "unknown-agent"))

/-- The `IORef` of a span, `None` where no field is set. -/
def spanPayloads (I : Interpreter) (pricing : Items) (attrs : Items) : Except PyErr (Option IORef) := do
  let inputTokens ← coerceInt (first attrs ["gen_ai.usage.input_tokens", "gen_ai.usage.prompt_tokens"])
  let outputTokens ←
    coerceInt (first attrs ["gen_ai.usage.output_tokens", "gen_ai.usage.completion_tokens"])
  -- a total of zero is left out
  let totalTokens := if inputTokens.getD 0 ≠ 0 ∨ outputTokens.getD 0 ≠ 0 then
      some (inputTokens.getD 0 + outputTokens.getD 0) else none
  let model := first attrs ["gen_ai.request.model", "gen_ai.response.model"]
  let priced : Bool := pricing ≠ [] ∧ (inputTokens ≠ none ∨ outputTokens ≠ none)
  let cost ← bif priced then computeCost I pricing model inputTokens outputTokens else .ok none
  let inputRef ← payloadRef (attr attrs "gen_ai.prompt")
  let outputRef ← payloadRef (attr attrs "gen_ai.completion")
  let costCurrency := if cost.getD [] ≠ [] then some (lit "USD") else none
  let io : IORef :=
    { inputRef, outputRef, inputTokens, outputTokens, totalTokens, cost, costCurrency }
  -- `IORef` is dropped when none of its fields is set
  return if io = {} then none else some io

/-- The `ModelInfo` of a span, `None` where every field is empty. -/
def spanModel (attrs : Items) : Except PyErr (Option ModelInfo) := do
  let provider ← optionalStr (first attrs ["gen_ai.provider.name", "gen_ai.system"])
  let requestModel ← optionalStr (attr attrs "gen_ai.request.model")
  let responseModel ← optionalStr (attr attrs "gen_ai.response.model")
  let empty := [provider, requestModel, responseModel].all fun o => o.getD [] = []
  return if empty then none else some { provider, requestModel, responseModel }

/-- The `ToolInfo` of a span. -/
def spanTool (attrs : Items) : Except PyErr (Option ToolInfo) :=
  let name := attr attrs "gen_ai.tool.name"
  let callId := attr attrs "gen_ai.tool.call.id"
  if name.truthy ∨ callId.truthy then do
    let name ← optionalStr name
    let callId ← optionalStr callId
    return some { name, callId }
  else .ok none

/-- The `attributes` of a span. -/
def spanExtra (I : Interpreter) (attrs : Items) : Except PyErr Items := do
  let operation := attr attrs "gen_ai.operation.name"
  let finish ← coerceStrList I (attr attrs "gen_ai.response.finish_reasons")
  let toolType := attr attrs "gen_ai.tool.type"
  return (if operation.truthy then [(lit "operation", operation)] else [])
    ++ (if finish ≠ [] then [(lit "finish_reasons", .list (finish.map .str))] else [])
    ++ (if toolType.truthy then [(lit "tool_type", toolType)] else [])
    ++ [(lit "semconv", .str (detectedSemconv attrs))]

/-- `span_to_event`. -/
def spanToEvent (I : Interpreter) (agentId : Option Str) (pricing : Items) (span : SpanData)
    (timestamp : Str) : Except PyErr Event :=
  match span.attributes.orElse (.dict []) with
  | .dict attrs => do
    let kind ← operationToKind (attr attrs "gen_ai.operation.name")
    let agent ← resolveAgent agentId attrs span.resource
    let io ← spanPayloads I pricing attrs
    let model ← spanModel attrs
    let tool ← spanTool attrs
    let extra ← spanExtra I attrs
    let conversation := attr attrs "gen_ai.conversation.id"
    let agentId ← requiredStr agent
    let contextId ← optionalStr (if conversation.truthy then conversation else .null)
    let extra ← attributes extra
    let spanId ← optionalStr span.spanId
    let traceId ← optionalStr span.traceId
    return {
      timestamp, kind, io, model, tool
      actor := { agentId }
      provenance := { contextId }
      attributes := extra
      source := { format := lit "otel-genai", spanId, traceId } }
  | _ => .error { kind := .attributeError }

/-! ## Langfuse precedence -/

/-- `has_langfuse_attributes`. -/
def hasLangfuseAttributes (attrs : Items) : Bool :=
  attrs.any fun kv => (lit "langfuse.").isPrefixOf kv.1

/-- The attributes that are copied, with the names they get. -/
def langfuseLabels : List (String × String) :=
  [("langfuse.user.id", "langfuse.user_id"), ("langfuse.environment", "langfuse.environment"),
    ("langfuse.observation.level", "langfuse.level"),
    ("langfuse.observation.type", "langfuse.observation_type"),
    ("langfuse.trace.name", "langfuse.trace_name")]

/-- The context is the session. -/
def applySession (I : Interpreter) (attrs : Items) (event : Event) : Except PyErr Event :=
  let session := attr attrs "langfuse.session.id"
  if session.truthy then do
    let contextId ← I.str session
    return { event with provenance := { event.provenance with contextId := some contextId } }
  else .ok event

/-- The model is the one observed. -/
def applyModel (I : Interpreter) (attrs : Items) (event : Event) : Except PyErr Event :=
  let observed := attr attrs "langfuse.observation.model.name"
  if observed.truthy then do
    let requestModel ← I.str observed
    return { event with model := some { event.model.getD {} with requestModel := some requestModel } }
  else .ok event

/-- Input and output are those observed. -/
def applyPayloads (attrs : Items) (event : Event) : Except PyErr Event :=
  let input := attr attrs "langfuse.observation.input"
  let output := attr attrs "langfuse.observation.output"
  if input ≠ .null ∨ output ≠ .null then do
    let inputRef ← payloadRef input
    let outputRef ← payloadRef output
    -- what was observed goes before what the span already had
    let io := event.io.getD {}
    return { event with io := some { io with
      inputRef := inputRef.or io.inputRef, outputRef := outputRef.or io.outputRef } }
  else .ok event

/-- An attribute is copied. -/
def applyLabel (I : Interpreter) (attrs : Items) (event : Event) (label : String × String) :
    Except PyErr Event :=
  let value := attr attrs label.1
  if value ≠ .null then do
    let s ← I.str value
    return { event with attributes := event.attributes.set (lit label.2) (.str s) rfl }
  else .ok event

/-- `apply_langfuse_precedence`. -/
def applyLangfusePrecedence (I : Interpreter) (event : Event) (attrs : Items) : Except PyErr Event :=
  if hasLangfuseAttributes attrs then do
    let event ← applySession I attrs event
    let event ← applyModel I attrs event
    let event ← applyPayloads attrs event
    let event ← langfuseLabels.foldlM (applyLabel I attrs) event
    return { event with
      attributes := event.attributes.set (lit "langfuse_precedence_applied") (.bool true) rfl }
  else .ok event

/-! ### What happens to the provenance -/

variable {I : Interpreter} {attrs : Items} {event event' : Event}

/-- A span that is normalized has the conversation as its context, and no other provenance. -/
theorem provenance_spanToEvent {agentId : Option Str} {pricing : Items} {span : SpanData}
    {timestamp : Str} (hattrs : span.attributes = .dict attrs)
    (h : spanToEvent I agentId pricing span timestamp = .ok event) :
    ∃ contextId, event.provenance = { contextId } ∧
      optionalStr (if (attr attrs "gen_ai.conversation.id").truthy then
        attr attrs "gen_ai.conversation.id" else .null) = .ok contextId := by
  have hdict : span.attributes.orElse (.dict []) = .dict attrs := by
    rw [hattrs, orElse]
    cases attrs with
    | nil => rfl
    | cons kv kvs => rfl
  rw [spanToEvent, hdict] at h
  -- the other parts are read off, and say nothing of the provenance
  obtain ⟨kind, -, h⟩ := bind_eq_ok.mp h
  obtain ⟨agent, -, h⟩ := bind_eq_ok.mp h
  obtain ⟨io, -, h⟩ := bind_eq_ok.mp h
  obtain ⟨model, -, h⟩ := bind_eq_ok.mp h
  obtain ⟨tool, -, h⟩ := bind_eq_ok.mp h
  obtain ⟨extra, -, h⟩ := bind_eq_ok.mp h
  obtain ⟨agentId, -, h⟩ := bind_eq_ok.mp h
  obtain ⟨contextId, hcontext, h⟩ := bind_eq_ok.mp h
  obtain ⟨extra, -, h⟩ := bind_eq_ok.mp h
  obtain ⟨spanId, -, h⟩ := bind_eq_ok.mp h
  obtain ⟨traceId, -, h⟩ := bind_eq_ok.mp h
  exact ⟨contextId, by rw [← pure_eq_ok.mp h], hcontext⟩

/-- Of the values that take precedence only the session changes the provenance. -/
theorem provenance_applyModel (h : applyModel I attrs event = .ok event') :
    event'.provenance = event.provenance := by
  rw [applyModel] at h
  split at h
  · obtain ⟨requestModel, -, h⟩ := bind_eq_ok.mp h
    rw [← pure_eq_ok.mp h]
  · rw [← Except.ok.inj h]

/-- Payloads leave the provenance. -/
theorem provenance_applyPayloads (h : applyPayloads attrs event = .ok event') :
    event'.provenance = event.provenance := by
  rw [applyPayloads] at h
  split at h
  · obtain ⟨inputRef, -, h⟩ := bind_eq_ok.mp h
    obtain ⟨outputRef, -, h⟩ := bind_eq_ok.mp h
    rw [← pure_eq_ok.mp h]
  · rw [← Except.ok.inj h]

/-- A label leaves the provenance. -/
theorem provenance_applyLabel {label : String × String}
    (h : applyLabel I attrs event label = .ok event') : event'.provenance = event.provenance := by
  rw [applyLabel] at h
  split at h
  · obtain ⟨s, -, h⟩ := bind_eq_ok.mp h
    rw [← pure_eq_ok.mp h]
  · rw [← Except.ok.inj h]

/-- All labels leave it. -/
theorem provenance_foldlM_applyLabel {labels : List (String × String)}
    (h : labels.foldlM (applyLabel I attrs) event = .ok event') :
    event'.provenance = event.provenance := by
  induction labels generalizing event with
  | nil => rw [← pure_eq_ok.mp h]
  | cons label labels ih =>
      rw [List.foldlM_cons] at h
      obtain ⟨event₁, h₁, h⟩ := bind_eq_ok.mp h
      rw [ih h, provenance_applyLabel h₁]

/-- The context of a session. -/
theorem provenance_applySession (h : applySession I attrs event = .ok event') :
    ((attr attrs "langfuse.session.id").truthy = false ∧ event'.provenance = event.provenance) ∨
      ∃ contextId, I.str (attr attrs "langfuse.session.id") = .ok contextId ∧
        (attr attrs "langfuse.session.id").truthy = true ∧
        event'.provenance = { event.provenance with contextId := some contextId } := by
  rw [applySession] at h
  split at h
  · rename_i htruthy
    obtain ⟨contextId, hstr, h⟩ := bind_eq_ok.mp h
    exact .inr ⟨contextId, hstr, htruthy, by rw [← pure_eq_ok.mp h]⟩
  · rename_i htruthy
    exact .inl ⟨by simpa using htruthy, by rw [← Except.ok.inj h]⟩

/-- A session is a Langfuse attribute. -/
theorem hasLangfuseAttributes_of_session (h : (attr attrs "langfuse.session.id").truthy = true) :
    hasLangfuseAttributes attrs = true := by
  rw [attr] at h
  cases hlookup : attrs.lookup (lit "langfuse.session.id") with
  | none =>
      rw [hlookup] at h
      cases h
  | some v =>
      have hprefix : (lit "langfuse.").isPrefixOf (lit "langfuse.session.id") = true := by decide
      exact List.any_eq_true.mpr ⟨_, mem_of_lookup hlookup, hprefix⟩

/-- **The precedence of `langfuse.*`** sets the context to the session where there is one, and leaves
the provenance alone where there is none. -/
theorem provenance_applyLangfusePrecedence
    (h : applyLangfusePrecedence I event attrs = .ok event') :
    ((attr attrs "langfuse.session.id").truthy = false ∧ event'.provenance = event.provenance) ∨
      ∃ contextId, I.str (attr attrs "langfuse.session.id") = .ok contextId ∧
        (attr attrs "langfuse.session.id").truthy = true ∧
        event'.provenance = { event.provenance with contextId := some contextId } := by
  rw [applyLangfusePrecedence] at h
  split at h
  · obtain ⟨event₁, h₁, h⟩ := bind_eq_ok.mp h
    obtain ⟨event₂, h₂, h⟩ := bind_eq_ok.mp h
    obtain ⟨event₃, h₃, h⟩ := bind_eq_ok.mp h
    obtain ⟨event₄, h₄, h⟩ := bind_eq_ok.mp h
    have hsame : event'.provenance = event₁.provenance := by
      rw [← pure_eq_ok.mp h, provenance_foldlM_applyLabel h₄, provenance_applyPayloads h₃,
        provenance_applyModel h₂]
    rw [hsame]
    exact provenance_applySession h₁
  · rename_i hnone
    refine .inl ⟨?_, by rw [← Except.ok.inj h]⟩
    rw [← Bool.not_eq_true]
    exact fun htruthy => hnone (hasLangfuseAttributes_of_session htruthy)

/-! ## A2A provenance -/

/-- The provenance of the tasks that have been seen, the last one first. -/
abbrev Known := List (Str × Provenance)

/-- The root that is known of a task, if it is true. -/
def knownRoot (known : Known) (task : Str) : Option Str :=
  ((known.lookup task).bind (·.rootTaskId)).filter (· ≠ [])

/-- `reconstruct_provenance`; no references are an empty list. -/
def reconstructProvenance (taskId contextId : Option Str) (referenceTaskIds : List Str)
    (known : Known) : Provenance :=
  let parentTaskId := referenceTaskIds.head?
  let rootTaskId :=
    match parentTaskId.filter (· ≠ []) with
    | some parent => some ((knownRoot known parent).getD parent)
    | none => taskId
  { taskId, contextId, parentTaskId, rootTaskId }

/-- What a span says of its task. -/
structure Signals where
  taskId : Str
  contextId : Option Str
  referenceTaskIds : List Str

/-- `str(v) if v else None`. -/
def textIfTrue (I : Interpreter) (v : Val) : Except PyErr (Option Str) :=
  if v.truthy then (I.str v).map some else .ok none

/-- The arguments that `provenance_from_attributes` reads, if the span has a task. -/
def signals (I : Interpreter) (attrs : Items) : Except PyErr (Option Signals) :=
  let task := attr attrs "a2a.task.id"
  if task.truthy then do
    -- one id without a list counts as a list of one
    let refs :=
      match attr attrs "a2a.reference_task_ids" with
      | .list vs => vs
      | .tuple vs => vs
      | v => if v.truthy then [v] else []
    let taskId ← I.str task
    let contextId ← textIfTrue I (attr attrs "a2a.context.id")
    let referenceTaskIds ← refs.mapM I.str
    return some { taskId, contextId, referenceTaskIds }
  else .ok none

/-- `provenance_from_attributes`. -/
def provenanceFromAttributes (I : Interpreter) (attrs : Items) (known : Known) :
    Except PyErr (Option Provenance) := do
  let s ← signals I attrs
  return s.map fun s => reconstructProvenance (some s.taskId) s.contextId s.referenceTaskIds known

/-- Only a span with a task says something of one. -/
theorem signals_eq_none_iff {o : Option Signals} (h : signals I attrs = .ok o) :
    o = none ↔ (attr attrs "a2a.task.id").truthy = false := by
  rw [signals] at h
  split at h
  · rename_i htruthy
    obtain ⟨taskId, -, h⟩ := bind_eq_ok.mp h
    obtain ⟨contextId, -, h⟩ := bind_eq_ok.mp h
    obtain ⟨referenceTaskIds, -, h⟩ := bind_eq_ok.mp h
    rw [← pure_eq_ok.mp h]
    exact iff_of_false (Option.some_ne_none _) (by simp [htruthy])
  · rename_i hfalsy
    exact iff_of_true (Except.ok.inj h).symm (by simpa using hfalsy)

/-- Without a context attribute there is no context. -/
theorem signals_contextId {s : Signals} (h : signals I attrs = .ok (some s))
    (hcontext : (attr attrs "a2a.context.id").truthy = false) : s.contextId = none := by
  rw [signals] at h
  split at h
  · obtain ⟨taskId, -, h⟩ := bind_eq_ok.mp h
    obtain ⟨contextId, hcontextId, h⟩ := bind_eq_ok.mp h
    obtain ⟨referenceTaskIds, -, h⟩ := bind_eq_ok.mp h
    rw [textIfTrue, if_neg (by simp [hcontext])] at hcontextId
    rw [← Option.some.inj (pure_eq_ok.mp h)]
    exact (Except.ok.inj hcontextId).symm
  · cases h

/-- A task is not empty. -/
theorem signals_taskId_ne_nil {s : Signals} (h : signals I attrs = .ok (some s)) : s.taskId ≠ [] := by
  rw [signals] at h
  split at h
  · rename_i htruthy
    obtain ⟨taskId, htask, h⟩ := bind_eq_ok.mp h
    obtain ⟨contextId, -, h⟩ := bind_eq_ok.mp h
    obtain ⟨referenceTaskIds, -, h⟩ := bind_eq_ok.mp h
    rw [← Option.some.inj (pure_eq_ok.mp h)]
    exact I.str_ne_nil htask htruthy
  · cases h

end OpenWright.Adapters
