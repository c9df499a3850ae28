import OpenWright.Ledger
import OpenWright.Vault

/-! # The SDK

Programs record events through clients. A client makes an event of its arguments, in which payloads
are replaced by references, and commits it. The tasks around a call are kept in a context variable
that `with client.task(...)` sets and resets.

`Prog.run` is what a program does with a vault and the context variable; `Prog.eval` is what it does to a
ledger, where the tasks around a call are those that are written around it. -/

namespace OpenWright.Sdk

open Python Python.Val Adapters EventModel

/-! ## Authorization -/

/-- `Capability`. -/
inductive Capability
  | writeEvidence
  | generateReport
  | admin
deriving DecidableEq

/-- The value of a capability. -/
def Capability.value : Capability → Str
  | writeEvidence => lit "write_evidence"
  | generateReport => lit "generate_report"
  | admin => lit "admin"

/-- `Principal`. -/
structure Principal where
  id : Str
  capabilities : List Capability

/-- `Principal.has`. -/
def Principal.has (p : Principal) (cap : Capability) : Bool :=
  .admin ∈ p.capabilities || cap ∈ p.capabilities

/-- `Authorizer.require`. -/
def require (principal : Option Principal) (capability : Capability) : Except PyErr Unit :=
  match principal with
  | none => .ok ()
  | some p =>
    if p.has capability then .ok ()
    else .error { kind := .osError, msg := [.text (lit "principal "), .repr (.str p.id),
      .text (lit " lacks capability "), .repr (.str capability.value)] }

/-! ## Clients -/

/-- The task scope: the ambient provenance, with nothing in it outside of tasks. -/
abbrev Scope := Provenance

/-- `EvidenceClient`, without the ledger and the vault that it works on. -/
structure EvidenceClient where
  agentId : Str
  agentCardRef : Option Str := none
  identityClaim : Option IdentityClaim := none
  /-- There is a vault. -/
  vaulted : Bool := false
  principal : Option Principal := none
  /-- There is an authorizer. -/
  authorized : Bool := false

/-- `_actor`. -/
def EvidenceClient.actor (c : EvidenceClient) : Actor := ⟨c.agentId, c.agentCardRef, c.identityClaim⟩

/-- What `record` requires. -/
def EvidenceClient.mayRecord (c : EvidenceClient) : Except PyErr Unit :=
  if c.authorized then require c.principal .writeEvidence else .ok ()

/-- The overrides of the ambient provenance. -/
structure Overrides where
  taskId : Option Str := none
  contextId : Option Str := none
  rootTaskId : Option Str := none

/-- `_provenance`, in a scope. -/
def provenanceIn (scope : Scope) (overrides : Overrides) : Provenance where
  taskId := overrides.taskId <|> scope.taskId
  contextId := overrides.contextId <|> scope.contextId
  parentTaskId := scope.parentTaskId
  rootTaskId := overrides.rootTaskId <|> scope.rootTaskId

/-! ## Events -/

/-- The arguments of a recorder; `P` are the payloads. -/
inductive Body (P : Type)
  /-- `record_decision`. -/
  | decision (output input : P) (classification : Option Str) (rationale : P) (approvalRef : Option Str)
      (model : Option Items) (control : Option Str) (attributes : Option Items)
  /-- `record_human_approval`. -/
  | approval (reviewer : Str) (approved : Bool) (rationale : P)
  /-- `record_risk_classification`. -/
  | risk (classification : Str) (rationale fria : P) (framework : Str)
  /-- `record_policy_decision`. -/
  | policy (decision policy : Str)
  /-- `record_incident`. -/
  | incident (severity : Str) (reportDeadlineDays : Int) (description : P)

/-- A text, if it is given and not empty. -/
def ifTrue (s : Option Str) : Option Str := s.filter (· ≠ [])

/-- `ModelInfo(**model) if model else None`. -/
def modelInfo (model : Option Items) : Except PyErr (Option Val) :=
  match model.getD [] with
  | [] => .ok none
  | kvs =>
    match Model.model EventModel.modelInfo (.dict kvs) with
    | some _ => .ok (some (.dict kvs))
    | none => .error invalid

/-- `Risk`. -/
def riskVal (classification rationaleRef framework : Option Str) : Val :=
  .dict (Model.present EventModel.risk [classification.map .str, rationaleRef.map .str,
    framework.map .str])

/-- `Oversight`. -/
def oversightVal (status : Str) (approvalRef reviewer : Option Str) : Val :=
  .dict (Model.present EventModel.oversight [some (.str status), approvalRef.map .str, reviewer.map .str])

/-- `IORef(input_ref=...) if ... is not None else None`. -/
def inputOnly (inputRef : Option Str) : Option Val :=
  inputRef.map fun r => ({ inputRef := some r } : IORef).val

/-- Where an event refers to a payload. -/
inductive Place
  | inputRef
  | outputRef
  | rationaleRef
  | friaRef
deriving DecidableEq

/-- The field of the event. -/
def Place.field : Place → Str
  | inputRef => lit "io"
  | outputRef => lit "io"
  | rationaleRef => lit "risk"
  | friaRef => lit "attributes"

/-- The key in the field. -/
def Place.key : Place → Str
  | inputRef => lit "input_ref"
  | outputRef => lit "output_ref"
  | rationaleRef => lit "rationale_ref"
  | friaRef => lit "fria_ref"

namespace Body

variable {P : Type}

/-- The kind of the event that is made. -/
def kind : Body P → EventKind
  | decision .. => .agentDecision
  | approval .. => .humanApproval
  | risk .. => .riskClassification
  | policy .. => .policyDecision
  | incident .. => .incident

/-- What the clock shows, and the arguments with references for payloads, in the order in which they
are asked for. -/
def resolve {m : Type → Type} [Monad m] [MonadExcept PyErr m] (ref : P → m (Option Str))
    (clock : Except PyErr Str) : Body P → m (Str × Body (Option Str))
  | decision output input classification rationale approvalRef model control attributes => do
    let timestamp ← ofExcept clock
    let inputRef ← ref input
    let outputRef ← ref output
    let _ ← ofExcept (modelInfo model)
    let rationaleRef ← ref rationale
    return (timestamp,
      decision outputRef inputRef classification rationaleRef approvalRef model control attributes)
  | approval reviewer approved rationale => do
    let timestamp ← ofExcept clock
    let rationaleRef ← ref rationale
    return (timestamp, approval reviewer approved rationaleRef)
  | risk classification rationale fria framework => do
    -- the attributes are there before the event is made
    let friaRef ← ref fria
    let timestamp ← ofExcept clock
    let rationaleRef ← ref rationale
    return (timestamp, risk classification rationaleRef friaRef framework)
  | policy d p => do
    let timestamp ← ofExcept clock
    return (timestamp, policy d p)
  | incident severity reportDeadlineDays description => do
    let timestamp ← ofExcept clock
    let descriptionRef ← ref description
    return (timestamp, incident severity reportDeadlineDays descriptionRef)

/-- The payloads. -/
def payloads : Body P → List P
  | decision output input _ rationale .. => [input, output, rationale]
  | approval _ _ rationale => [rationale]
  | risk _ rationale fria _ => [fria, rationale]
  | policy .. => []
  | incident _ _ description => [description]

/-- The payloads with their places. -/
def places : Body P → List (P × Place)
  | decision output input _ rationale .. =>
    [(input, .inputRef), (output, .outputRef), (rationale, .rationaleRef)]
  | approval _ _ rationale => [(rationale, .inputRef)]
  | risk _ rationale fria _ => [(fria, .friaRef), (rationale, .rationaleRef)]
  | policy .. => []
  | incident _ _ description => [(description, .inputRef)]

/-- Each payload has its place. -/
theorem map_fst_places (b : Body P) : b.places.map Prod.fst = b.payloads := by
  cases b <;> rfl

/-- The fields `io`, `model`, `oversight`, `risk` and `attributes` of the event. -/
def parts : Body (Option Str) →
    Except PyErr (Option Val × Option Val × Option Val × Option Val × Option Val)
  | decision outputRef inputRef classification rationaleRef approvalRef model control attributes => do
    -- `if control: attrs["control"] = control`
    let attrs := match ifTrue control with
      | some control => setItem (attributes.getD []) (lit "control") (.str control)
      | none => attributes.getD []
    let model ← modelInfo model
    let risk := if (ifTrue classification).isSome || rationaleRef.isSome then
        some (riskVal classification rationaleRef ((ifTrue classification).map fun _ => lit "eu-ai-act"))
      else none
    -- a decision with an approval counts as approved
    let oversight := (ifTrue approvalRef).map fun r => oversightVal (lit "approved") (some r) none
    return (some ({ inputRef, outputRef } : IORef).val, model, oversight, risk, some (.dict attrs))
  | approval reviewer approved rationaleRef =>
    let status := if approved then lit "approved" else lit "rejected"
    .ok (inputOnly rationaleRef, none, some (oversightVal status none (some reviewer)), none, none)
  | risk classification rationaleRef friaRef framework =>
    let attrs := (friaRef.map fun r => (lit "fria_ref", Val.str r)).toList
    let risk := riskVal (some classification) rationaleRef (some framework)
    .ok (none, none, none, some risk, some (.dict attrs))
  | policy d p =>
    .ok (none, none, none, none, some (.dict [(lit "decision", .str d), (lit "policy", .str p)]))
  | incident severity reportDeadlineDays descriptionRef =>
    .ok (inputOnly descriptionRef, none, none, none, some (.dict [(lit "severity", .str severity),
      (lit "report_deadline_days", .int reportDeadlineDays)]))

end Body

/-- `ComplianceEvent(...)`. -/
def construct (input : Items) : Except PyErr ComplianceEvent :=
  match Model.model complianceEvent (.dict input) with
  | some (.dict out) => .ok {
      content := .ok (out.filter fun kv => kv.1 ∉ [lit "event_id", lit "ledger"])
      content_keys := by
        intro kvs hkvs kv hkv
        rw [← Except.ok.inj hkvs] at hkv
        simpa using of_decide_eq_true (List.mem_filter.mp hkv).2 }
  | _ => .error invalid

/-- The event that a recorder makes of its arguments with references. -/
def makeEvent (c : EvidenceClient) (provenance : Provenance) (timestamp : Str)
    (body : Body (Option Str)) :
    Except PyErr ComplianceEvent := do
  let (io, model, oversight, risk, attributes) ← body.parts
  construct <| Model.present complianceEvent [none, none, some (.str timestamp),
    some (.str body.kind.value), some (c.actor.val id), some provenance.val, io, model, none, oversight,
    risk, attributes, none, some (.dict [(lit "format", .str (lit "sdk"))]), none]

/-! ## Calls -/

/-- A payload that is given to a client, and how writing it to a vault fails, if it does. -/
structure Captured where
  payload : Payload
  fault : Option WriteFault := none

/-- The reference of a payload, if it is not `None`. -/
def Captured.hash (x : Captured) : Except PyErr (Option Str) :=
  if x.payload.isNone then .ok none else x.payload.hashPayload.map some

/-- What is asked of a client. -/
inductive Request
  /-- `record`. -/
  | record (event : ComplianceEvent)
  | make (body : Body Captured) (overrides : Overrides) (clock : Except PyErr Str)

/-- A call of a client, with what the clock shows to the ledger. -/
structure Call where
  client : EvidenceClient
  request : Request
  commitClock : Except PyErr Str

/-- A call in the innermost task around it. -/
structure Site where
  scope : Scope
  call : Call

/-- The event that is recorded. -/
def Site.event (s : Site) : Except PyErr ComplianceEvent :=
  match s.call.request with
  | .record event => .ok event
  | .make body overrides clock => do
    let (timestamp, body) ← body.resolve Captured.hash clock
    makeEvent s.call.client (provenanceIn s.scope overrides) timestamp body

/-- What clients work on. -/
structure Desk (σ : Type) where
  vault : FileVault := {}
  ledger : Ledger σ

/-- A computation of a client. -/
abbrev Recorder (σ α : Type) := EStateM PyErr (Desk σ) α

variable {σ : Type} (B : LedgerBackend σ)

/-- `store` of the vault. -/
def storePayload (x : Captured) : Recorder σ Str := fun d =>
  match d.vault.store x.payload x.fault with
  | (.ok ref, vault) => .ok ref { d with vault }
  | (.error err, vault) => .error err { d with vault }

/-- `_ref(payload) if payload is not None else None`. -/
def EvidenceClient.ref (c : EvidenceClient) (x : Captured) : Recorder σ (Option Str) :=
  if x.payload.isNone then return none
  else if c.vaulted then do
    let ref ← storePayload x
    return some ref
  else ofExcept (x.payload.hashPayload.map some)

/-- `ledger.commit`. -/
def commitEvent (event : ComplianceEvent) (clock : Except PyErr Str) : Recorder σ Unit := fun d =>
  match Ledger.commit B d.ledger event clock with
  | (.ok _, ledger) => .ok () { d with ledger }
  | (.error err, ledger) => .error err { d with ledger }

/-- `record`. -/
def EvidenceClient.record (c : EvidenceClient) (event : ComplianceEvent) (clock : Except PyErr Str) :
    Recorder σ Unit := do
  ofExcept c.mayRecord
  commitEvent B event clock

/-- The event of a call, in a scope. -/
def Call.make (rc : Call) (scope : Scope) : Recorder σ ComplianceEvent :=
  match rc.request with
  | .record event => return event
  | .make body overrides clock => do
    let (timestamp, body) ← body.resolve rc.client.ref clock
    ofExcept (makeEvent rc.client (provenanceIn scope overrides) timestamp body)

/-- A call, in a scope. -/
def Call.runIn (rc : Call) (scope : Scope) : Recorder σ Unit := do
  let event ← rc.make scope
  rc.client.record B event rc.commitClock

/-! ## Programs -/

/-- The arguments of `task`. -/
structure Task where
  taskId : Str
  contextId : Option Str := none
  parentTaskId : Option Str := none
  rootTaskId : Option Str := none

/-- The scope that a task sets. -/
def Task.scope (t : Task) : Scope where
  taskId := some t.taskId
  contextId := some ((ifTrue t.contextId).getD t.taskId)
  parentTaskId := t.parentTaskId
  rootTaskId := some ((ifTrue t.rootTaskId).getD t.taskId)

/-- A program that uses clients, with its loops unrolled. -/
inductive Prog
  | skip
  | call (rc : Call)
  | seq (p q : Prog)
  /-- `with client.task(...):`. -/
  | task (t : Task) (body : Prog)
  | raise (err : PyErr)
  /-- `try: ... except Exception: ...`. -/
  | attempt (body handler : Prog)

/-- What a program works on. -/
structure World (σ : Type) where
  /-- `_current_scope`. -/
  scope : Scope := {}
  desk : Desk σ

/-- What a client does does not change the context variable. -/
def onDesk (x : Scope → Recorder σ Unit) : EStateM PyErr (World σ) Unit := fun w =>
  match x w.scope w.desk with
  | .ok a desk => .ok a { w with desk }
  | .error err desk => .error err { w with desk }

/-- `task`: the scope is reset when the block is left, by an exception too. -/
def withScope (scope : Scope) (body : EStateM PyErr (World σ) Unit) :
    EStateM PyErr (World σ) Unit := fun w =>
  match body { w with scope } with
  | .ok a w' => .ok a { w' with scope := w.scope }
  | .error err w' => .error err { w' with scope := w.scope }

/-- `try`. -/
def orHandle {S : Type} (body handler : EStateM PyErr S Unit) : EStateM PyErr S Unit := fun s =>
  match body s with
  | .ok a s' => .ok a s'
  | .error _ s' => handler s'

/-- The state that a computation leaves. -/
def stateOf {S α : Type} : EStateM.Result PyErr S α → S
  | .ok _ s => s
  | .error _ s => s

namespace Prog

/-- What a program does. -/
def run : Prog → EStateM PyErr (World σ) Unit
  | skip => pure ()
  | call rc => onDesk (rc.runIn B)
  | seq p q => do
    run p
    run q
  | task t body => withScope t.scope (run body)
  | raise err => throw err
  | attempt body handler => orHandle (run body) (run handler)

/-- The calls of a program, each in the innermost task that is written around it. -/
def sites (scope : Scope) : Prog → List Site
  | skip => []
  | call rc => [⟨scope, rc⟩]
  | seq p q => p.sites scope ++ q.sites scope
  | task t body => body.sites t.scope
  | raise _ => []
  | attempt body handler => body.sites scope ++ handler.sites scope

end Prog

/-! ## Programs without a vault and a context variable -/

/-- A call commits its event. -/
def Site.eval (s : Site) : EStateM PyErr (Ledger σ) Unit := do
  let event ← ofExcept s.event
  ofExcept s.call.client.mayRecord
  fun l =>
    match Ledger.commit B l event s.call.commitClock with
    | (.ok _, l') => .ok () l'
    | (.error err, l') => .error err l'

/-- What a program does to a ledger; tasks are what is written around a call. -/
def Prog.eval (scope : Scope) : Prog → EStateM PyErr (Ledger σ) Unit
  | skip => pure ()
  | call rc => (Site.mk scope rc).eval B
  | seq p q => do
    p.eval scope
    q.eval scope
  | task t body => body.eval t.scope
  | raise err => throw err
  | attempt body handler => orHandle (body.eval scope) (handler.eval scope)

end OpenWright.Sdk
