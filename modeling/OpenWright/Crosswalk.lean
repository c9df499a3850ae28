import OpenWright.Events
import OpenWright.Python.Dump
import OpenWright.Python.Order

/-! # Crosswalks

A crosswalk maps events to regulatory controls. It is data: each control has a scope, which is a
filter over events, and a condition, which is a predicate over them, and the evaluation is a generic
interpreter of the two with three outcomes.

The evaluation reads the JSON-mode dumps of the events. `other is ev` compares objects, which the
dumps of two events never are, so an event is told from another by its position in the list.

* **`evaluate_ids`**, **`evaluate_evidence`** — one result for each control, in order, and the
  evidence it cites are ids of evaluated events. -/

namespace OpenWright

open Python Python.Val Canonical

/-! ## The declarative schema -/

/-- `ControlStatus`. -/
inductive ControlStatus
  | satisfied
  | notSatisfied
  | insufficientEvidence
deriving DecidableEq

/-- `ControlStatus.value`. -/
def ControlStatus.value : ControlStatus → Str
  | .satisfied => lit "satisfied"
  | .notSatisfied => lit "not_satisfied"
  | .insufficientEvidence => lit "insufficient_evidence"

/-- `EmptyScopePolicy`: what to report when no events fall in a control's scope. -/
inductive EmptyScopePolicy
  | insufficient
  | satisfied
  | notSatisfied
deriving DecidableEq

/-- `EmptyScopePolicy.value`. -/
def EmptyScopePolicy.value : EmptyScopePolicy → Str
  | .insufficient => lit "insufficient_evidence"
  | .satisfied => lit "satisfied"
  | .notSatisfied => lit "not_satisfied"

/-- `ControlStatus(policy.value)`. -/
def EmptyScopePolicy.status : EmptyScopePolicy → ControlStatus
  | .insufficient => .insufficientEvidence
  | .satisfied => .satisfied
  | .notSatisfied => .notSatisfied

/-- The status has the value of the policy. -/
theorem EmptyScopePolicy.value_status (p : EmptyScopePolicy) : p.status.value = p.value := by
  cases p <;> rfl

/-- `EventFilter`. -/
structure EventFilter where
  kind : Option (List Str) := none
  riskClassification : Option (List Str) := none
  oversightStatus : Option (List Str) := none
  sourceFormat : Option (List Str) := none
  attributeEquals : Items := []
  /-- Dotted paths that must be non-null. -/
  has : List Str := []

/-- `Condition`. -/
inductive Condition
  | mk (type : Str) (path op : Option Str) (value : Val) (link : Option Str)
      (target : Option EventFilter) (conditions : List Condition)

/-- `Control`. -/
structure Control where
  id : Str
  title : Str
  requirement : Str
  /-- The fields of the `Citation`, without those that are `None`. -/
  citation : Items
  scope : EventFilter := {}
  condition : Condition
  emptyScope : EmptyScopePolicy := .insufficient
  rationale : Option Str := none
  completenessSensitive : Bool := false
  variant : Option Str := none
  appliesToProfiles : List Str := []

/-- `Crosswalk`. -/
structure Crosswalk where
  id : Str
  title : Str
  version : Str
  source : Str
  reviewedAsOf : Str
  description : Option Str := none
  disclaimer : Option Str := none
  defaultProfiles : List Str := []
  controls : List Control

/-! ## The content hash -/

/-- An optional field of a dump with `exclude_none=True`. -/
def ifSet (k : String) (v : Option Val) : Items := (v.map fun w => (lit k, w)).toList

/-- A list of strings. -/
def strings (ss : List Str) : Val := .list (ss.map .str)

/-- `model_dump(mode="json", exclude_none=True)` of a filter. -/
def EventFilter.dump (f : EventFilter) : Val :=
  .dict <| ifSet "kind" (f.kind.map strings)
    ++ ifSet "risk_classification" (f.riskClassification.map strings)
    ++ ifSet "oversight_status" (f.oversightStatus.map strings)
    ++ ifSet "source_format" (f.sourceFormat.map strings)
    ++ [(lit "attribute_equals", jsonMode (.dict f.attributeEquals)), (lit "has", strings f.has)]

mutual
/-- `model_dump(mode="json", exclude_none=True)` of a condition. -/
def Condition.dump : Condition → Val
  | .mk type path op value link target conditions =>
    .dict <| [(lit "type", .str type)] ++ ifSet "path" (path.map .str)
      ++ ifSet "op" (op.map .str)
      ++ ifSet "value" (if value = .null then none else some (jsonMode value))
      ++ ifSet "link" (link.map .str) ++ ifSet "target" (target.map EventFilter.dump)
      ++ [(lit "conditions", .list (Condition.dumpList conditions))]

/-- `Condition.dump`, elementwise. -/
def Condition.dumpList : List Condition → List Val
  | [] => []
  | c :: cs => Condition.dump c :: Condition.dumpList cs
end

/-- `model_dump(mode="json", exclude_none=True)` of a control. -/
def Control.dump (c : Control) : Val :=
  .dict <| [(lit "id", .str c.id), (lit "title", .str c.title),
      (lit "requirement", .str c.requirement), (lit "citation", jsonMode (.dict c.citation)),
      (lit "scope", c.scope.dump), (lit "condition", c.condition.dump),
      (lit "empty_scope", .str c.emptyScope.value)]
    ++ ifSet "rationale" (c.rationale.map .str)
    ++ [(lit "completeness_sensitive", .bool c.completenessSensitive)]
    ++ ifSet "variant" (c.variant.map .str)
    ++ [(lit "applies_to_profiles", strings c.appliesToProfiles)]

/-- `model_dump(mode="json", exclude_none=True)` of a crosswalk. -/
def Crosswalk.dump (cw : Crosswalk) : Val :=
  .dict <| [(lit "id", .str cw.id), (lit "title", .str cw.title), (lit "version", .str cw.version),
      (lit "source", .str cw.source), (lit "reviewed_as_of", .str cw.reviewedAsOf)]
    ++ ifSet "description" (cw.description.map .str)
    ++ ifSet "disclaimer" (cw.disclaimer.map .str)
    ++ [(lit "default_profiles", strings cw.defaultProfiles),
      (lit "controls", .list (cw.controls.map Control.dump))]

/-- `crosswalk_content_hash`. -/
def crosswalkContentHash (cw : Crosswalk) : Except PyErr Str := contentHash cw.dump

/-! ## Filters and conditions -/

/-- `_get`: the value at a dotted path, `None` where there is none. -/
def getPath (v : Val) (dotted : Str) : Val := (split (cp 46) dotted).foldl (fun w k => entry k w) v

/-- Whether a value is one of the listed strings, if any are listed. -/
def oneOf (v : Val) (allowed : Option (List Str)) : Bool :=
  match allowed with
  | none => true
  | some ss => v.isIn (ss.map .str)

/-- `_matches`. -/
def EventFilter.matches (f : EventFilter) (ev : Val) : Bool :=
  oneOf (entry (lit "kind") ev) f.kind
    && oneOf (getPath ev (lit "risk.classification")) f.riskClassification
    && oneOf (getPath ev (lit "oversight.status")) f.oversightStatus
    && oneOf (getPath ev (lit "source.format")) f.sourceFormat
    && f.attributeEquals.all (fun kv => (getPath ev kv.1).eq kv.2)
    && f.has.all (fun path => decide (getPath ev path ≠ .null))

/-- `_Index`. -/
structure Index where
  events : List Val
  /-- The items of `by_id`, in the order of insertion; the last one of a key counts. -/
  byId : List (Val × Val)

/-- An item of `by_id`. -/
def idItem (ev : Val) : Except PyErr (Val × Val) :=
  let eventId := entry (lit "event_id") ev
  if eventId.hashable then .ok (eventId, ev) else .error { kind := .typeError }

/-- `_Index.__init__`. -/
def Index.init (events : List Val) : Except PyErr Index := do
  let byId ← (events.filter fun ev => (entry (lit "event_id") ev).truthy).mapM idItem
  return { events, byId }

/-- `by_id.get(ref)`. -/
def Index.getById (idx : Index) (ref : Val) : Except PyErr (Option Val) :=
  if ref.hashable then .ok ((idx.byId.reverse.find? fun kv => kv.1.eq ref).map (·.2))
  else .error { kind := .typeError }

/-- The paths that the links to other events compare. -/
def linkKey (link : Option Str) : Option Str :=
  if link = some (lit "same_task") then some (lit "provenance.task_id")
  else if link = some (lit "same_context") then some (lit "provenance.context_id")
  else if link = some (lit "references_root") then some (lit "provenance.root_task_id")
  else none

/-- Whether an event is one that a link may lead to. -/
def targets (target : Option EventFilter) (ev : Val) : Bool :=
  match target with
  | none => true
  | some f => f.matches ev

/-- `_linked` for the event at a position. -/
def linked (idx : Index) (pos : Nat) (ev : Val) (link : Option Str) (target : Option EventFilter) :
    Except PyErr Bool :=
  if link = some (lit "approval_ref") then
    -- `idx.by_id.get(ref)`
    let ref := getPath ev (lit "oversight.approval_ref")
    if ref.truthy then do
      let cand ← idx.getById ref
      return cand.any (targets target)
    else return false
  else
    match linkKey link with
    | some key =>
      let mine := getPath ev key
      if mine = .null then return false
      else return idx.events.zipIdx.any fun other =>
        -- `other is ev`: the event itself is told by its place
        other.2 != pos && (getPath other.1 key).eq mine && targets target other.1
    | none =>
      .error { kind := .valueError,
               msg := [.text (lit "unknown link type: "), .repr ((link.map .str).getD .null)] }

/-- The comparison of a `field` condition with the value at its path. -/
def fieldHolds (op : Str) (actual value : Val) : Except PyErr Bool :=
  if op = lit "exists" then .ok (decide (actual ≠ .null))
  else if op = lit "eq" then .ok (actual.eq value)
  else if op = lit "ne" then .ok (!actual.eq value)
  else if op = lit "in" then actual.inside (value.orElse (.list []))
  else if op = lit "gte" then if actual = .null then .ok false else actual.ge value
  else if op = lit "lte" then if actual = .null then .ok false else actual.le value
  else .ok false

/-- The operator of a `field` condition: `cond.op or "exists"`. -/
def opOrExists : Option Str → Str
  | none | some [] => lit "exists"
  | some op => op

/-- The value a `field` condition is about. -/
def fieldValue (ev : Val) : Option Str → Val
  | none | some [] => .null
  | some path => getPath ev path

mutual
/-- `_holds` for the event at a position. -/
def Condition.holds (idx : Index) (pos : Nat) (ev : Val) : Condition → Except PyErr Bool
  | .mk type path op value link target conditions =>
    if type = lit "committed" then .ok (getPath ev (lit "ledger.leaf_hash")).truthy
    else if type = lit "field" then fieldHolds (opOrExists op) (fieldValue ev path) value
    else if type = lit "linked" then linked idx pos ev link target
    else if type = lit "any_of" then Condition.anyHolds idx pos ev conditions
    else if type = lit "all_of" then Condition.allHold idx pos ev conditions
    -- all of the conditions, and not its opposite one by one
    else if type = lit "not" then (Condition.allHold idx pos ev conditions).map (!·)
    else .error { kind := .valueError,
                  msg := [.text (lit "unknown condition type: "), .repr (.str type)] }

/-- `any(...)`, which stops at the first condition that holds. -/
def Condition.anyHolds (idx : Index) (pos : Nat) (ev : Val) : List Condition → Except PyErr Bool
  | [] => .ok false
  | c :: cs => do
    let b ← Condition.holds idx pos ev c
    if b then return true else Condition.anyHolds idx pos ev cs

/-- `all(...)`, which stops at the first condition that does not hold. -/
def Condition.allHold (idx : Index) (pos : Nat) (ev : Val) : List Condition → Except PyErr Bool
  | [] => .ok true
  | c :: cs => do
    let b ← Condition.holds idx pos ev c
    if b then Condition.allHold idx pos ev cs else return false
end

/-! ## Results -/

/-- `ControlResult`. -/
structure ControlResult where
  controlId : Str
  title : Str
  status : ControlStatus
  requirement : Str
  citation : Items
  reason : Str
  evaluatedCount : Nat
  satisfiedCount : Nat
  evidenceEventIds : List Val := []
  gapEventIds : List Val := []
deriving DecidableEq

/-- `model_dump(mode="json", exclude_none=True)` of a result. -/
def ControlResult.dump (r : ControlResult) : Val :=
  jsonMode <| .dict [(lit "control_id", .str r.controlId), (lit "title", .str r.title),
    (lit "status", .str r.status.value), (lit "requirement", .str r.requirement),
    (lit "citation", .dict r.citation), (lit "reason", .str r.reason),
    (lit "evaluated_count", .int r.evaluatedCount), (lit "satisfied_count", .int r.satisfiedCount),
    (lit "evidence_event_ids", .list r.evidenceEventIds),
    (lit "gap_event_ids", .list r.gapEventIds)]

/-- `CrosswalkResult`. -/
structure CrosswalkResult where
  crosswalkId : Str
  crosswalkTitle : Str
  crosswalkVersion : Str
  crosswalkContentHash : Option Str := none
  source : Str
  reviewedAsOf : Str
  disclaimer : Option Str := none
  controls : List ControlResult
deriving DecidableEq

/-- The number of results with a status: `satisfied`, `not_satisfied`, `insufficient`. -/
def CrosswalkResult.count (cr : CrosswalkResult) (status : ControlStatus) : Nat :=
  cr.controls.countP (·.status == status)

/-! ## Evaluation -/

/-- `_MAX_IDS`. -/
def maxIds : Nat := 50

/-- A list comprehension with a condition that may raise. -/
def select {α : Type} (p : α → Except PyErr Bool) : List α → Except PyErr (List α)
  | [] => .ok []
  | a :: as => do
    let b ← p a
    let rest ← select p as
    return if b then a :: rest else rest

/-- `e.get("attributes") or {}`. -/
def attributes (ev : Val) : Val := (entry (lit "attributes") ev).orElse (.dict [])

/-- Whether an event is an attested evidence-gap marker. -/
def isGapMarker (ev : Val) : Except PyErr Bool := do
  let marker ← (attributes ev).getD (lit "marker") .null
  return marker.eq (.str (lit "evidence_gap"))

/-- The number of events a gap marker says were dropped. -/
def droppedEvents (marker : Val) : Except PyErr Int := do
  let dropped ← (attributes marker).getD (lit "dropped_events") .null
  (dropped.orElse (.int 0)).toInt

/-- `[e["event_id"] for e in events][:_MAX_IDS]`. -/
def eventIds (events : List Val) : Except PyErr (List Val) := do
  let ids ← events.mapM (·.getItem (lit "event_id"))
  return ids.take maxIds

/-- `isinstance(v, str)`. -/
def isStr : Val → Bool
  | .str _ => true
  | _ => false

/-- The result of a control, whose lists of ids are validated. -/
def Control.result (c : Control) (status : ControlStatus) (reason : Str)
    (evaluatedCount satisfiedCount : Nat) (evidence gaps : List Val) : Except PyErr ControlResult :=
  if (evidence ++ gaps).all isStr then
    .ok { controlId := c.id, title := c.title, status, requirement := c.requirement,
          citation := c.citation, reason, evaluatedCount, satisfiedCount,
          evidenceEventIds := evidence, gapEventIds := gaps }
  else .error { kind := .validationError }

/-- The reason given for an empty scope. -/
def emptyReason (status : ControlStatus) : Str :=
  if status = .insufficientEvidence then
    lit "No events fell within this control's scope, so there is nothing to "
      ++ lit "evaluate. Reported as insufficient evidence rather than a failure "
      ++ lit "(FR-MAP-07)."
  else lit "No events in scope; control policy treats empty scope as " ++ status.value ++ lit "."

/-- The reason given for a scope of `n` events of which `violators` do not pass. -/
def scopeReason (violators n : Nat) : Str :=
  if violators = 0 then
    lit "All " ++ Json.natText n ++ lit " in-scope event(s) satisfied the required predicate."
  else Json.natText violators ++ lit " of " ++ Json.natText n
    ++ lit " in-scope event(s) did not satisfy the " ++ lit "required predicate."

/-- The events in the scope of a control, with their positions. -/
def Control.inScope (c : Control) (events : List Val) : List (Val × Nat) :=
  events.zipIdx.filter fun e => c.scope.matches e.1

/-- The in-scope events that are not among those that passed: neither one of them nor equal to
one. -/
def violators (events passed : List (Val × Nat)) : List (Val × Nat) :=
  events.filter fun e => !passed.any fun p => p.2 == e.2 || p.1.eq e.1

/-- The result of a control whose scope has events. -/
def Control.evaluateScope (c : Control) (idx : Index) (events : List (Val × Nat)) :
    Except PyErr ControlResult := do
  let passed ← select (fun e => c.condition.holds idx e.2 e.1) events
  let failed := violators events passed
  let evidence ← eventIds (passed.map (·.1))
  let gaps ← eventIds (failed.map (·.1))
  c.result (if failed = [] then .satisfied else .notSatisfied)
    (scopeReason failed.length events.length) events.length passed.length evidence gaps

/-- The body of the loop over the controls. -/
def Control.evaluate (c : Control) (idx : Index) : Except PyErr ControlResult :=
  match c.inScope idx.events with
  | [] => c.result c.emptyScope.status (emptyReason c.emptyScope.status) 0 0 [] []
  | e :: es => c.evaluateScope idx (e :: es)

/-- The result of a control without events. -/
def Control.emptyResult (c : Control) : ControlResult where
  controlId := c.id
  title := c.title
  status := c.emptyScope.status
  requirement := c.requirement
  citation := c.citation
  reason := emptyReason c.emptyScope.status
  evaluatedCount := 0
  satisfiedCount := 0

/-- The gap markers among the events, what they say was dropped, and their ids. -/
structure Gaps where
  markers : List Val
  dropped : Int
  ids : List Val

/-- The gap markers are collected once. -/
def gapsOf (events : List Val) : Except PyErr Gaps := do
  let markers ← select isGapMarker events
  let ids := (markers.map (entry (lit "event_id"))).filter (·.truthy)
  let dropped ← markers.mapM droppedEvents
  return { markers, dropped := dropped.sum, ids := ids.take maxIds }

/-- The completeness override: a self-attested gap forces a completeness-sensitive control to
`not_satisfied`. -/
def ControlResult.override (r : ControlResult) (gaps : Gaps) (sensitive : List Str) : ControlResult :=
  -- a control that is not satisfied anyway keeps its reason
  if gaps.markers ≠ [] ∧ r.controlId ∈ sensitive ∧ r.status ≠ .notSatisfied then
    { r with
      status := .notSatisfied
      reason := lit "Record-keeping completeness fails: the log self-attests "
        ++ Json.natText gaps.markers.length ++ lit " evidence-gap marker(s) (~"
        ++ Json.intText gaps.dropped ++ lit " dropped " ++ lit "event(s)). " ++ r.reason
      gapEventIds := (r.gapEventIds ++ gaps.ids).take maxIds }
  else r

/-- The ids of the completeness-sensitive controls. -/
def Crosswalk.sensitive (cw : Crosswalk) : List Str :=
  (cw.controls.filter (·.completenessSensitive)).map (·.id)

/-- The results of the controls over the dumps of the events. -/
def Crosswalk.controlResults (cw : Crosswalk) (dicts : List Val) : Except PyErr (List ControlResult) := do
  let idx ← Index.init dicts
  let gaps ← gapsOf dicts
  let results ← cw.controls.mapM (·.evaluate idx)
  return results.map (·.override gaps cw.sensitive)

/-- `evaluate`, on the dumps of the events. -/
def Crosswalk.evaluate (cw : Crosswalk) (dicts : List Val) : Except PyErr CrosswalkResult := do
  let controls ← cw.controlResults dicts
  let hash ← OpenWright.crosswalkContentHash cw
  return { crosswalkId := cw.id, crosswalkTitle := cw.title, crosswalkVersion := cw.version,
           crosswalkContentHash := some hash, source := cw.source,
           reviewedAsOf := cw.reviewedAsOf, disclaimer := cw.disclaimer, controls }

/-! ## What an evaluation returns -/

/-- Whether a test returned and said yes. -/
def saysYes : Except PyErr Bool → Bool
  | .ok b => b
  | .error _ => false

/-- A comprehension with a condition returns where each test does, and filters. -/
theorem select_eq_ok {α : Type} {p : α → Except PyErr Bool} {as bs : List α} :
    select p as = .ok bs ↔
      (∀ a ∈ as, ∃ b, p a = .ok b) ∧ bs = as.filter fun a => saysYes (p a) := by
  induction as generalizing bs with
  | nil => simp [select, eq_comm]
  | cons a as ih =>
      simp only [select, bind_eq_ok, pure_eq_ok, List.forall_mem_cons, List.filter_cons, ih]
      constructor
      · rintro ⟨b, hb, rest, ⟨hrest, rfl⟩, rfl⟩
        exact ⟨⟨⟨b, hb⟩, hrest⟩, by rw [hb, saysYes]⟩
      · rintro ⟨⟨⟨b, hb⟩, hrest⟩, rfl⟩
        exact ⟨b, hb, _, ⟨hrest, rfl⟩, by rw [hb, saysYes]⟩

/-- A result that is returned is the one that was asked for, and its ids are strings. -/
theorem Control.result_eq_ok {c : Control} {status : ControlStatus} {reason : Str} {m n : Nat}
    {evidence gaps : List Val} {r : ControlResult}
    (h : c.result status reason m n evidence gaps = .ok r) :
    (∀ id ∈ evidence, isStr id = true) ∧
      r = { controlId := c.id, title := c.title, status, requirement := c.requirement,
            citation := c.citation, reason, evaluatedCount := m, satisfiedCount := n,
            evidenceEventIds := evidence, gapEventIds := gaps } := by
  rw [Control.result] at h
  split at h
  · rename_i hstr
    rw [List.all_eq_true] at hstr
    exact ⟨fun id hid => hstr id (List.mem_append_left _ hid), (Except.ok.inj h).symm⟩
  · cases h

/-- The listed ids are ids of the events. -/
theorem exists_of_mem_eventIds {events ids : List Val} (h : eventIds events = .ok ids) {id : Val}
    (hid : id ∈ ids) : ∃ ev ∈ events, ev.getItem (lit "event_id") = .ok id := by
  rw [eventIds] at h
  obtain ⟨all, hall, h⟩ := bind_eq_ok.mp h
  rw [← pure_eq_ok.mp h] at hid
  exact exists_of_mem_mapM hall (List.mem_of_mem_take hid)

/-- Some evaluated event has the given string as its id. -/
def IsEventId (events : List Val) (id : Val) : Prop :=
  isStr id = true ∧ ∃ ev ∈ events, ev.getItem (lit "event_id") = .ok id

/-- **The result of one control** names it and cites evaluated events. -/
theorem Control.evaluate_eq_ok {c : Control} {idx : Index} {r : ControlResult}
    (h : c.evaluate idx = .ok r) :
    r.controlId = c.id ∧ ∀ id ∈ r.evidenceEventIds, IsEventId idx.events id := by
  rw [Control.evaluate] at h
  split at h
  · obtain ⟨-, rfl⟩ := Control.result_eq_ok h
    exact ⟨rfl, fun id hid => absurd hid List.not_mem_nil⟩
  · rename_i e es hscope
    rw [Control.evaluateScope] at h
    obtain ⟨passed, hpassed, h⟩ := bind_eq_ok.mp h
    obtain ⟨evidence, hevidence, h⟩ := bind_eq_ok.mp h
    obtain ⟨gaps, -, h⟩ := bind_eq_ok.mp h
    obtain ⟨hstr, rfl⟩ := Control.result_eq_ok h
    refine ⟨rfl, fun id hid => ⟨hstr id hid, ?_⟩⟩
    obtain ⟨ev, hev, hget⟩ := exists_of_mem_eventIds hevidence hid
    obtain ⟨e', he', rfl⟩ := List.mem_map.mp hev
    -- what passed was in scope, and what was in scope was evaluated
    rw [(select_eq_ok.mp hpassed).2, ← hscope, Control.inScope] at he'
    exact ⟨e'.1, List.fst_mem_of_mem_zipIdx (List.mem_of_mem_filter (List.mem_of_mem_filter he')),
      hget⟩

/-- The override changes neither the control nor the evidence. -/
theorem ControlResult.override_fields (r : ControlResult) (gaps : Gaps) (sensitive : List Str) :
    (r.override gaps sensitive).controlId = r.controlId ∧
      (r.override gaps sensitive).evidenceEventIds = r.evidenceEventIds := by
  rw [ControlResult.override]
  split
  · exact ⟨rfl, rfl⟩
  · exact ⟨rfl, rfl⟩

/-- An index is over the events it was made of. -/
theorem Index.events_of_init {events : List Val} {idx : Index} (h : Index.init events = .ok idx) :
    idx.events = events := by
  rw [Index.init] at h
  obtain ⟨byId, -, h⟩ := bind_eq_ok.mp h
  rw [← pure_eq_ok.mp h]

namespace Crosswalk

variable {cw : Crosswalk} {dicts : List Val} {cr : CrosswalkResult}

/-- The results come from the controls, one by one. -/
theorem controlResults_eq_ok {rs : List ControlResult} (h : cw.controlResults dicts = .ok rs) :
    ∃ idx gaps results, Index.init dicts = .ok idx ∧ gapsOf dicts = .ok gaps ∧
      List.Forall₂ (fun c r => Control.evaluate c idx = .ok r) cw.controls results ∧
      rs = results.map (·.override gaps cw.sensitive) := by
  rw [controlResults] at h
  obtain ⟨idx, hidx, h⟩ := bind_eq_ok.mp h
  obtain ⟨gaps, hgaps, h⟩ := bind_eq_ok.mp h
  obtain ⟨results, hresults, h⟩ := bind_eq_ok.mp h
  exact ⟨idx, gaps, results, hidx, hgaps, mapM_eq_ok.mp hresults, (pure_eq_ok.mp h).symm⟩

/-- **Without events every control has the status of its empty scope.** -/
theorem controlResults_nil (cw : Crosswalk) :
    cw.controlResults [] = .ok (cw.controls.map Control.emptyResult) := by
  have hcontrol : ∀ c ∈ cw.controls,
      Control.evaluate c { events := [], byId := [] } = .ok c.emptyResult := fun c _ => rfl
  have hoverride : ∀ r : ControlResult, r.override { markers := [], dropped := 0, ids := [] }
      cw.sensitive = r := fun r => if_neg fun h => h.1 rfl
  rw [controlResults]
  refine bind_eq_ok.mpr ⟨{ events := [], byId := [] }, rfl, bind_eq_ok.mpr
    ⟨{ markers := [], dropped := 0, ids := [] }, rfl, bind_eq_ok.mpr
    ⟨_, mapM_eq_ok_map hcontrol, ?_⟩⟩⟩
  rw [List.map_congr_left fun r _ => hoverride r, List.map_id']
  rfl

/-- What an evaluation returns is labelled with the crosswalk and pinned to its hash. -/
theorem evaluate_eq_ok (h : cw.evaluate dicts = .ok cr) :
    ∃ controls hash, cw.controlResults dicts = .ok controls ∧ crosswalkContentHash cw = .ok hash ∧
      cr = { crosswalkId := cw.id, crosswalkTitle := cw.title, crosswalkVersion := cw.version,
             crosswalkContentHash := some hash, source := cw.source,
             reviewedAsOf := cw.reviewedAsOf, disclaimer := cw.disclaimer, controls } := by
  rw [evaluate] at h
  obtain ⟨controls, hcontrols, h⟩ := bind_eq_ok.mp h
  obtain ⟨hash, hhash, h⟩ := bind_eq_ok.mp h
  exact ⟨controls, hash, hcontrols, hhash, (pure_eq_ok.mp h).symm⟩

/-- **There is one result for each control, in order.** -/
theorem evaluate_ids (h : cw.evaluate dicts = .ok cr) :
    cr.controls.map (·.controlId) = cw.controls.map (·.id) := by
  obtain ⟨rs, hash, hrs, -, rfl⟩ := evaluate_eq_ok h
  obtain ⟨idx, gaps, results, -, -, hresults, rfl⟩ := controlResults_eq_ok hrs
  have hids : (results.map (·.override gaps cw.sensitive)).map (·.controlId)
      = results.map (·.controlId) := by
    rw [List.map_map]
    exact List.map_congr_left fun r _ => (ControlResult.override_fields r gaps cw.sensitive).1
  rw [hids, eq_comm, ← List.forall₂_eq_eq_eq, List.forall₂_map_left_iff,
    List.forall₂_map_right_iff]
  exact hresults.imp fun c r hr => (Control.evaluate_eq_ok hr).1.symm

/-- **The evidence a result cites are ids of evaluated events.** -/
theorem evaluate_evidence (h : cw.evaluate dicts = .ok cr) {r : ControlResult}
    (hr : r ∈ cr.controls) {id : Val} (hid : id ∈ r.evidenceEventIds) : IsEventId dicts id := by
  obtain ⟨rs, hash, hrs, -, rfl⟩ := evaluate_eq_ok h
  obtain ⟨idx, gaps, results, hidx, -, hresults, rfl⟩ := controlResults_eq_ok hrs
  obtain ⟨r', hr', rfl⟩ := List.mem_map.mp hr
  rw [(ControlResult.override_fields r' gaps cw.sensitive).2] at hid
  obtain ⟨c, -, hc⟩ := exists_of_mem_mapM (mapM_eq_ok.mpr hresults) hr'
  rw [← Index.events_of_init hidx]
  exact (Control.evaluate_eq_ok hc).2 id hid

end Crosswalk

end OpenWright
