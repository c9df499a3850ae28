import OpenWright.Adapters.Event

/-! # Side channels

Findings of scanners, as a SARIF log, and decisions of policy engines become events; what is malformed
in them is meant to be skipped.

* **`sideChannel_iff`** — on which logs and decisions every finding and every decision gives its event,
  in order, and nothing is raised. -/

namespace OpenWright.Adapters

open Python Python.Val EventModel

/-! ## SARIF -/

/-- The items of a dictionary. -/
def dict? : Val → Option Items
  | .dict kvs => some kvs
  | _ => none

/-- `d.get(k, {})` of a dictionary, `{}` of any other value. -/
def subObject (v : Val) (k : String) : Val :=
  match v with
  | .dict kvs => (kvs.lookup (lit k)).getD (.dict [])
  | _ => .dict []

/-- The text of a message. -/
def messageText (I : Interpreter) (message : Val) : Except PyErr Str :=
  match message with
  | .dict kvs => I.str ((kvs.lookup (lit "text")).getD (.str []))
  | _ => .ok []

/-- The locations of a result; no list has none. -/
def locationsOf (result : Items) : List Val :=
  match attr result "locations" with
  | .list vs => vs
  | _ => []

/-- A location is reduced to its file and its line. -/
def locationEntry (location : Val) : Except PyErr Val := do
  let phys := subObject location "physicalLocation"
  let art := subObject phys "artifactLocation"
  let region := subObject phys "region"
  let uri ← art.getD (lit "uri") .null
  let startLine ← region.getD (lit "startLine") .null
  return .dict [(lit "uri", uri), (lit "startLine", startLine)]

/-- The provenance of an event of a task. -/
def taskProvenance (taskId : Option Str) : Provenance := { taskId := taskId.filter (· ≠ []) }

/-- The body of the loop over results. -/
def resultToEvent (I : Interpreter) (agentId timestamp : Str) (taskId : Option Str) (toolName : Val)
    (result : Items) : Except PyErr Event := do
  let message ← messageText I (attr result "message")
  let locations ← (locationsOf result).mapM locationEntry
  let attributes ← attributes [(lit "tool", toolName), (lit "rule_id", attr result "ruleId"),
    (lit "level", (result.lookup (lit "level")).getD (.str (lit "warning"))),
    (lit "message", .str message), (lit "locations", .list locations)]
  return {
    timestamp
    kind := .conformanceFinding
    actor := { agentId }
    provenance := taskProvenance taskId
    attributes
    source := { format := lit "sarif" } }

/-- The name of the tool, given `run.get("tool") or {}`. -/
def toolName (tool : Items) : Val :=
  match (attr tool "driver").orElse (.dict []) with
  | .dict driver => attr driver "name"
  | _ => .null

/-- The results of a run that are objects; no list has none. -/
def resultsOf (run : Items) : List Items :=
  match attr run "results" with
  | .list vs => vs.filterMap dict?
  | _ => []

/-- The body of the loop over runs. -/
def runToEvents (I : Interpreter) (agentId timestamp : Str) (taskId : Option Str) (run : Items) :
    Except PyErr (List Event) :=
  match (attr run "tool").orElse (.dict []) with
  | .dict tool => (resultsOf run).mapM (resultToEvent I agentId timestamp taskId (toolName tool))
  | _ => .error { kind := .attributeError }

/-- The runs of a log that are objects; anything else has none. -/
def runsOf (sarif : Val) : List Items :=
  match sarif with
  | .dict log =>
    match attr log "runs" with
    | .list vs => vs.filterMap dict?
    | _ => []
  | _ => []

/-- `sarif_to_events`. -/
def sarifToEvents (I : Interpreter) (agentId timestamp : Str) (taskId : Option Str) (sarif : Val) :
    Except PyErr (List Event) := do
  let events ← (runsOf sarif).mapM (runToEvents I agentId timestamp taskId)
  return events.flatten

/-! ## Policy engines -/

/-- `_opa_entry`. -/
def opaEntry (entry : Items) : Items :=
  let result := attr entry "result"
  -- a result is an object with `allow`, or the boolean itself
  let allowed := match result with
    | .dict kvs => attr kvs "allow"
    | v => v
  [(lit "engine", .str (lit "opa")), (lit "decision_id", attr entry "decision_id"),
    (lit "policy", attr entry "path"),
    (lit "decision", .str (if allowed.truthy then lit "allow" else lit "deny")),
    -- an object is not kept, since it has been read already
    (lit "result", if (dict? result).isSome then .null else result)]

/-- The decision of Cedar. -/
def cedarDecision (I : Interpreter) (decision : Val) : Except PyErr Val :=
  if decision.truthy then (I.str decision).map fun s => .str (I.lower s) else .ok .null

/-- `_cedar_entry`. -/
def cedarEntry (I : Interpreter) (entry : Items) : Except PyErr Items := do
  let decision ← cedarDecision I (attr entry "decision")
  let diagnostics := (dict? (attr entry "diagnostics")).getD []
  return [(lit "engine", .str (lit "cedar")), (lit "decision", decision),
    (lit "determining_policies", attr diagnostics "reason"), (lit "errors", attr diagnostics "errors")]

/-- The parser of an engine. -/
def parseEntry (I : Interpreter) (engine : Str) (entry : Items) : Except PyErr Items :=
  if engine = lit "opa" then .ok (opaEntry entry) else cedarEntry I entry

/-- The body of the loop over entries. -/
def entryToEvent (I : Interpreter) (agentId timestamp engine : Str) (taskId : Option Str)
    (entry : Items) : Except PyErr Event := do
  let attrs ← parseEntry I engine entry
  -- the entry's own time is used as it is, without `to_rfc3339`
  let timestamp ← requiredStr ((attr entry "timestamp").orElse (.str timestamp))
  -- `{k: v ... if v is not None}`
  let attributes ← attributes (attrs.filter fun kv => kv.2 ≠ .null)
  return {
    timestamp
    kind := .policyDecision
    actor := { agentId }
    provenance := taskProvenance taskId
    attributes
    source := { format := lit "policy-" ++ engine } }

/-- `policy_decisions_to_events`. -/
def policyDecisionsToEvents (I : Interpreter) (agentId timestamp engine : Str) (taskId : Option Str)
    (entries : List Val) : Except PyErr (List Event) :=
  (entries.filterMap dict?).mapM (entryToEvent I agentId timestamp engine taskId)

/-! ## What is kept -/

section Kept

variable (I : Interpreter) (agentId timestamp : Str) (taskId : Option Str)

/-- The results of a log that are objects, in order, each with the name of its tool. -/
def resultObjects (sarif : Val) : List (Val × Items) :=
  (runsOf sarif).flatMap fun run => (resultsOf run).map fun result =>
    (((dict? (attr run "tool")).map toolName).getD .null, result)

/-- The adapter returns, and every result that is an object has its event, in order. -/
def KeepsResults (sarif : Val) : Prop :=
  ∃ events, sarifToEvents I agentId timestamp taskId sarif = .ok events ∧
    List.Forall₂ (fun x event => resultToEvent I agentId timestamp taskId x.1 x.2 = .ok event)
      (resultObjects sarif) events

/-- The adapter returns, and every decision that is an object has its event, in order. -/
def KeepsEntries (engine : Str) (entries : List Val) : Prop :=
  ∃ events, policyDecisionsToEvents I agentId timestamp engine taskId entries = .ok events ∧
    List.Forall₂ (fun entry event => entryToEvent I agentId timestamp engine taskId entry = .ok event)
      (entries.filterMap dict?) events

/-- A location whose file and region, if it has them, are objects, without floats. -/
def LocationReadable (location : Val) : Prop :=
  ∃ art region,
    subObject (subObject location "physicalLocation") "artifactLocation" = .dict art ∧
    subObject (subObject location "physicalLocation") "region" = .dict region ∧
    findsFloat (attr art "uri") = false ∧ findsFloat (attr region "startLine") = false

/-- A result with readable locations, without floats where an event takes them from. -/
structure ResultReadable (toolName : Val) (result : Items) : Prop where
  message : ∃ s, messageText I (attr result "message") = .ok s
  locations : ∀ location ∈ locationsOf result, LocationReadable location
  tool : findsFloat toolName = false
  ruleId : findsFloat (attr result "ruleId") = false
  level : findsFloat (attr result "level") = false

/-- A run whose tool, if it has one, is an object, with readable results. -/
def RunReadable (run : Items) : Prop :=
  ∃ tool, (attr run "tool").orElse (.dict []) = .dict tool ∧
    ∀ result ∈ resultsOf run, ResultReadable I (toolName tool) result

/-- A decision with a text as its timestamp, if it has one, without floats where an event takes them
from. -/
structure EntryReadable (engine : Str) (entry : Items) : Prop where
  timestamp : TextIfTrue (attr entry "timestamp")
  opa : engine = lit "opa" → findsFloat (attr entry "decision_id") = false ∧
    findsFloat (attr entry "path") = false ∧
    ((dict? (attr entry "result")).isSome ∨ findsFloat (attr entry "result") = false)
  cedar : engine ≠ lit "opa" → (∃ v, cedarDecision I (attr entry "decision") = .ok v) ∧
    ∀ diagnostics, attr entry "diagnostics" = .dict diagnostics →
      findsFloat (attr diagnostics "reason") = false ∧ findsFloat (attr diagnostics "errors") = false

variable {I agentId timestamp taskId}

/-! ### Results -/

/-- An entry for a location, or an exception. -/
theorem locationEntry_eq_ok {location v : Val} : locationEntry location = .ok v ↔ ∃ art region,
    subObject (subObject location "physicalLocation") "artifactLocation" = .dict art ∧
    subObject (subObject location "physicalLocation") "region" = .dict region ∧
    v = .dict [(lit "uri", attr art "uri"), (lit "startLine", attr region "startLine")] := by
  constructor
  · intro h
    rw [locationEntry] at h
    obtain ⟨uri, huri, h⟩ := bind_eq_ok.mp h
    obtain ⟨startLine, hstartLine, h⟩ := bind_eq_ok.mp h
    obtain ⟨art, hart, rfl⟩ := exists_dict_of_getD_null huri
    obtain ⟨region, hregion, rfl⟩ := exists_dict_of_getD_null hstartLine
    exact ⟨art, region, hart, hregion, (pure_eq_ok.mp h).symm⟩
  · rintro ⟨art, region, hart, hregion, rfl⟩
    rw [locationEntry, hart, hregion]
    rfl

/-- The entries of locations hold no float, where none is found in their parts. -/
theorem findsFloat_locationEntry {location v : Val} (h : locationEntry location = .ok v) :
    findsFloat v = false ↔ LocationReadable location := by
  obtain ⟨art, region, hart, hregion, rfl⟩ := locationEntry_eq_ok.mp h
  rw [findsFloat, findsFloatItems, findsFloatItems, findsFloatItems, Bool.or_false, Bool.or_eq_false_iff]
  constructor
  · rintro ⟨huri, hline⟩
    exact ⟨art, region, hart, hregion, huri, hline⟩
  · rintro ⟨art', region', hart', hregion', huri, hline⟩
    obtain rfl := Val.dict.inj (hart.symm.trans hart')
    obtain rfl := Val.dict.inj (hregion.symm.trans hregion')
    exact ⟨huri, hline⟩

/-- The locations of a result are read, without floats, where each of them is readable. -/
theorem exists_locations {locations : List Val} :
    (∃ vs, locations.mapM locationEntry = .ok vs ∧ findsFloat (.list vs) = false) ↔
      ∀ location ∈ locations, LocationReadable location := by
  constructor
  · rintro ⟨vs, hvs, hfloat⟩ location hmem
    obtain ⟨v, hv, hentry⟩ := exists_right_of_mem (mapM_eq_ok.mp hvs) hmem
    rw [findsFloat, findsFloatList_eq_any, List.any_eq_false] at hfloat
    exact (findsFloat_locationEntry hentry).mp (by simpa using hfloat v hv)
  · intro h
    obtain ⟨vs, hvs⟩ := exists_mapM_iff.mpr fun location hmem => by
      obtain ⟨art, region, hart, hregion, -⟩ := h location hmem
      exact ⟨_, locationEntry_eq_ok.mpr ⟨art, region, hart, hregion, rfl⟩⟩
    refine ⟨vs, hvs, ?_⟩
    rw [findsFloat, findsFloatList_eq_any, List.any_eq_false]
    intro v hv
    obtain ⟨location, hmem, hentry⟩ := exists_of_mem_mapM hvs hv
    simp [(findsFloat_locationEntry hentry).mpr (h location hmem)]

/-- **Which results have an event.** -/
theorem exists_resultToEvent {toolName : Val} {result : Items} :
    (∃ event, resultToEvent I agentId timestamp taskId toolName result = .ok event) ↔
      ResultReadable I toolName result := by
  -- the level that is put in for a missing one holds no float
  have hlevel : findsFloat ((result.lookup (lit "level")).getD (.str (lit "warning")))
      = findsFloat (attr result "level") := by
    rw [attr]
    cases result.lookup (lit "level") <;> rfl
  have hfloats (message : Str) (vs : List Val) : findsFloatItems [(lit "tool", toolName),
      (lit "rule_id", attr result "ruleId"),
      (lit "level", (result.lookup (lit "level")).getD (.str (lit "warning"))),
      (lit "message", .str message), (lit "locations", .list vs)] = false ↔
      findsFloat toolName = false ∧ findsFloat (attr result "ruleId") = false ∧
        findsFloat (attr result "level") = false ∧ findsFloat (.list vs) = false := by
    have hmessage : findsFloat (.str message) = false := rfl
    simp only [findsFloatItems, hmessage, hlevel, Bool.or_eq_false_iff, and_true, true_and]
  constructor
  · rintro ⟨event, h⟩
    rw [resultToEvent] at h
    obtain ⟨message, hmessage, h⟩ := bind_eq_ok.mp h
    obtain ⟨vs, hvs, h⟩ := bind_eq_ok.mp h
    obtain ⟨a, ha, -⟩ := bind_eq_ok.mp h
    obtain ⟨htool, hrule, hlevel, hlist⟩ := (hfloats message vs).mp (exists_attributes.mp ⟨a, ha⟩)
    exact ⟨⟨message, hmessage⟩, exists_locations.mp ⟨vs, hvs, hlist⟩, htool, hrule, hlevel⟩
  · rintro ⟨⟨message, hmessage⟩, hlocations, htool, hrule, hlevel⟩
    obtain ⟨vs, hvs, hlist⟩ := exists_locations.mpr hlocations
    obtain ⟨a, ha⟩ := exists_attributes.mpr ((hfloats message vs).mpr ⟨htool, hrule, hlevel, hlist⟩)
    exact ⟨_, bind_eq_ok.mpr ⟨message, hmessage, bind_eq_ok.mpr ⟨vs, hvs, bind_eq_ok.mpr ⟨a, ha, rfl⟩⟩⟩⟩

/-- A run that returns has a tool that is an object, and the events of its results. -/
theorem runToEvents_eq_ok {run : Items} {events : List Event} :
    runToEvents I agentId timestamp taskId run = .ok events ↔
      ∃ tool, (attr run "tool").orElse (.dict []) = .dict tool ∧
        List.Forall₂ (fun result event =>
          resultToEvent I agentId timestamp taskId (toolName tool) result = .ok event)
          (resultsOf run) events := by
  rw [runToEvents]
  cases (attr run "tool").orElse (.dict []) with
  | dict tool =>
      rw [mapM_eq_ok]
      constructor
      · exact fun h => ⟨tool, rfl, h⟩
      · rintro ⟨tool', htool, h⟩
        rwa [Val.dict.inj htool]
  | _ => exact iff_of_false (fun h => nomatch h) fun ⟨_, h, _⟩ => nomatch h

/-- A run is turned into events where it is readable. -/
theorem exists_runToEvents {run : Items} :
    (∃ events, runToEvents I agentId timestamp taskId run = .ok events) ↔ RunReadable I run := by
  simp only [runToEvents_eq_ok]
  constructor
  · rintro ⟨events, tool, htool, h⟩
    refine ⟨tool, htool, fun result hresult => ?_⟩
    obtain ⟨event, -, hevent⟩ := exists_right_of_mem h hresult
    exact exists_resultToEvent.mp ⟨event, hevent⟩
  · rintro ⟨tool, htool, h⟩
    obtain ⟨events, hevents⟩ := exists_mapM_iff.mpr fun result hresult =>
      (@exists_resultToEvent I agentId timestamp taskId _ _).mpr (h result hresult)
    exact ⟨events, tool, htool, mapM_eq_ok.mp hevents⟩

/-- The tool of a run names its results. -/
theorem toolName_of_orElse {run tool : Items}
    (h : (attr run "tool").orElse (.dict []) = .dict tool) :
    ((dict? (attr run "tool")).map toolName).getD .null = toolName tool := by
  rw [orElse] at h
  split at h
  · rw [h]
    rfl
  · rename_i hfalsy
    obtain rfl := Val.dict.inj h
    cases htool : attr run "tool" with
    | dict kvs =>
        rw [htool] at hfalsy
        obtain rfl : kvs = [] := by simpa [truthy] using hfalsy
        rfl
    | _ => rfl

/-- **Which logs are kept.** -/
theorem keepsResults_iff {sarif : Val} :
    KeepsResults I agentId timestamp taskId sarif ↔ ∀ run ∈ runsOf sarif, RunReadable I run := by
  constructor
  · rintro ⟨events, h, -⟩ run hrun
    rw [sarifToEvents] at h
    obtain ⟨lists, hlists, -⟩ := bind_eq_ok.mp h
    obtain ⟨list, -, hlist⟩ := exists_right_of_mem (mapM_eq_ok.mp hlists) hrun
    exact exists_runToEvents.mp ⟨list, hlist⟩
  · intro h
    obtain ⟨lists, hlists⟩ := exists_mapM_iff.mpr fun run hrun =>
      (@exists_runToEvents I agentId timestamp taskId run).mpr (h run hrun)
    refine ⟨lists.flatten, bind_eq_ok.mpr ⟨lists, hlists, rfl⟩, ?_⟩
    rw [resultObjects, List.flatMap_def]
    refine List.rel_flatten (List.forall₂_map_left_iff.mpr ?_)
    refine (mapM_eq_ok.mp hlists).imp fun run list hlist => ?_
    obtain ⟨tool, htool, hevents⟩ := runToEvents_eq_ok.mp hlist
    rw [List.forall₂_map_left_iff]
    refine hevents.imp fun result event hevent => ?_
    rw [toolName_of_orElse htool]
    exact hevent

/-! ### Decisions -/

/-- What is not `None` holds a float where one is found. -/
theorem findsFloatItems_filter (items : Items) :
    findsFloatItems (items.filter fun kv => kv.2 ≠ .null) = findsFloatItems items := by
  induction items with
  | nil => rfl
  | cons kv items ih =>
      obtain ⟨k, v⟩ := kv
      by_cases hnull : v = .null
      · rw [List.filter_cons_of_neg (by simpa using hnull), ih, findsFloatItems, hnull]
        rfl
      · rw [List.filter_cons_of_pos (by simpa using hnull), findsFloatItems, findsFloatItems, ih]

/-- A decision of OPA holds a float where its id, path or result does. -/
theorem findsFloatItems_opaEntry {entry : Items} : findsFloatItems (opaEntry entry) = false ↔
    findsFloat (attr entry "decision_id") = false ∧ findsFloat (attr entry "path") = false ∧
      ((dict? (attr entry "result")).isSome ∨ findsFloat (attr entry "result") = false) := by
  have hstr (s : Str) : findsFloat (.str s) = false := rfl
  have hresult : findsFloat (if (dict? (attr entry "result")).isSome then .null
      else attr entry "result") = false ↔
      ((dict? (attr entry "result")).isSome ∨ findsFloat (attr entry "result") = false) := by
    split
    · rename_i hdict
      exact iff_of_true rfl (.inl hdict)
    · rename_i hdict
      exact (or_iff_right hdict).symm
  simp only [opaEntry, findsFloatItems, hstr, Bool.or_eq_false_iff, hresult, true_and, and_true]

/-- A decision of Cedar holds a float where its diagnostics do. -/
theorem findsFloatItems_cedarEntry {entry attrs : Items} (h : cedarEntry I entry = .ok attrs) :
    findsFloatItems attrs = false ↔ ∀ diagnostics, attr entry "diagnostics" = .dict diagnostics →
      findsFloat (attr diagnostics "reason") = false ∧
        findsFloat (attr diagnostics "errors") = false := by
  rw [cedarEntry] at h
  obtain ⟨decision, hdecision, h⟩ := bind_eq_ok.mp h
  -- the decision is a boolean or the text of what was given, never a float
  have hfloat : findsFloat decision = false := by
    rw [cedarDecision] at hdecision
    split at hdecision
    · cases hstr : I.str (attr entry "decision") with
      | ok s =>
          rw [hstr] at hdecision
          rw [← Except.ok.inj hdecision]
          rfl
      | error e =>
          rw [hstr] at hdecision
          cases hdecision
    · rw [← Except.ok.inj hdecision]
      rfl
  have hengine : findsFloat (.str (lit "cedar")) = false := rfl
  rw [← pure_eq_ok.mp h]
  simp only [findsFloatItems, hengine, hfloat, Bool.false_or, Bool.or_false, Bool.or_eq_false_iff]
  cases hdiagnostics : attr entry "diagnostics" with
  | dict kvs =>
      constructor
      · intro h diagnostics heq
        rwa [← Val.dict.inj heq]
      · exact fun h => h kvs rfl
  -- diagnostics that are no dictionary are not looked into
  | _ =>
      refine iff_of_true ⟨rfl, rfl⟩ fun diagnostics heq => ?_
      cases heq

/-- **Which decisions have an event.** -/
theorem exists_entryToEvent {engine : Str} {entry : Items} :
    (∃ event, entryToEvent I agentId timestamp engine taskId entry = .ok event) ↔
      EntryReadable I engine entry := by
  -- the two engines have a parser each, and only that of Cedar can raise
  have hparse : (∃ attrs, parseEntry I engine entry = .ok attrs ∧ findsFloatItems attrs = false) ↔
      (engine = lit "opa" → findsFloat (attr entry "decision_id") = false ∧
        findsFloat (attr entry "path") = false ∧
        ((dict? (attr entry "result")).isSome ∨ findsFloat (attr entry "result") = false)) ∧
      (engine ≠ lit "opa" → (∃ v, cedarDecision I (attr entry "decision") = .ok v) ∧
        ∀ diagnostics, attr entry "diagnostics" = .dict diagnostics →
          findsFloat (attr diagnostics "reason") = false ∧
            findsFloat (attr diagnostics "errors") = false) := by
    rw [parseEntry]
    by_cases hopa : engine = lit "opa"
    · rw [if_pos hopa, and_iff_left (fun hne => absurd hopa hne), forall_prop_of_true hopa,
        ← findsFloatItems_opaEntry]
      constructor
      · rintro ⟨attrs, hattrs, hfloat⟩
        rwa [Except.ok.inj hattrs]
      · exact fun h => ⟨_, rfl, h⟩
    · rw [if_neg hopa, and_iff_right (fun heq => absurd heq hopa), forall_prop_of_true hopa]
      constructor
      · rintro ⟨attrs, hattrs, hfloat⟩
        obtain ⟨decision, hdecision, -⟩ := bind_eq_ok.mp hattrs
        exact ⟨⟨decision, hdecision⟩, (findsFloatItems_cedarEntry hattrs).mp hfloat⟩
      · rintro ⟨⟨decision, hdecision⟩, hfloat⟩
        have hattrs : cedarEntry I entry = .ok _ := bind_eq_ok.mpr ⟨decision, hdecision, rfl⟩
        exact ⟨_, hattrs, (findsFloatItems_cedarEntry hattrs).mpr hfloat⟩
  constructor
  · rintro ⟨event, h⟩
    rw [entryToEvent] at h
    obtain ⟨attrs, hattrs, h⟩ := bind_eq_ok.mp h
    obtain ⟨ts, hts, h⟩ := bind_eq_ok.mp h
    obtain ⟨a, ha, -⟩ := bind_eq_ok.mp h
    have hfloat := exists_attributes.mp ⟨a, ha⟩
    -- the event is built of the attributes that are not null, and no float hides in a null
    rw [findsFloatItems_filter] at hfloat
    obtain ⟨hopa, hcedar⟩ := hparse.mp ⟨attrs, hattrs, hfloat⟩
    exact ⟨exists_requiredStr_orElse.mp ⟨ts, hts⟩, hopa, hcedar⟩
  · rintro ⟨htimestamp, hopa, hcedar⟩
    obtain ⟨attrs, hattrs, hfloat⟩ := hparse.mpr ⟨hopa, hcedar⟩
    obtain ⟨ts, hts⟩ := (@exists_requiredStr_orElse _ timestamp).mpr htimestamp
    rw [← findsFloatItems_filter] at hfloat
    obtain ⟨a, ha⟩ := exists_attributes.mpr hfloat
    exact ⟨_, bind_eq_ok.mpr ⟨attrs, hattrs, bind_eq_ok.mpr ⟨ts, hts, bind_eq_ok.mpr ⟨a, ha, rfl⟩⟩⟩⟩

/-- **Which decisions are kept.** -/
theorem keepsEntries_iff {engine : Str} {entries : List Val} :
    KeepsEntries I agentId timestamp taskId engine entries ↔
      ∀ entry ∈ entries.filterMap dict?, EntryReadable I engine entry := by
  simp only [KeepsEntries, policyDecisionsToEvents, and_self, ← mapM_eq_ok, exists_mapM_iff,
    exists_entryToEvent]

end Kept

/-- **On which input nothing is lost**: a log is kept exactly if its runs are readable, and decisions
of either engine exactly if each of them is. -/
theorem sideChannel_iff (I : Interpreter) (agentId timestamp : Str) (taskId : Option Str) :
    (∀ sarif, KeepsResults I agentId timestamp taskId sarif ↔
        ∀ run ∈ runsOf sarif, RunReadable I run) ∧
      ∀ engine entries, KeepsEntries I agentId timestamp taskId engine entries ↔
        ∀ entry ∈ entries.filterMap dict?, EntryReadable I engine entry :=
  ⟨fun _ => keepsResults_iff, fun _ _ => keepsEntries_iff⟩

/-- A log with a text in the place of the tool, and one result. -/
def textTool : Val :=
  .dict [(lit "runs", .list [.dict [(lit "tool", .str (lit "scanner")),
    (lit "results", .list [.dict [(lit "ruleId", .str (lit "R1"))]])]])]

/-- Two decisions, one of them with a float as its result. -/
def floatDecision : List Val :=
  [.dict [(lit "path", .str (lit "authz/allow")), (lit "result", .bool true)],
    .dict [(lit "result", .float (.finite (1 / 2)))]]

/-- **One malformed part loses the whole batch**, of results and of decisions. -/
theorem sideChannel_raises :
    (¬∀ (I : Interpreter) (agentId timestamp : Str) (taskId : Option Str) (sarif : Val),
      Json.IsJson sarif → KeepsResults I agentId timestamp taskId sarif) ∧
    ¬∀ (I : Interpreter) (agentId timestamp : Str) (taskId : Option Str) (engine : Str)
      (entries : List Val), (∀ entry ∈ entries, Json.IsJson entry) →
        KeepsEntries I agentId timestamp taskId engine entries := by
  constructor
  · intro hclaim
    obtain ⟨events, hevents, -⟩ := hclaim sampleInterpreter (lit "agent") (lit "2026-01-01T00:00:00Z")
      none textTool ⟨⟨⟨trivial, ⟨⟨trivial, trivial⟩, trivial⟩, trivial⟩, trivial⟩, trivial⟩
    have hraises : sarifToEvents sampleInterpreter (lit "agent") (lit "2026-01-01T00:00:00Z") none
        textTool = .error { kind := .attributeError } := rfl
    rw [hraises] at hevents
    cases hevents
  · intro hclaim
    have hdouble : PyFloat.ofRat (1 / 2) = .finite (1 / 2) := by decide +kernel
    obtain ⟨events, hevents, -⟩ := hclaim sampleInterpreter (lit "agent") (lit "2026-01-01T00:00:00Z")
      none (lit "opa") floatDecision (List.forall_mem_cons.mpr ⟨⟨trivial, trivial, trivial⟩,
        List.forall_mem_singleton.mpr ⟨hdouble, trivial⟩⟩)
    have hraises : policyDecisionsToEvents sampleInterpreter (lit "agent") (lit "2026-01-01T00:00:00Z")
        (lit "opa") none floatDecision = .error invalid := rfl
    rw [hraises] at hevents
    cases hevents

end OpenWright.Adapters
