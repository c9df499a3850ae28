import OpenWright.Adapters.Event
import OpenWright.Report
import Mathlib.Data.List.ReduceOption

/-! # Exports of a report

A report is exported as OSCAL assessment results and as SARIF findings.

* **`exports_of_buildReport`** — both exports of a report that was built tell what it found of each
  control: the first has a finding for each, the second one for each that is not satisfied. -/

namespace OpenWright.Exports

open Python Python.Val Adapters
open Verify (getItem_eq_ok)

/-! ## OSCAL -/

/-- `_OSCAL_STATE`. -/
def oscalState : List (Str × Str × Str) :=
  [(lit "satisfied", lit "satisfied", lit "pass"),
    (lit "not_satisfied", lit "not-satisfied", lit "fail"),
    (lit "insufficient_evidence", lit "not-satisfied", lit "other")]

/-- `_OSCAL_STATE[v]`. -/
def oscalStateOf : Val → Except PyErr (Str × Str)
  | .str s =>
    match oscalState.lookup s with
    | some state => .ok state
    | none => .error { kind := .keyError }
  | v => .error { kind := if v.hashable then .keyError else .typeError }

/-- An observation and the finding that refers to it. -/
structure Finding where
  observation : Val
  finding : Val

/-- The loop body of `to_oscal`. -/
def oscalFinding (I : Interpreter) (uuid : Nat → Str) (now : Val) (control : Val × Nat) :
    Except PyErr Finding := do
  let title ← control.1.getItem (lit "title")
  let titleText ← I.str title
  let reasonText ← control.1.getItem (lit "reason") >>= I.str
  let status ← control.1.getItem (lit "status")
  let (state, reason) ← oscalStateOf status
  let requirement ← control.1.getItem (lit "requirement")
  let controlId ← control.1.getItem (lit "control_id")
  -- two values of `uuid4` for each control: the observation first
  let observationUuid := Val.str (uuid (2 * control.2))
  return {
    observation := .dict [(lit "uuid", observationUuid),
      (lit "description", .str (titleText ++ lit ": " ++ reasonText)),
      (lit "methods", .list [.str (lit "TEST")]), (lit "collected", now)]
    finding := .dict [(lit "uuid", .str (uuid (2 * control.2 + 1))), (lit "title", title),
      (lit "description", requirement),
      (lit "props", .list [.dict [(lit "name", .str (lit "openwright-status")), (lit "value", status),
        (lit "ns", .str (lit "https://github.com/allthingsN/openwright/ns"))]]),
      (lit "target", .dict [(lit "type", .str (lit "objective-id")), (lit "target-id", controlId),
        (lit "status", .dict [(lit "state", .str state), (lit "reason", .str reason)])]),
      (lit "related-observations", .list [.dict [(lit "observation-uuid", observationUuid)]])] }

/-- `to_oscal`, with the values of `uuid4` in their order. -/
def toOscal (I : Interpreter) (uuid : Nat → Str) (report : Items) : Except PyErr Val := do
  let now ← (Val.dict report).getItem (lit "generated_at")
  let controls ← (Val.dict report).getItem (lit "controls") >>= iter
  let findings ← controls.zipIdx.mapM (oscalFinding I uuid now)
  let crosswalk ← (Val.dict report).getItem (lit "crosswalk")
  let crosswalkTitle ← crosswalk.getItem (lit "title") >>= I.str
  let reportId ← (Val.dict report).getItem (lit "report_id")
  let scope ← (Val.dict report).getItem (lit "scope")
  let description ← scope.getItem (lit "description")
  -- the period may be there without a start
  let start ← ((report.lookup (lit "period")).getD (.dict [])).getD (lit "start") now
  let n := 2 * controls.length
  return .dict [(lit "assessment-results", .dict [
    (lit "uuid", .str (uuid n)),
    (lit "metadata", .dict [
      (lit "title", .str (lit "OpenWright evidence — " ++ crosswalkTitle)),
      (lit "last-modified", now), (lit "version", reportId),
      (lit "oscal-version", .str (lit "1.1.3")), (lit "remarks", .str boundaryStatement)]),
    (lit "import-ap", .dict [(lit "href", .str (lit "#openwright-evidence"))]),
    (lit "results", .list [.dict [
      (lit "uuid", .str (uuid (n + 1))), (lit "title", .str (lit "Runtime control evidence")),
      (lit "description", description), (lit "start", start),
      (lit "reviewed-controls",
        .dict [(lit "control-selections", .list [.dict [(lit "include-all", .dict [])]])]),
      (lit "observations", .list (findings.map Finding.observation)),
      (lit "risks", .list [.dict [
        (lit "uuid", .str (uuid (n + 2))), (lit "title", .str (lit "Control gaps")),
        (lit "description", .str (lit "Controls not satisfied or with insufficient evidence.")),
        (lit "statement", .str boundaryStatement), (lit "status", .str (lit "open"))]]),
      (lit "findings", .list (findings.map Finding.finding))]])])]

/-! ## SARIF -/

/-- `_SARIF_LEVEL`. -/
def sarifLevel : List (Str × Str) :=
  [(lit "not_satisfied", lit "error"), (lit "insufficient_evidence", lit "warning")]

/-- `_SARIF_LEVEL.get(v, "warning")`. -/
def sarifLevelOf : Val → Except PyErr Str
  | .str s => .ok ((sarifLevel.lookup s).getD (lit "warning"))
  | v => if v.hashable then .ok (lit "warning") else .error { kind := .typeError }

/-- `v[:300]`. -/
def first300 : Val → Except PyErr Val
  | .str s => .ok (.str (s.take 300))
  | .list vs => .ok (.list (vs.take 300))
  | .tuple vs => .ok (.tuple (vs.take 300))
  | _ => .error { kind := .typeError }

/-- A rule and the result that breaks it. -/
structure RuleResult where
  rule : Val
  result : Val

/-- The rule of a control, and the result that breaks it. -/
def ruleResult (controlId title requirement url : Val) (level text : Str) : RuleResult where
  rule := .dict [(lit "id", controlId), (lit "name", title),
    (lit "shortDescription", .dict [(lit "text", requirement)]), (lit "helpUri", url)]
  result := .dict [(lit "ruleId", controlId), (lit "level", .str level),
    (lit "message", .dict [(lit "text", .str text)]),
    (lit "locations", .list [.dict [(lit "logicalLocations",
      .list [.dict [(lit "name", controlId), (lit "kind", .str (lit "control"))]])]])]

/-- The loop body of `to_sarif`; nothing for a control that is satisfied. -/
def sarifResult (I : Interpreter) (control : Val) : Except PyErr (Option RuleResult) := do
  let status ← control.getItem (lit "status")
  if status.eq (.str (lit "satisfied")) then return none
  let controlId ← control.getItem (lit "control_id")
  let title ← control.getItem (lit "title")
  let requirement ← control.getItem (lit "requirement") >>= first300
  let citation ← control.getD (lit "citation") .null
  let url ← (citation.orElse (.dict [])).getD (lit "url") .null
  let level ← sarifLevelOf status
  let statusText ← I.str status
  let reasonText ← control.getItem (lit "reason") >>= I.str
  return some (ruleResult controlId title requirement url level (statusText ++ lit ": " ++ reasonText))

/-- `_SARIF_SCHEMA`. -/
def sarifSchema : Str :=
  lit "https://docs.oasis-open.org/sarif/sarif/v2.1.0/errata01/os/schemas/sarif-schema-2.1.0.json"

/-- `to_sarif`. -/
def toSarif (I : Interpreter) (report : Items) : Except PyErr Val := do
  let controls ← (Val.dict report).getItem (lit "controls") >>= iter
  let found ← controls.mapM (sarifResult I)
  let results := found.reduceOption
  return .dict [(lit "$schema", .str sarifSchema), (lit "version", .str (lit "2.1.0")),
    (lit "runs", .list [.dict [
      (lit "tool", .dict [(lit "driver", .dict [(lit "name", .str (lit "openwright")),
        (lit "version", .str toolVersion),
        (lit "informationUri", .str (lit "https://github.com/allthingsN/openwright")),
        (lit "fullDescription", .dict [(lit "text", .str boundaryStatement)]),
        (lit "rules", .list (results.map RuleResult.rule))])]),
      (lit "results", .list (results.map RuleResult.result)),
      (lit "properties",
        .dict [(lit "openwright_boundary_statement", .str boundaryStatement)])]])]

/-! ## Reading the exports -/

/-- A control and what was found of it. -/
abbrev Verdict := Str × ControlStatus

/-- `v[k]` and so on, along a path. -/
def at? (v : Val) (path : List String) : Option Val :=
  path.foldlM (fun w k => w.item? (lit k)) v

/-- The elements of a list. -/
def elements? : Val → Option (List Val)
  | .list vs => some vs
  | _ => none

/-- What an OSCAL status says. -/
def statusOfOscal (state reason : Val) : Option ControlStatus :=
  if state.same (.str (lit "satisfied")) then some .satisfied
  else if reason.same (.str (lit "fail")) then some .notSatisfied
  else if reason.same (.str (lit "other")) then some .insufficientEvidence
  else none

/-- What a finding says. -/
def verdictOfFinding (finding : Val) : Option Verdict :=
  match at? finding ["target", "target-id"], at? finding ["target", "status", "state"],
    at? finding ["target", "status", "reason"] with
  | some (.str controlId), some state, some reason =>
    (statusOfOscal state reason).map fun status => (controlId, status)
  | _, _, _ => none

/-- What OSCAL assessment results say. -/
def oscalVerdicts (doc : Val) : Option (List Verdict) := do
  let results ← at? doc ["assessment-results", "results"] >>= elements?
  let findings ← results.mapM fun result => at? result ["findings"] >>= elements?
  findings.flatten.mapM verdictOfFinding

/-- What a SARIF result says. -/
def verdictOfResult (result : Val) : Option Verdict :=
  match at? result ["ruleId"], at? result ["level"] with
  | some (.str controlId), some level =>
    if level.same (.str (lit "error")) then some (controlId, .notSatisfied)
    else if level.same (.str (lit "warning")) then some (controlId, .insufficientEvidence)
    else none
  | _, _ => none

/-- What SARIF findings say. -/
def sarifVerdicts (doc : Val) : Option (List Verdict) := do
  let runs ← at? doc ["runs"] >>= elements?
  let results ← runs.mapM fun run => at? run ["results"] >>= elements?
  results.flatten.mapM verdictOfResult

/-- The ids of the rules that SARIF findings declare. -/
def sarifRules (doc : Val) : Option (List Val) := do
  let runs ← at? doc ["runs"] >>= elements?
  let rules ← runs.mapM fun run => at? run ["tool", "driver", "rules"] >>= elements?
  rules.flatten.mapM fun rule => at? rule ["id"]

/-- What was found of a control. -/
def verdict (r : ControlResult) : Verdict := (r.controlId, r.status)

/-! ## The exports of a control -/

section Control

variable (I : Interpreter)

/-- The id of a dumped result, -/
theorem getItem_controlId (r : ControlResult) :
    r.dump.getItem (lit "control_id") = .ok (.str r.controlId) := getItem_eq_ok rfl

/-- its title, -/
theorem getItem_title (r : ControlResult) : r.dump.getItem (lit "title") = .ok (.str r.title) :=
  getItem_eq_ok rfl

/-- its status, -/
theorem getItem_status (r : ControlResult) :
    r.dump.getItem (lit "status") = .ok (.str r.status.value) := getItem_eq_ok rfl

/-- and its requirement. -/
theorem getItem_requirement (r : ControlResult) :
    r.dump.getItem (lit "requirement") = .ok (.str r.requirement) := getItem_eq_ok rfl

/-- The reason of a control is a string. -/
theorem str_reason (r : ControlResult) : (r.dump.getItem (lit "reason") >>= I.str) = .ok r.reason :=
  bind_eq_ok.mpr ⟨.str r.reason, getItem_eq_ok rfl, rfl⟩

/-- A finding says what was found of its control. -/
theorem oscalFinding_dump (uuid : Nat → Str) (now : Val) (r : ControlResult) (i : Nat) :
    ∃ f, oscalFinding I uuid now (r.dump, i) = .ok f ∧
      verdictOfFinding f.finding = some (verdict r) := by
  obtain ⟨state, reason, hstate, hread⟩ : ∃ state reason,
      oscalStateOf (.str r.status.value) = .ok (state, reason) ∧
        statusOfOscal (.str state) (.str reason) = some r.status := by
    cases r.status with
    | satisfied => exact ⟨lit "satisfied", lit "pass", by decide, by decide⟩
    | notSatisfied => exact ⟨lit "not-satisfied", lit "fail", by decide, by decide⟩
    | insufficientEvidence => exact ⟨lit "not-satisfied", lit "other", by decide, by decide⟩
  rw [oscalFinding]
  dsimp only
  rw [getItem_title, str_reason, getItem_status, getItem_requirement, getItem_controlId]
  refine ⟨_, bind_eq_ok.mpr ⟨_, rfl, bind_eq_ok.mpr ⟨_, rfl, bind_eq_ok.mpr ⟨_, rfl, bind_eq_ok.mpr
    ⟨_, rfl, bind_eq_ok.mpr ⟨_, hstate, rfl⟩⟩⟩⟩⟩, ?_⟩
  change (statusOfOscal (.str state) (.str reason)).map (fun status => (r.controlId, status)) = _
  rw [hread]
  rfl

/-- The findings of controls, in their order. -/
theorem oscalFindings_dump (uuid : Nat → Str) (now : Val) (rs : List ControlResult) (i : Nat) :
    ∃ fs, ((rs.map ControlResult.dump).zipIdx i).mapM (oscalFinding I uuid now) = .ok fs ∧
      (fs.map Finding.finding).mapM verdictOfFinding = some (rs.map verdict) := by
  induction rs generalizing i with
  | nil => exact ⟨[], rfl, rfl⟩
  | cons r rs ih =>
      obtain ⟨f, hf, hverdict⟩ := oscalFinding_dump I uuid now r i
      obtain ⟨fs, hfs, hverdicts⟩ := ih (i + 1)
      refine ⟨f :: fs, ?_, ?_⟩
      · rw [List.map_cons, List.zipIdx_cons, List.mapM_cons, hf, hfs]
        rfl
      · rw [List.map_cons, List.mapM_cons, hverdict, hverdicts]
        rfl

/-- Nothing is exported of a control that is satisfied. -/
theorem sarifResult_satisfied {r : ControlResult} (h : r.status = .satisfied) :
    sarifResult I r.dump = .ok none := by
  rw [sarifResult, getItem_status, h]
  rfl

/-- A result says what was found of its control, and breaks the rule of the control. -/
theorem sarifResult_dump {r : ControlResult} (h : r.status ≠ .satisfied) :
    ∃ f, sarifResult I r.dump = .ok (some f) ∧ verdictOfResult f.result = some (verdict r) ∧
      at? f.rule ["id"] = some (.str r.controlId) := by
  have hrequirement : (r.dump.getItem (lit "requirement") >>= first300)
      = .ok (.str (r.requirement.take 300)) := by
    rw [getItem_requirement]
    rfl
  -- the citation of a dump is a dictionary, whether the control had one or not
  have hcitation : r.dump.getD (lit "citation") .null = .ok (.dict (jsonModeItems r.citation)) :=
    getD_eq_ok rfl _
  obtain ⟨url, hurl⟩ : ∃ url, ((Val.dict (jsonModeItems r.citation)).orElse (.dict [])).getD
      (lit "url") .null = .ok url := by
    rw [orElse]
    split
    · exact ⟨_, rfl⟩
    · exact ⟨_, rfl⟩
  -- an unsatisfied status has a level, and the level is read back as the status
  obtain ⟨level, hne, hlevel, hread⟩ : ∃ level,
      (Val.str r.status.value).eq (.str (lit "satisfied")) = false ∧
      sarifLevelOf (.str r.status.value) = .ok level ∧
        (if (Val.str level).same (.str (lit "error")) then some (r.controlId, ControlStatus.notSatisfied)
        else if (Val.str level).same (.str (lit "warning")) then
          some (r.controlId, ControlStatus.insufficientEvidence) else none) = some (verdict r) := by
    rw [verdict]
    cases hr : r.status with
    | satisfied => exact absurd hr h
    | notSatisfied => exact ⟨lit "error", by decide, by decide, if_pos (by decide)⟩
    | insufficientEvidence =>
        exact ⟨lit "warning", by decide, by decide, (if_neg (by decide)).trans (if_pos (by decide))⟩
  rw [sarifResult, getItem_status, getItem_controlId, getItem_title, hrequirement, hcitation, str_reason]
  refine ⟨ruleResult (.str r.controlId) (.str r.title) (.str (r.requirement.take 300)) url level
    (r.status.value ++ lit ": " ++ r.reason), bind_eq_ok.mpr ⟨_, rfl, ?_⟩, hread, rfl⟩
  rw [hne]
  exact bind_eq_ok.mpr ⟨_, rfl, bind_eq_ok.mpr ⟨_, rfl, bind_eq_ok.mpr ⟨_, rfl, bind_eq_ok.mpr ⟨_, rfl,
    bind_eq_ok.mpr ⟨url, hurl, bind_eq_ok.mpr ⟨level, hlevel, rfl⟩⟩⟩⟩⟩⟩

/-- The controls that are not satisfied. -/
def unsatisfied (rs : List ControlResult) : List ControlResult :=
  rs.filter fun r => r.status ≠ .satisfied

/-- The results of controls, in their order. -/
theorem sarifResults_dump (rs : List ControlResult) :
    ∃ found, (rs.map ControlResult.dump).mapM (sarifResult I) = .ok found ∧
      ((found.reduceOption).map RuleResult.result).mapM verdictOfResult
        = some ((unsatisfied rs).map verdict) ∧
      ((found.reduceOption).map RuleResult.rule).mapM (fun rule => at? rule ["id"])
        = some ((unsatisfied rs).map fun r => .str r.controlId) := by
  induction rs with
  | nil => exact ⟨[], rfl, rfl, rfl⟩
  | cons r rs ih =>
      obtain ⟨found, hfound, hverdicts, hrules⟩ := ih
      -- a satisfied control gives no result, and is no unsatisfied one
      by_cases hr : r.status = .satisfied
      · refine ⟨none :: found, ?_, ?_, ?_⟩
        · rw [List.map_cons, List.mapM_cons, sarifResult_satisfied I hr, hfound]
          rfl
        · rw [unsatisfied, List.filter_cons_of_neg (by simp [hr])]
          exact hverdicts
        · rw [unsatisfied, List.filter_cons_of_neg (by simp [hr])]
          exact hrules
      · obtain ⟨f, hf, hverdict, hrule⟩ := sarifResult_dump I hr
        refine ⟨some f :: found, ?_, ?_, ?_⟩
        · rw [List.map_cons, List.mapM_cons, hf, hfound]
          rfl
        · rw [unsatisfied, List.filter_cons_of_pos (by simp [hr]), List.reduceOption_cons_of_some,
            List.map_cons, List.mapM_cons, hverdict, hverdicts]
          rfl
        · rw [unsatisfied, List.filter_cons_of_pos (by simp [hr]), List.reduceOption_cons_of_some,
            List.map_cons, List.mapM_cons, hrule, hrules]
          rfl

end Control

/-! ## The exports of a report -/

section Report

variable {cr : CrosswalkResult} {key : Signing.KeySource} {options : ReportOptions} {env : ReportEnv}
  {c : Signing.Checkpoint} {entries : List ReportEntry} {report : Items} (I : Interpreter)

/-- The controls of a report are those of its result. -/
theorem controls_of_assembleReport (h : assembleReport cr key options env c entries = .ok report) :
    ((Val.dict report).getItem (lit "controls") >>= iter) = .ok (cr.controls.map ControlResult.dump) := by
  obtain ⟨gaps, reportId, generatedAt, pemText, payload, signature, -, -, -, -, rfl⟩ :=
    assembleReport_eq_ok h
  exact bind_eq_ok.mpr ⟨_, getItem_eq_ok rfl, rfl⟩

/-- A report is exported as OSCAL. -/
theorem exists_toOscal (uuid : Nat → Str) (h : assembleReport cr key options env c entries = .ok report) :
    ∃ doc, toOscal I uuid report = .ok doc ∧ oscalVerdicts doc = some (cr.controls.map verdict) := by
  have hcontrols := controls_of_assembleReport h
  obtain ⟨gaps, reportId, generatedAt, pemText, payload, signature, -, -, -, -, rfl⟩ :=
    assembleReport_eq_ok h
  obtain ⟨fs, hfs, hverdicts⟩ := oscalFindings_dump I uuid (.str generatedAt) cr.controls 0
  rw [toOscal, hcontrols]
  refine ⟨_, bind_eq_ok.mpr ⟨.str generatedAt, getItem_eq_ok rfl, bind_eq_ok.mpr ⟨_, rfl,
    bind_eq_ok.mpr ⟨fs, hfs, bind_eq_ok.mpr ⟨cr.block, getItem_eq_ok rfl, bind_eq_ok.mpr
    ⟨cr.crosswalkTitle, bind_eq_ok.mpr ⟨_, getItem_eq_ok rfl, rfl⟩,
    bind_eq_ok.mpr ⟨_, getItem_eq_ok rfl, bind_eq_ok.mpr ⟨_, getItem_eq_ok rfl,
    bind_eq_ok.mpr ⟨_, getItem_eq_ok rfl, bind_eq_ok.mpr ⟨_, rfl, rfl⟩⟩⟩⟩⟩⟩⟩⟩⟩, ?_⟩
  change (([fs.map Finding.finding] : List (List Val)).flatten).mapM verdictOfFinding = _
  rw [List.flatten_singleton]
  exact hverdicts

/-- A report is exported as SARIF. -/
theorem exists_toSarif (h : assembleReport cr key options env c entries = .ok report) :
    ∃ doc, toSarif I report = .ok doc ∧
      sarifVerdicts doc = some ((unsatisfied cr.controls).map verdict) ∧
      sarifRules doc = some ((unsatisfied cr.controls).map fun r => .str r.controlId) := by
  obtain ⟨found, hfound, hverdicts, hrules⟩ := sarifResults_dump I cr.controls
  rw [toSarif, controls_of_assembleReport h]
  refine ⟨_, bind_eq_ok.mpr ⟨_, rfl, bind_eq_ok.mpr ⟨found, hfound, rfl⟩⟩, ?_, ?_⟩
  · change (([(found.reduceOption).map RuleResult.result] : List (List Val)).flatten).mapM
      verdictOfResult = _
    rw [List.flatten_singleton]
    exact hverdicts
  · change (([(found.reduceOption).map RuleResult.rule] : List (List Val)).flatten).mapM
      (fun rule => at? rule ["id"]) = _
    rw [List.flatten_singleton]
    exact hrules

end Report

/-- **Exports keep the three states.** Every report that `build_report` returns is exported, as OSCAL
and as SARIF. The findings of the first say, control by control in their order, what the report says:
satisfied, not satisfied, or not enough evidence. The results of the second say it of the controls that
are not satisfied and of no others, each under a rule that the document declares. -/
theorem exports_of_buildReport {σ : Type} (B : LedgerBackend σ) (reload : Reload) (l : Ledger σ)
    (cr : CrosswalkResult) (key : Signing.KeySource) (options : ReportOptions) (env : ReportEnv)
    (I : Interpreter) (uuid : Nat → Str) {report : Items}
    (h : buildReport B reload l cr key options env = .ok report) :
    ∃ oscal sarif, toOscal I uuid report = .ok oscal ∧ toSarif I report = .ok sarif ∧
      oscalVerdicts oscal = some (cr.controls.map verdict) ∧
      sarifVerdicts sarif = some ((unsatisfied cr.controls).map verdict) ∧
      sarifRules sarif = some ((unsatisfied cr.controls).map fun r => .str r.controlId) := by
  unfold buildReport at h
  obtain ⟨-, -, h⟩ := bind_eq_ok.mp h
  obtain ⟨c, -, h⟩ := bind_eq_ok.mp h
  obtain ⟨entries, -, h⟩ := bind_eq_ok.mp h
  obtain ⟨oscal, hoscal, hfindings⟩ := exists_toOscal I uuid h
  obtain ⟨sarif, hsarif, hresults, hrules⟩ := exists_toSarif I h
  exact ⟨oscal, sarif, hoscal, hsarif, hfindings, hresults, hrules⟩

/-- The sample report is exported with a control of each state, two of which SARIF lists. -/
theorem exports_of_buildReport_sample : ∃ report oscal sarif,
    buildReport inMemoryLedgerBackend sampleReload threeLedger sampleResult
        (Signing.madeKey Signing.sampleKey sampleMade) sampleOptions sampleEnv = .ok report ∧
      sampleResult.controls.map (·.status) = [.satisfied, .notSatisfied, .insufficientEvidence] ∧
      toOscal sampleInterpreter (fun _ => lit "u") report = .ok oscal ∧
      toSarif sampleInterpreter report = .ok sarif ∧
      oscalVerdicts oscal = some (sampleResult.controls.map verdict) ∧
      sarifVerdicts sarif = some ((sampleResult.controls.drop 1).map verdict) ∧
      sarifRules sarif = some [.str (lit "oversight"), .str (lit "incidents")] := by
  obtain ⟨report, hreport⟩ := exists_sampleReport
  obtain ⟨oscal, sarif, hoscal, hsarif, hfindings, hresults, hrules⟩ :=
    exports_of_buildReport _ _ _ _ _ _ _ sampleInterpreter (fun _ => lit "u") hreport
  have hunsatisfied : unsatisfied sampleResult.controls = sampleResult.controls.drop 1 := by
    simp [unsatisfied, sampleResult]
  rw [hunsatisfied] at hresults hrules
  exact ⟨report, oscal, sarif, hreport, rfl, hoscal, hsarif, hfindings, hresults, hrules⟩

end OpenWright.Exports
