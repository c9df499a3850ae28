import OpenWright.Runtime

/-! # The gate of a pipeline

`openwright gate` verifies a report and lets a build pass where the controls it requires are
satisfied. Without a list of required controls it requires those that the report itself lists, and
the deep verification compares these alone with the verdicts it derives.

* **`gate_satisfied`** — a report that passes shows that every control of its crosswalk is satisfied
  exactly where it lists those that would not be.
* **`gate_passes`** — the producer who lists the satisfied controls only always passes. -/

namespace OpenWright

open Python Python.Val Canonical Signing

namespace Verify

/-! ## The command -/

/-- An item of `statuses`. -/
def statusItem (control : Val) : Except PyErr (Val × Val) := do
  let cid ← control.getItem (lit "control_id")
  let status ← control.getItem (lit "status")
  if cid.hashable then .ok (cid, status) else .error { kind := .typeError }

/-- `statuses`: the items in the order of the list; the last one of a key counts. -/
def gateStatuses (report : Items) : Except PyErr (List (Val × Val)) := do
  let controls ← (Val.dict report).getItem (lit "controls")
  let items ← controls.iter
  items.mapM statusItem

/-- `statuses.get(cid)`. -/
def statusOf (statuses : List (Val × Val)) (cid : Val) : Val :=
  ((statuses.reverse.find? fun kv => kv.1.eq cid).map (·.2)).getD .null

/-- `require or [cid for cid in statuses]`. -/
def requiredControls (require : List Str) (statuses : List (Val × Val)) : List Val :=
  if require = [] then statuses.map (·.1) else require.map .str

/-- The exit code of `gate`, without a SARIF file. -/
def gate (ed : Ed25519) (pem : PemReader) (builtins : Builtins) (reload : Reload) (report : Items)
    (require : List Str) (trusted : Option Bytes) (deep : Bool) : Except PyErr Nat := do
  let res ←
    if deep then verifyReportDeep ed pem builtins reload report trusted none
    else verifyReport ed pem report trusted
  if res.valid = false then return 2
  else do
    -- nothing of a report is gated that is not valid
    let statuses ← gateStatuses report
    let failures := (requiredControls require statuses).filter fun cid =>
      !(statusOf statuses cid).eq (.str (lit "satisfied"))
    if failures = [] then return 0 else return 1

/-! ## Passing -/

variable {ed : Ed25519} {pem : PemReader} {builtins : Builtins} {reload : Reload} {report : Items}
  {require : List Str} {trusted : Option Bytes}

/-- The report lists a control under an id. -/
def Lists (report : Items) (id : Str) : Prop :=
  ∃ controls, (reportControls report).iter = .ok controls ∧
    ∃ control ∈ controls, ∃ cid, control.getD (lit "control_id") .null = .ok cid ∧
      (Val.str id).eq cid = true

/-- A gate that exits 0 has found the report valid, and every required control satisfied. -/
theorem gate_eq_zero (h : gate ed pem builtins reload report require trusted true = .ok 0) :
    ∃ res statuses, verifyReportDeep ed pem builtins reload report trusted none = .ok res ∧
      res.valid = true ∧ gateStatuses report = .ok statuses ∧
      ∀ cid ∈ requiredControls require statuses,
        (statusOf statuses cid).eq (.str (lit "satisfied")) = true := by
  rw [gate, if_pos rfl] at h
  obtain ⟨res, hres, h⟩ := bind_eq_ok.mp h
  dsimp only at h
  split at h
  · cases h
  · rename_i hvalid
    rw [Bool.not_eq_false] at hvalid
    obtain ⟨statuses, hstatuses, h⟩ := bind_eq_ok.mp h
    split at h
    · rename_i hnone
      refine ⟨res, statuses, hres, hvalid, hstatuses, fun cid hcid => ?_⟩
      have := List.filter_eq_nil_iff.mp hnone cid hcid
      rwa [Bool.not_eq_true', Bool.not_eq_false] at this
    · cases h

/-- The items of `statuses` come from the controls of the report. -/
theorem gateStatuses_eq_ok {statuses : List (Val × Val)} {controls : List Val}
    (hcontrols : (reportControls report).iter = .ok controls)
    (h : gateStatuses report = .ok statuses) : controls.mapM statusItem = .ok statuses := by
  rw [gateStatuses] at h
  obtain ⟨v, hv, hrest⟩ := bind_eq_ok.mp h
  obtain ⟨items, hitems, hmap⟩ := bind_eq_ok.mp hrest
  have hv' : reportControls report = v := by
    rw [getItem] at hv
    split at hv
    · rename_i w hw
      rw [reportControls, hw, ← Except.ok.inj hv]
      rfl
    · cases hv
  rw [← hv', hcontrols, Except.ok.injEq] at hitems
  rw [hitems]
  exact hmap

/-- An item of `statuses` has the id and the status that the deep verification reads. -/
theorem statusItem_eq_ok {control cid status : Val} (h : statusItem control = .ok (cid, status)) :
    control.getD (lit "control_id") .null = .ok cid ∧
      control.getD (lit "status") .null = .ok status := by
  rw [statusItem] at h
  obtain ⟨cid', hcid, h⟩ := bind_eq_ok.mp h
  obtain ⟨status', hstatus, h⟩ := bind_eq_ok.mp h
  split at h
  · obtain ⟨rfl, rfl⟩ := Prod.mk.inj (Except.ok.inj h)
    exact ⟨getD_of_getItem hcid _, getD_of_getItem hstatus _⟩
  · cases h

/-- The status of an id is that of an item with an equal id. -/
theorem exists_of_statusOf {statuses : List (Val × Val)} {cid : Val}
    (h : (statusOf statuses cid).eq (.str (lit "satisfied")) = true) :
    ∃ kv ∈ statuses, kv.1.eq cid = true ∧ kv.2.eq (.str (lit "satisfied")) = true := by
  rw [statusOf] at h
  cases hfind : statuses.reverse.find? fun kv => kv.1.eq cid with
  | none =>
      rw [hfind] at h
      exact absurd h (by decide)
  | some kv =>
      rw [hfind] at h
      have hsame := List.find?_some hfind
      exact ⟨kv, List.mem_reverse.mp (List.mem_of_find?_eq_some hfind), hsame, h⟩

/-- The status `satisfied` is told by its value. -/
theorem status_of_value {status : ControlStatus} (h : status.value = lit "satisfied") :
    status = .satisfied := by
  revert h
  cases status <;> decide

/-- A control that the report lists has the status that the gate requires. -/
theorem status_of_lists {results : List ControlResult} {statuses : List (Val × Val)}
    {controls : List Val} (hnodup : (results.map (·.controlId)).Nodup)
    (hcontrols : (reportControls report).iter = .ok controls)
    (hitems : controls.mapM statusItem = .ok statuses)
    (hagrees : ∀ control ∈ controls, Agrees results control)
    (hsatisfied : ∀ cid ∈ requiredControls [] statuses,
      (statusOf statuses cid).eq (.str (lit "satisfied")) = true)
    {r : ControlResult} (hr : r ∈ results) (hlists : Lists report r.controlId) :
    r.status = .satisfied := by
  obtain ⟨controls', hcontrols', control, hcontrol, cid, hread, heq⟩ := hlists
  obtain rfl : controls = controls' := Except.ok.inj (hcontrols.symm.trans hcontrols')
  have hkey : key cid = key (.str r.controlId) := (key_eq_of_eq heq).symm
  obtain ⟨⟨cid', status⟩, hitem, hstatus⟩ := exists_right_of_mem (mapM_eq_ok.mp hitems) hcontrol
  obtain rfl : cid' = cid := Except.ok.inj ((statusItem_eq_ok hstatus).1.symm.trans hread)
  -- the last item of its id is satisfied, and agrees with the verdict that is derived
  obtain ⟨kv, hkv, hsame, hvalue⟩ := exists_of_statusOf (hsatisfied cid' (by
    rw [requiredControls, if_pos rfl]
    exact List.mem_map_of_mem hitem))
  obtain ⟨control₂, hcontrol₂, hitem₂⟩ := exists_of_mem_mapM hitems hkv
  obtain ⟨hread₂, hwant₂⟩ := statusItem_eq_ok hitem₂
  obtain ⟨cid₂, want, derived, hcid₂, hwant, hderived, hagree⟩ := hagrees control₂ hcontrol₂
  rw [hread₂, Except.ok.injEq] at hcid₂
  rw [hwant₂, Except.ok.injEq] at hwant
  subst hcid₂ hwant
  rw [recomputed_congr ((key_eq_of_eq hsame).trans hkey), recomputed_of_mem hnodup hr,
    Except.ok.injEq, Option.some.injEq] at hderived
  subst hderived
  have hend := (key_eq_of_eq hagree).trans (key_eq_of_eq hvalue)
  rw [key, key, Val.str.injEq] at hend
  exact status_of_value hend

/-- **What a passing gate shows.** Without a list of required controls, a report that deep-verifies and
passes is pinned to a crosswalk that evaluates over the disclosed events. Where the controls of the
crosswalk have distinct ids, all of them are satisfied if and only if those are that the report does
not list. -/
theorem gate_satisfied (h : gate ed pem builtins reload report [] trusted true = .ok 0) :
    ∃ cw dicts result, Pinned builtins none report cw ∧ reloadEvents reload report = .ok dicts ∧
      cw.evaluate dicts = .ok result ∧ ((cw.controls.map (·.id)).Nodup →
        ((∀ r ∈ result.controls, r.status = .satisfied) ↔
          ∀ r ∈ result.controls, Lists report r.controlId ∨ r.status = .satisfied)) := by
  obtain ⟨res, statuses, hres, hvalid, hstatuses, hsatisfied⟩ := gate_eq_zero h
  obtain ⟨cw, hpinned, dicts, result, controls, hdicts, hresult, hcontrols, hagrees⟩ :=
    verifyReportDeep_valid hres hvalid
  refine ⟨cw, dicts, result, hpinned, hdicts, hresult, fun hnodup => ?_⟩
  rw [← Crosswalk.evaluate_ids hresult] at hnodup
  constructor
  · intro hall r hr
    exact Or.inr (hall r hr)
  · intro hall r hr
    rcases hall r hr with hlists | hstatus
    · exact status_of_lists hnodup hcontrols (gateStatuses_eq_ok hcontrols hstatuses) hagrees
        hsatisfied hr hlists
    · exact hstatus

/-! ## Leaving controls out -/

/-- **The producer who lists the satisfied controls only always passes**, whatever the others come
to. -/
theorem gate_passes {key : KeySource} {records : List Val} {leaves : List Bytes} {cw : Crosswalk}
    {cr : CrosswalkResult} {options : ReportOptions} {env : ReportEnv} {c : Checkpoint}
    {entries : List ReportEntry} (hlog : Logged records leaves)
    (h : assembleReport { cr with controls := cr.controls.filter (·.status = .satisfied) } key options
      env c entries = .ok report)
    (hhead : SignedHead ed key.publicKeyRaw c.dump (Merkle.treeHash leaves) leaves.length)
    (hentries : List.Forall₂ (EntryOf records leaves) (List.range leaves.length) entries)
    (hids : (cw.controls.map (·.id)).Nodup)
    (hreload : ∀ record ∈ records, reload record = .ok record)
    (heval : cw.evaluate records = .ok cr)
    (hchoose : chooseCrosswalk builtins none cr.block = .ok (.ok cw))
    (hed : ∀ data sig, key.sign data = .ok sig → ed key.publicKeyRaw sig data = true)
    (hpem : ∀ raw text, env.publicKeyPem raw = .ok text → pem (.str text) = .ok raw) :
    gate ed pem builtins reload report [] (some key.publicKeyRaw) true = .ok 0 := by
  obtain ⟨res, hres, hvalid⟩ := verifyReportDeep_of_assemble hlog h (List.filter_subset_self _) hhead
    hentries hids hreload heval hchoose hed hpem
  obtain ⟨gaps, reportId, generatedAt, pemText, payload, signature, -, -, -, -, rfl⟩ :=
    assembleReport_eq_ok h
  generalize hkept : cr.controls.filter (·.status = .satisfied) = kept at hres
  have hitem : ∀ r ∈ kept, statusItem r.dump = .ok (.str r.controlId, .str (lit "satisfied")) := by
    intro r hr
    rw [← hkept, List.mem_filter, decide_eq_true_eq] at hr
    rw [show lit "satisfied" = r.status.value by rw [hr.2]; rfl]
    rfl
  have hstatuses : gateStatuses (unsignedReport { cr with controls := kept } options reportId
      generatedAt pemText c entries gaps ++ [(lit "signature", signatureBlock key signature)])
      = .ok (kept.map fun r => (.str r.controlId, .str (lit "satisfied"))) := by
    refine bind_eq_ok.mpr ⟨_, rfl, bind_eq_ok.mpr ⟨kept.map ControlResult.dump, rfl, ?_⟩⟩
    rw [mapM_eq_ok, List.forall₂_map_left_iff, List.forall₂_map_right_iff, List.forall₂_same]
    exact hitem
  -- whatever an id is looked up for, only one status is there
  have hstatusOf : ∀ cid ∈ kept.map fun r => Val.str r.controlId,
      statusOf (kept.map fun r => (.str r.controlId, .str (lit "satisfied"))) cid
        = .str (lit "satisfied") := by
    intro cid hcid
    obtain ⟨r, hr, rfl⟩ := List.mem_map.mp hcid
    rw [statusOf]
    have hsome : ((kept.map fun r => (Val.str r.controlId, Val.str (lit "satisfied"))).reverse.find?
        fun kv => kv.1.eq (.str r.controlId)).isSome = true :=
      List.find?_isSome.mpr
        ⟨_, List.mem_reverse.mpr (List.mem_map_of_mem hr), str_eq_self r.controlId⟩
    obtain ⟨kv, hkv⟩ := Option.isSome_iff_exists.mp hsome
    obtain ⟨r', -, hr'⟩ := List.mem_map.mp (List.mem_reverse.mp (List.mem_of_find?_eq_some hkv))
    rw [hkv, ← hr']
    rfl
  rw [gate, if_pos rfl, hres]
  refine bind_eq_ok.mpr ⟨res, rfl, ?_⟩
  dsimp only
  rw [if_neg (by rw [hvalid]; decide)]
  refine bind_eq_ok.mpr ⟨_, hstatuses, ?_⟩
  rw [requiredControls, if_pos rfl, List.map_map, if_pos]
  · rfl
  · refine List.filter_eq_nil_iff.mpr fun cid hcid => ?_
    rw [hstatusOf cid hcid, str_eq_self]
    decide

end Verify

/-! ## Two gates -/

open Verify

section Sample

variable {made : List (Bytes × Bytes)} {builtins : Builtins} {report : Items}

/-- The head of the sample ledger. -/
theorem signedHead_sample :
    SignedHead (madeBy sampleKey (sampleCheckpoint.signedAs sampleHeadSig :: made)) sampleKey
      sampleCheckpoint.dump (Merkle.treeHash [sampleLeaf]) 1 := by
  have htaken := @checkpoint_sampleLedger made
  have hroot : sampleLedger.tree.root = Merkle.treeHash [sampleLeaf] := by decide +kernel
  rw [Ledger.checkpoint, Ledger.snapshot, hroot] at htaken
  exact signedHead_of_signSnapshot (fun _ _ h => madeBy_of_sign h) htaken

/-- Its entry. -/
theorem entries_sample :
    List.Forall₂ (EntryOf [sampleRecord] [sampleLeaf]) (List.range 1) [sampleEntry] := by
  have hreload : ∀ record ∈ inMemoryLedgerBackend.records sampleLedger.store,
      sampleReload record = .ok record := by
    intro record hrecord
    rw [List.mem_singleton.mp hrecord]
    exact sampleReload_sampleRecord
  exact .cons (entryOf_reportEntry hreload (le_refl 1) Nat.zero_lt_one reportEntry_sampleLedger) .nil

/-- The report over the sample log that lists the satisfied controls passes. -/
theorem gate_sample {cw : Crosswalk} {cr : CrosswalkResult} {options : ReportOptions}
    (h : assembleReport { cr with controls := cr.controls.filter (·.status = .satisfied) }
      (madeKey sampleKey (sampleCheckpoint.signedAs sampleHeadSig :: made)) options sampleEnv
      sampleCheckpoint [sampleEntry] = .ok report)
    (hids : (cw.controls.map (·.id)).Nodup) (heval : cw.evaluate [sampleRecord] = .ok cr)
    (hlookup : builtins.lookup cw.id = some (.ok cw)) :
    gate (madeBy sampleKey (sampleCheckpoint.signedAs sampleHeadSig :: made)) samplePemReader builtins
      sampleReload report [] (some sampleKey) true = .ok 0 := by
  have hreload : ∀ record ∈ [sampleRecord], sampleReload record = .ok record := by
    intro record hrecord
    rw [List.mem_singleton.mp hrecord]
    exact sampleReload_sampleRecord
  exact gate_passes logged_sample h signedHead_sample entries_sample hids hreload heval
    (Runtime.chooseCrosswalk_builtin hlookup heval) (fun _ _ h => madeBy_of_sign h) samplePemReader_of

end Sample

/-- Two controls: events are recorded, and decisions are classified. -/
def gateCrosswalk : Crosswalk where
  id := lit "demo"
  title := lit "Demo"
  version := lit "1.0.0"
  source := lit "internal policy"
  reviewedAsOf := lit "2026-01-01"
  controls := [
    { id := lit "records", title := lit "Records", requirement := lit "Events are recorded.",
      citation := policyCitation,
      condition := .mk (lit "committed") none none .null none none [] },
    { id := lit "risk", title := lit "Risk", requirement := lit "Decisions are classified.",
      citation := policyCitation, scope := { kind := some [lit "agent_decision"] },
      condition := .mk (lit "field") (some (lit "risk.classification")) (some (lit "exists")) .null
        none none [] }]

/-- The sample decision satisfies both. -/
def gateResult : CrosswalkResult where
  crosswalkId := lit "demo"
  crosswalkTitle := lit "Demo"
  crosswalkVersion := lit "1.0.0"
  crosswalkContentHash := (crosswalkContentHash gateCrosswalk).toOption
  source := lit "internal policy"
  reviewedAsOf := lit "2026-01-01"
  controls := [
    { controlId := lit "records", title := lit "Records", status := .satisfied,
      requirement := lit "Events are recorded.", citation := policyCitation,
      reason := lit "All 1 in-scope event(s) satisfied the required predicate.",
      evaluatedCount := 1, satisfiedCount := 1,
      evidenceEventIds := [.str (lit "evt_19e720c5a36bc08eec958330a7c88197cf94569d")] },
    { controlId := lit "risk", title := lit "Risk", status := .satisfied,
      requirement := lit "Decisions are classified.", citation := policyCitation,
      reason := lit "All 1 in-scope event(s) satisfied the required predicate.",
      evaluatedCount := 1, satisfiedCount := 1,
      evidenceEventIds := [.str (lit "evt_19e720c5a36bc08eec958330a7c88197cf94569d")] }]

/-- The producer's signature of the report on the decision. -/
def gateSig : Bytes :=
  [249, 84, 55, 246, 45, 249, 175, 24, 55, 143, 189, 73, 148, 95, 77, 90, 223, 110, 177, 98, 63, 174,
    191, 40, 181, 135, 179, 97, 125, 241, 230, 110, 86, 225, 122, 141, 238, 127, 63, 9, 80, 70, 21, 75,
    214, 206, 144, 166, 253, 177, 143, 220, 56, 172, 118, 217, 181, 50, 50, 210, 246, 213, 159, 15]

/-- The two signatures the producer makes: of the head and of the report. -/
def gateMade : List (Bytes × Bytes) :=
  [sampleCheckpoint.signedAs sampleHeadSig,
    ((signingPayload (agentReport gateResult sampleCheckpoint [sampleEntry])).toOption.getD [], gateSig)]

/-- The built-in crosswalk of the sample. -/
def sampleBuiltins : Builtins := [(lit "demo", .ok gateCrosswalk)]

/-- The crosswalk is encodable. -/
theorem encodable_gateCrosswalk : Encodable gateCrosswalk.dump := by
  simp [gateCrosswalk, policyCitation, Crosswalk.dump, Control.dump, EventFilter.dump, Condition.dump,
    Condition.dumpList, Canonical.Encodable, EncodableItems, EncodableList, ifSet, strings, jsonMode,
    jsonModeItems, jsonModeList, EmptyScopePolicy.value]

/-- The decision satisfies both controls. -/
theorem evaluate_gateCrosswalk : gateCrosswalk.evaluate [sampleRecord] = .ok gateResult := by
  have hcontrols : gateCrosswalk.controlResults [sampleRecord] = .ok gateResult.controls :=
    eq_ok_of_toOption (by decide +kernel)
  obtain ⟨hash, hhash, -⟩ := exists_contentHash encodable_gateCrosswalk
  rw [Crosswalk.evaluate, hcontrols]
  refine bind_eq_ok.mpr ⟨_, rfl, ?_⟩
  rw [gateResult, crosswalkContentHash, hhash]
  rfl

/-- The sample report lists its two controls, and passes. -/
theorem exists_gate_sample : ∃ report,
    gate (madeBy sampleKey gateMade) samplePemReader sampleBuiltins sampleReload report []
        (some sampleKey) true = .ok 0 ∧ Lists report (lit "records") ∧ Lists report (lit "risk") := by
  -- both controls can be written, so the report can be signed
  have hcontrols : ∀ r ∈ gateResult.controls, Encodable r.dump := by
    simp only [gateResult, List.mem_cons, List.not_mem_nil, or_false]
    rintro r (rfl | rfl) <;> refine encodable_jsonMode ?_ <;>
      simp [Canonical.Encodable, EncodableItems, EncodableList, ControlStatus.value, policyCitation]
  have hblock : Encodable gateResult.block := encodable_block encodable_gateCrosswalk
    (by rw [gateResult]) (by simp [gateResult, CrosswalkResult.block, Canonical.Encodable, EncodableItems,
      optStr])
  obtain ⟨signature, hassemble⟩ := exists_agentReport hblock hcontrols
    (encodable_sampleHead 1 sampleLeaf sampleHeadSig) encodable_sampleEntry select_sampleEntry
    (List.mem_cons_of_mem _ List.mem_cons_self : _ ∈ gateMade)
  -- both are satisfied, so the report lists them
  have hkept : gateResult.controls.filter (·.status = .satisfied) = gateResult.controls := by
    simp [gateResult]
  have hall : ∀ cr : CrosswalkResult, cr.controls.filter (·.status = .satisfied) = cr.controls →
      { cr with controls := cr.controls.filter (·.status = .satisfied) } = cr := by
    intro cr h
    rw [h]
  have hbuild : assembleReport { gateResult with
      controls := gateResult.controls.filter (·.status = .satisfied) } (madeKey sampleKey gateMade)
      sampleOptions sampleEnv sampleCheckpoint [sampleEntry]
      = .ok (agentReport gateResult sampleCheckpoint [sampleEntry]
        ++ [(lit "signature", signatureBlock (madeKey sampleKey gateMade) signature)]) := by
    rw [hall gateResult hkept]
    exact hassemble
  exact ⟨_, gate_sample hbuild (by decide) evaluate_gateCrosswalk List.lookup_cons_self,
    ⟨_, rfl, _, List.mem_cons_self, .str (lit "records"), rfl, str_eq_self _⟩,
    ⟨_, rfl, _, List.mem_cons_of_mem _ List.mem_cons_self, .str (lit "risk"), rfl, str_eq_self _⟩⟩

/-- A gate that passes shows that both controls are satisfied. -/
theorem gate_satisfied_sample : ∃ report cw dicts result,
    gate (madeBy sampleKey gateMade) samplePemReader sampleBuiltins sampleReload report []
        (some sampleKey) true = .ok 0 ∧ Lists report (lit "records") ∧ Lists report (lit "risk") ∧
      Pinned sampleBuiltins none report cw ∧ reloadEvents sampleReload report = .ok dicts ∧
      cw.evaluate dicts = .ok result ∧ ((cw.controls.map (·.id)).Nodup →
        ((∀ r ∈ result.controls, r.status = .satisfied) ↔
          ∀ r ∈ result.controls, Lists report r.controlId ∨ r.status = .satisfied)) := by
  obtain ⟨report, hgate, hrecords, hrisk⟩ := exists_gate_sample
  obtain ⟨cw, dicts, result, hpinned, hdicts, hresult, h⟩ := gate_satisfied hgate
  exact ⟨report, cw, dicts, result, hgate, hrecords, hrisk, hpinned, hdicts, hresult, h⟩

/-- The report that lists no control of its crosswalk, over a decision that satisfies neither, without
its signature. -/
def sampleBareUnsigned : Items :=
  agentReport { Runtime.sampleEmptyResult with controls := [] } sampleCheckpoint [sampleEntry]

/-- The producer's signature of it. -/
def sampleBareSig : Bytes :=
  [84, 45, 224, 49, 30, 164, 168, 166, 90, 43, 140, 201, 159, 98, 74, 55, 93, 142, 221, 21, 93, 233,
    172, 214, 107, 187, 168, 25, 180, 159, 120, 125, 156, 145, 31, 82, 153, 54, 151, 91, 213, 158,
    174, 54, 139, 210, 215, 61, 169, 199, 92, 40, 136, 7, 75, 166, 212, 138, 105, 72, 55, 221, 225, 1]

/-- The two signatures the producer makes. -/
def sampleBareMade : List (Bytes × Bytes) :=
  [sampleCheckpoint.signedAs sampleHeadSig,
    ((signingPayload sampleBareUnsigned).toOption.getD [], sampleBareSig)]

/-- The decision satisfies neither control. -/
theorem exists_evaluate_sampleRecord : ∃ result, Runtime.euAiActV1.evaluate [sampleRecord] = .ok result ∧
    result.controls.length = 2 ∧
    { result with controls := result.controls.filter (·.status = .satisfied) }
      = { Runtime.sampleEmptyResult with controls := [] } := by
  have hids : (Runtime.euAiActV1.controlResults [sampleRecord]).toOption.map (·.length) = some 2 := by
    decide +kernel
  -- the evaluation is computed once, and two results come out
  obtain ⟨controls, hcontrols⟩ : ∃ controls,
      Runtime.euAiActV1.controlResults [sampleRecord] = .ok controls := by
    cases hres : Runtime.euAiActV1.controlResults [sampleRecord] with
    | ok controls => exact ⟨controls, rfl⟩
    | error err =>
        rw [hres] at hids
        cases hids
  obtain ⟨hash, hhash, -⟩ := Runtime.exists_euAiActV1Hash
  rw [hcontrols, Except.toOption, Option.map_some, Option.some.injEq] at hids
  have heval : Runtime.euAiActV1.evaluate [sampleRecord] = .ok
      { Runtime.sampleEmptyResult with crosswalkContentHash := some hash, controls := controls } := by
    rw [Crosswalk.evaluate, hcontrols]
    refine bind_eq_ok.mpr ⟨_, rfl, ?_⟩
    rw [hhash]
    rfl
  refine ⟨_, heval, hids, ?_⟩
  -- neither of them is satisfied
  have hnone : controls.filter (·.status = .satisfied) = [] := by
    refine List.filter_eq_nil_iff.mpr fun r hr => ?_
    rw [Runtime.status_sampleRecord heval hr]
    decide
  rw [Runtime.sampleEmptyResult, hhash]
  dsimp only
  rw [hnone]
  rfl

/-- **A gate passes over controls that are not satisfied**: the report of a producer that lists no
control of its crosswalk exits 0, while the evidence in it satisfies neither of the two. -/
theorem gate_not_satisfied : ∃ report result,
    gate (madeBy sampleKey sampleBareMade) samplePemReader
        [(lit "eu-ai-act-v1", .ok Runtime.euAiActV1)] sampleReload report [] (some sampleKey) true
        = .ok 0 ∧
      Pinned [(lit "eu-ai-act-v1", .ok Runtime.euAiActV1)] none report Runtime.euAiActV1 ∧
      reloadEvents sampleReload report = .ok [sampleRecord] ∧
      Runtime.euAiActV1.evaluate [sampleRecord] = .ok result ∧ result.controls.length = 2 ∧
      ∀ r ∈ result.controls, r.status = .notSatisfied := by
  obtain ⟨result, heval, hlen, hbare⟩ := exists_evaluate_sampleRecord
  have hblock : Encodable ({ Runtime.sampleEmptyResult with controls := [] } : CrosswalkResult).block :=
    encodable_block Runtime.encodable_euAiActV1 (by rw [Runtime.sampleEmptyResult]) (by
      simp [Runtime.sampleEmptyResult, CrosswalkResult.block, Runtime.euAiActV1, Canonical.Encodable,
        EncodableItems, optStr])
  obtain ⟨signature, hassemble⟩ := exists_agentReport hblock (fun r hr => absurd hr List.not_mem_nil)
    (encodable_sampleHead 1 sampleLeaf sampleHeadSig) encodable_sampleEntry select_sampleEntry
    (List.mem_cons_of_mem _ List.mem_cons_self : _ ∈ sampleBareMade)
  have hbuild : assembleReport { result with
      controls := result.controls.filter (·.status = .satisfied) } (madeKey sampleKey sampleBareMade)
      sampleOptions sampleEnv sampleCheckpoint [sampleEntry]
      = .ok (sampleBareUnsigned
        ++ [(lit "signature", signatureBlock (madeKey sampleKey sampleBareMade) signature)]) := by
    -- none is satisfied, so the report lists none
    rw [hbare]
    exact hassemble
  exact ⟨_, result, gate_sample hbuild (by decide) heval List.lookup_cons_self,
    pinned_of_assemble hbuild heval (Runtime.chooseCrosswalk_builtin List.lookup_cons_self heval), rfl,
    heval, hlen, fun r hr => Runtime.status_sampleRecord heval hr⟩

end OpenWright
