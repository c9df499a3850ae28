import OpenWright.Crosswalk
import OpenWright.Verify

/-! # Deep verification

The optional last step of the verifier: it reads the disclosed events back into the schema, evaluates
the crosswalk the report is pinned to over them, and compares the reported status of each control with
the one the evaluation gives.

* **`deepVerify_valid`**, **`deepVerify_of_rederives`** — the step keeps a result valid exactly
  where the reported verdicts are re-derived. -/

namespace OpenWright.Verify

open Python Python.Val Canonical Signing

/-- What `load_builtin` returns for each name of `available_builtins`. -/
abbrev Builtins := List (Str × Except PyErr Crosswalk)

/-! ## The crosswalk -/

/-- The crosswalk block of a report. -/
def crosswalkBlock (report : Items) : Val :=
  ((report.lookup (lit "crosswalk")).getD .null).orElse (.dict [])

/-- `load_builtin(cw_id)` if there is such a name, or what the check says where it fails. -/
def loadBuiltin (builtins : Builtins) (cwId : Val) : Except Detail Crosswalk :=
  let failed (err : PyErr) : Detail := .text (.text (lit "could not load crosswalk: ") :: err.msg)
  let unknown : Detail := .text [.text (lit "no built-in crosswalk "), .repr cwId,
    .text (lit "; pass crosswalk=")]
  -- `in` looks the id up in a dictionary, which an unhashable one does not allow
  if cwId.hashable = false then .error (failed { kind := .typeError })
  else
    match cwId with
    | .str name =>
      match builtins.lookup name with
      | some (.ok cw) => .ok cw
      | some (.error err) => .error (failed err)
      | none => .error unknown
    | _ => .error unknown

/-- The crosswalk in hand, or the built-in one the report names. -/
def chooseCrosswalk (builtins : Builtins) (crosswalk : Option Crosswalk) (block : Val) :
    Except PyErr (Except Detail Crosswalk) :=
  match crosswalk with
  | some cw => .ok (.ok cw)
  | none => do
    let cwId ← block.getD (lit "id") .null
    return loadBuiltin builtins cwId

/-! ## The verdicts -/

/-- The events a report lists. -/
def listedEvents (report : Items) : Val := (report.lookup (lit "events")).getD (.list [])

/-- The size the report's checkpoint is compared by: `int(... or n_events)`. -/
def disclosedOf (report : Items) (nEvents : Nat) : Except PyErr Int := do
  let treeSize ← (reportCheckpoint report).getD (lit "tree_size") .null
  (treeSize.orElse (.int nEvents)).toInt

/-- A checkpoint with a size names one. -/
theorem exists_disclosedOf {report : Items} {n : Int}
    (h : (reportCheckpoint report).item? (lit "tree_size") = some (.int n)) (nEvents : Nat) :
    ∃ treeSize, disclosedOf report nEvents = .ok treeSize := by
  obtain ⟨z, hz⟩ : ∃ z, (Val.int n).orElse (.int nEvents) = .int z := by
    rw [Val.orElse]
    split
    · exact ⟨n, rfl⟩
    · exact ⟨nEvents, rfl⟩
  refine ⟨z, ?_⟩
  rw [disclosedOf, getD_eq_ok h]
  exact bind_eq_ok.mpr ⟨_, rfl, congrArg toInt hz⟩

/-- The events as the schema reads them. -/
def reloadEvents (reload : Reload) (report : Items) : Except PyErr (List Val) := do
  let items ← (listedEvents report).iter
  items.mapM fun item => do
    let event ← entryEvent item
    reload event

/-- `recomputed.get(cid)`: of the results of one id the last counts. -/
def recomputed (results : List ControlResult) (cid : Val) : Except PyErr (Option Val) :=
  if cid.hashable then
    .ok ((results.reverse.find? fun r => (Val.str r.controlId).eq cid).map fun r => .str r.status.value)
  else .error { kind := .typeError }

/-- The mismatch of one control, if there is one. -/
def mismatch (cwId : Str) (results : List ControlResult) (control : Val) :
    Except PyErr (Option FString) := do
  let cid ← control.getD (lit "control_id") .null
  let want ← control.getD (lit "status") .null
  let got ← recomputed results cid
  -- a control that the crosswalk does not have is reported and absent
  match got with
  | none =>
    return some [.str cid, .text (lit ": reported but absent from crosswalk "), .str (.str cwId)]
  | some status =>
    if status.eq want then return none
    else return some [.str cid, .text (lit ": report claims '"), .str want,
      .text (lit "' but evidence yields '"), .str status, .text (lit "'")]

/-- `"; ".join(mismatches)`. -/
def joinSemicolon : List FString → FString
  | [] => []
  | [m] => m
  | m :: ms => m ++ .text (lit "; ") :: joinSemicolon ms

/-- The last part of the step: the verdicts re-derived under a crosswalk. -/
def checkVerdicts (cw : Crosswalk) (reload : Reload) (report : Items) (res : VerificationResult) :
    Except PyErr VerificationResult :=
  match reloadEvents reload report with
  | .error err => .ok <| res.check "deep_verify_events" false
      (.text (.text (lit "could not reconstruct events for re-evaluation: ") :: err.msg))
  | .ok dicts => do
    let result ← cw.evaluate dicts
    let controls ← (reportControls report).iter
    let found ← controls.mapM (mismatch cw.id result.controls)
    let mismatches := found.filterMap id
    let detail : FString :=
      if mismatches = [] then
        [.str (.int controls.length), .text (lit " control verdict(s) re-derived from evidence")]
      else joinSemicolon mismatches
    let res := res.check "deep_verify_verdicts" (mismatches = []) (.text detail)
    return { res with errors := res.errors ++ mismatches }

/-- The warning that a report discloses only some of the events. -/
def warnDisclosed (nEvents : Nat) (treeSize : Int) (res : VerificationResult) : VerificationResult :=
  if (nEvents : Int) < treeSize then
    res.warn [.text (lit "deep verify re-derives verdicts over the "), .str (.int nEvents),
      .text (lit " disclosed event(s) of "), .str (.int treeSize),
      .text (lit " in the log; verdicts are scoped to this selective disclosure")]
  else res

/-- `_deep_verify`. -/
def deepVerify (builtins : Builtins) (reload : Reload) (report : Items) (crosswalk : Option Crosswalk)
    (res : VerificationResult) : Except PyErr VerificationResult := do
  let block := crosswalkBlock report
  let pinned ← block.getD (lit "content_hash") .null
  -- a report without a pin is refused before any crosswalk is looked up
  if pinned.truthy = false then
    return res.check "deep_verify_crosswalk_pin" false
      (note ("report carries no crosswalk content_hash; refusing to re-derive verdicts " ++
        "against an unpinned crosswalk (B9)"))
  else do
    let chosen ← chooseCrosswalk builtins crosswalk block
    match chosen with
    | .error detail => return res.check "deep_verify_crosswalk" false detail
    | .ok cw => do
      let actual ← crosswalkContentHash cw
      -- so is a crosswalk that is not the pinned one
      if (Val.str actual).eq pinned = false then
        return res.check "deep_verify_crosswalk_pin" false
          (.text [.text (lit "report pinned crosswalk "), .str pinned,
            .text (lit " but the crosswalk in hand hashes to "), .str (.str actual),
            .text (lit " (id="), .str (.str cw.id), .text (lit " v"), .str (.str cw.version),
            .text (lit "); refusing")])
      else do
        let res := res.check "deep_verify_crosswalk_pin" true
          (.text [.text (lit "crosswalk pinned to "), .str pinned])
        let nEvents ← (listedEvents report).len
        let treeSize ← disclosedOf report nEvents
        checkVerdicts cw reload report (warnDisclosed nEvents treeSize res)

/-- `verify_report` with `deep=True`. -/
def verifyReportDeep (ed : Ed25519) (pem : PemReader) (builtins : Builtins) (reload : Reload)
    (report : Items) (trusted : Option Bytes) (crosswalk : Option Crosswalk) :
    Except PyErr VerificationResult :=
  verifyReport ed pem report trusted (deepVerify builtins reload report crosswalk)

/-! ## What the step establishes -/

/-- A reported control has the status that is recomputed for its id. -/
def Agrees (results : List ControlResult) (control : Val) : Prop :=
  ∃ cid want status, control.getD (lit "control_id") .null = .ok cid ∧
    control.getD (lit "status") .null = .ok want ∧
    recomputed results cid = .ok (some status) ∧ status.eq want = true

/-- A recomputed status is that of a result. -/
theorem exists_of_recomputed {results : List ControlResult} {cid status : Val}
    (h : recomputed results cid = .ok (some status)) :
    ∃ r ∈ results, status = .str r.status.value := by
  rw [recomputed] at h
  split at h
  · rw [Except.ok.injEq, Option.map_eq_some_iff] at h
    obtain ⟨r, hr, rfl⟩ := h
    exact ⟨r, List.mem_reverse.mp (List.mem_of_find?_eq_some hr), rfl⟩
  · cases h

/-- Equal ids have one recomputed status. -/
theorem recomputed_congr {results : List ControlResult} {cid cid' : Val} (h : key cid = key cid') :
    recomputed results cid = recomputed results cid' := by
  have hhash : cid.hashable = cid'.hashable := by rw [← hashable_key cid, h, hashable_key]
  have hfind : (fun r : ControlResult => (Val.str r.controlId).eq cid)
      = fun r => (Val.str r.controlId).eq cid' := funext fun r => eq_congr rfl h
  rw [recomputed, recomputed, hhash, hfind]

/-- The recomputed status for the id of a result is its status, where no other result has the id. -/
theorem recomputed_of_mem {results : List ControlResult} (hids : (results.map (·.controlId)).Nodup)
    {r : ControlResult} (hr : r ∈ results) :
    recomputed results (.str r.controlId) = .ok (some (.str r.status.value)) := by
  have hfind : results.reverse.find? (fun r' => (Val.str r'.controlId).eq (.str r.controlId))
      = some r := by
    have hsome : (results.reverse.find? fun r' =>
        (Val.str r'.controlId).eq (.str r.controlId)).isSome = true :=
      List.find?_isSome.mpr ⟨r, List.mem_reverse.mpr hr, str_eq_self _⟩
    obtain ⟨r', hr'⟩ := Option.isSome_iff_exists.mp hsome
    have heq := List.find?_some hr'
    have hid : key (.str r'.controlId) = key (.str r.controlId) := key_eq_of_eq heq
    rw [key, key, str.injEq] at hid
    rw [hr', List.inj_on_of_nodup_map hids (List.mem_reverse.mp (List.mem_of_find?_eq_some hr')) hr
      hid]
  rw [recomputed, hfind]
  rfl

/-- A control that agrees is no mismatch, and one that does not is. -/
theorem mismatch_eq_ok_none {cwId : Str} {results : List ControlResult} {control : Val} :
    mismatch cwId results control = .ok none ↔ Agrees results control := by
  constructor
  · intro h
    rw [mismatch] at h
    obtain ⟨cid, hcid, h⟩ := bind_eq_ok.mp h
    obtain ⟨want, hwant, h⟩ := bind_eq_ok.mp h
    obtain ⟨got, hgot, h⟩ := bind_eq_ok.mp h
    split at h
    -- a control that the crosswalk does not have is a mismatch
    · cases h
    · rename_i status
      split at h
      · rename_i heq
        exact ⟨cid, want, status, hcid, hwant, hgot, heq⟩
      · cases h
  · rintro ⟨cid, want, status, hcid, hwant, hgot, heq⟩
    rw [mismatch, hcid]
    refine bind_eq_ok.mpr ⟨cid, rfl, ?_⟩
    rw [hwant]
    refine bind_eq_ok.mpr ⟨want, rfl, ?_⟩
    rw [hgot]
    refine bind_eq_ok.mpr ⟨_, rfl, ?_⟩
    dsimp only
    rw [if_pos heq]
    rfl

/-- The verdicts of a report are re-derived under a crosswalk: its events are read back, the
crosswalk is evaluated over them, and each reported control agrees. -/
def Rederives (cw : Crosswalk) (reload : Reload) (report : Items) : Prop :=
  ∃ dicts result controls, reloadEvents reload report = .ok dicts ∧ cw.evaluate dicts = .ok result ∧
    (reportControls report).iter = .ok controls ∧ ∀ control ∈ controls, Agrees result.controls control

variable {builtins : Builtins} {reload : Reload} {report : Items} {crosswalk : Option Crosswalk}
  {cw : Crosswalk} {res res' : VerificationResult}

/-- There are no mismatches exactly where every control agrees. -/
theorem mismatches_eq_nil {cwId : Str} {results : List ControlResult} {controls : List Val}
    {found : List (Option FString)} (h : controls.mapM (mismatch cwId results) = .ok found) :
    found.filterMap id = [] ↔ ∀ control ∈ controls, Agrees results control := by
  rw [mapM_eq_ok] at h
  induction h with
  | nil => simp
  | @cons control m controls found hm _ ih =>
      rw [List.forall_mem_cons, ← @mismatch_eq_ok_none cwId, hm]
      cases m with
      | none => simpa using ih
      | some text => simp

/-- **The last part** passes only where the verdicts are re-derived. -/
theorem checkVerdicts_valid (h : checkVerdicts cw reload report res = .ok res')
    (hvalid : res'.valid = true) : res.valid = true ∧ Rederives cw reload report := by
  rw [checkVerdicts] at h
  split at h
  · rw [← Except.ok.inj h] at hvalid
    simp at hvalid
  · rename_i dicts hdicts
    obtain ⟨result, hresult, h⟩ := bind_eq_ok.mp h
    obtain ⟨controls, hcontrols, h⟩ := bind_eq_ok.mp h
    obtain ⟨found, hfound, h⟩ := bind_eq_ok.mp h
    rw [← pure_eq_ok.mp h] at hvalid
    simp only [VerificationResult.check_valid, Bool.and_eq_true, decide_eq_true_eq] at hvalid
    exact ⟨hvalid.1, dicts, result, controls, hdicts, hresult, hcontrols,
      (mismatches_eq_nil hfound).mp hvalid.2⟩

/-- It returns, and leaves the validity as it is, where they are. -/
theorem checkVerdicts_of_rederives (h : Rederives cw reload report) (res : VerificationResult) :
    ∃ res', checkVerdicts cw reload report res = .ok res' ∧ res'.valid = res.valid := by
  obtain ⟨dicts, result, controls, hdicts, hresult, hcontrols, hagrees⟩ := h
  have hfound : controls.mapM (mismatch cw.id result.controls)
      = .ok (controls.map fun _ => none) :=
    mapM_eq_ok_map fun control hcontrol => mismatch_eq_ok_none.mpr (hagrees control hcontrol)
  have hnil := (mismatches_eq_nil hfound).mpr hagrees
  rw [checkVerdicts, hdicts]
  refine ⟨_, bind_eq_ok.mpr ⟨result, hresult, bind_eq_ok.mpr ⟨controls, hcontrols,
    bind_eq_ok.mpr ⟨_, hfound, rfl⟩⟩⟩, ?_⟩
  simp only [VerificationResult.check_valid, hnil, decide_true, Bool.and_true]

/-- The warning does not touch the validity. -/
@[simp] theorem warnDisclosed_valid (nEvents : Nat) (treeSize : Int) (res : VerificationResult) :
    (warnDisclosed nEvents treeSize res).valid = res.valid := by
  rw [warnDisclosed]
  split <;> rfl

/-- The crosswalk the report is pinned to: the one in hand or the built-in one it names, if its
content hash is the one the report carries. -/
def Pinned (builtins : Builtins) (crosswalk : Option Crosswalk) (report : Items) (cw : Crosswalk) :
    Prop :=
  ∃ pinned actual, (crosswalkBlock report).getD (lit "content_hash") .null = .ok pinned ∧
    pinned.truthy = true ∧
    chooseCrosswalk builtins crosswalk (crosswalkBlock report) = .ok (.ok cw) ∧
    crosswalkContentHash cw = .ok actual ∧ (Val.str actual).eq pinned = true

/-- **Deep verification is sound**: a result stays valid only where the report is pinned to a
crosswalk and its verdicts are re-derived under it. -/
theorem deepVerify_valid (h : deepVerify builtins reload report crosswalk res = .ok res')
    (hvalid : res'.valid = true) : res.valid = true ∧
      ∃ cw, Pinned builtins crosswalk report cw ∧ Rederives cw reload report := by
  rw [deepVerify] at h
  obtain ⟨pinned, hpinned, h⟩ := bind_eq_ok.mp h
  split at h
  · -- no pin
    rw [← pure_eq_ok.mp h] at hvalid
    simp at hvalid
  · rename_i htruthy
    rw [Bool.not_eq_false] at htruthy
    obtain ⟨chosen, hchosen, h⟩ := bind_eq_ok.mp h
    split at h
    · -- no crosswalk
      rw [← pure_eq_ok.mp h] at hvalid
      simp at hvalid
    · rename_i cw
      obtain ⟨actual, hactual, h⟩ := bind_eq_ok.mp h
      split at h
      · -- another crosswalk
        rw [← pure_eq_ok.mp h] at hvalid
        simp at hvalid
      · rename_i heq
        rw [Bool.not_eq_false] at heq
        obtain ⟨nEvents, -, h⟩ := bind_eq_ok.mp h
        obtain ⟨treeSize, -, h⟩ := bind_eq_ok.mp h
        obtain ⟨hres, hrederives⟩ := checkVerdicts_valid h hvalid
        rw [warnDisclosed_valid, VerificationResult.check_valid, Bool.and_true] at hres
        exact ⟨hres, cw, ⟨pinned, actual, hpinned, htruthy, hchosen, hactual, heq⟩, hrederives⟩

/-- **Deep verification is complete**: it returns, and leaves the validity as it is, where the report
is pinned to a crosswalk, names a size, and its verdicts are re-derived. -/
theorem deepVerify_of_rederives {nEvents : Nat} {treeSize : Int}
    (hpin : Pinned builtins crosswalk report cw) (hlen : (listedEvents report).len = .ok nEvents)
    (hsize : disclosedOf report nEvents = .ok treeSize) (h : Rederives cw reload report)
    (res : VerificationResult) :
    ∃ res', deepVerify builtins reload report crosswalk res = .ok res' ∧ res'.valid = res.valid := by
  obtain ⟨pinned, actual, hpinned, htruthy, hchosen, hactual, heq⟩ := hpin
  obtain ⟨res', hres', hvalid⟩ := checkVerdicts_of_rederives h
    (warnDisclosed nEvents treeSize (res.check "deep_verify_crosswalk_pin" true
      (.text [.text (lit "crosswalk pinned to "), .str pinned])))
  rw [warnDisclosed_valid, VerificationResult.check_valid, Bool.and_true] at hvalid
  refine ⟨res', ?_, hvalid⟩
  rw [deepVerify]
  refine bind_eq_ok.mpr ⟨pinned, hpinned, ?_⟩
  rw [if_neg (by simp [htruthy])]
  refine bind_eq_ok.mpr ⟨.ok cw, hchosen, ?_⟩
  refine bind_eq_ok.mpr ⟨actual, hactual, ?_⟩
  rw [if_neg (by simp [heq])]
  exact bind_eq_ok.mpr ⟨nEvents, hlen, bind_eq_ok.mpr ⟨treeSize, hsize, hres'⟩⟩

/-- **A valid deep verification** re-derives the verdicts of the report under the crosswalk it is
pinned to. -/
theorem verifyReportDeep_valid {ed : Ed25519} {pem : PemReader} {trusted : Option Bytes}
    (h : verifyReportDeep ed pem builtins reload report trusted crosswalk = .ok res)
    (hvalid : res.valid = true) :
    ∃ cw, Pinned builtins crosswalk report cw ∧ Rederives cw reload report := by
  have hdeep : ∀ r r', deepVerify builtins reload report crosswalk r = .ok r' → r'.valid = true →
      r.valid = true := fun r r' hr hr' => (deepVerify_valid hr hr').1
  obtain ⟨_, _, _, _, _, -, -, -, -, -, -, r, hr⟩ := verifyReport_valid hdeep h hvalid
  exact (deepVerify_valid hr hvalid).2

end OpenWright.Verify
