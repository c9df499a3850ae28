import OpenWright.Events
import OpenWright.Signing
import OpenWright.Merkle.Inclusion

/-! # Verifying reports

The standalone verifier of signed reports: the report's signature, the signature of its checkpoint,
the leaf hash and the inclusion proof of every disclosed event, the root of the whole tree where all
of it is disclosed, and the presence of every event a control cites.

A report is a dictionary that anyone may have written: every step may meet a value of any type, and
raises where Python does.

* **`verifyReport_sound`** — a report that is found valid under a trusted key discloses nothing but
  leaves of the tree its checkpoint commits to, and its controls cite nothing else. -/

namespace OpenWright.Verify

open Hash Python Canonical Merkle Signing

/-! ## Results -/

/-- The detail of a check: a formatted string, or a value as it was found. -/
inductive Detail
  | text (parts : FString)
  | value (v : Val)
deriving DecidableEq

/-- A detail without values. -/
def note (s : String) : Detail := .text [.text (lit s)]

/-- `VerificationResult`. -/
structure VerificationResult where
  valid : Bool := true
  checks : List (Str × Bool × Detail) := []
  warnings : List FString := []
  controls : List Val := []
  gaps : List Val := []
  errors : List FString := []
deriving DecidableEq

namespace VerificationResult

/-- The local function `check` of `verify_report`. -/
def check (res : VerificationResult) (name : String) (ok : Bool) (detail : Detail := .text []) :
    VerificationResult :=
  { res with checks := res.checks ++ [(lit name, ok, detail)], valid := res.valid && ok }

/-- A check makes a result invalid, or leaves it. -/
@[simp] theorem check_valid (res : VerificationResult) (name : String) (ok : Bool)
    (detail : Detail) : (res.check name ok detail).valid = (res.valid && ok) := rfl

/-- Add a warning. -/
def warn (res : VerificationResult) (warning : FString) : VerificationResult :=
  { res with warnings := res.warnings ++ [warning] }

/-- A warning leaves a result. -/
@[simp] theorem warn_valid (res : VerificationResult) (warning : FString) :
    (res.warn warning).valid = res.valid := rfl

/-- Return invalid, with an error. -/
def fail (res : VerificationResult) (error : FString) : VerificationResult :=
  { res with valid := false, errors := res.errors ++ [error] }

end VerificationResult

/-! ## Keys and signatures -/

/-- `_public_key_raw_from_pem`, or the text of the exception it raises. -/
abbrev PemReader := Val → Except Str Bytes

/-- Step 1: the key to trust, none where the verifier gives up. -/
def establishKey (pem : PemReader) (report : Items) (trusted : Option Bytes) :
    Option Bytes × VerificationResult :=
  let embedded := (report.lookup (lit "public_key_pem")).getD .null
  let res : VerificationResult := {}
  match trusted with
  | none =>
    -- without a trusted key it is the report that says which key it was signed with
    if embedded.truthy = false then
      (none, res.fail [.text (lit "no trusted public key supplied and none embedded in report")])
    else
      match pem embedded with
      | .error exc => (none, res.fail [.text (lit "could not parse embedded public key: "), .text exc])
      | .ok raw =>
        (some raw, res.warn [.text (lit ("verifying with the key embedded in the report; for real " ++
          "trust, supply the signer's public key through an independent channel"))])
  | some raw =>
    if embedded.truthy = false then (some raw, res)
    else
      match pem embedded with
      -- an embedded key that cannot be parsed is not held against a trusted one
      | .error _ => (some raw, res)
      | .ok raw' =>
        if raw' = raw then (some raw, res)
        else (some raw, res.check "embedded_key_matches_trusted" false
          (note "embedded key != trusted key"))

/-- Whether the `signature` of a block verifies over a payload; every exception counts as no. -/
def signatureOk (ed : Ed25519) (raw : Bytes) (block : Val) (payload : Except PyErr Bytes) : Bool :=
  match block.getD (lit "signature") (.str []), payload with
  | .ok (.str text), .ok data =>
    match b64decode text with
    | some sig => ed raw sig data
    | none => false
  | _, _ => false

/-- Whether a block names a key that is not the given one. -/
def otherKeyId (raw : Bytes) (block : Val) : Except PyErr Bool := do
  let id ← block.getD (lit "public_key_id") .null
  return id.truthy && !id.eq (.str (keyIdFor raw))

/-- `_report_signing_payload`. -/
def reportSigningPayload (report : Items) : Except PyErr Bytes :=
  canonicalBytes (.dict (report.filter fun kv => kv.1 ≠ lit "signature"))

/-- Step 2: the report's signature. -/
def checkReportSignature (ed : Ed25519) (raw : Bytes) (report : Items) (res : VerificationResult) :
    Except PyErr VerificationResult := do
  let block := ((report.lookup (lit "signature")).getD .null).orElse (.dict [])
  let repOk := signatureOk ed raw block (reportSigningPayload report)
  let id ← block.getD (lit "public_key_id") (.str [])
  let res := res.check "report_signature" repOk (.value id)
  -- the name of the key is a check of its own, beside the signature
  let other ← otherKeyId raw block
  return if other then
    res.check "report_key_id" false (note "signature key id does not match the trusted key")
  else res

/-- `_checkpoint_signing_bytes`. -/
def checkpointPayload (cp : Val) : Except PyErr Bytes := do
  let origin ← cp.getItem (lit "origin")
  let rootHash ← cp.getItem (lit "root_hash")
  let timestamp ← cp.getItem (lit "timestamp")
  let treeSize ← cp.getItem (lit "tree_size")
  canonicalBytes (.dict [(lit "origin", origin), (lit "root_hash", rootHash),
    (lit "timestamp", timestamp), (lit "tree_size", treeSize)])

/-- The checkpoint of a report. -/
def reportCheckpoint (report : Items) : Val :=
  ((report.lookup (lit "checkpoint")).getD .null).orElse (.dict [])

/-- `v[:16]`. -/
def first16 : Val → Except PyErr Val
  | .str s => .ok (.str (s.take 16))
  | .list vs => .ok (.list (vs.take 16))
  | .tuple vs => .ok (.tuple (vs.take 16))
  | _ => .error { kind := .typeError }

/-- Step 3: the checkpoint's signature. -/
def checkCheckpointSignature (ed : Ed25519) (raw : Bytes) (cp : Val) (res : VerificationResult) :
    Except PyErr VerificationResult := do
  -- here the name of the key is part of the one check
  let other ← otherKeyId raw cp
  let cpOk := signatureOk ed raw cp (checkpointPayload cp) && !other
  let treeSize ← cp.getD (lit "tree_size") .null
  let rootHash ← cp.getD (lit "root_hash") (.str [])
  let shown ← first16 rootHash
  return res.check "checkpoint_signature" cpOk
    (.text [.text (lit "tree_size="), .str treeSize, .text (lit " root="), .str shown,
      .text (lit "…")])

/-- `bytes.fromhex(v)`. -/
def unhexVal : Val → Except PyErr Bytes
  | .str s => unhex s
  | _ => .error { kind := .typeError }

/-- The root and the size a checkpoint carries, if it is well formed. -/
def checkpointHead (cp : Val) : Except PyErr (Bytes × Int) := do
  let rootHash ← cp.getItem (lit "root_hash")
  let root ← unhexVal rootHash
  let treeSize ← cp.getItem (lit "tree_size")
  let n ← treeSize.toInt
  return (root, n)

/-! ## Entries -/

/-- `isinstance(v, int)`: the integer a value is, if it is one. -/
def asInt : Val → Option Int
  | .int z => some z
  | .bool b => some b.toInt
  | _ => none

/-- Whether a float is beyond the indices of a tree. -/
def beyond (x : PyFloat) (n : Int) : Bool :=
  match x with
  | .finite q => q ≥ n ∨ q < 0
  | .inf _ => true
  | .nan => false

/-- `verify_inclusion` for an index of any type: comparing it raises unless it is a number, and the
bit operations raise on a float. -/
def verifyInclusionAt (index : Val) (n : Int) (leaf : Bytes) (proof : List Bytes) (root : Bytes) :
    Except PyErr Bool :=
  match index with
  | .int z => .ok (verifyInclusion z n leaf proof root)
  | .bool b => .ok (verifyInclusion b.toInt n leaf proof root)
  | .float x =>
    if beyond x n then .ok false
    else
      match proof with
      -- in a tree of one leaf no bit operation is reached
      | [] => .ok (n - 1 = 0 ∧ leaf = root)
      | _ :: _ => if n - 1 = 0 then .ok false else .error { kind := .typeError }
  | _ => .error { kind := .typeError }

/-- `item.get("event") or {}`. -/
def entryEvent (item : Val) : Except PyErr Val := do
  let event ← item.getD (lit "event") .null
  return event.orElse (.dict [])

/-- The leaf hash an entry carries. -/
def storedLeaf (item : Val) : Except PyErr Bytes := do
  let stored ← item.getD (lit "leaf_hash") (.str [])
  if stored.truthy then
    match stored with
    | .str s => unhex (afterLast (cp 58) s)
    | _ => .error { kind := .attributeError }
  else return []

/-- The inclusion proof an entry carries. -/
def proofNodes (item : Val) : Except PyErr (List Bytes) := do
  let proof ← item.getD (lit "inclusion_proof") (.list [])
  let nodes ← proof.iter
  nodes.mapM unhexVal

/-- What the loop over the entries accumulates. -/
structure Entries where
  /-- `leaves_by_index`, a dictionary. -/
  leavesByIndex : List (Int × Bytes) := []
  leafOk : Bool := true
  inclOk : Bool := true
  /-- `present_ids`, a set. -/
  presentIds : List Val := []

/-- `d[i] = leaf`. -/
def setLeaf (i : Int) (leaf : Bytes) : List (Int × Bytes) → List (Int × Bytes)
  | [] => [(i, leaf)]
  | (j, other) :: rest => if j = i then (i, leaf) :: rest else (j, other) :: setLeaf i leaf rest

/-- The body of the loop over the entries. -/
def checkEntry (n : Int) (root : Bytes) (acc : Entries) (item : Val) : Except PyErr Entries := do
  let event ← entryEvent item
  let index ← item.getD (lit "leaf_index") .null
  let eventId ← event.getD (lit "event_id") .null
  -- ids are collected in a set
  if eventId.hashable = false then .error { kind := .typeError }
  else do
    let recomputed ← leafFromEventDict event
    let stored ← storedLeaf item
    let proof ← proofNodes item
    let included ← verifyInclusionAt index n recomputed proof root
    return { leavesByIndex :=
               match asInt index with
               | some i => setLeaf i recomputed acc.leavesByIndex
               | none => acc.leavesByIndex,
             leafOk := acc.leafOk && recomputed == stored,
             inclOk := acc.inclOk && included,
             presentIds := acc.presentIds ++ [eventId] }

/-- The events a report discloses. -/
def reportEvents (report : Items) : Val :=
  ((report.lookup (lit "events")).getD .null).orElse (.list [])

/-- Step 4: leaf hashes and inclusion proofs. -/
def checkEntries (report : Items) (n : Int) (root : Bytes) (res : VerificationResult) :
    Except PyErr (Entries × VerificationResult) := do
  let items ← (reportEvents report).iter
  let acc ← items.foldlM (checkEntry n root) {}
  let count := FPart.str (.int items.length)
  return (acc, (res.check "event_leaf_hashes" acc.leafOk
      (.text [count, .text (lit " event(s) recomputed from hash-only content")])).check
    "inclusion_proofs" acc.inclOk
      (.text [count, .text (lit " inclusion proof(s) against signed root")]))

/-- The leaves by index, if each index from 0 to `n - 1` has one and no other has. -/
def allLeaves (n : Int) (leavesByIndex : List (Int × Bytes)) : Option (List Bytes) :=
  if leavesByIndex.length = n then
    (List.range n.toNat).mapM fun i => leavesByIndex.lookup (i : Int)
  else none

/-- Step 5: the root of the whole tree. -/
def checkFullTree (n : Int) (root : Bytes) (acc : Entries) (res : VerificationResult) :
    VerificationResult :=
  match allLeaves n acc.leavesByIndex with
  | some ordered => res.check "full_tree_root" (treeHash ordered == root)
      (note "recomputed root equals signed checkpoint root")
  | none => res.warn [.text (lit "report carries "), .str (.int acc.leavesByIndex.length),
      .text (lit "/"), .str (.int n), .text (lit
        " leaves; relying on per-event inclusion proofs (selective disclosure)")]

/-! ## Controls -/

/-- The event ids a control cites. -/
def citedIds (control : Val) : Except PyErr (List Val) := do
  let ids ← control.getD (lit "evidence_event_ids") (.list [])
  ids.iter

/-- Whether all cited ids are present; looking an id up raises where it has no hash. -/
def checkCited (presentIds : List Val) (ok : Bool) (id : Val) : Except PyErr Bool :=
  if id.hashable then .ok (ok && id.isIn presentIds) else .error { kind := .typeError }

/-- The body of the loop over the controls. -/
def checkControl (presentIds : List Val) (acc : VerificationResult × Bool) (control : Val) :
    Except PyErr (VerificationResult × Bool) := do
  let controlId ← control.getD (lit "control_id") .null
  let status ← control.getD (lit "status") .null
  let title ← control.getD (lit "title") (.str [])
  let entry := Val.dict [(lit "control_id", controlId), (lit "status", status), (lit "title", title)]
  let res := { acc.1 with controls := acc.1.controls ++ [entry] }
  -- a control that is not satisfied is a gap, not an error
  let res := if status.eq (.str (lit "satisfied")) then res
    else { res with gaps := res.gaps ++ [entry] }
  let ids ← citedIds control
  let ok ← ids.foldlM (checkCited presentIds) acc.2
  return (res, ok)

/-- The controls a report lists. -/
def reportControls (report : Items) : Val := (report.lookup (lit "controls")).getD (.list [])

/-- Step 6: controls, gaps, and the evidence the controls cite. -/
def checkControls (report : Items) (presentIds : List Val) (res : VerificationResult) :
    Except PyErr VerificationResult := do
  let controls ← (reportControls report).iter
  let (res, ok) ← controls.foldlM (checkControl presentIds) (res, true)
  return res.check "evidence_events_present" ok
    (note "all cited evidence events are included in the report")

/-- Steps 4 to 7, against the root and the size of the checkpoint. -/
def checkContents (report : Items) (head : Except PyErr (Bytes × Int))
    (deep : VerificationResult → Except PyErr VerificationResult) (res : VerificationResult) :
    Except PyErr VerificationResult :=
  match head with
  -- a head that cannot be read is a failed check, and nothing else is looked at
  | .error _ => .ok <| res.check "checkpoint_well_formed" false
      (note "missing/invalid root_hash or tree_size")
  | .ok (root, n) => do
    let (acc, res) ← checkEntries report n root res
    let res ← checkControls report acc.presentIds (checkFullTree n root acc res)
    deep res

/-- `verify_report`. Deep verification, the optional last step, is a parameter. -/
def verifyReport (ed : Ed25519) (pem : PemReader) (report : Items) (trusted : Option Bytes)
    (deep : VerificationResult → Except PyErr VerificationResult := pure) :
    Except PyErr VerificationResult :=
  match establishKey pem report trusted with
  | (none, res) => .ok res
  | (some raw, res) => do
    let cp := reportCheckpoint report
    let res ← checkReportSignature ed raw report res
    let res ← checkCheckpointSignature ed raw cp res
    checkContents report (checkpointHead cp) deep res

/-! ## What the steps establish -/

/-- What is read with a default is what is read without where it is there. -/
theorem getD_of_getItem {v w : Val} {k : Str} (h : v.getItem k = .ok w) (d : Val) :
    v.getD k d = .ok w := by
  cases v with
  | dict kvs =>
      rw [Val.getItem] at h
      split at h
      · rename_i x hx
        rw [← h]
        exact @Val.getD_eq_ok (.dict kvs) x k hx d
      · cases h
  | _ => cases h

variable {ed : Ed25519} {pem : PemReader} {report : Items} {raw : Bytes}
  {res res' : VerificationResult}

/-- Without a key the result is invalid. -/
theorem establishKey_none {trusted : Option Bytes} (h : establishKey pem report trusted = (none, res)) :
    res.valid = false := by
  rw [establishKey.eq_def] at h
  cases trusted with
  | none =>
      dsimp only at h
      split at h
      · rw [← (Prod.mk.inj h).2]; rfl
      · split at h
        · rw [← (Prod.mk.inj h).2]; rfl
        · cases h
  | some raw =>
      dsimp only at h
      split at h
      · cases h
      · split at h
        · cases h
        · split at h
          · cases h
          · cases h

/-- Only a payload that can be encoded has a signature. -/
theorem exists_payload_of_signatureOk {block : Val} {payload : Except PyErr Bytes}
    (h : signatureOk ed raw block payload = true) : ∃ data, payload = .ok data := by
  cases payload with
  | ok data => exact ⟨data, rfl⟩
  | error err =>
      rw [signatureOk] at h
      · cases h
      · intro text data _ hdata
        cases hdata

/-- Step 2 passes only with a signature over the report that names no other key. -/
theorem checkReportSignature_valid (h : checkReportSignature ed raw report res = .ok res')
    (hvalid : res'.valid = true) :
    res.valid = true ∧
      signatureOk ed raw (((report.lookup (lit "signature")).getD .null).orElse (.dict []))
        (reportSigningPayload report) = true ∧
      otherKeyId raw (((report.lookup (lit "signature")).getD .null).orElse (.dict [])) = .ok false := by
  rw [checkReportSignature] at h
  obtain ⟨id, -, h⟩ := bind_eq_ok.mp h
  obtain ⟨other, hother, h⟩ := bind_eq_ok.mp h
  rw [← pure_eq_ok.mp h] at hvalid
  cases other with
  | true => simp at hvalid
  | false =>
      rw [if_neg (by decide), VerificationResult.check_valid, Bool.and_eq_true] at hvalid
      exact ⟨hvalid.1, hvalid.2, hother⟩

/-- Step 3 passes only with a signature over the head that names no other key. -/
theorem checkCheckpointSignature_valid {cp : Val}
    (h : checkCheckpointSignature ed raw cp res = .ok res') (hvalid : res'.valid = true) :
    res.valid = true ∧ signatureOk ed raw cp (checkpointPayload cp) = true ∧
      otherKeyId raw cp = .ok false := by
  rw [checkCheckpointSignature] at h
  obtain ⟨other, hother, h⟩ := bind_eq_ok.mp h
  obtain ⟨treeSize, -, h⟩ := bind_eq_ok.mp h
  obtain ⟨rootHash, -, h⟩ := bind_eq_ok.mp h
  obtain ⟨shown, -, h⟩ := bind_eq_ok.mp h
  rw [← pure_eq_ok.mp h, VerificationResult.check_valid, Bool.and_eq_true, Bool.and_eq_true,
    Bool.not_eq_true'] at hvalid
  exact ⟨hvalid.1, hvalid.2.1, hvalid.2.2 ▸ hother⟩

/-- The event id of an entry. -/
def entryId (item : Val) : Except PyErr Val := do
  let event ← entryEvent item
  event.getD (lit "event_id") .null

/-- An entry of the leaf `leaf` that passes: the leaf is recomputed from its event, is the one it
carries, and its proof includes it under the root. -/
def Accepted (n : Int) (root : Bytes) (item : Val) (index : Val) (leaf : Bytes) : Prop :=
  ∃ event proof, entryEvent item = .ok event ∧ item.getD (lit "leaf_index") .null = .ok index ∧
    leafFromEventDict event = .ok leaf ∧ storedLeaf item = .ok leaf ∧ proofNodes item = .ok proof ∧
    verifyInclusionAt index n leaf proof root = .ok true

/-- **One entry**: what the loop body does with it. -/
theorem checkEntry_eq_ok {n : Int} {root : Bytes} {acc out : Entries} {item : Val}
    (h : checkEntry n root acc item = .ok out) :
    ∃ index id leaf, entryId item = .ok id ∧ out.presentIds = acc.presentIds ++ [id] ∧
      out.leavesByIndex = (match asInt index with
        | some i => setLeaf i leaf acc.leavesByIndex
        | none => acc.leavesByIndex) ∧
      (out.leafOk = true → out.inclOk = true →
        acc.leafOk = true ∧ acc.inclOk = true ∧ Accepted n root item index leaf) := by
  rw [checkEntry] at h
  obtain ⟨event, hevent, h⟩ := bind_eq_ok.mp h
  obtain ⟨index, hindex, h⟩ := bind_eq_ok.mp h
  obtain ⟨id, hid, h⟩ := bind_eq_ok.mp h
  split at h
  · cases h
  obtain ⟨leaf, hleaf, h⟩ := bind_eq_ok.mp h
  obtain ⟨stored, hstored, h⟩ := bind_eq_ok.mp h
  obtain ⟨proof, hproof, h⟩ := bind_eq_ok.mp h
  obtain ⟨included, hincluded, h⟩ := bind_eq_ok.mp h
  rw [← pure_eq_ok.mp h]
  refine ⟨index, id, leaf, bind_eq_ok.mpr ⟨event, hevent, hid⟩, rfl, rfl, fun hleafOk hinclOk => ?_⟩
  rw [Bool.and_eq_true] at hleafOk hinclOk
  rw [← beq_iff_eq.mp hleafOk.2] at hstored
  rw [hinclOk.2] at hincluded
  exact ⟨hleafOk.1, hinclOk.1, event, proof, hevent, hindex, hleaf, hstored, hproof, hincluded⟩

/-- **All entries**: where both flags stay up every entry passed, and the ids present are those of
the entries. -/
theorem foldlM_checkEntry {n : Int} {root : Bytes} : ∀ {items : List Val} {acc out : Entries},
    items.foldlM (checkEntry n root) acc = .ok out → out.leafOk = true → out.inclOk = true →
      acc.leafOk = true ∧ acc.inclOk = true ∧
      (∀ item ∈ items, ∃ index leaf, Accepted n root item index leaf) ∧
      ∀ id ∈ out.presentIds, id ∈ acc.presentIds ∨ ∃ item ∈ items, entryId item = .ok id
  | [], acc, out, h, hleaf, hincl => by
      rw [List.foldlM_nil, pure_eq_ok] at h
      subst h
      exact ⟨hleaf, hincl, fun item hitem => absurd hitem List.not_mem_nil, fun id hid => Or.inl hid⟩
  | item :: items, acc, out, h, hleaf, hincl => by
      rw [List.foldlM_cons] at h
      obtain ⟨mid, hmid, h⟩ := bind_eq_ok.mp h
      obtain ⟨hleaf', hincl', haccepted, hpresent⟩ := foldlM_checkEntry h hleaf hincl
      obtain ⟨index, id, leaf, hid, hids, -, hpassed⟩ := checkEntry_eq_ok hmid
      obtain ⟨hleaf'', hincl'', hitem⟩ := hpassed hleaf' hincl'
      refine ⟨hleaf'', hincl'', fun item' hitem' => ?_, fun id' hid' => ?_⟩
      · rcases List.mem_cons.mp hitem' with rfl | hmem
        · exact ⟨index, leaf, hitem⟩
        · exact haccepted item' hmem
      · rcases hpresent id' hid' with hmem | ⟨item', hmem, hid'⟩
        · rw [hids] at hmem
          rcases List.mem_append.mp hmem with hmem | hmem
          · exact Or.inl hmem
          · exact Or.inr ⟨item, List.mem_cons_self, List.mem_singleton.mp hmem ▸ hid⟩
        · exact Or.inr ⟨item', List.mem_cons_of_mem _ hmem, hid'⟩

/-- Step 4 passes only where every entry does. -/
theorem checkEntries_valid {n : Int} {root : Bytes} {acc : Entries}
    (h : checkEntries report n root res = .ok (acc, res')) (hvalid : res'.valid = true) :
    res.valid = true ∧ ∃ items, (reportEvents report).iter = .ok items ∧
      (∀ item ∈ items, ∃ index leaf, Accepted n root item index leaf) ∧
      ∀ id ∈ acc.presentIds, ∃ item ∈ items, entryId item = .ok id := by
  rw [checkEntries] at h
  obtain ⟨items, hitems, h⟩ := bind_eq_ok.mp h
  obtain ⟨acc', hacc, h⟩ := bind_eq_ok.mp h
  have hpair := pure_eq_ok.mp h
  rw [Prod.mk.injEq] at hpair
  obtain ⟨rfl, hres⟩ := hpair
  rw [← hres, VerificationResult.check_valid, VerificationResult.check_valid, Bool.and_eq_true,
    Bool.and_eq_true] at hvalid
  obtain ⟨-, -, haccepted, hpresent⟩ := foldlM_checkEntry hacc hvalid.1.2 hvalid.2
  refine ⟨hvalid.1.1, items, hitems, haccepted, fun id hid => ?_⟩
  rcases hpresent id hid with hmem | hex
  · exact absurd hmem List.not_mem_nil
  · exact hex

/-- Step 5 does not make a result valid. -/
theorem checkFullTree_valid {n : Int} {root : Bytes} {acc : Entries}
    (hvalid : (checkFullTree n root acc res).valid = true) : res.valid = true := by
  rw [checkFullTree] at hvalid
  split at hvalid
  · rw [VerificationResult.check_valid, Bool.and_eq_true] at hvalid
    exact hvalid.1
  · exact hvalid

/-- Cited ids keep the flag up only where each of them is present. -/
theorem foldlM_checkCited {presentIds : List Val} : ∀ {ids : List Val} {ok ok' : Bool},
    ids.foldlM (checkCited presentIds) ok = .ok ok' → ok' = true →
      ok = true ∧ ∀ id ∈ ids, id.hashable = true ∧ id.isIn presentIds = true
  | [], ok, ok', h, hok => by
      rw [List.foldlM_nil, pure_eq_ok] at h
      exact ⟨h.trans hok, fun id hid => absurd hid List.not_mem_nil⟩
  | id :: ids, ok, ok', h, hok => by
      rw [List.foldlM_cons] at h
      obtain ⟨mid, hmid, h⟩ := bind_eq_ok.mp h
      obtain ⟨hmid', hids⟩ := foldlM_checkCited h hok
      rw [checkCited] at hmid
      split at hmid
      · rename_i hhash
        rw [Except.ok.injEq] at hmid
        rw [← hmid, Bool.and_eq_true] at hmid'
        exact ⟨hmid'.1, List.forall_mem_cons.mpr ⟨⟨hhash, hmid'.2⟩, hids⟩⟩
      · cases hmid

/-- A control that cites only ids that are there. -/
def CitesPresent (presentIds : List Val) (control : Val) : Prop :=
  ∃ kvs ids, control = .dict kvs ∧ citedIds control = .ok ids ∧
    ∀ id ∈ ids, id.hashable = true ∧ id.isIn presentIds = true

/-- The controls keep the flag up only where each of them cites what is present; the validity of the
result does not change. -/
theorem foldlM_checkControl {presentIds : List Val} : ∀ {controls : List Val}
    {acc out : VerificationResult × Bool}, controls.foldlM (checkControl presentIds) acc = .ok out →
      out.1.valid = acc.1.valid ∧ (out.2 = true → acc.2 = true ∧ ∀ control ∈ controls,
        CitesPresent presentIds control)
  | [], acc, out, h => by
      rw [List.foldlM_nil, pure_eq_ok] at h
      exact ⟨by rw [h], fun hok => ⟨h ▸ hok, fun c hc => absurd hc List.not_mem_nil⟩⟩
  | control :: controls, acc, out, h => by
      rw [List.foldlM_cons] at h
      obtain ⟨mid, hmid, h⟩ := bind_eq_ok.mp h
      obtain ⟨hvalid, hcited⟩ := foldlM_checkControl h
      -- what the first control does, then what is left
      rw [checkControl] at hmid
      obtain ⟨controlId, hcontrolId, hmid⟩ := bind_eq_ok.mp hmid
      obtain ⟨status, -, hmid⟩ := bind_eq_ok.mp hmid
      obtain ⟨title, -, hmid⟩ := bind_eq_ok.mp hmid
      obtain ⟨ids, hids, hmid⟩ := bind_eq_ok.mp hmid
      obtain ⟨ok, hok, hmid⟩ := bind_eq_ok.mp hmid
      rw [← pure_eq_ok.mp hmid] at hvalid hcited
      refine ⟨hvalid.trans ?_, fun hout => ?_⟩
      · split
        · rfl
        · rfl
      · obtain ⟨hok', hrest⟩ := hcited hout
        obtain ⟨hacc, hpresent⟩ := foldlM_checkCited hok hok'
        -- `.get` was called on the control, so it is a dictionary
        have hdict : ∃ kvs, control = .dict kvs := by
          cases control with
          | dict kvs => exact ⟨kvs, rfl⟩
          | _ => cases hcontrolId
        obtain ⟨kvs, rfl⟩ := hdict
        exact ⟨hacc, List.forall_mem_cons.mpr ⟨⟨kvs, ids, rfl, hids, hpresent⟩, hrest⟩⟩

/-- Step 6 passes only where the controls cite what is present. -/
theorem checkControls_valid {presentIds : List Val}
    (h : checkControls report presentIds res = .ok res') (hvalid : res'.valid = true) :
    res.valid = true ∧ ∃ controls, (reportControls report).iter = .ok controls ∧
      ∀ control ∈ controls, CitesPresent presentIds control := by
  rw [checkControls] at h
  obtain ⟨controls, hcontrols, h⟩ := bind_eq_ok.mp h
  obtain ⟨out, hout, h⟩ := bind_eq_ok.mp h
  rw [← pure_eq_ok.mp h, VerificationResult.check_valid, Bool.and_eq_true] at hvalid
  obtain ⟨hsame, hcited⟩ := foldlM_checkControl hout
  exact ⟨hsame ▸ hvalid.1, controls, hcontrols, (hcited hvalid.2).2⟩

/-! ## Soundness -/

/-- **What a valid result rests on**: an encodable report, a well-formed head, entries that all pass,
and controls that cite only them. -/
theorem verifyReport_valid {trusted : Option Bytes}
    {deep : VerificationResult → Except PyErr VerificationResult}
    (hdeep : ∀ r r', deep r = .ok r' → r'.valid = true → r.valid = true)
    (h : verifyReport ed pem report trusted deep = .ok res) (hvalid : res.valid = true) :
    ∃ data root n items controls, reportSigningPayload report = .ok data ∧
      checkpointHead (reportCheckpoint report) = .ok (root, n) ∧
      (reportEvents report).iter = .ok items ∧
      (∀ item ∈ items, ∃ index leaf, Accepted n root item index leaf) ∧
      (reportControls report).iter = .ok controls ∧
      (∀ control ∈ controls, ∃ ids, citedIds control = .ok ids ∧
        ∀ id ∈ ids, ∃ item ∈ items, ∃ eid, entryId item = .ok eid ∧ id.eq eid = true) ∧
      ∃ r, deep r = .ok res := by
  -- from the end to the start: a valid result was valid at every step before
  rw [verifyReport] at h
  split at h
  · rename_i res₀ hkey
    rw [Except.ok.injEq] at h
    -- without a key the result is invalid
    rw [← h, establishKey_none hkey] at hvalid
    cases hvalid
  · rename_i raw res₀ _
    obtain ⟨res₁, hreport, h⟩ := bind_eq_ok.mp h
    obtain ⟨res₂, hcheckpoint, h⟩ := bind_eq_ok.mp h
    cases hhead : checkpointHead (reportCheckpoint report) with
    | error err =>
      -- and so it is where the checkpoint cannot be read
      rw [hhead, checkContents, Except.ok.injEq] at h
      rw [← h, VerificationResult.check_valid, Bool.and_false] at hvalid
      cases hvalid
    | ok head =>
      obtain ⟨root, n⟩ := head
      rw [hhead, checkContents] at h
      obtain ⟨⟨acc, res₃⟩, hentries, h⟩ := bind_eq_ok.mp h
      obtain ⟨res₄, hcontrols, h⟩ := bind_eq_ok.mp h
      obtain ⟨hvalid₄, controls, hiter, hcited⟩ := checkControls_valid hcontrols (hdeep _ _ h hvalid)
      obtain ⟨hvalid₂, items, hitems, haccepted, hpresent⟩ :=
        checkEntries_valid hentries (checkFullTree_valid hvalid₄)
      obtain ⟨-, hsigned, -⟩ :=
        checkReportSignature_valid hreport (checkCheckpointSignature_valid hcheckpoint hvalid₂).1
      obtain ⟨data, hdata⟩ := exists_payload_of_signatureOk hsigned
      refine ⟨data, root, n, items, controls, hdata, rfl, hitems, haccepted, hiter,
        fun control hcontrol => ?_, res₄, h⟩
      obtain ⟨kvs, ids, -, hids, hpresentIds⟩ := hcited control hcontrol
      refine ⟨ids, hids, fun id hid => ?_⟩
      -- the ids that are cited are those of accepted entries
      obtain ⟨eid, heid, heq⟩ := List.any_eq_true.mp (hpresentIds id hid).2
      obtain ⟨item, hitem, hentryId⟩ := hpresent eid heid
      exact ⟨item, hitem, eid, hentryId, heq⟩

/-- The value of a key of the report other than `signature` is null or free of floats. -/
theorem clean_of_report {k : Str} {v : Val} {data : Bytes} (hk : k ≠ lit "signature")
    (hdata : reportSigningPayload report = .ok data) (hv : report.lookup k = some v) :
    v = .null ∨ ∃ w, clean v = .ok w := by
  obtain ⟨w, hw, -⟩ := canonicalBytes_eq_ok.mp hdata
  obtain ⟨out, hout, -⟩ := cleanItems_of_clean hw
  refine clean_of_lookup (k := k) hout ?_
  rw [← hv]
  exact lookup_filter_of (p := fun l => l ≠ lit "signature") (decide_eq_true hk) report

/-- The items of an encodable report are free of floats. -/
theorem clean_of_mem_reportEvents {data : Bytes} (hdata : reportSigningPayload report = .ok data)
    {items : List Val} (hitems : (reportEvents report).iter = .ok items) {item : Val}
    (hitem : item ∈ items) : ∃ w, clean item = .ok w := by
  -- the list is the report's own, or empty where the report has none
  have hevents : reportEvents report = .list [] ∨ ∃ w, clean (reportEvents report) = .ok w := by
    rw [reportEvents]
    cases hlookup : report.lookup (lit "events") with
    | none => exact Or.inl rfl
    | some v =>
        rw [Option.getD_some, Val.orElse]
        split
        · rename_i htruthy
          rcases clean_of_report (by decide) hdata hlookup with rfl | hclean
          · cases htruthy
          · exact Or.inr hclean
        · exact Or.inl rfl
  rcases hevents with hnil | ⟨w, hw⟩
  · rw [hnil, Val.iter, Except.ok.injEq] at hitems
    rw [← hitems] at hitem
    cases hitem
  -- what iterates over a text or a dictionary is a text, and no float
  · cases hv : reportEvents report with
    | list vs =>
        rw [hv, Val.iter, Except.ok.injEq] at hitems
        rw [hv, clean] at hw
        obtain ⟨ws, hws, -⟩ := bind_eq_ok.mp hw
        exact clean_of_mem hws (hitems ▸ hitem)
    | tuple vs =>
        rw [hv, Val.iter, Except.ok.injEq] at hitems
        rw [hv, clean] at hw
        obtain ⟨ws, hws, -⟩ := bind_eq_ok.mp hw
        exact clean_of_mem hws (hitems ▸ hitem)
    | dict kvs =>
        rw [hv, Val.iter, Except.ok.injEq] at hitems
        rw [← hitems] at hitem
        obtain ⟨kv, -, rfl⟩ := List.mem_map.mp hitem
        exact ⟨_, rfl⟩
    | str t =>
        rw [hv, Val.iter, Except.ok.injEq] at hitems
        rw [← hitems] at hitem
        obtain ⟨c, -, rfl⟩ := List.mem_map.mp hitem
        exact ⟨_, rfl⟩
    | null | bool b | int z | float x => rw [hv] at hitems; cases hitems

/-- In an item that is free of floats, an index that is compared is an integer. -/
theorem exists_asInt_of_compared {n : Int} {root leaf : Bytes} {item index : Val} {proof : List Bytes}
    {included : Bool} (hclean : ∃ w, clean item = .ok w)
    (hindex : item.getD (lit "leaf_index") .null = .ok index)
    (hincluded : verifyInclusionAt index n leaf proof root = .ok included) :
    ∃ i, asInt index = some i ∧ verifyInclusion i n leaf proof root = included := by
  cases hv : index with
  | int z => exact ⟨z, rfl, by rw [hv, verifyInclusionAt] at hincluded; exact Except.ok.inj hincluded⟩
  | bool b =>
      exact ⟨b.toInt, rfl, by rw [hv, verifyInclusionAt] at hincluded; exact Except.ok.inj hincluded⟩
  | float x =>
      -- a float would have made the report impossible to encode
      rw [hv] at hindex
      cases item with
      | dict kvs =>
          rw [Val.getD, Val.get] at hindex
          cases hlookup : kvs.lookup (lit "leaf_index") with
          | none =>
              rw [hlookup] at hindex
              cases hindex
          | some v =>
              rw [hlookup] at hindex
              obtain rfl : v = .float x := Except.ok.inj hindex
              obtain ⟨w, hw⟩ := hclean
              obtain ⟨out, hout, -⟩ := cleanItems_of_clean hw
              rcases clean_of_lookup hout hlookup with hnull | ⟨u, hu⟩
              · cases hnull
              · cases hu
      | _ => cases hindex
  | null | str s | list vs | tuple vs | dict kvs =>
      rw [hv] at hincluded
      cases hincluded

/-- The strings the checks of one entry hash. -/
def hashedByEntry (n : Int) (item : Val) : List Bytes :=
  match entryEvent item, item.getD (lit "leaf_index") .null, proofNodes item with
  | .ok (.dict kvs), .ok index, .ok proof =>
    match canonicalBytes (.dict (withoutLedger kvs)), asInt index with
    | .ok data, some i => (leafPrefix ++ data) :: hashedByVerifyInclusion i n (leafHash data) proof
    | _, _ => []
  | _, _, _ => []

/-- The strings the checks of all entries hash. -/
def hashedByEntries (report : Items) : List Bytes :=
  match (reportEvents report).iter, checkpointHead (reportCheckpoint report) with
  | .ok items, .ok (_, n) => items.flatMap (hashedByEntry n)
  | _, _ => []

/-- The strings a log with the leaf contents `D` hashes. -/
def hashedByLog (D : List Bytes) : List Bytes :=
  D.map (leafPrefix ++ ·) ++ hashedByTreeHash (D.map leafHash)

/-- An event with a leaf is a dictionary with canonical content. -/
theorem leafFromEventDict_eq_ok {event : Val} {leaf : Bytes} (h : leafFromEventDict event = .ok leaf) :
    ∃ kvs data, event = .dict kvs ∧ canonicalBytes (.dict (withoutLedger kvs)) = .ok data ∧
      leaf = leafHash data := by
  cases event with
  | dict kvs =>
      rw [leafFromEventDict] at h
      obtain ⟨data, hdata, h⟩ := bind_eq_ok.mp h
      exact ⟨kvs, data, rfl, hdata, (pure_eq_ok.mp h).symm⟩
  | _ => cases h

/-- **One accepted entry** discloses a leaf of the log. -/
theorem Accepted.isLeaf {D : List Bytes} {item index : Val} {leaf : Bytes}
    (h : Accepted D.length (treeHash (D.map leafHash)) item index leaf)
    (hclean : ∃ w, clean item = .ok w)
    (hS : CollisionFree (hashedByLog D ++ hashedByEntry D.length item)) :
    ∃ kvs d, ∃ i : Nat, entryEvent item = .ok (.dict kvs) ∧ asInt index = some (i : Int) ∧
      D[i]? = some d ∧ canonicalBytes (.dict (withoutLedger kvs)) = .ok d ∧ leaf = leafHash d := by
  obtain ⟨event, proof, hevent, hindex, hleaf, -, hproof, hincluded⟩ := h
  obtain ⟨kvs, data, rfl, hdata, rfl⟩ := leafFromEventDict_eq_ok hleaf
  obtain ⟨z, hz, hverify⟩ := exists_asInt_of_compared hclean hindex hincluded
  have hentry : hashedByEntry D.length item = (leafPrefix ++ data)
      :: hashedByVerifyInclusion z D.length (leafHash data) proof := by
    rw [hashedByEntry, hevent, hindex, hproof]
    dsimp only
    rw [hdata, hz]
  rw [hentry] at hS
  have hlen : ((D.map leafHash).length : Int) = D.length := by rw [List.length_map]
  rw [← hlen] at hverify
  have hdigest : ∀ l ∈ D.map leafHash, l.length = 32 := by
    intro l hl
    obtain ⟨d, -, rfl⟩ := List.mem_map.mp hl
    exact length_leafHash d
  have hS' : CollisionFree (hashedByTreeHash (D.map leafHash)
      ++ hashedByVerifyInclusion z (D.map leafHash).length (leafHash data) proof) := by
    refine hS.mono fun s hs => ?_
    rcases List.mem_append.mp hs with htree | hrun
    · exact List.mem_append_left _ (List.mem_append_right _ htree)
    · exact List.mem_append_right _ (List.mem_cons_of_mem _ (hlen ▸ hrun))
  obtain ⟨i, rfl, hget, -⟩ := verifyInclusion_sound hdigest (length_leafHash data) hS' hverify
  rw [List.getElem?_map, Option.map_eq_some_iff] at hget
  obtain ⟨d, hd, hsame⟩ := hget
  -- one leaf hash, one leaf content
  have hstring := hS _ (List.mem_append_left _ (List.mem_append_left _
    (List.mem_map_of_mem (List.mem_of_getElem? hd)))) _
    (List.mem_append_right _ List.mem_cons_self) hsame
  obtain rfl := List.append_cancel_left hstring
  exact ⟨kvs, d, i, hevent, hz, hd, hdata, rfl⟩

/-- **Tamper evidence.** Let a log have the leaf contents `D`, and let the checkpoint of a report
carry its size and root. If the report is found valid under a trusted key, then every entry's leaf
index is that of a leaf whose content is the canonical form of the entry's event without `ledger`,
and every event id a control cites is the id of one of the entries. -/
theorem verifyReport_sound (ed : Ed25519) (pem : PemReader) (key : Bytes) (D : List Bytes)
    (report : Items) (res : VerificationResult)
    (hhead : checkpointHead (reportCheckpoint report) = .ok (treeHash (D.map leafHash), D.length))
    (h : verifyReport ed pem report (some key) = .ok res) (hvalid : res.valid = true)
    (hS : CollisionFree (hashedByLog D ++ hashedByEntries report)) :
    ∃ items controls, (reportEvents report).iter = .ok items ∧
      (reportControls report).iter = .ok controls ∧
      (∀ item ∈ items, ∃ kvs index d, ∃ i : Nat, entryEvent item = .ok (.dict kvs) ∧
        item.getD (lit "leaf_index") .null = .ok index ∧ asInt index = some (i : Int) ∧
        i < D.length ∧ D[i]? = some d ∧ canonicalBytes (.dict (withoutLedger kvs)) = .ok d) ∧
      ∀ control ∈ controls, ∃ ids, citedIds control = .ok ids ∧
        ∀ id ∈ ids, ∃ item ∈ items, ∃ eid, entryId item = .ok eid ∧ id.eq eid = true := by
  obtain ⟨data, root, n, items, controls, hdata, hhead', hitems, haccepted, hcontrols, hcited, -⟩ :=
    verifyReport_valid (fun r r' hr hr' => by rwa [pure_eq_ok.mp hr]) h hvalid
  rw [hhead, Except.ok.injEq, Prod.mk.injEq] at hhead'
  obtain ⟨rfl, rfl⟩ := hhead'
  refine ⟨items, controls, hitems, hcontrols, fun item hitem => ?_, hcited⟩
  obtain ⟨index, leaf, hitem'⟩ := haccepted item hitem
  have hS' : CollisionFree (hashedByLog D ++ hashedByEntry D.length item) := by
    refine hS.mono fun s hs => ?_
    rcases List.mem_append.mp hs with hlog | hentry
    · exact List.mem_append_left _ hlog
    · refine List.mem_append_right _ ?_
      rw [hashedByEntries, hitems, hhead]
      exact List.mem_flatMap.mpr ⟨item, hitem, hentry⟩
  obtain ⟨kvs, d, i, hevent, hi, hd, hcontent, -⟩ :=
    hitem'.isLeaf (clean_of_mem_reportEvents hdata hitems hitem) hS'
  obtain ⟨-, -, -, hindex, -⟩ := hitem'
  exact ⟨kvs, index, d, i, hevent, hindex, hi, (List.getElem?_eq_some_iff.mp hd).1, hd, hcontent⟩

/-! ## A report of two of three events -/

/-- An event with an id. -/
def sampleEvent (id : String) : Val := .dict [(lit "event_id", .str (lit id))]

/-- Its leaf content. -/
def sampleContent (id : String) : Bytes := (canonicalBytes (sampleEvent id)).toOption.getD []

/-- The leaf contents of a log of three events. -/
def sampleContents : List Bytes := [sampleContent "e1", sampleContent "e2", sampleContent "e3"]

/-- Its leaf hashes. -/
def sampleLeaves : List Bytes :=
  [[242, 226, 79, 91, 40, 26, 205, 232, 20, 209, 43, 98, 213, 255, 19, 170, 129, 36, 251, 135,
     250, 63, 194, 24, 77, 24, 245, 228, 74, 82, 188, 7],
   [167, 156, 179, 225, 149, 125, 174, 35, 36, 24, 61, 200, 25, 137, 11, 248, 182, 174, 104,
     178, 43, 0, 212, 225, 10, 31, 246, 108, 41, 232, 43, 13],
   [5, 24, 129, 46, 177, 58, 204, 34, 79, 254, 80, 145, 122, 216, 184, 87, 108, 20, 166, 31,
     114, 180, 168, 202, 200, 224, 91, 133, 215, 175, 207, 149]]

/-- The node over the first two leaves. -/
def sampleNode : Bytes :=
  [123, 222, 72, 165, 251, 253, 215, 149, 50, 114, 108, 87, 85, 211, 177, 155, 45, 118, 131, 18,
    12, 104, 72, 173, 100, 194, 77, 211, 64, 170, 117, 30]

/-- The root of the log. -/
def sampleRoot : Bytes :=
  [3, 205, 113, 153, 119, 194, 102, 170, 166, 171, 181, 162, 195, 154, 147, 158, 3, 159, 109,
    191, 138, 232, 19, 43, 246, 133, 52, 68, 208, 215, 220, 82]

/-- The producer's signatures of the checkpoint and of the report. -/
def sampleSigs : Bytes × Bytes :=
  ([249, 229, 169, 144, 224, 218, 78, 162, 26, 139, 32, 49, 3, 117, 142, 125, 101, 114, 210, 138,
    43, 167, 115, 138, 6, 131, 80, 232, 88, 110, 46, 39, 81, 226, 140, 224, 34, 21, 176, 96, 90,
    198, 14, 135, 138, 151, 196, 51, 0, 95, 212, 89, 95, 253, 203, 0, 125, 73, 144, 180, 68, 136,
    85, 13],
   [209, 175, 249, 184, 24, 148, 226, 31, 61, 135, 26, 129, 147, 249, 111, 251, 255, 225, 184,
    85, 228, 80, 39, 19, 26, 35, 106, 70, 67, 232, 26, 136, 243, 222, 57, 222, 189, 132, 170,
    115, 173, 215, 88, 65, 204, 203, 97, 227, 229, 202, 6, 214, 222, 75, 215, 21, 58, 52, 149,
    90, 17, 219, 80, 7])

/-- The checkpoint of that log. -/
def sampleCheckpoint : Val :=
  .dict [(lit "origin", .str (lit "demo")), (lit "tree_size", .int 3),
    (lit "root_hash", .str (hex sampleRoot)),
    (lit "timestamp", .str (lit "2026-01-01T00:00:00Z")),
    (lit "signature", .str (b64encode sampleSigs.1))]

/-- The entry of an event. -/
def sampleEntry (id : String) (index : Int) (leaf : Bytes) (proof : List Bytes) : Val :=
  .dict [(lit "event", sampleEvent id), (lit "leaf_index", .int index),
    (lit "leaf_hash", .str (lit "sha256:" ++ hex leaf)),
    (lit "inclusion_proof", .list (proof.map fun node => .str (hex node)))]

/-- A report that discloses the last event, the first one, and the last one again. -/
def sampleReport : Items :=
  [(lit "checkpoint", sampleCheckpoint),
    (lit "events", .list [sampleEntry "e3" 2 (sampleLeaves[2]!) [sampleNode],
      sampleEntry "e1" 0 (sampleLeaves[0]!) [sampleLeaves[1]!, sampleLeaves[2]!],
      sampleEntry "e3" 2 (sampleLeaves[2]!) [sampleNode]]),
    (lit "controls", .list [.dict [(lit "control_id", .str (lit "c1")),
      (lit "status", .str (lit "satisfied")),
      (lit "evidence_event_ids", .list [.str (lit "e1"), .str (lit "e3")])]]),
    (lit "signature", .dict [(lit "signature", .str (b64encode sampleSigs.2))])]

/-- The producer signed the checkpoint and the report. -/
def sampleReportEd25519 : Ed25519 :=
  madeBy sampleKey [((checkpointPayload sampleCheckpoint).toOption.getD [], sampleSigs.1),
    ((reportSigningPayload sampleReport).toOption.getD [], sampleSigs.2)]

/-- The report is valid. -/
theorem verifyReport_sampleReport : ∃ res,
    verifyReport sampleReportEd25519 (fun _ => .error []) sampleReport (some sampleKey) = .ok res ∧
      res.valid = true := by
  have hvalid : ((verifyReport sampleReportEd25519 (fun _ => .error []) sampleReport
      (some sampleKey)).toOption.map (·.valid)) = some true := by decide +kernel
  cases hres : verifyReport sampleReportEd25519 (fun _ => .error []) sampleReport
      (some sampleKey) with
  | error err => rw [hres] at hvalid; cases hvalid
  | ok res => rw [hres] at hvalid; exact ⟨res, rfl, Option.some.inj hvalid⟩

/-- The leaves of the log. -/
theorem leafHash_sampleContents : sampleContents.map leafHash = sampleLeaves := by decide +kernel

/-- Its tree. -/
theorem treeHash_sampleLeaves : treeHash sampleLeaves = sampleRoot := by decide +kernel

/-- What the log and the verifier hash. -/
def sampleHashed : List Bytes :=
  sampleContents.map (leafPrefix ++ ·) ++ [nodePrefix ++ sampleLeaves[0]! ++ sampleLeaves[1]!,
    nodePrefix ++ sampleNode ++ sampleLeaves[2]!]

/-- It does not collide. -/
theorem collisionFree_sampleHashed : CollisionFree sampleHashed :=
  @collisionFree_of_digests _ _ [[242, 226], [167, 156], [5, 24], [123, 222], [3, 205]]
    (fun _ hs => hs) (by decide +kernel) (by decide)

/-- Every entry of the report discloses a leaf of the log, and what the control cites is disclosed. -/
theorem verifyReport_sound_sample : ∃ items controls,
    (reportEvents sampleReport).iter = .ok items ∧ (reportControls sampleReport).iter = .ok controls ∧
      items.length = 3 ∧
      (∀ item ∈ items, ∃ kvs index d, ∃ i : Nat, entryEvent item = .ok (.dict kvs) ∧
        item.getD (lit "leaf_index") .null = .ok index ∧ asInt index = some (i : Int) ∧ i < 3 ∧
        sampleContents[i]? = some d ∧ canonicalBytes (.dict (withoutLedger kvs)) = .ok d) ∧
      ∀ control ∈ controls, ∃ ids, citedIds control = .ok ids ∧
        ∀ id ∈ ids, ∃ item ∈ items, ∃ eid, entryId item = .ok eid ∧ id.eq eid = true := by
  obtain ⟨res, hres, hvalid⟩ := verifyReport_sampleReport
  have hhead : checkpointHead (reportCheckpoint sampleReport) = .ok (sampleRoot, 3) := by
    decide +kernel
  have hroot : treeHash (sampleContents.map leafHash) = sampleRoot := by
    rw [leafHash_sampleContents, treeHash_sampleLeaves]
  have hlog : ∀ s ∈ hashedByLog sampleContents, s ∈ sampleHashed := by
    rw [hashedByLog, leafHash_sampleContents]
    decide +kernel
  have hentries : ∀ s ∈ hashedByEntries sampleReport, s ∈ sampleHashed := by
    decide +kernel
  have hfree : CollisionFree (hashedByLog sampleContents ++ hashedByEntries sampleReport) :=
    collisionFree_sampleHashed.mono (List.forall_mem_append.mpr ⟨hlog, hentries⟩)
  obtain ⟨items, controls, hitems, hcontrols, hentry, hcited⟩ := verifyReport_sound sampleReportEd25519
    (fun _ => .error []) sampleKey sampleContents sampleReport res
    (by rw [hhead, hroot]; rfl) hres hvalid hfree
  have hlength : items.length = 3 := by
    rw [← Except.ok.inj (show (reportEvents sampleReport).iter = .ok _ from rfl |>.symm.trans hitems)]
    rfl
  exact ⟨items, controls, hitems, hcontrols, hlength, hentry, hcited⟩

end OpenWright.Verify
