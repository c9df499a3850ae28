import OpenWright.Python.Agree
import OpenWright.VerifyAccepts

/-! # The single-file verifier

A second verifier of signed reports, in one file without dependencies, for auditors and for the
browser. It repeats the procedure of the library's verifier, most of it step for step; it does not
repeat the checks of which key a report names, and it takes other defaults for what is missing.

* **`verifiers_agree_iff`** — on which reports the two agree. -/

namespace OpenWright.BrowserVerifier

open Python Python.Val Merkle Signing Verify

/-! ## Canonical bytes

The file has its own copies of the helpers. Those of the Merkle tree (`_leaf_hash`, `_node_hash`,
`_largest_pow2_lt`, `_tree_hash`, `_verify_inclusion`) are the library's word for word, and are given
by the same definitions; cleaning raises another exception. -/

/-- The error about a float. -/
def floatError : PyErr :=
  { kind := .valueError, msg := [.text (lit "floats are not allowed in canonical evidence")] }

mutual
/-- `_clean`. -/
def clean : Val → Except PyErr Val
  | .dict kvs => do
    let out ← cleanItems kvs
    return .dict out
  | .list vs => do
    let out ← cleanList vs
    return .list out
  | .tuple vs => do
    let out ← cleanList vs
    return .list out
  | .float _ => .error floatError
  | .null => .ok .null
  | .bool b => .ok (.bool b)
  | .int z => .ok (.int z)
  | .str s => .ok (.str s)

/-- `_clean` of every element. -/
def cleanList : List Val → Except PyErr (List Val)
  | [] => .ok []
  | v :: vs => do
    let w ← clean v
    let ws ← cleanList vs
    return w :: ws

/-- `_clean` of every entry that is not null. -/
def cleanItems : Items → Except PyErr Items
  | [] => .ok []
  | (_, .null) :: kvs => cleanItems kvs
  | (k, v) :: kvs => do
    let w ← clean v
    let out ← cleanItems kvs
    return (k, w) :: out
end

/-- `canonical_bytes`. -/
def canonicalBytes (obj : Val) : Except PyErr Bytes := do
  let cleaned ← clean obj
  match utf8 (Json.text cleaned) with
  | some b => return b
  | none => throw { kind := .unicodeEncodeError }

/-! ## The procedure -/

/-- What is returned: whether the report is valid, and the checks. -/
structure Result where
  valid : Bool := true
  checks : List (Str × Bool) := []

/-- The local function `chk`. -/
def Result.chk (res : Result) (name : String) (ok : Bool) : Result where
  valid := res.valid && ok
  checks := res.checks ++ [(lit name, ok)]

/-- A check makes a result invalid, or leaves it. -/
@[simp] theorem Result.chk_valid (res : Result) (name : String) (ok : Bool) :
    (res.chk name ok).valid = (res.valid && ok) := rfl

/-- `base64.b64decode(v)`. -/
def b64decodeVal : Val → Except PyErr Bytes
  | .str s =>
    match b64decode s with
    | some b => .ok b
    | none => .error { kind := .valueError }
  | _ => .error { kind := .typeError }

/-- `base64.b64decode(block.get("signature", ""))`. -/
def signatureOf (block : Val) : Except PyErr Bytes := do
  let text ← block.getD (lit "signature") (.str [])
  b64decodeVal text

/-- Whether the report is signed. -/
def reportSigned (ed : Ed25519) (report : Items) (key : Bytes) : Except PyErr Bool := do
  let sig ← signatureOf ((report.lookup (lit "signature")).getD (.dict []))
  let data ← canonicalBytes (.dict (report.filter fun kv => kv.1 ≠ lit "signature"))
  return ed key sig data

/-- The four signed fields of a checkpoint, `None` where one is missing. -/
def headFields (origin rootHash timestamp treeSize : Val) : Val :=
  .dict [(lit "origin", origin), (lit "root_hash", rootHash), (lit "timestamp", timestamp),
    (lit "tree_size", treeSize)]

/-- Whether the checkpoint is signed, and names the key. -/
def checkpointSigned (ed : Ed25519) (cp : Val) (key : Bytes) : Except PyErr Bool := do
  let origin ← cp.getD (lit "origin") .null
  let rootHash ← cp.getD (lit "root_hash") .null
  let timestamp ← cp.getD (lit "timestamp") .null
  let treeSize ← cp.getD (lit "tree_size") .null
  -- the payload is made before the signature is read
  let data ← canonicalBytes (headFields origin rootHash timestamp treeSize)
  let sig ← signatureOf cp
  let keyId ← cp.getD (lit "public_key_id") .null
  return ed key sig data && keyId.eq (.str (keyIdFor key))

/-- The leaf hash of an event without its `ledger`. -/
def leafOf : Val → Except PyErr Bytes
  | .dict kvs => do
    let data ← canonicalBytes (.dict (withoutLedger kvs))
    return leafHash data
  | _ => .error { kind := .attributeError }

/-- What the loop over the entries accumulates. -/
structure Gathered where
  /-- `leaves`, a dictionary. -/
  leaves : List (Val × Bytes) := []
  leafOk : Bool := true
  inclOk : Bool := true
  /-- `present`, a set. -/
  present : List Val := []

/-- `leaves[idx] = leaf`. -/
def setLeafAt (idx : Val) (leaf : Bytes) : List (Val × Bytes) → List (Val × Bytes)
  | [] => [(idx, leaf)]
  | (j, other) :: rest =>
    if j.eq idx then (j, leaf) :: rest else (j, other) :: setLeafAt idx leaf rest

/-- The body of the loop over the entries. An index that the inclusion check returned for is a
number, which is hashable. -/
def gather (n : Int) (root : Bytes) (acc : Gathered) (item : Val) : Except PyErr Gathered := do
  let ev ← item.getD (lit "event") (.dict [])
  let idx ← item.getD (lit "leaf_index") .null
  let eventId ← ev.getD (lit "event_id") .null
  if eventId.hashable = false then .error { kind := .typeError }
  else do
    let recomputed ← leafOf ev
    let stored ← storedLeaf item
    let proof ← proofNodes item
    let included ← verifyInclusionAt idx n recomputed proof root
    -- a leaf index given twice keeps the last leaf
    return { leaves := setLeafAt idx recomputed acc.leaves,
             leafOk := acc.leafOk && recomputed == stored,
             inclOk := acc.inclOk && included,
             present := acc.present ++ [eventId] }

/-- The leaves in order, if each index from 0 to `n - 1` has one and no other has. -/
def orderedLeaves (n : Int) (leaves : List (Val × Bytes)) : Option (List Bytes) :=
  if leaves.length = n then
    (List.range n.toNat).mapM fun i => (leaves.find? fun p => p.1.eq (.int i)).map (·.2)
  else none

/-- Whether the cited ids are all present; the first one that is not ends the search. -/
def allPresent (present : List Val) : List Val → Except PyErr Bool
  | [] => .ok true
  | id :: ids =>
    if id.hashable then if id.isIn present then allPresent present ids else .ok false
    else .error { kind := .typeError }

/-- Whether the controls cite only what is present; the first one that does not ends the search. -/
def evidencePresent (present : List Val) : List Val → Except PyErr Bool
  | [] => .ok true
  | control :: controls => do
    let ids ← citedIds control
    let ok ← allPresent present ids
    if ok then evidencePresent present controls else return false

/-- The checks of the contents, against the root and the size of the checkpoint. -/
def checkContents (report : Items) (n : Int) (root : Bytes) (res : Result) : Except PyErr Result := do
  let items ← ((report.lookup (lit "events")).getD (.list [])).iter
  let acc ← items.foldlM (gather n root) {}
  let res := (res.chk "event_leaf_hashes" acc.leafOk).chk "inclusion_proofs" acc.inclOk
  -- the root is only compared when there is a leaf for every index
  let res :=
    match orderedLeaves n acc.leaves with
    | some ordered => res.chk "full_tree_root" (treeHash ordered == root)
    | none => res
  let controls ← (reportControls report).iter
  let evOk ← evidencePresent acc.present controls
  return res.chk "evidence_events_present" evOk

/-- `verify_report`. -/
def verifyReport (ed : Ed25519) (report : Items) (key : Bytes) : Except PyErr Result := do
  let reportOk ← reportSigned ed report key
  let cp := (report.lookup (lit "checkpoint")).getD (.dict [])
  let checkpointOk ← checkpointSigned ed cp key
  let (root, n) ← checkpointHead cp
  checkContents report n root
    ((({} : Result).chk "report_signature" reportOk).chk "checkpoint_signature" checkpointOk)

/-! ## The steps that are repeated -/

mutual
/-- Both copies of `_clean` return the same. -/
theorem clean_agree : ∀ v : Val, Agree Eq (clean v) (Canonical.clean v)
  | .null | .bool _ | .int _ | .str _ => Agree.ok rfl
  | .float _ => Agree.error _ _
  | .list vs | .tuple vs => (cleanList_agree vs).bind fun _ _ h => Agree.ok (congrArg Val.list h)
  | .dict kvs => (cleanItems_agree kvs).bind fun _ _ h => Agree.ok (congrArg Val.dict h)

/-- The same of lists. -/
theorem cleanList_agree : ∀ vs : List Val, Agree Eq (cleanList vs) (Canonical.cleanList vs)
  | [] => Agree.ok rfl
  | v :: vs => (clean_agree v).bind fun _ _ hw => (cleanList_agree vs).bind fun _ _ hws =>
      Agree.ok (congrArg₂ List.cons hw hws)

/-- The same of dictionaries. -/
theorem cleanItems_agree : ∀ kvs : Items, Agree Eq (cleanItems kvs) (Canonical.cleanItems kvs)
  | [] => Agree.ok rfl
  | (k, v) :: kvs => by
      by_cases hnull : v = .null
      · subst hnull
        exact cleanItems_agree kvs
      · rw [Canonical.cleanItems_cons hnull, show cleanItems ((k, v) :: kvs) = (do
            let w ← clean v
            let out ← cleanItems kvs
            return (k, w) :: out) by cases v <;> first | rfl | exact absurd rfl hnull]
        exact (clean_agree v).bind fun _ _ hw => (cleanItems_agree kvs).bind fun _ _ hout =>
          Agree.ok (by rw [hw, hout])
end

/-- Both copies of `canonical_bytes` return the same. -/
theorem canonicalBytes_agree (v : Val) : Agree Eq (canonicalBytes v) (Canonical.canonicalBytes v) := by
  refine (clean_agree v).bind fun w w' h => ?_
  subst h
  exact Agree.refl _

/-- Both compute the same leaf. -/
theorem leafOf_agree (ev : Val) : Agree Eq (leafOf ev) (leafFromEventDict ev) := by
  cases ev with
  | dict kvs =>
      refine (canonicalBytes_agree _).bind fun data data' h => ?_
      subst h
      exact Agree.refl _
  | _ => exact Agree.error _ _

/-- An entry's event, where it has one, is a dictionary. -/
def EventDict (item : Val) : Prop := ∀ v ∈ item.item? (lit "event"), ∃ kvs, v = .dict kvs

/-- The event of such an entry is read alike. -/
theorem getD_event {item : Val} (h : EventDict item) :
    item.getD (lit "event") (.dict []) = entryEvent item := by
  cases item with
  | dict kvs =>
      rw [entryEvent, getD, getD, Val.get]
      cases hlookup : kvs.lookup (lit "event") with
      | none => rfl
      | some v =>
          obtain ⟨kvs', rfl⟩ := h v hlookup
          change Except.ok _ = Except.ok _
          cases kvs' with
          | nil => rfl
          | cons kv kvs' => rfl
  | _ => rfl

/-- An entry that the loop gets through has a dictionary for its event. -/
theorem eventDict_of_gather {n : Int} {root : Bytes} {acc out : Gathered} {item : Val}
    (h : gather n root acc item = .ok out) : EventDict item := by
  intro v hv
  rw [gather, getD_eq_ok hv] at h
  obtain ⟨event, hevent, h⟩ := bind_eq_ok.mp h
  obtain ⟨index, -, h⟩ := bind_eq_ok.mp h
  obtain ⟨id, hid, -⟩ := bind_eq_ok.mp h
  obtain rfl := Except.ok.inj hevent
  cases v with
  | dict kvs => exact ⟨kvs, rfl⟩
  | _ => cases hid

/-! ## The leaves -/

/-- A leaf at an index that is a number, and at that number. -/
def SameLeaf (p : Val × Bytes) (q : Int × Bytes) : Prop := asInt p.1 = some q.1 ∧ p.2 = q.2

/-- The class of an index that is a number. -/
theorem key_of_asInt {v : Val} {i : Int} (h : asInt v = some i) : v.key = .int i := by
  cases v with
  | int z => exact congrArg Val.int (Option.some.inj h)
  | bool b => exact congrArg Val.int (Option.some.inj h)
  | _ => cases h

/-- Such indices are equal where the numbers are. -/
theorem eq_of_asInt {v w : Val} {i j : Int} (hv : asInt v = some i) (hw : asInt w = some j) :
    v.eq w = (i == j) := by
  rw [Val.eq, key_of_asInt hv, key_of_asInt hw]
  simp [hasNan, beq_eq_decide]

/-- Both dictionaries bind the same leaf. -/
theorem setLeafAt_same {idx : Val} {i : Int} {leaf : Bytes} (hidx : asInt idx = some i)
    {leaves : List (Val × Bytes)} {leavesByIndex : List (Int × Bytes)}
    (h : List.Forall₂ SameLeaf leaves leavesByIndex) :
    List.Forall₂ SameLeaf (setLeafAt idx leaf leaves) (setLeaf i leaf leavesByIndex) := by
  induction h with
  | nil => exact .cons ⟨hidx, rfl⟩ .nil
  | @cons p q leaves leavesByIndex hpq hrest ih =>
      obtain ⟨j, other⟩ := p
      obtain ⟨j', other'⟩ := q
      rw [setLeafAt, setLeaf, eq_of_asInt hpq.1 hidx]
      by_cases hj : j' = i
      · rw [if_pos (beq_iff_eq.mpr hj), if_pos hj]
        exact .cons ⟨hj ▸ hpq.1, rfl⟩ hrest
      · rw [if_neg (fun h => hj (beq_iff_eq.mp h)), if_neg hj]
        exact .cons hpq ih

/-- Both dictionaries have the same leaf at a number. -/
theorem find?_same (i : Int) {leaves : List (Val × Bytes)} {leavesByIndex : List (Int × Bytes)}
    (h : List.Forall₂ SameLeaf leaves leavesByIndex) :
    (leaves.find? fun p => p.1.eq (.int i)).map (·.2) = leavesByIndex.lookup i := by
  induction h with
  | nil => rfl
  | @cons p q leaves leavesByIndex hpq _ ih =>
      obtain ⟨j, other⟩ := q
      rw [List.find?_cons, List.lookup_cons, eq_of_asInt hpq.1 (show asInt (.int i) = some i from rfl),
        Bool.beq_comm]
      cases i == j with
      | true => exact congrArg some hpq.2
      | false => exact ih

/-- Both find the same leaves in order. -/
theorem orderedLeaves_eq (n : Int) {leaves : List (Val × Bytes)} {leavesByIndex : List (Int × Bytes)}
    (h : List.Forall₂ SameLeaf leaves leavesByIndex) :
    orderedLeaves n leaves = allLeaves n leavesByIndex := by
  have hrange : (List.range n.toNat).mapM
        (fun i => (leaves.find? fun p => p.1.eq (.int i)).map (·.2))
      = ((List.range n.toNat).map fun i : Nat => (i : Int)).mapM fun i => leavesByIndex.lookup i := by
    rw [List.mapM_map]
    exact congrArg (fun f => (List.range n.toNat).mapM f) (funext fun i : Nat => find?_same i h)
  rw [orderedLeaves, allLeaves, h.length_eq, hrange, List.map_eq_flatMap]
  rfl

/-- The two loops over the entries have accumulated the same. -/
structure Same (acc : Gathered) (acc' : Entries) : Prop where
  leaves : List.Forall₂ SameLeaf acc.leaves acc'.leavesByIndex
  leafOk : acc.leafOk = acc'.leafOk
  inclOk : acc.inclOk = acc'.inclOk
  present : acc.present = acc'.presentIds

/-- **One entry**: the bodies of the two loops agree. -/
theorem gather_agree {n : Int} {root : Bytes} {item : Val} (hclean : ∃ w, Canonical.clean item = .ok w)
    (hevent : EventDict item) {acc : Gathered} {acc' : Entries} (h : Same acc acc') :
    Agree Same (gather n root acc item) (checkEntry n root acc' item) := by
  rw [gather, checkEntry, getD_event hevent]
  refine Agree.bind_left _ fun event _ => Agree.bind_left _ fun index hindex =>
    Agree.bind_left _ fun id _ => ?_
  split
  · exact Agree.error _ _
  refine (leafOf_agree event).bind fun leaf leaf' hleaf => ?_
  subst hleaf
  refine Agree.bind_left _ fun stored _ => Agree.bind_left _ fun proof _ =>
    Agree.bind_left _ fun included hincluded => Agree.ok ?_
  -- a compared index of a report without floats is a number
  obtain ⟨i, hi, -⟩ := exists_asInt_of_compared hclean hindex hincluded
  refine ⟨?_, by rw [h.leafOk], by rw [h.inclOk], by rw [h.present]⟩
  rw [hi]
  exact setLeafAt_same hi h.leaves

/-! ## What both check -/

/-- The signing bytes of a head, with `None` where a field is missing. -/
def headPayload (cp : Val) : Except PyErr Bytes := do
  let origin ← cp.getD (lit "origin") .null
  let rootHash ← cp.getD (lit "root_hash") .null
  let timestamp ← cp.getD (lit "timestamp") .null
  let treeSize ← cp.getD (lit "tree_size") .null
  Canonical.canonicalBytes (headFields origin rootHash timestamp treeSize)

/-- What both verifiers check: the two signatures, the head, and the contents against it. -/
structure Checked (ed : Ed25519) (report : Items) (key : Bytes) : Prop where
  reportSignature : signatureOk ed key (reportSignature report) (reportSigningPayload report) = true
  checkpointSignature :
    signatureOk ed key (reportCheckpoint report) (headPayload (reportCheckpoint report)) = true
  contents : ∃ root n, checkpointHead (reportCheckpoint report) = .ok (root, n) ∧
    ContentsPass report n root

/-- What the library checks besides: that no key but the trusted one is embedded or named, and that
the signed fields of the checkpoint are there. -/
structure LibraryDemands (pem : PemReader) (report : Items) (key : Bytes) : Prop where
  embedded : ((report.lookup (lit "public_key_pem")).getD .null).truthy = true →
    ∀ raw, pem ((report.lookup (lit "public_key_pem")).getD .null) = .ok raw → raw = key
  reportKeyId : otherKeyId key (reportSignature report) = .ok false
  checkpointKeyId : otherKeyId key (reportCheckpoint report) = .ok false
  origin : ((reportCheckpoint report).item? (lit "origin")).isSome = true
  timestamp : ((reportCheckpoint report).item? (lit "timestamp")).isSome = true

/-- What the single file needs in order to return: blocks and events that are dictionaries, and a
list of events that is one, where they are there at all. -/
structure Readable (report : Items) : Prop where
  signature : ∀ v ∈ report.lookup (lit "signature"), ∃ kvs, v = .dict kvs
  events : ∀ v ∈ report.lookup (lit "events"), ∃ items, v.iter = .ok items
  event : ∀ items, (reportEvents report).iter = .ok items → ∀ item ∈ items, EventDict item

/-- What the single file checks besides: that the checkpoint names the trusted key. -/
def NamesKey (report : Items) (key : Bytes) : Prop :=
  ∃ v ∈ (reportCheckpoint report).item? (lit "public_key_id"), v.eq (.str (keyIdFor key)) = true

/-! ## When the library finds a report valid -/

variable {ed : Ed25519} {pem : PemReader} {report : Items} {key : Bytes} {n : Int} {root : Bytes}

/-- The head has a payload for the library where its four fields are there, the same as for both. -/
theorem checkpointPayload_eq_ok {cp : Val} {data : Bytes} :
    checkpointPayload cp = .ok data ↔ headPayload cp = .ok data ∧
      ∀ k ∈ [lit "origin", lit "root_hash", lit "timestamp", lit "tree_size"],
        (cp.item? k).isSome = true := by
  constructor
  · intro h
    obtain ⟨origin, horigin, h⟩ := bind_eq_ok.mp h
    obtain ⟨rootHash, hrootHash, h⟩ := bind_eq_ok.mp h
    obtain ⟨timestamp, htimestamp, h⟩ := bind_eq_ok.mp h
    obtain ⟨treeSize, htreeSize, h⟩ := bind_eq_ok.mp h
    -- `[...]` and `.get` read the same where the field is there
    have horigin' := item?_of_getItem horigin
    have hrootHash' := item?_of_getItem hrootHash
    have htimestamp' := item?_of_getItem htimestamp
    have htreeSize' := item?_of_getItem htreeSize
    refine ⟨bind_eq_ok.mpr ⟨_, getD_eq_ok horigin' _, bind_eq_ok.mpr ⟨_, getD_eq_ok hrootHash' _,
      bind_eq_ok.mpr ⟨_, getD_eq_ok htimestamp' _, bind_eq_ok.mpr ⟨_, getD_eq_ok htreeSize' _, h⟩⟩⟩⟩,
      ?_⟩
    simp [horigin', hrootHash', htimestamp', htreeSize']
  · rintro ⟨h, hfields⟩
    simp only [List.forall_mem_cons, Option.isSome_iff_exists] at hfields
    obtain ⟨⟨origin, horigin⟩, ⟨rootHash, hrootHash⟩, ⟨timestamp, htimestamp⟩,
      ⟨treeSize, htreeSize⟩, -⟩ := hfields
    rw [headPayload, getD_eq_ok horigin, getD_eq_ok hrootHash, getD_eq_ok htimestamp,
      getD_eq_ok htreeSize] at h
    rw [checkpointPayload, getItem_eq_ok horigin, getItem_eq_ok hrootHash, getItem_eq_ok htimestamp,
      getItem_eq_ok htreeSize]
    exact h

/-- The two fields of the head that are not read again are there where the library finds a payload. -/
theorem signatureOk_checkpointPayload_iff {cp : Val} (hhead : checkpointHead cp = .ok (root, n)) :
    signatureOk ed key cp (checkpointPayload cp) = true ↔
      signatureOk ed key cp (headPayload cp) = true ∧
        (cp.item? (lit "origin")).isSome = true ∧ (cp.item? (lit "timestamp")).isSome = true := by
  obtain ⟨rootHash, treeSize, hrootHash, -, htreeSize⟩ := fields_of_checkpointHead hhead
  rw [signatureOk_iff, signatureOk_iff]
  simp only [checkpointPayload_eq_ok, List.forall_mem_cons, hrootHash, htreeSize, Option.isSome_some,
    List.not_mem_nil, false_implies, implies_true, true_and, and_true]
  constructor
  · rintro ⟨text, sig, data, hblock, hsig, ⟨hdata, hfields⟩, hed⟩
    exact ⟨⟨text, sig, data, hblock, hsig, hdata, hed⟩, hfields⟩
  · rintro ⟨⟨text, sig, data, hblock, hsig, hdata, hed⟩, hfields⟩
    exact ⟨text, sig, data, hblock, hsig, ⟨hdata, hfields⟩, hed⟩

/-- **The library** answers on every report that passes what both check: it finds it valid exactly
where its own demands are met. -/
theorem library_of_checked (h : Checked ed report key) :
    ∃ res, Verify.verifyReport ed pem report (some key) = .ok res ∧
      (res.valid = true ↔ LibraryDemands pem report key) := by
  obtain ⟨hreportSigned, hpayload, root, n, hhead, hcontents⟩ := h
  -- a signature was read from the block, so it is a dictionary
  obtain ⟨kvs, hblock⟩ : ∃ kvs, reportSignature report = .dict kvs := by
    obtain ⟨text, -, -, hblock, -⟩ := signatureOk_iff.mp hreportSigned
    cases hv : reportSignature report with
    | dict kvs => exact ⟨kvs, rfl⟩
    | _ => rw [hv] at hblock; cases hblock
  obtain ⟨res₀, hkey, hvalid₀⟩ := @exists_establishKey pem report key
  obtain ⟨res₁, hreport, hvalid₁⟩ := @exists_checkReportSignature ed report key kvs hblock res₀
  obtain ⟨res₂, hcheckpoint, hvalid₂⟩ := @exists_checkCheckpointSignature ed key n root _ hhead res₁
  obtain ⟨res, hres, hvalid⟩ := @checkContents_of_pass report n root pure hcontents res₂
  refine ⟨res, ?_, ?_⟩
  · rw [Verify.verifyReport, hkey]
    refine bind_eq_ok.mpr ⟨res₁, hreport, bind_eq_ok.mpr ⟨res₂, hcheckpoint, ?_⟩⟩
    rw [hhead]
    exact hres
  -- each flag by itself: what both check passes, and the demands are left
  · rw [hvalid, hvalid₂, hvalid₁, hvalid₀, signatureOk_checkpointPayload_iff hhead]
    constructor
    · rintro ⟨⟨hembedded, -, hreportKeyId⟩, ⟨-, horigin, htimestamp⟩, hcheckpointKeyId⟩
      exact ⟨hembedded, hreportKeyId, hcheckpointKeyId, horigin, htimestamp⟩
    · intro h
      exact ⟨⟨h.embedded, hreportSigned, h.reportKeyId⟩, ⟨hpayload, h.origin, h.timestamp⟩,
        h.checkpointKeyId⟩

/-- The library finds only reports valid that pass what both check. -/
theorem checked_of_library {res : VerificationResult}
    (h : Verify.verifyReport ed pem report (some key) = .ok res) (hvalid : res.valid = true) :
    Checked ed report key := by
  obtain ⟨res₀, hkey, -⟩ := @exists_establishKey pem report key
  rw [Verify.verifyReport, hkey] at h
  obtain ⟨res₁, hreport, h⟩ := bind_eq_ok.mp h
  obtain ⟨res₂, hcheckpoint, h⟩ := bind_eq_ok.mp h
  cases hhead : checkpointHead (reportCheckpoint report) with
  | error err =>
      rw [hhead, Verify.checkContents, Except.ok.injEq] at h
      rw [← h, VerificationResult.check_valid, Bool.and_false] at hvalid
      cases hvalid
  | ok head =>
      rw [hhead] at h
      obtain ⟨⟨hvalid₂, hcontents⟩, -⟩ :=
        contentsPass_of_valid (fun r r' hr hr' => by rwa [pure_eq_ok.mp hr]) h hvalid
      obtain ⟨hvalid₁, hsigned, -⟩ := checkCheckpointSignature_valid hcheckpoint hvalid₂
      obtain ⟨-, hreportSigned, -⟩ := checkReportSignature_valid hreport hvalid₁
      exact ⟨hreportSigned, ((signatureOk_checkpointPayload_iff hhead).mp hsigned).1, head.1, head.2,
        hhead, hcontents⟩

/-! ## When the single file finds a report valid -/

/-- Both copies of `canonical_bytes` return the same bytes. -/
theorem canonicalBytes_eq_ok {v : Val} {data : Bytes} :
    canonicalBytes v = .ok data ↔ Canonical.canonicalBytes v = .ok data := by
  constructor
  · intro h
    obtain ⟨data', h', rfl⟩ := (canonicalBytes_agree v).right h
    exact h'
  · intro h
    obtain ⟨data', h', rfl⟩ := (canonicalBytes_agree v).left h
    exact h'

/-- A signature that can be decoded. -/
theorem signatureOf_eq_ok {block : Val} {sig : Bytes} : signatureOf block = .ok sig ↔ ∃ text,
    block.getD (lit "signature") (.str []) = .ok (.str text) ∧ b64decode text = some sig := by
  rw [signatureOf, bind_eq_ok]
  constructor
  · rintro ⟨text, htext, h⟩
    cases text with
    | str text =>
        refine ⟨text, htext, ?_⟩
        rw [b64decodeVal] at h
        split at h
        · rename_i sig' hsig
          rw [hsig, Except.ok.inj h]
        · cases h
    | _ => cases h
  · rintro ⟨text, htext, hsig⟩
    exact ⟨.str text, htext, by rw [b64decodeVal, hsig]⟩

/-- The two ways to read a signature agree where the single file gets to it. -/
theorem signatureOk_of {block : Val} {payload : Except PyErr Bytes} {sig data : Bytes}
    (hsig : signatureOf block = .ok sig) (hdata : payload = .ok data) :
    signatureOk ed key block payload = ed key sig data := by
  obtain ⟨text, hblock, htext⟩ := signatureOf_eq_ok.mp hsig
  simp only [signatureOk, hblock, htext, hdata]

/-- Only a dictionary has a signature. -/
theorem dict_of_signatureOf {block : Val} {sig : Bytes} (h : signatureOf block = .ok sig) :
    ∃ kvs, block = .dict kvs := by
  obtain ⟨text, hblock, -⟩ := signatureOf_eq_ok.mp h
  cases block with
  | dict kvs => exact ⟨kvs, rfl⟩
  | _ => cases hblock

/-- A signature block that is a dictionary is read alike. -/
theorem reportSignature_eq (h : ∀ v ∈ report.lookup (lit "signature"), ∃ kvs, v = .dict kvs) :
    (report.lookup (lit "signature")).getD (.dict []) = reportSignature report := by
  rw [reportSignature]
  cases hlookup : report.lookup (lit "signature") with
  | none => rfl
  | some v =>
      obtain ⟨kvs, rfl⟩ := h v hlookup
      cases kvs with
      | nil => rfl
      | cons kv kvs => rfl

/-- **The report's signature**: where the single file gets to an answer, it is the library's. -/
theorem reportSigned_eq_ok {b : Bool} : reportSigned ed report key = .ok b ↔
    (∀ v ∈ report.lookup (lit "signature"), ∃ kvs, v = .dict kvs) ∧
      (∃ sig data, signatureOf (reportSignature report) = .ok sig ∧
        reportSigningPayload report = .ok data) ∧
      signatureOk ed key (reportSignature report) (reportSigningPayload report) = b := by
  rw [reportSigned]
  constructor
  · intro h
    obtain ⟨sig, hsig, h⟩ := bind_eq_ok.mp h
    obtain ⟨data, hdata, h⟩ := bind_eq_ok.mp h
    have hdict : ∀ v ∈ report.lookup (lit "signature"), ∃ kvs, v = .dict kvs := by
      intro v hv
      rw [show report.lookup (lit "signature") = some v from hv, Option.getD_some] at hsig
      exact dict_of_signatureOf hsig
    rw [reportSignature_eq hdict] at hsig
    have hdata' : reportSigningPayload report = .ok data := canonicalBytes_eq_ok.mp hdata
    exact ⟨hdict, ⟨sig, data, hsig, hdata'⟩, (signatureOk_of hsig hdata').trans (pure_eq_ok.mp h)⟩
  · rintro ⟨hdict, ⟨sig, data, hsig, hdata⟩, rfl⟩
    rw [reportSignature_eq hdict]
    exact bind_eq_ok.mpr ⟨sig, hsig, bind_eq_ok.mpr ⟨data, canonicalBytes_eq_ok.mpr hdata,
      pure_eq_ok.mpr (signatureOk_of hsig hdata).symm⟩⟩

/-- The checkpoint that the single file reads. -/
def readCheckpoint (report : Items) : Val := (report.lookup (lit "checkpoint")).getD (.dict [])

/-- A checkpoint with a well-formed head is read alike. -/
theorem readCheckpoint_eq (h : checkpointHead (readCheckpoint report) = .ok (root, n) ∨
    checkpointHead (reportCheckpoint report) = .ok (root, n)) :
    readCheckpoint report = reportCheckpoint report := by
  rw [readCheckpoint, reportCheckpoint] at h ⊢
  cases hlookup : report.lookup (lit "checkpoint") with
  | none => rfl
  | some v =>
      rw [hlookup, Option.getD_some, Option.getD_some, Val.orElse] at h
      rw [Option.getD_some, Option.getD_some, Val.orElse]
      split
      · rfl
      · rename_i hfalsy
        rw [if_neg hfalsy] at h
        -- a value that is false has no fields
        rcases h with h | h
        · obtain ⟨rootHash, -, hrootHash, -⟩ := fields_of_checkpointHead h
          cases v with
          | dict kvs =>
              cases kvs with
              | nil => rfl
              | cons kv kvs => exact absurd rfl hfalsy
          | _ => cases hrootHash
        · cases h

/-- **The checkpoint's signature**: where the single file gets to an answer, it is the library's
together with the key's name. -/
theorem checkpointSigned_eq_ok {cp : Val} {b : Bool} : checkpointSigned ed cp key = .ok b ↔
    ∃ sig data keyId, signatureOf cp = .ok sig ∧ headPayload cp = .ok data ∧
      cp.getD (lit "public_key_id") .null = .ok keyId ∧
      (signatureOk ed key cp (headPayload cp) && keyId.eq (.str (keyIdFor key))) = b := by
  rw [checkpointSigned]
  constructor
  · intro h
    -- every step of the single file is read off, and what it signs is the head's payload
    obtain ⟨origin, horigin, h⟩ := bind_eq_ok.mp h
    obtain ⟨rootHash, hrootHash, h⟩ := bind_eq_ok.mp h
    obtain ⟨timestamp, htimestamp, h⟩ := bind_eq_ok.mp h
    obtain ⟨treeSize, htreeSize, h⟩ := bind_eq_ok.mp h
    obtain ⟨data, hdata, h⟩ := bind_eq_ok.mp h
    obtain ⟨sig, hsig, h⟩ := bind_eq_ok.mp h
    obtain ⟨keyId, hkeyId, h⟩ := bind_eq_ok.mp h
    have hdata' : headPayload cp = .ok data :=
      bind_eq_ok.mpr ⟨_, horigin, bind_eq_ok.mpr ⟨_, hrootHash, bind_eq_ok.mpr ⟨_, htimestamp,
        bind_eq_ok.mpr ⟨_, htreeSize, canonicalBytes_eq_ok.mp hdata⟩⟩⟩⟩
    refine ⟨sig, data, keyId, hsig, hdata', hkeyId, ?_⟩
    rw [signatureOk_of hsig hdata']
    exact pure_eq_ok.mp h
  -- the steps are put together again in its order
  · rintro ⟨sig, data, keyId, hsig, hdata, hkeyId, rfl⟩
    rw [signatureOk_of hsig hdata]
    rw [headPayload] at hdata
    obtain ⟨origin, horigin, hdata⟩ := bind_eq_ok.mp hdata
    obtain ⟨rootHash, hrootHash, hdata⟩ := bind_eq_ok.mp hdata
    obtain ⟨timestamp, htimestamp, hdata⟩ := bind_eq_ok.mp hdata
    obtain ⟨treeSize, htreeSize, hdata⟩ := bind_eq_ok.mp hdata
    exact bind_eq_ok.mpr ⟨_, horigin, bind_eq_ok.mpr ⟨_, hrootHash, bind_eq_ok.mpr ⟨_, htimestamp,
      bind_eq_ok.mpr ⟨_, htreeSize, bind_eq_ok.mpr ⟨data, canonicalBytes_eq_ok.mpr hdata,
        bind_eq_ok.mpr ⟨sig, hsig, bind_eq_ok.mpr ⟨keyId, hkeyId, rfl⟩⟩⟩⟩⟩⟩⟩

/-- The search through the cited ids finds each of them. -/
theorem allPresent_iff {present ids : List Val} : allPresent present ids = .ok true ↔
    ∀ id ∈ ids, id.hashable = true ∧ id.isIn present = true := by
  induction ids with
  | nil => exact iff_of_true rfl fun id hid => absurd hid List.not_mem_nil
  | cons id ids ih =>
      rw [allPresent, List.forall_mem_cons]
      by_cases hhash : id.hashable = true
      · rw [if_pos hhash]
        by_cases hin : id.isIn present = true
        · rw [if_pos hin, ih]
          exact ⟨fun h => ⟨⟨hhash, hin⟩, h⟩, fun h => h.2⟩
        · rw [if_neg hin]
          exact iff_of_false (fun h => nomatch h) fun h => hin h.1.2
      · rw [if_neg hhash]
        exact iff_of_false (fun h => nomatch h) fun h => hhash h.1.1

/-- The search through the controls finds that each cites only what is present. -/
theorem evidencePresent_iff {present controls : List Val} :
    evidencePresent present controls = .ok true ↔
      ∀ control ∈ controls, CitesPresent present control := by
  induction controls with
  | nil => exact iff_of_true rfl fun control h => absurd h List.not_mem_nil
  | cons control controls ih =>
      rw [evidencePresent, List.forall_mem_cons]
      constructor
      · intro h
        obtain ⟨ids, hids, hrest⟩ := bind_eq_ok.mp h
        obtain ⟨ok, hok, hrest⟩ := bind_eq_ok.mp hrest
        cases ok with
        | false => cases hrest
        | true =>
            obtain ⟨kvs, rfl⟩ : ∃ kvs, control = .dict kvs := by
              cases control with
              | dict kvs => exact ⟨kvs, rfl⟩
              | _ => cases hids
            exact ⟨⟨kvs, ids, rfl, hids, allPresent_iff.mp hok⟩, ih.mp hrest⟩
      · rintro ⟨⟨kvs, ids, rfl, hids, hpresent⟩, hrest⟩
        exact bind_eq_ok.mpr ⟨ids, hids, bind_eq_ok.mpr ⟨true, allPresent_iff.mpr hpresent,
          ih.mpr hrest⟩⟩

/-- A list of events that can be read is read alike. -/
theorem iter_events (h : ∀ v ∈ report.lookup (lit "events"), ∃ items, v.iter = .ok items) :
    ((report.lookup (lit "events")).getD (.list [])).iter = (reportEvents report).iter := by
  rw [reportEvents]
  cases hlookup : report.lookup (lit "events") with
  | none => rfl
  | some v =>
      obtain ⟨items, hitems⟩ := h v hlookup
      rw [Option.getD_some, Option.getD_some, Val.orElse]
      split
      · rfl
      · rename_i hfalsy
        -- what is false and can be iterated is empty
        cases v with
        | list vs | tuple vs | str vs | dict vs =>
            cases vs with
            | nil => rfl
            | cons v vs => exact absurd rfl hfalsy
        | _ => cases hitems

/-- A loop that returns has got through each entry. -/
theorem eventDict_of_foldlM {items : List Val} {acc out : Gathered}
    (h : items.foldlM (gather n root) acc = .ok out) : ∀ item ∈ items, EventDict item := by
  induction items generalizing acc with
  | nil => exact fun item hitem => absurd hitem List.not_mem_nil
  | cons item items ih =>
      rw [List.foldlM_cons] at h
      obtain ⟨mid, hmid, h⟩ := bind_eq_ok.mp h
      exact List.forall_mem_cons.mpr ⟨eventDict_of_gather hmid, ih h⟩

/-- **All entries**: the two loops agree. -/
theorem foldlM_gather_agree {data : Bytes} {items : List Val}
    (hdata : reportSigningPayload report = .ok data)
    (hitems : (reportEvents report).iter = .ok items) (hevent : ∀ item ∈ items, EventDict item) :
    Agree Same (items.foldlM (gather n root) {}) (items.foldlM (checkEntry n root) {}) :=
  Agree.foldlM (fun item hitem _ _ h =>
    gather_agree (clean_of_mem_reportEvents hdata hitems hitem) (hevent item hitem) h)
    ⟨.nil, rfl, rfl, rfl⟩

/-- Contents that pass are found to pass, where they can be read. -/
theorem checkContents_of {data : Bytes} (hdata : reportSigningPayload report = .ok data)
    (hread : Readable report) (h : ContentsPass report n root) (res : Result) :
    ∃ out, checkContents report n root res = .ok out ∧ out.valid = res.valid := by
  obtain ⟨items, controls, hitems, hcontrols, hpass, htree, hcited⟩ := h
  obtain ⟨hfold, hleafOk, hinclOk⟩ :=
    (@foldlM_checkEntry_iff n root items {} _).mpr ⟨⟨rfl, rfl⟩, hpass, rfl⟩
  obtain ⟨acc, hacc, hsame⟩ :=
    (foldlM_gather_agree hdata hitems (hread.event items hitems)).left hfold
  have hpresent : evidencePresent acc.present controls = .ok true := by
    rw [evidencePresent_iff, hsame.present, (foldl_passed items {}).2]
    exact hcited
  rw [checkContents, iter_events hread.events]
  refine ⟨_, bind_eq_ok.mpr ⟨items, hitems, bind_eq_ok.mpr ⟨acc, hacc, bind_eq_ok.mpr ⟨controls,
    hcontrols, bind_eq_ok.mpr ⟨true, hpresent, rfl⟩⟩⟩⟩, ?_⟩
  rw [orderedLeaves_eq n hsame.leaves, (foldl_passed items {}).1, hsame.leafOk, hsame.inclOk, hleafOk,
    hinclOk]
  cases hall : allLeaves n (items.foldl addEntry []) with
  | none => simp
  | some ordered => simp [htree ordered hall]

/-- Contents that the single file gets through can be read. -/
theorem readable_of_checkContents {res out : Result} (h : checkContents report n root res = .ok out) :
    (∀ v ∈ report.lookup (lit "events"), ∃ items, v.iter = .ok items) ∧
      ∀ items, (reportEvents report).iter = .ok items → ∀ item ∈ items, EventDict item := by
  rw [checkContents] at h
  obtain ⟨items, hitems, h⟩ := bind_eq_ok.mp h
  obtain ⟨acc, hacc, -⟩ := bind_eq_ok.mp h
  have hiter : ∀ v ∈ report.lookup (lit "events"), ∃ items, v.iter = .ok items := by
    intro v hv
    rw [show report.lookup (lit "events") = some v from hv, Option.getD_some] at hitems
    exact ⟨items, hitems⟩
  refine ⟨hiter, fun items' hitems' => ?_⟩
  rw [iter_events hiter, hitems', Except.ok.injEq] at hitems
  subst hitems
  exact eventDict_of_foldlM hacc

/-- Contents that are found to pass do. -/
theorem contentsPass_of_checkContents {data : Bytes} (hdata : reportSigningPayload report = .ok data)
    {res out : Result} (h : checkContents report n root res = .ok out) (hvalid : out.valid = true) :
    res.valid = true ∧ ContentsPass report n root := by
  obtain ⟨hiter, hevent⟩ := readable_of_checkContents h
  rw [checkContents, iter_events hiter] at h
  obtain ⟨items, hitems, h⟩ := bind_eq_ok.mp h
  obtain ⟨acc, hacc, h⟩ := bind_eq_ok.mp h
  obtain ⟨controls, hcontrols, h⟩ := bind_eq_ok.mp h
  obtain ⟨ok, hok, h⟩ := bind_eq_ok.mp h
  rw [← pure_eq_ok.mp h, Result.chk_valid, Bool.and_eq_true] at hvalid
  -- the loop of the library runs along, and ends with the same flags
  obtain ⟨acc', hacc', hsame⟩ :=
    (foldlM_gather_agree hdata hitems (hevent items hitems)).right hacc
  have hflags : (res.valid = true ∧ acc'.leafOk = true ∧ acc'.inclOk = true) ∧
      ∀ ordered ∈ allLeaves n acc'.leavesByIndex, treeHash ordered = root := by
    have hvalid' := hvalid.1
    rw [orderedLeaves_eq n hsame.leaves, hsame.leafOk, hsame.inclOk] at hvalid'
    cases hall : allLeaves n acc'.leavesByIndex with
    | none => simpa [hall, and_assoc] using hvalid'
    | some ordered => simpa [hall, and_assoc] using hvalid'
  obtain ⟨⟨hres, hleafOk, hinclOk⟩, htree⟩ := hflags
  obtain ⟨-, hpass, rfl⟩ := foldlM_checkEntry_iff.mp ⟨hacc', hleafOk, hinclOk⟩
  have hcited := evidencePresent_iff.mp (hvalid.2 ▸ hok)
  rw [hsame.present, (foldl_passed items {}).2] at hcited
  rw [(foldl_passed items {}).1] at htree
  exact ⟨hres, items, controls, hitems, hcontrols, hpass, htree, hcited⟩

/-- The single file returns only on reports that it can read. -/
theorem readable_of_file {res : Result} (h : verifyReport ed report key = .ok res) :
    Readable report := by
  rw [verifyReport] at h
  obtain ⟨reportOk, hreport, h⟩ := bind_eq_ok.mp h
  obtain ⟨checkpointOk, -, h⟩ := bind_eq_ok.mp h
  obtain ⟨⟨root, n⟩, -, h⟩ := bind_eq_ok.mp h
  obtain ⟨hevents, hevent⟩ := readable_of_checkContents h
  exact ⟨(reportSigned_eq_ok.mp hreport).1, hevents, hevent⟩

/-- The single file finds only reports valid that pass what both check. -/
theorem checked_of_file {res : Result} (h : verifyReport ed report key = .ok res)
    (hvalid : res.valid = true) : Checked ed report key := by
  rw [verifyReport] at h
  obtain ⟨reportOk, hreport, h⟩ := bind_eq_ok.mp h
  obtain ⟨checkpointOk, hcheckpoint, h⟩ := bind_eq_ok.mp h
  obtain ⟨⟨root, n⟩, hhead, h⟩ := bind_eq_ok.mp h
  have hcp := readCheckpoint_eq (Or.inl hhead)
  rw [readCheckpoint] at hcp
  rw [hcp] at hcheckpoint hhead
  obtain ⟨-, ⟨sig, data, -, hdata⟩, hreportOk⟩ := reportSigned_eq_ok.mp hreport
  obtain ⟨-, -, keyId, -, -, -, hcheckpointOk⟩ := checkpointSigned_eq_ok.mp hcheckpoint
  obtain ⟨hvalid', hcontents⟩ := contentsPass_of_checkContents hdata h hvalid
  rw [Result.chk_valid, Result.chk_valid, Bool.true_and, Bool.and_eq_true] at hvalid'
  rw [hvalid'.1] at hreportOk
  rw [hvalid'.2, Bool.and_eq_true] at hcheckpointOk
  exact ⟨hreportOk, hcheckpointOk.1, root, n, hhead, hcontents⟩

/-- **The single file** answers on every report that passes what both check and that it can read: it
finds it valid exactly where the checkpoint names the trusted key. -/
theorem file_of_checked (h : Checked ed report key) (hread : Readable report) :
    ∃ res, verifyReport ed report key = .ok res ∧ (res.valid = true ↔ NamesKey report key) := by
  obtain ⟨hreportSigned, hpayload, root, n, hhead, hcontents⟩ := h
  obtain ⟨text, sig, data, hblock, htext, hdata, -⟩ := signatureOk_iff.mp hreportSigned
  obtain ⟨cpText, cpSig, cpData, hcp, hcpText, hcpData, -⟩ := signatureOk_iff.mp hpayload
  -- the two signatures are those that `Checked` speaks of
  have hreport : reportSigned ed report key = .ok true :=
    reportSigned_eq_ok.mpr ⟨hread.signature, ⟨sig, data,
      signatureOf_eq_ok.mpr ⟨text, hblock, htext⟩, hdata⟩, hreportSigned⟩
  obtain ⟨kvs, hkvs⟩ := dict_of_signatureOf (signatureOf_eq_ok.mpr ⟨cpText, hcp, hcpText⟩)
  obtain ⟨keyId, hkeyId⟩ : ∃ keyId, (reportCheckpoint report).getD (lit "public_key_id") .null
      = .ok keyId := by
    rw [hkvs]
    exact exists_getD kvs _ _
  have hcheckpoint := (@checkpointSigned_eq_ok ed key _ _).mpr ⟨cpSig, cpData, keyId,
    signatureOf_eq_ok.mpr ⟨cpText, hcp, hcpText⟩, hcpData, hkeyId, rfl⟩
  have hcpEq := readCheckpoint_eq (Or.inr hhead)
  rw [readCheckpoint] at hcpEq
  obtain ⟨res, hres, hvalid⟩ := checkContents_of hdata hread hcontents
    ((({} : Result).chk "report_signature" true).chk "checkpoint_signature"
      (signatureOk ed key (reportCheckpoint report) (headPayload (reportCheckpoint report)) &&
        keyId.eq (.str (keyIdFor key))))
  refine ⟨res, ?_, ?_⟩
  · rw [verifyReport, hcpEq]
    exact bind_eq_ok.mpr ⟨true, hreport, bind_eq_ok.mpr ⟨_, hcheckpoint,
      bind_eq_ok.mpr ⟨(root, n), hhead, hres⟩⟩⟩
  -- of the three checks that are left, only the one of the key id is not in `Checked`
  · rw [hvalid, Result.chk_valid, Result.chk_valid, hpayload, Bool.true_and, Bool.true_and,
      Bool.true_and, NamesKey]
    rw [hkvs] at hkeyId ⊢
    rw [← Except.ok.inj hkeyId, item?]
    cases kvs.lookup (lit "public_key_id") with
    | none =>
        refine iff_of_false (by simp [Val.eq, Val.key]) ?_
        rintro ⟨v, hv, -⟩
        cases hv
    | some v => simp

/-! ## Agreement -/

/-- **On which reports the two verifiers agree.** Where both return they find the same, and where the
library finds a report valid the single file returns, exactly if, on a report that passes what both
check, the library's further demands are met exactly where the single file can read the report and
its checkpoint names the trusted key. -/
theorem verifiers_agree_iff (ed : Ed25519) (pem : PemReader) (report : Items) (key : Bytes) :
    ((∀ res res', verifyReport ed report key = .ok res →
        Verify.verifyReport ed pem report (some key) = .ok res' → res.valid = res'.valid) ∧
      ∀ res', Verify.verifyReport ed pem report (some key) = .ok res' → res'.valid = true →
        ∃ res, verifyReport ed report key = .ok res) ↔
    (Checked ed report key →
      (LibraryDemands pem report key ↔ Readable report ∧ NamesKey report key)) := by
  constructor
  -- on a checked report both answer, each by its own further demands
  · rintro ⟨hsame, hreturns⟩ hchecked
    obtain ⟨res', hres', hvalid'⟩ := @library_of_checked ed pem report key hchecked
    rw [← hvalid']
    constructor
    · intro hvalid
      obtain ⟨res, hres⟩ := hreturns res' hres' hvalid
      have hread := readable_of_file hres
      obtain ⟨out, hout, hnames⟩ := file_of_checked hchecked hread
      obtain rfl := Except.ok.inj (hres.symm.trans hout)
      exact ⟨hread, hnames.mp ((hsame res res' hres hres').trans hvalid)⟩
    · rintro ⟨hread, hnames⟩
      obtain ⟨res, hres, hvalid⟩ := file_of_checked hchecked hread
      rw [← hsame res res' hres hres']
      exact hvalid.mpr hnames
  -- a report found valid by either has passed what both check
  · intro h
    refine ⟨fun res res' hres hres' => Bool.eq_iff_iff.mpr ⟨fun hvalid => ?_, fun hvalid => ?_⟩,
      fun res' hres' hvalid => ?_⟩
    · have hchecked := checked_of_file hres hvalid
      obtain ⟨out, hout, hnames⟩ := file_of_checked hchecked (readable_of_file hres)
      obtain rfl := Except.ok.inj (hres.symm.trans hout)
      obtain ⟨out', hout', hdemands⟩ := @library_of_checked ed pem report key hchecked
      obtain rfl := Except.ok.inj (hres'.symm.trans hout')
      exact hdemands.mpr ((h hchecked).mpr ⟨readable_of_file hres, hnames.mp hvalid⟩)
    · have hchecked := checked_of_library hres' hvalid
      obtain ⟨out, hout, hnames⟩ := file_of_checked hchecked (readable_of_file hres)
      obtain rfl := Except.ok.inj (hres.symm.trans hout)
      obtain ⟨out', hout', hdemands⟩ := @library_of_checked ed pem report key hchecked
      obtain rfl := Except.ok.inj (hres'.symm.trans hout')
      exact hnames.mpr ((h hchecked).mp (hdemands.mp hvalid)).2
    · have hchecked := checked_of_library hres' hvalid
      obtain ⟨out', hout', hdemands⟩ := @library_of_checked ed pem report key hchecked
      obtain rfl := Except.ok.inj (hres'.symm.trans hout')
      obtain ⟨res, hres, -⟩ := file_of_checked hchecked ((h hchecked).mp (hdemands.mp hvalid)).1
      exact ⟨res, hres⟩

/-- The sample report, whose checkpoint does not name a key, is valid for the library only. -/
theorem verifiers_disagree : ∃ res res',
    verifyReport sampleReportEd25519 sampleReport sampleKey = .ok res ∧
      Verify.verifyReport sampleReportEd25519 (fun _ => .error []) sampleReport (some sampleKey)
        = .ok res' ∧
      res.valid = false ∧ res'.valid = true := by
  obtain ⟨res', hres', hvalid'⟩ := verifyReport_sampleReport
  have hvalid : (verifyReport sampleReportEd25519 sampleReport sampleKey).toOption.map (·.valid)
      = some false := by decide +kernel
  cases hres : verifyReport sampleReportEd25519 sampleReport sampleKey with
  | error err => rw [hres] at hvalid; cases hvalid
  | ok res =>
      rw [hres] at hvalid
      exact ⟨res, res', rfl, hres', Option.some.inj hvalid, hvalid'⟩

end OpenWright.BrowserVerifier
