import OpenWright.Verify
import Mathlib.Data.List.Induction

/-! # What the verifier accepts

The other direction of soundness: a report whose parts are genuine is found valid. What "genuine"
means is said part by part, in the terms of the verifier, so that a producer is verified by showing
it of what it writes.

* **`verifyReport_of_genuine`** — a genuine report is found valid under the producer's key. -/

namespace OpenWright.Verify

open Python Python.Val Canonical Merkle Signing

variable {ed : Ed25519} {pem : PemReader} {report : Items} {raw : Bytes} {n : Int} {root : Bytes}

/-! ## Keys and signatures -/

/-- A signed block: its signature verifies over the payload and it names the key. -/
structure SignedBlock (ed : Ed25519) (raw : Bytes) (block : Val) (payload : Except PyErr Bytes) :
    Prop where
  signature : signatureOk ed raw block payload = true
  keyId : block.item? (lit "public_key_id") = some (.str (keyIdFor raw))

namespace SignedBlock

variable {block : Val} {payload : Except PyErr Bytes}

/-- It does not name another key. -/
theorem otherKeyId_eq (h : SignedBlock ed raw block payload) : otherKeyId raw block = .ok false := by
  rw [otherKeyId, getD_eq_ok h.keyId]
  refine congrArg Except.ok ?_
  rw [str_eq_self, Bool.not_true, Bool.and_false]

end SignedBlock

/-- A block with a genuine signature over data and the key's id. -/
theorem signedBlock_of {block : Val} {payload : Except PyErr Bytes} {data sig : Bytes}
    (hsig : block.item? (lit "signature") = some (.str (b64encode sig)))
    (hkey : block.item? (lit "public_key_id") = some (.str (keyIdFor raw)))
    (hpayload : payload = .ok data) (hed : ed raw sig data = true) :
    SignedBlock ed raw block payload := by
  refine ⟨?_, hkey⟩
  simp only [signatureOk, getD_eq_ok hsig, hpayload, b64decode_b64encode, hed]

/-- The trusted key is the one to use where the embedded one is not another. -/
theorem establishKey_of (h : ∀ raw', pem ((report.lookup (lit "public_key_pem")).getD .null) = .ok raw' →
    raw' = raw) : establishKey pem report (some raw) = (some raw, {}) := by
  rw [establishKey.eq_def]
  dsimp only
  split
  · rfl
  · split
    · rfl
    · rename_i raw' hraw'
      rw [if_pos (h raw' hraw')]

/-- Step 2 passes on a signed report. -/
theorem checkReportSignature_of
    (h : SignedBlock ed raw (((report.lookup (lit "signature")).getD .null).orElse (.dict []))
      (reportSigningPayload report)) (res : VerificationResult) :
    ∃ res', checkReportSignature ed raw report res = .ok res' ∧ res'.valid = res.valid := by
  rw [checkReportSignature]
  refine ⟨_, bind_eq_ok.mpr ⟨_, getD_eq_ok h.keyId _, bind_eq_ok.mpr ⟨_, h.otherKeyId_eq, rfl⟩⟩, ?_⟩
  rw [h.signature]
  simp

/-- A signed checkpoint with a root in hexadecimal and a size. -/
structure SignedHead (ed : Ed25519) (raw : Bytes) (cp : Val) (root : Bytes) (n : Int) : Prop where
  signed : SignedBlock ed raw cp (checkpointPayload cp)
  rootHash : cp.item? (lit "root_hash") = some (.str (hex root))
  treeSize : cp.item? (lit "tree_size") = some (.int n)

/-- Reading a bound key. -/
theorem getItem_eq_ok {v w : Val} {k : Str} (h : v.item? k = some w) : v.getItem k = .ok w := by
  cases v with
  | dict kvs => rw [getItem, show kvs.lookup k = some w from h]
  | _ => cases h

/-- Step 3 passes on a signed checkpoint. -/
theorem checkCheckpointSignature_of {cp : Val} (h : SignedHead ed raw cp root n)
    (res : VerificationResult) :
    ∃ res', checkCheckpointSignature ed raw cp res = .ok res' ∧ res'.valid = res.valid := by
  rw [checkCheckpointSignature]
  refine ⟨_, bind_eq_ok.mpr ⟨_, h.signed.otherKeyId_eq, bind_eq_ok.mpr ⟨_, getD_eq_ok h.treeSize _,
    bind_eq_ok.mpr ⟨_, getD_eq_ok h.rootHash _, bind_eq_ok.mpr ⟨_, rfl, rfl⟩⟩⟩⟩, ?_⟩
  rw [h.signed.signature]
  simp

/-- The head of a signed checkpoint. -/
theorem SignedHead.checkpointHead_eq {cp : Val} (h : SignedHead ed raw cp root n) :
    checkpointHead cp = .ok (root, n) := by
  rw [checkpointHead, getItem_eq_ok h.rootHash, getItem_eq_ok h.treeSize]
  exact bind_eq_ok.mpr ⟨_, rfl, bind_eq_ok.mpr ⟨root, unhex_eq_ok.mpr (fromhex_hex root),
    bind_eq_ok.mpr ⟨_, rfl, rfl⟩⟩⟩

/-! ## Entries -/

/-- A genuine entry of the leaf at an index. -/
structure GenuineEntry (n : Int) (root : Bytes) (index : Nat) (leaf : Bytes) (item : Val) : Prop where
  accepted : Accepted n root item (.int index) leaf
  id : ∃ id, entryId item = .ok id ∧ id.hashable = true

/-- The leaves a dictionary binds to their indices. -/
def numbered (leaves : List Bytes) : List (Int × Bytes) :=
  leaves.zipIdx.map fun leaf => ((leaf.2 : Int), leaf.1)

/-- Setting an index that is not there adds it. -/
theorem setLeaf_of_ne {i : Int} {leaf : Bytes} : ∀ {l : List (Int × Bytes)}, (∀ p ∈ l, p.1 ≠ i) →
    setLeaf i leaf l = l ++ [(i, leaf)]
  | [], _ => rfl
  | (j, other) :: rest, h => by
      rw [List.forall_mem_cons] at h
      rw [setLeaf, if_neg h.1, setLeaf_of_ne h.2, List.cons_append]

/-- The next leaf is added at the end. -/
theorem setLeaf_numbered (leaves : List Bytes) (leaf : Bytes) :
    setLeaf leaves.length leaf (numbered leaves) = numbered (leaves ++ [leaf]) := by
  have hne : ∀ p ∈ numbered leaves, p.1 ≠ leaves.length := by
    intro p hp
    obtain ⟨e, he, rfl⟩ := List.mem_map.mp hp
    have hlt := List.snd_lt_of_mem_zipIdx he
    dsimp only
    omega
  rw [setLeaf_of_ne hne, numbered, numbered, List.zipIdx_append, List.map_append]
  simp

/-- The leaf at an index. -/
theorem lookup_numbered (leaves : List Bytes) (i : Nat) :
    (numbered leaves).lookup (i : Int) = leaves[i]? := by
  induction leaves using List.reverseRecOn with
  | nil => rfl
  | append_singleton leaves leaf ih =>
      have hstep : numbered (leaves ++ [leaf])
          = numbered leaves ++ [((leaves.length : Int), leaf)] := by
        rw [numbered, numbered, List.zipIdx_append, List.map_append]
        simp
      rw [hstep, List.lookup_append, ih]
      rcases Nat.lt_trichotomy i leaves.length with hlt | rfl | hgt
      · rw [List.getElem?_append_left hlt, List.getElem?_eq_getElem hlt, Option.some_or]
      · simp
      · have hne : (i : Int) ≠ leaves.length := by omega
        rw [List.getElem?_eq_none hgt.le, Option.none_or, List.lookup_cons, beq_false_of_ne hne,
          List.getElem?_eq_none (by rw [List.length_append, List.length_singleton]; omega)]
        rfl

/-- The first leaves are found by their indices. -/
theorem mapM_lookup_numbered {leaves : List Bytes} {k : Nat} (hk : k ≤ leaves.length) :
    ((List.range k).map fun i : Nat => (i : Int)).mapM (fun i => (numbered leaves).lookup i)
      = some (leaves.take k) := by
  induction k with
  | zero => rfl
  | succ k ih =>
      have hget : leaves[k]? = some leaves[k] := List.getElem?_eq_getElem hk
      rw [List.range_succ, List.map_append, List.mapM_append, ih (by omega), List.map_singleton,
        List.mapM_cons, lookup_numbered, hget, List.take_add_one, hget]
      rfl

/-- All leaves are there. -/
theorem allLeaves_numbered (leaves : List Bytes) :
    allLeaves leaves.length (numbered leaves) = some leaves := by
  have hlen : (numbered leaves).length = leaves.length := by
    rw [numbered, List.length_map, List.length_zipIdx]
  have hall := mapM_lookup_numbered (le_refl leaves.length)
  rw [List.take_length, List.map_eq_flatMap] at hall
  rw [allLeaves, if_pos (by rw [hlen]), Int.toNat_natCast]
  exact hall

/-- **The loop over genuine entries** keeps both flags up, numbers the leaves and collects the ids. -/
theorem foldlM_checkEntry_of {leaves : List Bytes} {m s : Nat} {items : List Val} {acc : Entries}
    (h : List.Forall₂ (fun i item => ∃ leaf, leaves[i]? = some leaf ∧ GenuineEntry n root i leaf item)
      (List.range' s m) items)
    (hacc : acc.leavesByIndex = numbered (leaves.take s)) (hs : s ≤ leaves.length)
    (hok : acc.leafOk = true ∧ acc.inclOk = true) :
    ∃ out, items.foldlM (checkEntry n root) acc = .ok out ∧
      out.leavesByIndex = numbered (leaves.take (s + m)) ∧ out.leafOk = true ∧ out.inclOk = true ∧
      (∀ id ∈ acc.presentIds, id ∈ out.presentIds) ∧
      ∀ item ∈ items, ∀ id, entryId item = .ok id → id ∈ out.presentIds := by
  induction m generalizing s items acc with
  | zero =>
      rw [List.range'_zero, List.forall₂_nil_left_iff] at h
      subst h
      exact ⟨acc, rfl, hacc, hok.1, hok.2, fun _ hid => hid, fun item hitem =>
        absurd hitem List.not_mem_nil⟩
  | succ m ih =>
      rw [List.range'_succ, List.forall₂_cons_left_iff] at h
      obtain ⟨item, items, ⟨leaf, hleaf, ⟨event, proof, hevent, hindex, hrecomputed, hstored, hproof,
        hincluded⟩, id, hid, hhash⟩, hrest, rfl⟩ := h
      have hid' := hid
      rw [entryId, hevent] at hid'
      have hlt := (List.getElem?_eq_some_iff.mp hleaf).1
      have hset : setLeaf s leaf acc.leavesByIndex = numbered (leaves.take (s + 1)) := by
        have hset' := setLeaf_numbered (leaves.take s) leaf
        rw [List.length_take, Nat.min_eq_left hs] at hset'
        rw [hacc, hset', List.take_add_one, hleaf]
        rfl
      -- what the body does with the first entry
      obtain ⟨mid, hmid, hmidLeaves, hmidOk, hmidIds⟩ : ∃ mid, checkEntry n root acc item = .ok mid ∧
          mid.leavesByIndex = numbered (leaves.take (s + 1)) ∧
          (mid.leafOk = true ∧ mid.inclOk = true) ∧ mid.presentIds = acc.presentIds ++ [id] := by
        rw [checkEntry, hevent]
        refine ⟨{ leavesByIndex := numbered (leaves.take (s + 1)), leafOk := true, inclOk := true,
                  presentIds := acc.presentIds ++ [id] }, bind_eq_ok.mpr ⟨event, rfl, bind_eq_ok.mpr
          ⟨_, hindex, bind_eq_ok.mpr ⟨id, hid', ?_⟩⟩⟩, rfl, ⟨rfl, rfl⟩, rfl⟩
        rw [if_neg (by simp [hhash])]
        refine bind_eq_ok.mpr ⟨leaf, hrecomputed, bind_eq_ok.mpr ⟨leaf, hstored,
          bind_eq_ok.mpr ⟨proof, hproof, bind_eq_ok.mpr ⟨true, hincluded, ?_⟩⟩⟩⟩
        simp only [hok.1, hok.2, asInt, hset, Bool.and_true, beq_self_eq_true]
        rfl
      obtain ⟨out, hout, hleaves, hleafOk, hinclOk, hkeep, hpresent⟩ :=
        ih hrest hmidLeaves (by omega) hmidOk
      rw [hmidIds] at hkeep
      refine ⟨out, ?_, ?_, hleafOk, hinclOk, fun id' hid' => hkeep _ (List.mem_append_left _ hid'),
        fun item' hitem' id' hid' => ?_⟩
      · rw [List.foldlM_cons, hmid]
        exact hout
      · rw [hleaves, Nat.add_assoc, Nat.add_comm 1 m]
      · rcases List.mem_cons.mp hitem' with rfl | hmem
        · rw [hid, Except.ok.injEq] at hid'
          exact hkeep _ (List.mem_append_right _ (List.mem_singleton.mpr hid'.symm))
        · exact hpresent item' hmem id' hid'

/-! ## Controls -/

/-- Ids that are there keep the flag as it is. -/
theorem foldlM_checkCited_of {presentIds ids : List Val} (ok : Bool)
    (h : ∀ id ∈ ids, id.hashable = true ∧ id.isIn presentIds = true) :
    ids.foldlM (checkCited presentIds) ok = .ok ok := by
  induction ids with
  | nil => rfl
  | cons id ids ih =>
      rw [List.forall_mem_cons] at h
      rw [List.foldlM_cons, checkCited, if_pos h.1.1, h.1.2, Bool.and_true]
      exact ih h.2

/-- The value of a key of a dictionary, or the default. -/
theorem exists_getD (kvs : Items) (k : Str) (d : Val) : ∃ v, (Val.dict kvs).getD k d = .ok v :=
  ⟨_, rfl⟩

/-- **The loop over controls that cite only what is there** keeps the flag and the validity. -/
theorem foldlM_checkControl_of {presentIds : List Val} {controls : List Val}
    (h : ∀ control ∈ controls, CitesPresent presentIds control)
    (acc : VerificationResult × Bool) :
    ∃ out, controls.foldlM (checkControl presentIds) acc = .ok out ∧ out.1.valid = acc.1.valid ∧
      out.2 = acc.2 := by
  induction controls generalizing acc with
  | nil => exact ⟨acc, rfl, rfl, rfl⟩
  | cons control controls ih =>
      rw [List.forall_mem_cons] at h
      obtain ⟨⟨kvs, ids, rfl, hids, hpresent⟩, hrest⟩ := h
      obtain ⟨controlId, hcontrolId⟩ := exists_getD kvs (lit "control_id") .null
      obtain ⟨status, hstatus⟩ := exists_getD kvs (lit "status") .null
      obtain ⟨title, htitle⟩ := exists_getD kvs (lit "title") (.str [])
      have hbody : ∃ mid, checkControl presentIds acc (.dict kvs) = .ok mid ∧
          mid.1.valid = acc.1.valid ∧ mid.2 = acc.2 := by
        rw [checkControl]
        refine ⟨_, bind_eq_ok.mpr ⟨_, hcontrolId, bind_eq_ok.mpr ⟨_, hstatus, bind_eq_ok.mpr
          ⟨_, htitle, bind_eq_ok.mpr ⟨ids, hids, bind_eq_ok.mpr
            ⟨_, foldlM_checkCited_of acc.2 hpresent, rfl⟩⟩⟩⟩⟩, ?_, rfl⟩
        dsimp only
        split <;> rfl
      obtain ⟨mid, hmid, hvalid, hok⟩ := hbody
      obtain ⟨out, hout, hvalid', hok'⟩ := ih hrest mid
      refine ⟨out, ?_, hvalid'.trans hvalid, hok'.trans hok⟩
      rw [List.foldlM_cons, hmid]
      exact hout

/-! ## Where each step leaves a result valid -/

/-- The signature block of a report. -/
def reportSignature (report : Items) : Val :=
  ((report.lookup (lit "signature")).getD .null).orElse (.dict [])

/-- What a key that is read is bound to. -/
theorem item?_of_getItem {v w : Val} {k : Str} (h : v.getItem k = .ok w) : v.item? k = some w := by
  cases v with
  | dict kvs =>
      rw [getItem] at h
      rw [item?]
      cases hlookup : kvs.lookup k with
      | none => rw [hlookup] at h; cases h
      | some u => rw [hlookup] at h; rw [Except.ok.inj h]
  | _ => cases h

/-- A signature that verifies is text in base64 over a payload that can be encoded. -/
theorem signatureOk_iff {block : Val} {payload : Except PyErr Bytes} :
    signatureOk ed raw block payload = true ↔ ∃ text sig data,
      block.getD (lit "signature") (.str []) = .ok (.str text) ∧ b64decode text = some sig ∧
        payload = .ok data ∧ ed raw sig data = true := by
  constructor
  · intro h
    rw [signatureOk.eq_def] at h
    split at h
    · rename_i text data hblock
      split at h
      · rename_i sig hsig
        exact ⟨text, sig, data, hblock, hsig, rfl, h⟩
      · cases h
    · cases h
  · rintro ⟨text, sig, data, hblock, hsig, rfl, hed⟩
    simp only [signatureOk, hblock, hsig, hed]

/-- The key that is given is the one to use. -/
theorem exists_establishKey : ∃ res, establishKey pem report (some raw) = (some raw, res) ∧
    (res.valid = true ↔ (((report.lookup (lit "public_key_pem")).getD .null).truthy = true →
      ∀ raw', pem ((report.lookup (lit "public_key_pem")).getD .null) = .ok raw' → raw' = raw)) := by
  rw [establishKey.eq_def]
  dsimp only
  split
  · rename_i hfalsy
    exact ⟨_, rfl, iff_of_true rfl fun h => absurd (hfalsy.symm.trans h) Bool.false_ne_true⟩
  · rename_i htruthy
    split
    · rename_i hpem
      exact ⟨_, rfl, iff_of_true rfl fun _ raw' h => by rw [hpem] at h; cases h⟩
    · rename_i other hpem
      split
      · rename_i hraw
        refine ⟨_, rfl, iff_of_true rfl fun _ raw' h => ?_⟩
        rw [hpem] at h
        rw [← Except.ok.inj h, hraw]
      · rename_i hraw
        refine ⟨_, rfl, iff_of_false (by simp) fun h => hraw (h ?_ other hpem)⟩
        exact Bool.eq_true_of_not_eq_false htruthy

/-- The fields that a well-formed head has. -/
theorem fields_of_checkpointHead {cp : Val} (h : checkpointHead cp = .ok (root, n)) :
    ∃ rootHash treeSize, cp.item? (lit "root_hash") = some rootHash ∧ unhexVal rootHash = .ok root ∧
      cp.item? (lit "tree_size") = some treeSize := by
  rw [checkpointHead] at h
  obtain ⟨rootHash, hrootHash, h⟩ := bind_eq_ok.mp h
  obtain ⟨root', hroot, h⟩ := bind_eq_ok.mp h
  obtain ⟨treeSize, htreeSize, h⟩ := bind_eq_ok.mp h
  obtain ⟨n', -, h⟩ := bind_eq_ok.mp h
  obtain ⟨rfl, -⟩ := Prod.mk.inj (pure_eq_ok.mp h)
  exact ⟨rootHash, treeSize, item?_of_getItem hrootHash, hroot, item?_of_getItem htreeSize⟩

/-- Step 2 leaves a result valid exactly where the report is signed and names no other key. -/
theorem exists_checkReportSignature {kvs : Items} (hblock : reportSignature report = .dict kvs)
    (res : VerificationResult) : ∃ out, checkReportSignature ed raw report res = .ok out ∧
      (out.valid = true ↔ res.valid = true ∧
        signatureOk ed raw (reportSignature report) (reportSigningPayload report) = true ∧
        otherKeyId raw (reportSignature report) = .ok false) := by
  have hreturns : ∃ out, checkReportSignature ed raw report res = .ok out := by
    rw [checkReportSignature, show ((report.lookup (lit "signature")).getD .null).orElse (.dict [])
      = .dict kvs from hblock]
    exact ⟨_, rfl⟩
  obtain ⟨out, hout⟩ := hreturns
  refine ⟨out, hout, checkReportSignature_valid hout, ?_⟩
  rintro ⟨hvalid, hsigned, hother⟩
  rw [checkReportSignature] at hout
  obtain ⟨id, -, hout⟩ := bind_eq_ok.mp hout
  obtain ⟨other, hother', hout⟩ := bind_eq_ok.mp hout
  obtain rfl := Except.ok.inj (hother'.symm.trans hother)
  rw [← pure_eq_ok.mp hout, if_neg Bool.false_ne_true, VerificationResult.check_valid,
    Bool.and_eq_true]
  exact ⟨hvalid, hsigned⟩

/-- Step 3 leaves a result valid exactly where the checkpoint is signed and names no other key. -/
theorem exists_checkCheckpointSignature {cp : Val} (hhead : checkpointHead cp = .ok (root, n))
    (res : VerificationResult) : ∃ out, checkCheckpointSignature ed raw cp res = .ok out ∧
      (out.valid = true ↔ res.valid = true ∧ signatureOk ed raw cp (checkpointPayload cp) = true ∧
        otherKeyId raw cp = .ok false) := by
  obtain ⟨rootHash, treeSize, hrootHash, hroot, htreeSize⟩ := fields_of_checkpointHead hhead
  obtain ⟨shown, hshown⟩ : ∃ shown, first16 rootHash = .ok shown := by
    cases rootHash with
    | str s => exact ⟨_, rfl⟩
    | _ => cases hroot
  obtain ⟨other, hother⟩ : ∃ other, otherKeyId raw cp = .ok other := by
    cases cp with
    | dict kvs => exact ⟨_, rfl⟩
    | _ => cases hrootHash
  obtain ⟨out, hout⟩ : ∃ out, checkCheckpointSignature ed raw cp res = .ok out := by
    rw [checkCheckpointSignature]
    exact ⟨_, bind_eq_ok.mpr ⟨other, hother, bind_eq_ok.mpr ⟨treeSize, getD_eq_ok htreeSize _,
      bind_eq_ok.mpr ⟨rootHash, getD_eq_ok hrootHash _, bind_eq_ok.mpr ⟨shown, hshown, rfl⟩⟩⟩⟩⟩
  refine ⟨out, hout, checkCheckpointSignature_valid hout, ?_⟩
  rintro ⟨hvalid, hsigned, hnot⟩
  rw [checkCheckpointSignature] at hout
  obtain ⟨other', hother', hout⟩ := bind_eq_ok.mp hout
  obtain ⟨treeSize', -, hout⟩ := bind_eq_ok.mp hout
  obtain ⟨rootHash', -, hout⟩ := bind_eq_ok.mp hout
  obtain ⟨shown', -, hout⟩ := bind_eq_ok.mp hout
  obtain rfl := Except.ok.inj (hother'.symm.trans hnot)
  rw [← pure_eq_ok.mp hout, VerificationResult.check_valid, hsigned]
  exact Bool.and_eq_true_iff.mpr ⟨hvalid, rfl⟩

/-! ## Contents that pass -/

/-- The leaf that an entry discloses, with its index. -/
def entryLeaf (item : Val) : Option (Int × Bytes) := do
  let event ← (entryEvent item).toOption
  let index ← (item.getD (lit "leaf_index") .null).toOption
  let leaf ← (leafFromEventDict event).toOption
  let i ← asInt index
  return (i, leaf)

/-- Add the leaf of an entry. -/
def addEntry (leaves : List (Int × Bytes)) (item : Val) : List (Int × Bytes) :=
  match entryLeaf item with
  | some (i, leaf) => setLeaf i leaf leaves
  | none => leaves

/-- An entry that passes, whose id can be looked up. -/
def EntryPasses (n : Int) (root : Bytes) (item : Val) : Prop :=
  (∃ index leaf, Accepted n root item index leaf) ∧ ∃ id, entryId item = .ok id ∧ id.hashable = true

/-- What the loop over the entries has accumulated after an entry that passes. -/
def passed (acc : Entries) (item : Val) : Entries where
  leavesByIndex := addEntry acc.leavesByIndex item
  leafOk := true
  inclOk := true
  presentIds := acc.presentIds ++ (entryId item).toOption.toList

/-- **One entry** leaves both flags up exactly where it passes. -/
theorem checkEntry_iff {n : Int} {root : Bytes} {acc out : Entries} {item : Val} :
    checkEntry n root acc item = .ok out ∧ out.leafOk = true ∧ out.inclOk = true ↔
      (acc.leafOk = true ∧ acc.inclOk = true) ∧ EntryPasses n root item ∧ out = passed acc item := by
  constructor
  · rintro ⟨h, hleafOk, hinclOk⟩
    -- the loop body is read off in its order
    rw [checkEntry] at h
    obtain ⟨event, hevent, h⟩ := bind_eq_ok.mp h
    obtain ⟨index, hindex, h⟩ := bind_eq_ok.mp h
    obtain ⟨id, hid, h⟩ := bind_eq_ok.mp h
    split at h
    · cases h
    rename_i hhash
    obtain ⟨leaf, hleaf, h⟩ := bind_eq_ok.mp h
    obtain ⟨stored, hstored, h⟩ := bind_eq_ok.mp h
    obtain ⟨proof, hproof, h⟩ := bind_eq_ok.mp h
    obtain ⟨included, hincluded, h⟩ := bind_eq_ok.mp h
    rw [← pure_eq_ok.mp h] at hleafOk hinclOk ⊢
    -- both flags were up before, and this entry left them up
    rw [Bool.and_eq_true] at hleafOk hinclOk
    rw [← beq_iff_eq.mp hleafOk.2] at hstored
    rw [hinclOk.2] at hincluded
    have hid' : entryId item = .ok id := bind_eq_ok.mpr ⟨event, hevent, hid⟩
    refine ⟨⟨hleafOk.1, hinclOk.1⟩, ⟨⟨index, leaf, event, proof, hevent, hindex, hleaf, hstored, hproof,
      hincluded⟩, id, hid', Bool.eq_true_of_not_eq_false hhash⟩, ?_⟩
    -- what is noted of the entry is noted of its parts
    rw [passed, addEntry, entryLeaf, hevent, hindex, hid', hleafOk.1, hleafOk.2, hinclOk.1, hinclOk.2]
    simp only [Except.toOption, Option.bind_eq_bind, Option.bind_some, hleaf]
    cases asInt index with
    | none => rfl
    | some i => rfl
  · rintro ⟨⟨hleafOk, hinclOk⟩, ⟨⟨index, leaf, event, proof, hevent, hindex, hleaf, hstored, hproof,
      hincluded⟩, id, hid, hhash⟩, rfl⟩
    refine ⟨?_, rfl, rfl⟩
    have hid' := hid
    rw [entryId, hevent] at hid'
    rw [checkEntry, hevent]
    refine bind_eq_ok.mpr ⟨event, rfl, bind_eq_ok.mpr ⟨index, hindex, bind_eq_ok.mpr ⟨id, hid', ?_⟩⟩⟩
    rw [if_neg (by simp [hhash])]
    refine bind_eq_ok.mpr ⟨leaf, hleaf, bind_eq_ok.mpr ⟨leaf, hstored, bind_eq_ok.mpr ⟨proof, hproof,
      bind_eq_ok.mpr ⟨true, hincluded, ?_⟩⟩⟩⟩
    rw [passed, addEntry, entryLeaf, hevent, hindex, hid, hleafOk, hinclOk]
    simp only [Except.toOption, Option.bind_eq_bind, Option.bind_some, hleaf, beq_self_eq_true]
    cases asInt index with
    | none => rfl
    | some i => rfl

/-- **All entries** leave both flags up exactly where each of them passes. -/
theorem foldlM_checkEntry_iff {n : Int} {root : Bytes} {items : List Val} {acc out : Entries} :
    items.foldlM (checkEntry n root) acc = .ok out ∧ out.leafOk = true ∧ out.inclOk = true ↔
      (acc.leafOk = true ∧ acc.inclOk = true) ∧ (∀ item ∈ items, EntryPasses n root item) ∧
        out = items.foldl passed acc := by
  induction items generalizing acc with
  | nil =>
      rw [List.foldlM_nil, pure_eq_ok, List.foldl_nil]
      constructor
      · rintro ⟨rfl, h⟩
        exact ⟨h, fun item hitem => absurd hitem List.not_mem_nil, rfl⟩
      · rintro ⟨h, -, rfl⟩
        exact ⟨rfl, h⟩
  | cons item items ih =>
      rw [List.foldlM_cons, bind_eq_ok, List.forall_mem_cons, List.foldl_cons]
      constructor
      · rintro ⟨⟨mid, hmid, hrest⟩, hout⟩
        obtain ⟨hmidOk, hitems, rfl⟩ := ih.mp ⟨hrest, hout⟩
        obtain ⟨hacc, hitem, rfl⟩ := checkEntry_iff.mp ⟨hmid, hmidOk⟩
        exact ⟨hacc, ⟨hitem, hitems⟩, rfl⟩
      · rintro ⟨hacc, ⟨hitem, hitems⟩, rfl⟩
        obtain ⟨hmid, hmidOk⟩ := checkEntry_iff.mpr ⟨hacc, hitem, rfl⟩
        obtain ⟨hrest, hout⟩ := ih.mpr ⟨hmidOk, hitems, rfl⟩
        exact ⟨⟨_, hmid, hrest⟩, hout⟩

/-- What entries that all pass accumulate: their leaves and their ids. -/
theorem foldl_passed (items : List Val) (acc : Entries) :
    (items.foldl passed acc).leavesByIndex = items.foldl addEntry acc.leavesByIndex ∧
      (items.foldl passed acc).presentIds
        = acc.presentIds ++ items.filterMap fun item => (entryId item).toOption := by
  induction items generalizing acc with
  | nil => exact ⟨rfl, (List.append_nil _).symm⟩
  | cons item items ih =>
      rw [List.foldl_cons, List.foldl_cons, (ih _).1, (ih _).2, passed, List.append_assoc,
        List.filterMap_cons]
      refine ⟨rfl, congrArg _ ?_⟩
      cases (entryId item).toOption <;> rfl

/-- Step 5 keeps a result valid exactly where a whole tree has the root. -/
theorem checkFullTree_valid_iff {acc : Entries} {res : VerificationResult} :
    (checkFullTree n root acc res).valid = true ↔
      res.valid = true ∧ ∀ ordered ∈ allLeaves n acc.leavesByIndex, treeHash ordered = root := by
  rw [checkFullTree]
  cases allLeaves n acc.leavesByIndex with
  | none => simp
  | some ordered => simp

/-- Contents that pass: every entry does, a whole tree has the root, and the controls cite only ids
of entries. -/
def ContentsPass (report : Items) (n : Int) (root : Bytes) : Prop :=
  ∃ items controls, (reportEvents report).iter = .ok items ∧
    (reportControls report).iter = .ok controls ∧ (∀ item ∈ items, EntryPasses n root item) ∧
    (∀ ordered ∈ allLeaves n (items.foldl addEntry []), treeHash ordered = root) ∧
    ∀ control ∈ controls,
      CitesPresent (items.filterMap fun item => (entryId item).toOption) control

/-- Steps 4 to 6 keep the validity where the contents pass. -/
theorem checkContents_of_pass {deep : VerificationResult → Except PyErr VerificationResult}
    (h : ContentsPass report n root) (res : VerificationResult) :
    ∃ mid, checkContents report (.ok (root, n)) deep res = deep mid ∧ mid.valid = res.valid := by
  obtain ⟨items, controls, hitems, hiter, hpass, htree, hcited⟩ := h
  obtain ⟨hacc, hleafOk, hinclOk⟩ :=
    (@foldlM_checkEntry_iff n root items {} _).mpr ⟨⟨rfl, rfl⟩, hpass, rfl⟩
  rw [← (foldl_passed items {}).1] at htree
  have hcited' : ∀ control ∈ controls, CitesPresent (items.foldl passed {}).presentIds control := by
    rw [(foldl_passed items {}).2]
    exact hcited
  obtain ⟨res₁, hentries, hvalid₁⟩ : ∃ res₁, checkEntries report n root res
      = .ok (items.foldl passed {}, res₁) ∧ res₁.valid = res.valid := by
    refine ⟨_, bind_eq_ok.mpr ⟨items, hitems, bind_eq_ok.mpr ⟨_, hacc, rfl⟩⟩, ?_⟩
    simp [hleafOk, hinclOk]
  have hvalid₂ : (checkFullTree n root (items.foldl passed {}) res₁).valid = res₁.valid :=
    Bool.eq_iff_iff.mpr (checkFullTree_valid_iff.trans (and_iff_left htree))
  obtain ⟨⟨res₂, ok⟩, hcontrols, hvalid₃, hok⟩ := foldlM_checkControl_of hcited'
    (checkFullTree n root (items.foldl passed {}) res₁, true)
  obtain ⟨mid, hmid, hvalid⟩ : ∃ mid, checkControls report (items.foldl passed {}).presentIds
      (checkFullTree n root (items.foldl passed {}) res₁) = .ok mid ∧ mid.valid = res.valid := by
    refine ⟨_, bind_eq_ok.mpr ⟨controls, hiter, bind_eq_ok.mpr ⟨_, hcontrols, rfl⟩⟩, ?_⟩
    dsimp only at hvalid₃ hok ⊢
    rw [VerificationResult.check_valid, hok, Bool.and_true, hvalid₃, hvalid₂, hvalid₁]
  refine ⟨mid, ?_, hvalid⟩
  rw [checkContents, hentries]
  dsimp only [bind, Except.bind]
  rw [hmid]

/-- Steps 4 to 7 keep a result valid only where the contents pass and the last step does. -/
theorem contentsPass_of_valid {deep : VerificationResult → Except PyErr VerificationResult}
    (hdeep : ∀ r r', deep r = .ok r' → r'.valid = true → r.valid = true)
    {res out : VerificationResult} (h : checkContents report (.ok (root, n)) deep res = .ok out)
    (hvalid : out.valid = true) :
    (res.valid = true ∧ ContentsPass report n root) ∧ ∃ mid, deep mid = .ok out := by
  rw [checkContents] at h
  obtain ⟨⟨acc, res₁⟩, hentries, h⟩ := bind_eq_ok.mp h
  obtain ⟨res₂, hcontrols, hlast⟩ := bind_eq_ok.mp h
  obtain ⟨hvalid₂, controls, hiter, hcited⟩ := checkControls_valid hcontrols (hdeep _ _ hlast hvalid)
  obtain ⟨hvalid₁, htree⟩ := checkFullTree_valid_iff.mp hvalid₂
  rw [checkEntries] at hentries
  obtain ⟨items, hitems, hentries⟩ := bind_eq_ok.mp hentries
  obtain ⟨acc', hacc, hentries⟩ := bind_eq_ok.mp hentries
  obtain ⟨rfl, rfl⟩ := Prod.mk.inj (pure_eq_ok.mp hentries)
  rw [VerificationResult.check_valid, VerificationResult.check_valid, Bool.and_eq_true,
    Bool.and_eq_true] at hvalid₁
  obtain ⟨-, hpass, rfl⟩ := foldlM_checkEntry_iff.mp ⟨hacc, hvalid₁.1.2, hvalid₁.2⟩
  rw [(foldl_passed items {}).1] at htree
  rw [(foldl_passed items {}).2] at hcited
  exact ⟨⟨hvalid₁.1.1, items, controls, hitems, hiter, hpass, htree, hcited⟩, res₂, hlast⟩

/-! ## The report -/

/-- A genuine report on the log with the given leaves: signed by the key, with a signed head of the
log, an entry for each leaf, and controls that cite only ids of entries. -/
structure GenuineReport (ed : Ed25519) (pem : PemReader) (raw : Bytes) (leaves : List Bytes)
    (report : Items) (items : List Val) : Prop where
  embedded : ∀ raw', pem ((report.lookup (lit "public_key_pem")).getD .null) = .ok raw' → raw' = raw
  signed : SignedBlock ed raw (((report.lookup (lit "signature")).getD .null).orElse (.dict []))
    (reportSigningPayload report)
  head : SignedHead ed raw (reportCheckpoint report) (treeHash leaves) leaves.length
  events : (reportEvents report).iter = .ok items
  entries : List.Forall₂ (fun i item => ∃ leaf, leaves[i]? = some leaf ∧
    GenuineEntry leaves.length (treeHash leaves) i leaf item) (List.range leaves.length) items
  controls : ∃ controls, (reportControls report).iter = .ok controls ∧ ∀ control ∈ controls,
    ∃ kvs ids, control = .dict kvs ∧ citedIds control = .ok ids ∧ ∀ id ∈ ids, id.hashable = true ∧
      ∃ item ∈ items, ∃ eid, entryId item = .ok eid ∧ id.eq eid = true

/-- **A genuine report is found valid** where the deep verification has nothing to object. -/
theorem verifyReport_of_genuine {leaves : List Bytes} {items : List Val}
    (h : GenuineReport ed pem raw leaves report items)
    {deep : VerificationResult → Except PyErr VerificationResult}
    (hdeep : ∀ res, ∃ res', deep res = .ok res' ∧ res'.valid = res.valid) :
    ∃ res, verifyReport ed pem report (some raw) deep = .ok res ∧ res.valid = true := by
  obtain ⟨res₁, hres₁, hvalid₁⟩ := checkReportSignature_of h.signed {}
  obtain ⟨res₂, hres₂, hvalid₂⟩ := checkCheckpointSignature_of h.head res₁
  -- the entries
  have hentries := h.entries
  rw [List.range_eq_range'] at hentries
  obtain ⟨acc, hacc, hleaves, hleafOk, hinclOk, -, hpresent⟩ :=
    @foldlM_checkEntry_of _ _ leaves leaves.length 0 items {} hentries rfl (Nat.zero_le _) ⟨rfl, rfl⟩
  rw [Nat.zero_add, List.take_length] at hleaves
  obtain ⟨res₃, hres₃, hvalid₃⟩ : ∃ res₃, checkEntries report leaves.length (treeHash leaves) res₂
      = .ok (acc, res₃) ∧ res₃.valid = res₂.valid := by
    refine ⟨_, bind_eq_ok.mpr ⟨items, h.events, bind_eq_ok.mpr ⟨acc, hacc, rfl⟩⟩, ?_⟩
    simp [hleafOk, hinclOk]
  -- the whole tree
  have hvalid₄ : (checkFullTree leaves.length (treeHash leaves) acc res₃).valid = res₃.valid := by
    rw [checkFullTree, hleaves, allLeaves_numbered]
    simp
  -- the controls
  obtain ⟨controls, hcontrols, hcited⟩ := h.controls
  have hcites : ∀ control ∈ controls, CitesPresent acc.presentIds control := by
    intro control hcontrol
    obtain ⟨kvs, ids, hkvs, hids, hid⟩ := hcited control hcontrol
    refine ⟨kvs, ids, hkvs, hids, fun id hmem => ?_⟩
    obtain ⟨hhash, item, hitem, eid, heid, heq⟩ := hid id hmem
    exact ⟨hhash, List.any_eq_true.mpr ⟨eid, hpresent item hitem eid heid, heq⟩⟩
  obtain ⟨out, hout, hvalid₅, hok⟩ := foldlM_checkControl_of hcites
    (checkFullTree leaves.length (treeHash leaves) acc res₃, true)
  obtain ⟨res₆, hres₆, hvalid₆⟩ : ∃ res₆, checkControls report acc.presentIds
      (checkFullTree leaves.length (treeHash leaves) acc res₃) = .ok res₆ ∧
        res₆.valid = out.1.valid := by
    refine ⟨_, bind_eq_ok.mpr ⟨controls, hcontrols, bind_eq_ok.mpr ⟨out, hout, rfl⟩⟩, ?_⟩
    rw [VerificationResult.check_valid, hok, Bool.and_true]
  obtain ⟨res, hres, hvalid⟩ := hdeep res₆
  refine ⟨res, ?_, ?_⟩
  · rw [verifyReport, establishKey_of h.embedded]
    refine bind_eq_ok.mpr ⟨res₁, hres₁, bind_eq_ok.mpr ⟨res₂, hres₂, ?_⟩⟩
    rw [h.head.checkpointHead_eq, checkContents]
    exact bind_eq_ok.mpr ⟨(acc, res₃), hres₃, bind_eq_ok.mpr ⟨res₆, hres₆, hres⟩⟩
  · rw [hvalid, hvalid₆, hvalid₅, hvalid₄, hvalid₃, hvalid₂, hvalid₁]

end OpenWright.Verify
