import OpenWright.CrosswalkSafety
import OpenWright.Ed25519.Encodings
import OpenWright.Report
import OpenWright.Rfc3339

/-! # Reports that anyone may have written

The verifier opens a report at dozens of places, and some of them are outside of its `try` blocks. It
returns a result exactly on the reports whose blocks have the shapes that it opens them by. The result
is valid exactly where all checks pass, and some fields are checked loosely or not at all: a report
may pass although one of these is missing or malformed.

* **`returns_verifyReport`**, **`returns_deepVerify`** — the shapes on which the steps return.
* **`valid_iff_checksPass`** — which checks a valid result rests on.
* **`wellFormed_iff_loose`** — what the checks leave open of a well-formed report.
* **`reports_iff`** — on which reports the verifier reports. -/

namespace OpenWright.Verify

open Python Python.Val Canonical Merkle Signing

/-! ## Steps that return -/

section Returns

variable {α β : Type}

/-- A step returns. -/
def Returns (x : Except PyErr α) : Prop := ∃ a, x = .ok a

/-- What is a value returns, -/
theorem returns_ok (a : α) : Returns (.ok a) := ⟨a, rfl⟩

/-- also in a sequence of steps, -/
theorem returns_pure (a : α) : Returns (pure a) := ⟨a, rfl⟩

/-- and what raises does not. -/
theorem not_returns_error (e : PyErr) : ¬Returns (.error e : Except PyErr α) :=
  fun ⟨_, h⟩ => nomatch h

/-- Two steps return where the first one does and the second one does after it. -/
theorem returns_bind {x : Except PyErr α} {f : α → Except PyErr β} :
    Returns (x >>= f) ↔ ∃ a, x = .ok a ∧ Returns (f a) := by
  simp only [Returns, bind_eq_ok]
  constructor
  · rintro ⟨b, a, ha, hb⟩
    exact ⟨a, ha, b, hb⟩
  · rintro ⟨a, ha, b, hb⟩
    exact ⟨b, a, ha, hb⟩

/-- A loop returns where its body does on each element, whatever it has accumulated. -/
theorem returns_foldlM {f : β → α → Except PyErr β} {p : α → Prop}
    (h : ∀ b a, Returns (f b a) ↔ p a) (as : List α) (b : β) :
    Returns (as.foldlM f b) ↔ ∀ a ∈ as, p a := by
  induction as generalizing b with
  | nil => exact iff_of_true (returns_pure b) fun a ha => absurd ha List.not_mem_nil
  | cons a as ih =>
      rw [List.foldlM_cons, returns_bind, List.forall_mem_cons, ← h b a]
      constructor
      · rintro ⟨b', hb', hrest⟩
        exact ⟨⟨b', hb'⟩, (ih b').mp hrest⟩
      · rintro ⟨⟨b', hb'⟩, hrest⟩
        exact ⟨b', hb', (ih b').mpr hrest⟩

end Returns

/-! ## Shapes -/

/-- The value of a key, or the default. -/
def valueOf (kvs : Items) (k : String) (d : Val := .null) : Val := (kvs.lookup (lit k)).getD d

/-- The value of a key in a dictionary. -/
theorem getD_valueOf (kvs : Items) (k : String) (d : Val) :
    (Val.dict kvs).getD (lit k) d = .ok (valueOf kvs k d) := rfl

/-- Only a dictionary has the method. -/
theorem exists_dict_of_getD {v w d : Val} {k : String} (h : v.getD (lit k) d = .ok w) :
    ∃ kvs, v = .dict kvs ∧ valueOf kvs k d = w := by
  cases v with
  | dict kvs => exact ⟨kvs, rfl, Except.ok.inj h⟩
  | _ => cases h

/-- Only a dictionary has the method. -/
theorem returns_getD {v d : Val} {k : String} : Returns (v.getD (lit k) d) ↔ ∃ kvs, v = .dict kvs := by
  constructor
  · rintro ⟨w, hw⟩
    obtain ⟨kvs, hkvs, -⟩ := exists_dict_of_getD hw
    exact ⟨kvs, hkvs⟩
  · rintro ⟨kvs, rfl⟩
    exact ⟨_, rfl⟩

/-- A string that `bytes.fromhex` reads. -/
def Hex (v : Val) : Prop := ∃ s b, v = .str s ∧ fromhex s = some b

/-- Hexadecimal text is decoded. -/
theorem returns_unhexVal {v : Val} : Returns (unhexVal v) ↔ Hex v := by
  cases v with
  | str s =>
      constructor
      · rintro ⟨b, hb⟩
        exact ⟨s, b, rfl, unhex_eq_ok.mp hb⟩
      · rintro ⟨_, b, hs, hb⟩
        rw [Val.str.injEq] at hs
        exact ⟨b, unhex_eq_ok.mpr (hs ▸ hb)⟩
  | _ => exact iff_of_false (not_returns_error _) fun ⟨_, _, h, _⟩ => nomatch h

/-- A leaf hash: none, or a string with hexadecimal digits after the last colon. -/
def LeafHashShape (v : Val) : Prop :=
  v.truthy = true → ∃ s b, v = .str s ∧ fromhex (afterLast (cp 58) s) = some b

/-- The leaf of an entry is read where its field has the shape. -/
theorem returns_storedLeaf {kvs : Items} :
    Returns (storedLeaf (.dict kvs)) ↔ LeafHashShape (valueOf kvs "leaf_hash" (.str [])) := by
  rw [storedLeaf, getD_valueOf, returns_bind, LeafHashShape]
  generalize valueOf kvs "leaf_hash" (.str []) = v
  constructor
  · rintro ⟨w, hw, h⟩ htruthy
    obtain rfl := Except.ok.inj hw
    rw [if_pos htruthy] at h
    obtain ⟨b, hb⟩ := h
    cases v with
    | str s => exact ⟨s, b, rfl, unhex_eq_ok.mp hb⟩
    | _ => cases hb
  · intro h
    refine ⟨v, rfl, ?_⟩
    split
    · rename_i htruthy
      obtain ⟨s, b, rfl, hb⟩ := h htruthy
      exact ⟨b, unhex_eq_ok.mpr hb⟩
    · exact returns_pure _

/-- What an index has to be to be compared with the size of the tree: a number, and an integer where
the proof is walked. -/
def IndexShape (n : Int) (steps : Nat) : Val → Prop
  | .int _ | .bool _ => True
  | .float x => beyond x n = true ∨ n = 1 ∨ steps = 0
  | _ => False

/-- An inclusion is looked at where the index has the shape. -/
theorem returns_verifyInclusionAt {index : Val} {n : Int} {leaf root : Bytes} {proof : List Bytes} :
    Returns (verifyInclusionAt index n leaf proof root) ↔ IndexShape n proof.length index := by
  cases index with
  | int z => exact iff_of_true (returns_ok _) trivial
  | bool b => exact iff_of_true (returns_ok _) trivial
  | float x =>
      rw [verifyInclusionAt.eq_def, IndexShape]
      dsimp only
      split
      · rename_i hbeyond
        exact iff_of_true (returns_ok _) (.inl hbeyond)
      · rename_i hbeyond
        cases proof with
        | nil => exact iff_of_true (returns_ok _) (.inr (.inr rfl))
        | cons p ps =>
            by_cases hn : n - 1 = 0
            · rw [if_pos hn]
              exact iff_of_true (returns_ok _) (.inr (.inl (by omega)))
            · rw [if_neg hn]
              refine iff_of_false (not_returns_error _) ?_
              rintro (h | h | h)
              · exact hbeyond h
              · omega
              · exact absurd h (Nat.succ_ne_zero _)
  | null | str s | list vs | tuple vs | dict kvs => exact iff_of_false (not_returns_error _) id

/-! ## Entries -/

/-- The shape of an entry with the given event and proof elements. -/
structure EntryShape (n : Int) (kvs fields : Items) (nodes : List Val) : Prop where
  event : (valueOf kvs "event").orElse (.dict []) = .dict fields
  event_id : (valueOf fields "event_id").hashable = true
  content : Encodable (strip (.dict (withoutLedger fields)))
  leaf_hash : LeafHashShape (valueOf kvs "leaf_hash" (.str []))
  inclusion_proof : (valueOf kvs "inclusion_proof" (.list [])).iter = .ok nodes
  nodes_hex : ∀ node ∈ nodes, Hex node
  leaf_index : IndexShape n nodes.length (valueOf kvs "leaf_index")

/-- An entry that the loop body gets through. -/
def EntryReadable (n : Int) (item : Val) : Prop :=
  ∃ kvs fields nodes, item = .dict kvs ∧ EntryShape n kvs fields nodes

/-- The event of an entry. -/
theorem entryEvent_dict (kvs : Items) :
    entryEvent (.dict kvs) = .ok ((valueOf kvs "event").orElse (.dict [])) := rfl

/-- The proof of an entry is read element by element. -/
theorem proofNodes_eq_ok {kvs : Items} {proof : List Bytes} : proofNodes (.dict kvs) = .ok proof ↔
    ∃ nodes, (valueOf kvs "inclusion_proof" (.list [])).iter = .ok nodes ∧
      nodes.mapM unhexVal = .ok proof := by
  rw [proofNodes, getD_valueOf]
  constructor
  · intro h
    obtain ⟨v, hv, h⟩ := bind_eq_ok.mp h
    obtain rfl := Except.ok.inj hv
    exact bind_eq_ok.mp h
  · intro h
    exact bind_eq_ok.mpr ⟨_, rfl, bind_eq_ok.mpr h⟩

/-- A leaf is recomputed where the content of the event is encodable. -/
theorem returns_leafFromEventDict {fields : Items} : Returns (leafFromEventDict (.dict fields)) ↔
    Encodable (strip (.dict (withoutLedger fields))) := by
  rw [← exists_canonicalBytes_iff, leafFromEventDict, returns_bind]
  exact exists_congr fun data => and_iff_left (returns_pure _)

/-- **The loop body returns** exactly on the readable entries. -/
theorem returns_checkEntry {n : Int} {root : Bytes} (acc : Entries) (item : Val) :
    Returns (checkEntry n root acc item) ↔ EntryReadable n item := by
  constructor
  · intro h
    rw [checkEntry] at h
    obtain ⟨event, hevent, h⟩ := returns_bind.mp h
    obtain ⟨index, hindex, h⟩ := returns_bind.mp h
    obtain ⟨id, hid, h⟩ := returns_bind.mp h
    -- an id that has no hash raises when it is looked up
    split at h
    · exact absurd h (not_returns_error _)
    rename_i hhash
    obtain ⟨leaf, hleaf, h⟩ := returns_bind.mp h
    obtain ⟨stored, hstored, h⟩ := returns_bind.mp h
    obtain ⟨proof, hproof, h⟩ := returns_bind.mp h
    obtain ⟨included, hincluded, -⟩ := returns_bind.mp h
    obtain ⟨kvs, rfl, rfl⟩ := exists_dict_of_getD hindex
    obtain ⟨fields, rfl, rfl⟩ := exists_dict_of_getD hid
    obtain ⟨nodes, hnodes, hmap⟩ := proofNodes_eq_ok.mp hproof
    -- the same readings, as the fields of the entry
    rw [entryEvent_dict, Except.ok.injEq] at hevent
    refine ⟨kvs, fields, nodes, rfl, hevent, ?_, returns_leafFromEventDict.mp ⟨leaf, hleaf⟩,
      returns_storedLeaf.mp ⟨stored, hstored⟩, hnodes,
      fun node hnode => returns_unhexVal.mp (exists_mapM_iff.mp ⟨proof, hmap⟩ node hnode), ?_⟩
    · rwa [Bool.not_eq_false] at hhash
    · rw [(mapM_eq_ok.mp hmap).length_eq]
      exact returns_verifyInclusionAt.mp ⟨included, hincluded⟩
  · rintro ⟨kvs, fields, nodes, rfl, h⟩
    obtain ⟨leaf, hleaf⟩ := returns_leafFromEventDict.mpr h.content
    obtain ⟨stored, hstored⟩ := returns_storedLeaf.mpr h.leaf_hash
    obtain ⟨proof, hmap⟩ := exists_mapM_iff.mpr fun node hnode =>
      returns_unhexVal.mpr (h.nodes_hex node hnode)
    have hindex := h.leaf_index
    rw [(mapM_eq_ok.mp hmap).length_eq] at hindex
    obtain ⟨included, hincluded⟩ : Returns (verifyInclusionAt _ n leaf proof root) :=
      returns_verifyInclusionAt.mpr hindex
    have hevent : entryEvent (.dict kvs) = .ok (.dict fields) := by rw [entryEvent_dict, h.event]
    rw [checkEntry]
    refine returns_bind.mpr ⟨.dict fields, hevent, returns_bind.mpr ⟨_, getD_valueOf _ _ _,
      returns_bind.mpr ⟨_, getD_valueOf _ _ _, ?_⟩⟩⟩
    rw [if_neg (by rw [h.event_id]; decide)]
    exact returns_bind.mpr ⟨leaf, hleaf, returns_bind.mpr ⟨stored, hstored, returns_bind.mpr
      ⟨proof, proofNodes_eq_ok.mpr ⟨nodes, h.inclusion_proof, hmap⟩,
        returns_bind.mpr ⟨included, hincluded, returns_pure _⟩⟩⟩⟩

/-! ## Controls -/

/-- A control that the loop body gets through. -/
def ControlReadable (control : Val) : Prop :=
  ∃ kvs ids, control = .dict kvs ∧ (valueOf kvs "evidence_event_ids" (.list [])).iter = .ok ids ∧
    ∀ id ∈ ids, id.hashable = true

/-- A cited id is looked up where it can be hashed. -/
theorem returns_checkCited {presentIds : List Val} (ok : Bool) (id : Val) :
    Returns (checkCited presentIds ok id) ↔ id.hashable = true := by
  rw [checkCited]
  split
  · rename_i h
    exact iff_of_true (returns_ok _) h
  · rename_i h
    exact iff_of_false (not_returns_error _) h

/-- **The loop body returns** exactly on the readable controls. -/
theorem returns_checkControl {presentIds : List Val} (acc : VerificationResult × Bool) (control : Val) :
    Returns (checkControl presentIds acc control) ↔ ControlReadable control := by
  constructor
  · intro h
    rw [checkControl] at h
    obtain ⟨id, hid, h⟩ := returns_bind.mp h
    obtain ⟨status, -, h⟩ := returns_bind.mp h
    obtain ⟨title, -, h⟩ := returns_bind.mp h
    obtain ⟨ids, hids, h⟩ := returns_bind.mp h
    obtain ⟨ok, hok, -⟩ := returns_bind.mp h
    obtain ⟨kvs, rfl, -⟩ := exists_dict_of_getD hid
    exact ⟨kvs, ids, rfl, hids, (returns_foldlM returns_checkCited ids _).mp ⟨ok, hok⟩⟩
  · rintro ⟨kvs, ids, rfl, hids, hhash⟩
    obtain ⟨ok, hok⟩ : Returns (ids.foldlM (checkCited presentIds) acc.2) :=
      (returns_foldlM returns_checkCited ids acc.2).mpr hhash
    rw [checkControl]
    exact returns_bind.mpr ⟨_, rfl, returns_bind.mpr ⟨_, rfl, returns_bind.mpr ⟨_, rfl,
      returns_bind.mpr ⟨ids, hids, returns_bind.mpr ⟨ok, hok, returns_pure _⟩⟩⟩⟩⟩

/-! ## The steps -/

variable {ed : Ed25519} {pem : PemReader} {builtins : Builtins} {reload : Reload} {report : Items}
  {trusted : Option Bytes} {crosswalk : Option Crosswalk} {raw root : Bytes} {n : Int}

/-- The key id of a block is read where the block is a dictionary. -/
theorem returns_otherKeyId {block : Val} :
    Returns (otherKeyId raw block) ↔ ∃ kvs, block = .dict kvs := by
  rw [otherKeyId, returns_bind, ← returns_getD]
  exact exists_congr fun id => and_iff_left (returns_pure _)

/-- **Step 2** returns where the signature block is a dictionary. -/
theorem returns_checkReportSignature (res : VerificationResult) :
    Returns (checkReportSignature ed raw report res) ↔ ∃ kvs, reportSignature report = .dict kvs := by
  rw [checkReportSignature, ← reportSignature]
  constructor
  · intro h
    obtain ⟨id, hid, -⟩ := returns_bind.mp h
    exact returns_getD.mp ⟨id, hid⟩
  · rintro ⟨kvs, hkvs⟩
    obtain ⟨other, hother⟩ : Returns (otherKeyId raw _) := returns_otherKeyId.mpr ⟨kvs, hkvs⟩
    rw [hkvs] at hother ⊢
    exact returns_bind.mpr ⟨_, rfl, returns_bind.mpr ⟨other, hother, returns_pure _⟩⟩

/-- A value that can be sliced. -/
def Sliceable : Val → Prop
  | .str _ | .list _ | .tuple _ => True
  | _ => False

/-- The start of a key id is taken where there is a slice. -/
theorem returns_first16 {v : Val} : Returns (first16 v) ↔ Sliceable v := by
  cases v with
  | str s => exact iff_of_true (returns_ok _) trivial
  | list vs => exact iff_of_true (returns_ok _) trivial
  | tuple vs => exact iff_of_true (returns_ok _) trivial
  | null | bool b | int z | float x | dict kvs => exact iff_of_false (not_returns_error _) id

/-- A checkpoint of which the first digits of the root can be shown. -/
def CheckpointShape (cp : Val) : Prop :=
  ∃ kvs, cp = .dict kvs ∧ Sliceable (valueOf kvs "root_hash" (.str []))

/-- **Step 3** returns where the checkpoint is a dictionary whose root can be sliced. -/
theorem returns_checkCheckpointSignature {cp : Val} (res : VerificationResult) :
    Returns (checkCheckpointSignature ed raw cp res) ↔ CheckpointShape cp := by
  rw [checkCheckpointSignature]
  constructor
  · intro h
    obtain ⟨other, hother, h⟩ := returns_bind.mp h
    obtain ⟨treeSize, -, h⟩ := returns_bind.mp h
    obtain ⟨rootHash, hroot, h⟩ := returns_bind.mp h
    obtain ⟨shown, hshown, -⟩ := returns_bind.mp h
    obtain ⟨kvs, rfl, rfl⟩ := exists_dict_of_getD hroot
    exact ⟨kvs, rfl, returns_first16.mp ⟨shown, hshown⟩⟩
  · rintro ⟨kvs, rfl, hslice⟩
    obtain ⟨other, hother⟩ : Returns (otherKeyId raw (.dict kvs)) := returns_otherKeyId.mpr ⟨kvs, rfl⟩
    obtain ⟨shown, hshown⟩ := returns_first16.mpr hslice
    exact returns_bind.mpr ⟨other, hother, returns_bind.mpr ⟨_, rfl, returns_bind.mpr ⟨_, rfl,
      returns_bind.mpr ⟨shown, hshown, returns_pure _⟩⟩⟩⟩

/-- The events and the controls of a report can be gone through. -/
structure ContentsReadable (n : Int) (report : Items) : Prop where
  events : ∃ items, (reportEvents report).iter = .ok items ∧ ∀ item ∈ items, EntryReadable n item
  controls : ∃ controls, (reportControls report).iter = .ok controls ∧
    ∀ control ∈ controls, ControlReadable control

/-- **Step 4** returns where every entry is readable. -/
theorem returns_checkEntries (res : VerificationResult) :
    Returns (checkEntries report n root res) ↔ ∃ items, (reportEvents report).iter = .ok items ∧
      ∀ item ∈ items, EntryReadable n item := by
  rw [checkEntries, returns_bind]
  refine exists_congr fun items => and_congr_right fun _ => ?_
  rw [returns_bind, ← returns_foldlM returns_checkEntry items {}]
  exact exists_congr fun acc => and_iff_left (returns_pure _)

/-- **Step 6** returns where every control is readable. -/
theorem returns_checkControls {presentIds : List Val} (res : VerificationResult) :
    Returns (checkControls report presentIds res) ↔
      ∃ controls, (reportControls report).iter = .ok controls ∧
        ∀ control ∈ controls, ControlReadable control := by
  rw [checkControls, returns_bind]
  refine exists_congr fun controls => and_congr_right fun _ => ?_
  rw [returns_bind, ← returns_foldlM returns_checkControl controls (res, true)]
  exact exists_congr fun out => and_iff_left (returns_pure _)

/-- **Steps 4 to 7** return where the contents are readable and the last step returns. -/
theorem returns_checkContents {deep : VerificationResult → Except PyErr VerificationResult}
    {deepShape : Prop} (hdeep : ∀ res, Returns (deep res) ↔ deepShape) (res : VerificationResult) :
    Returns (checkContents report (.ok (root, n)) deep res) ↔ ContentsReadable n report ∧ deepShape := by
  rw [checkContents]
  constructor
  · intro h
    obtain ⟨⟨acc, res₁⟩, hentries, h⟩ := returns_bind.mp h
    obtain ⟨res₂, hcontrols, h⟩ := returns_bind.mp h
    exact ⟨⟨(returns_checkEntries res).mp ⟨_, hentries⟩, (returns_checkControls _).mp ⟨_, hcontrols⟩⟩,
      (hdeep res₂).mp h⟩
  · rintro ⟨⟨hevents, hcontrols⟩, hshape⟩
    obtain ⟨⟨acc, res₁⟩, hentries⟩ : Returns (checkEntries report n root res) :=
      (returns_checkEntries res).mpr hevents
    obtain ⟨res₂, hres₂⟩ :
        Returns (checkControls report acc.presentIds (checkFullTree n root acc res₁)) :=
      (returns_checkControls _).mpr hcontrols
    exact returns_bind.mpr ⟨_, hentries, returns_bind.mpr ⟨res₂, hres₂, (hdeep res₂).mpr hshape⟩⟩

/-- There is a key to verify with: a trusted one, or one embedded in the report that can be parsed. -/
def HasKey (pem : PemReader) (report : Items) (trusted : Option Bytes) : Prop :=
  (∃ raw, trusted = some raw) ∨
    (valueOf report "public_key_pem").truthy = true ∧
      ∃ raw, pem (valueOf report "public_key_pem") = .ok raw

/-- The verifier goes on exactly where there is a key. -/
theorem hasKey_iff :
    HasKey pem report trusted ↔ ∃ raw, (establishKey pem report trusted).1 = some raw := by
  rw [HasKey, establishKey.eq_def, ← valueOf]
  generalize valueOf report "public_key_pem" = embedded
  cases trusted with
  | some raw =>
      -- a trusted key is used, whatever the report embeds
      refine iff_of_true (.inl ⟨raw, rfl⟩) ⟨raw, ?_⟩
      dsimp only
      split
      · rfl
      · split
        · rfl
        · split <;> rfl
  | none =>
      dsimp only
      split
      · rename_i hfalse
        -- without one the report must embed a key, and nothing is embedded
        refine iff_of_false ?_ ?_
        · rintro (⟨_, h⟩ | ⟨h, -⟩)
          · cases h
          · rw [hfalse] at h
            cases h
        · rintro ⟨raw, h⟩
          cases h
      · rename_i htruthy
        split
        · rename_i hpem
          -- what is embedded is no key
          refine iff_of_false ?_ ?_
          · rintro (⟨_, h⟩ | ⟨-, _, h⟩)
            · cases h
            · rw [hpem] at h
              cases h
          · rintro ⟨raw, h⟩
            cases h
        · rename_i raw hpem
          exact iff_of_true (.inr ⟨Bool.not_eq_false _ ▸ htruthy, raw, hpem⟩) ⟨raw, rfl⟩

/-- The blocks of a report have the shapes that the verifier opens them by, as far as it comes. -/
def Readable (pem : PemReader) (report : Items) (trusted : Option Bytes) (deepShape : Prop) : Prop :=
  HasKey pem report trusted → (∃ kvs, reportSignature report = .dict kvs) ∧
    CheckpointShape (reportCheckpoint report) ∧
      ∀ root n, checkpointHead (reportCheckpoint report) = .ok (root, n) →
        ContentsReadable n report ∧ deepShape

/-- **The verifier returns** exactly on the readable reports. -/
theorem returns_verifyReport {deep : VerificationResult → Except PyErr VerificationResult}
    {deepShape : Prop} (hdeep : ∀ root n res,
      checkpointHead (reportCheckpoint report) = .ok (root, n) → (Returns (deep res) ↔ deepShape)) :
    Returns (verifyReport ed pem report trusted deep) ↔ Readable pem report trusted deepShape := by
  rw [Readable, hasKey_iff, verifyReport]
  split
  · rename_i res hkey
    rw [hkey]
    -- without a key the verifier returns at once
    refine iff_of_true (returns_ok res) ?_
    rintro ⟨raw, h⟩
    cases h
  · rename_i raw res hkey
    rw [hkey]
    constructor
    · rintro h -
      obtain ⟨res₁, hreport, h⟩ := returns_bind.mp h
      obtain ⟨res₂, hcheckpoint, h⟩ := returns_bind.mp h
      refine ⟨(returns_checkReportSignature res).mp ⟨_, hreport⟩,
        (returns_checkCheckpointSignature res₁).mp ⟨_, hcheckpoint⟩, fun root n hhead => ?_⟩
      rw [hhead] at h
      exact (returns_checkContents (fun r => hdeep root n r hhead) res₂).mp h
    · intro h
      obtain ⟨hsignature, hcheckpoint, hcontents⟩ := h ⟨raw, rfl⟩
      obtain ⟨res₁, hres₁⟩ : Returns (checkReportSignature ed raw report res) :=
        (returns_checkReportSignature res).mpr hsignature
      obtain ⟨res₂, hres₂⟩ :
          Returns (checkCheckpointSignature ed raw (reportCheckpoint report) res₁) :=
        (returns_checkCheckpointSignature res₁).mpr hcheckpoint
      refine returns_bind.mpr ⟨res₁, hres₁, returns_bind.mpr ⟨res₂, hres₂, ?_⟩⟩
      cases hhead : checkpointHead (reportCheckpoint report) with
      -- a head that cannot be read is a failed check
      | error err => exact returns_ok _
      | ok head =>
          obtain ⟨root, n⟩ := head
          exact (returns_checkContents (fun r => hdeep root n r hhead) res₂).mpr (hcontents root n hhead)

/-! ## The deep step -/

/-- The crosswalk the deep step goes on with. -/
def Chosen (builtins : Builtins) (crosswalk : Option Crosswalk) (block : Items) (cw : Crosswalk) :
    Prop :=
  match crosswalk with
  | some inHand => inHand = cw
  | none => loadBuiltin builtins (valueOf block "id") = .ok cw

/-- The events that the schema reads can be evaluated, and the ids of the controls can be looked up. -/
def VerdictsReadable (reload : Reload) (report : Items) (cw : Crosswalk) : Prop :=
  ∀ dicts, reloadEvents reload report = .ok dicts → cw.Evaluable dicts ∧
    ∃ controls, (reportControls report).iter = .ok controls ∧
      ∀ control ∈ controls, ∃ kvs, control = .dict kvs ∧ (valueOf kvs "control_id").hashable = true

/-- The crosswalk block has the shape that the deep step opens it by, and where it pins the crosswalk
in hand the step gets through the events and the controls. -/
def DeepReadable (builtins : Builtins) (reload : Reload) (report : Items)
    (crosswalk : Option Crosswalk) : Prop :=
  ∃ block, crosswalkBlock report = .dict block ∧
    ((valueOf block "content_hash").truthy = true → ∀ cw, Chosen builtins crosswalk block cw →
      Encodable (strip cw.dump) ∧ ∀ actual, crosswalkContentHash cw = .ok actual →
        (Val.str actual).eq (valueOf block "content_hash") = true →
          (∃ items, (listedEvents report).iter = .ok items) ∧ VerdictsReadable reload report cw)

/-- A control is compared where its id can be looked up. -/
theorem returns_mismatch {cwId : Str} {results : List ControlResult} {control : Val} :
    Returns (mismatch cwId results control) ↔
      ∃ kvs, control = .dict kvs ∧ (valueOf kvs "control_id").hashable = true := by
  -- the control is looked up in a dictionary, which needs a hash
  have hgot : ∀ {cid}, Returns (recomputed results cid) ↔ cid.hashable = true := by
    intro cid
    rw [recomputed]
    split
    · rename_i h
      exact iff_of_true (returns_ok _) h
    · rename_i h
      exact iff_of_false (not_returns_error _) h
  constructor
  · intro h
    rw [mismatch] at h
    obtain ⟨cid, hcid, h⟩ := returns_bind.mp h
    obtain ⟨want, -, h⟩ := returns_bind.mp h
    obtain ⟨got, hgot', -⟩ := returns_bind.mp h
    obtain ⟨kvs, rfl, rfl⟩ := exists_dict_of_getD hcid
    exact ⟨kvs, rfl, hgot.mp ⟨got, hgot'⟩⟩
  · rintro ⟨kvs, rfl, hhash⟩
    obtain ⟨got, hgot'⟩ := hgot.mpr hhash
    rw [mismatch]
    refine returns_bind.mpr ⟨_, rfl, returns_bind.mpr ⟨_, rfl, returns_bind.mpr ⟨got, hgot', ?_⟩⟩⟩
    cases got with
    | none => exact returns_pure _
    | some status =>
        dsimp only
        split
        · exact returns_pure _
        · exact returns_pure _

/-- **The last part returns** where the verdicts are readable. -/
theorem returns_checkVerdicts (hreload : ∀ event dict, reload event = .ok dict → FieldTypes dict)
    {cw : Crosswalk} (res : VerificationResult) :
    Returns (checkVerdicts cw reload report res) ↔ VerdictsReadable reload report cw := by
  rw [checkVerdicts, VerdictsReadable]
  cases hdicts : reloadEvents reload report with
  | error err =>
      -- an event that does not reload is a failed check
      refine iff_of_true (returns_ok _) fun dicts h => ?_
      cases h
  | ok dicts =>
      -- what reloads has the types of the model, which the evaluation relies on
      have htypes : ∀ ev ∈ dicts, FieldTypes ev := by
        rw [reloadEvents] at hdicts
        obtain ⟨items, -, hmap⟩ := bind_eq_ok.mp hdicts
        intro ev hev
        obtain ⟨item, -, hitem⟩ := exists_of_mem_mapM hmap hev
        obtain ⟨event, -, hevent⟩ := bind_eq_ok.mp hitem
        exact hreload event ev hevent
      simp only [Except.ok.injEq, forall_eq']
      rw [← Crosswalk.exists_evaluate_iff htypes]
      constructor
      · intro h
        obtain ⟨result, hresult, h⟩ := returns_bind.mp h
        obtain ⟨controls, hcontrols, h⟩ := returns_bind.mp h
        obtain ⟨found, hfound, -⟩ := returns_bind.mp h
        exact ⟨⟨result, hresult⟩, controls, hcontrols, fun control hcontrol =>
          returns_mismatch.mp (exists_mapM_iff.mp ⟨found, hfound⟩ control hcontrol)⟩
      · rintro ⟨⟨result, hresult⟩, controls, hcontrols, hids⟩
        obtain ⟨found, hfound⟩ : ∃ found, controls.mapM (mismatch cw.id result.controls) = .ok found :=
          exists_mapM_iff.mpr fun control hcontrol => returns_mismatch.mpr (hids control hcontrol)
        exact returns_bind.mpr ⟨result, hresult, returns_bind.mpr ⟨controls, hcontrols,
          returns_bind.mpr ⟨found, hfound, returns_pure _⟩⟩⟩

/-- The crosswalk is chosen from the block; what cannot be loaded is a failed check. -/
theorem chooseCrosswalk_dict (block : Items) : ∃ chosen,
    chooseCrosswalk builtins crosswalk (.dict block) = .ok chosen ∧
      ∀ cw, chosen = .ok cw ↔ Chosen builtins crosswalk block cw := by
  cases crosswalk with
  | some inHand => exact ⟨.ok inHand, rfl, fun cw => ⟨Except.ok.inj, congrArg Except.ok⟩⟩
  | none => exact ⟨loadBuiltin builtins (valueOf block "id"), rfl, fun cw => Iff.rfl⟩

/-- A checkpoint that has been read has a size to compare with. -/
theorem returns_disclosedOf (hhead : checkpointHead (reportCheckpoint report) = .ok (root, n))
    (nEvents : Nat) : Returns (disclosedOf report nEvents) := by
  rw [checkpointHead] at hhead
  obtain ⟨rootHash, -, hhead⟩ := bind_eq_ok.mp hhead
  obtain ⟨root', -, hhead⟩ := bind_eq_ok.mp hhead
  obtain ⟨treeSize, hsize, hhead⟩ := bind_eq_ok.mp hhead
  obtain ⟨m, hm, -⟩ := bind_eq_ok.mp hhead
  rw [disclosedOf]
  refine returns_bind.mpr ⟨treeSize, getD_of_getItem hsize _, ?_⟩
  rw [Val.orElse]
  split
  · exact ⟨m, hm⟩
  · exact returns_ok _

/-- **The deep step returns** where its blocks are readable. -/
theorem returns_deepVerify (hreload : ∀ event dict, reload event = .ok dict → FieldTypes dict)
    (hhead : checkpointHead (reportCheckpoint report) = .ok (root, n)) (res : VerificationResult) :
    Returns (deepVerify builtins reload report crosswalk res) ↔
      DeepReadable builtins reload report crosswalk := by
  rw [deepVerify]
  constructor
  · intro h
    obtain ⟨pinned, hpinned, h⟩ := returns_bind.mp h
    obtain ⟨block, hblock, rfl⟩ := exists_dict_of_getD hpinned
    refine ⟨block, hblock, fun htruthy cw hcw => ?_⟩
    obtain ⟨chosen, hchosen, hiff⟩ := chooseCrosswalk_dict block
    -- the pinned hash is truthy and the crosswalk found
    rw [hblock, hchosen, (hiff cw).mpr hcw, if_neg (by rw [htruthy]; decide)] at h
    obtain ⟨_, hcw', h⟩ := returns_bind.mp h
    obtain rfl := Except.ok.inj hcw'
    obtain ⟨actual, hactual, h⟩ := returns_bind.mp h
    refine ⟨exists_contentHash_iff.mp ⟨actual, hactual⟩, fun actual' hactual' heq => ?_⟩
    obtain rfl := Except.ok.inj (hactual.symm.trans hactual')
    -- it has that hash, so the verdicts are compared
    rw [if_neg (by rw [heq]; decide)] at h
    obtain ⟨nEvents, hlen, h⟩ := returns_bind.mp h
    obtain ⟨treeSize, -, h⟩ := returns_bind.mp h
    refine ⟨?_, (returns_checkVerdicts hreload _).mp h⟩
    cases hiter : (listedEvents report).iter with
    | error err =>
        rw [len, hiter] at hlen
        cases hlen
    | ok items => exact ⟨items, rfl⟩
  · rintro ⟨block, hblock, h⟩
    obtain ⟨chosen, hchosen, hiff⟩ := @chooseCrosswalk_dict builtins crosswalk block
    rw [hblock]
    refine returns_bind.mpr ⟨_, getD_valueOf _ _ _, ?_⟩
    by_cases htruthy : (valueOf block "content_hash").truthy = true
    -- each failed lookup on the way ends in a failed check
    · rw [if_neg (by rw [htruthy]; decide)]
      refine returns_bind.mpr ⟨chosen, hchosen, ?_⟩
      cases chosen with
      | error detail => exact returns_pure _
      | ok cw =>
          obtain ⟨hencodable, hpinned⟩ := h htruthy cw ((hiff cw).mp rfl)
          obtain ⟨actual, hactual⟩ := exists_contentHash_iff.mpr hencodable
          refine returns_bind.mpr ⟨actual, hactual, ?_⟩
          by_cases heq : (Val.str actual).eq (valueOf block "content_hash") = true
          · obtain ⟨⟨items, hitems⟩, hverdicts⟩ := hpinned actual hactual heq
            obtain ⟨treeSize, hsize⟩ := returns_disclosedOf hhead items.length
            rw [if_neg (by rw [heq]; decide)]
            refine returns_bind.mpr ⟨items.length, by rw [len, hitems]; rfl, ?_⟩
            exact returns_bind.mpr ⟨treeSize, hsize, (returns_checkVerdicts hreload _).mpr hverdicts⟩
          · rw [if_pos (Bool.not_eq_true _ ▸ heq)]
            exact returns_pure _
    · rw [if_pos (Bool.not_eq_true _ ▸ htruthy)]
      exact returns_pure _

/-! ## Valid results -/

/-- The key that the checks are made with, where no other key is embedded. -/
def KeyAgreed (pem : PemReader) (report : Items) (trusted : Option Bytes) (key : Bytes) : Prop :=
  match trusted with
  | some raw => raw = key ∧ ((valueOf report "public_key_pem").truthy = true →
      ∀ raw', pem (valueOf report "public_key_pem") = .ok raw' → raw' = key)
  | none => (valueOf report "public_key_pem").truthy = true ∧
      pem (valueOf report "public_key_pem") = .ok key

/-- Step 1 goes on with a result that is valid exactly where the key is agreed on. -/
theorem keyAgreed_iff {key : Bytes} : KeyAgreed pem report trusted key ↔
    ∃ res, establishKey pem report trusted = (some key, res) ∧ res.valid = true := by
  cases trusted with
  | some raw =>
      -- a trusted key: what is embedded may only be the same
      obtain ⟨res, hres, hvalid⟩ := @exists_establishKey pem report raw
      rw [KeyAgreed, hres]
      constructor
      · rintro ⟨rfl, hembedded⟩
        exact ⟨res, rfl, hvalid.mpr hembedded⟩
      · rintro ⟨res', hsame, hvalid'⟩
        obtain ⟨hkey, rfl⟩ := Prod.mk.inj hsame
        obtain rfl := Option.some.inj hkey
        exact ⟨rfl, hvalid.mp hvalid'⟩
  | none =>
      rw [KeyAgreed, establishKey.eq_def, ← valueOf]
      dsimp only
      split
      · rename_i hfalsy
        refine iff_of_false (fun h => Bool.false_ne_true (hfalsy.symm.trans h.1)) ?_
        rintro ⟨res, h, -⟩
        cases h
      · rename_i htruthy
        -- no trusted key: the embedded one is taken
        rw [Bool.not_eq_false] at htruthy
        cases pem (valueOf report "public_key_pem") with
        | error exc =>
            refine iff_of_false (fun h => by cases h.2) ?_
            rintro ⟨res, h, -⟩
            cases h
        | ok raw =>
            constructor
            · rintro ⟨-, h⟩
              exact ⟨_, by rw [Except.ok.inj h], rfl⟩
            · rintro ⟨res, h, -⟩
              obtain ⟨hkey, -⟩ := Prod.mk.inj h
              exact ⟨htruthy, congrArg Except.ok (Option.some.inj hkey)⟩

/-- **The checks of the verifier**, with those of its last step: both blocks are signed with the key
and name no other one, the head can be read, and the contents pass against it. -/
structure ChecksPass (ed : Ed25519) (pem : PemReader) (report : Items) (trusted : Option Bytes)
    (deepPass : Prop) : Prop where
  signed : ∃ key, KeyAgreed pem report trusted key ∧
    (signatureOk ed key (reportSignature report) (reportSigningPayload report) = true ∧
      otherKeyId key (reportSignature report) = .ok false) ∧
    signatureOk ed key (reportCheckpoint report) (checkpointPayload (reportCheckpoint report)) = true ∧
      otherKeyId key (reportCheckpoint report) = .ok false
  contents : ∃ root n, checkpointHead (reportCheckpoint report) = .ok (root, n) ∧
    ContentsPass report n root
  deep : deepPass

/-- **A result that is returned is valid** exactly where the checks pass. -/
theorem valid_iff_checksPass {deep : VerificationResult → Except PyErr VerificationResult}
    {deepPass : Prop} (hdeep : ∀ r r', deep r = .ok r' → (r'.valid = true ↔ r.valid = true ∧ deepPass))
    {res : VerificationResult} (h : verifyReport ed pem report trusted deep = .ok res) :
    res.valid = true ↔ ChecksPass ed pem report trusted deepPass := by
  constructor
  · intro hvalid
    -- valid at the end, so valid at every step before
    rw [verifyReport] at h
    split at h
    · rename_i res₀ hkey
      rw [← Except.ok.inj h, establishKey_none hkey] at hvalid
      cases hvalid
    · rename_i key res₀ hkey
      obtain ⟨res₁, hreport, h⟩ := bind_eq_ok.mp h
      obtain ⟨res₂, hcheckpoint, h⟩ := bind_eq_ok.mp h
      cases hhead : checkpointHead (reportCheckpoint report) with
      | error err =>
          rw [hhead, checkContents, Except.ok.injEq] at h
          rw [← h, VerificationResult.check_valid, Bool.and_false] at hvalid
          cases hvalid
      | ok head =>
          rw [hhead] at h
          obtain ⟨⟨hvalid₂, hcontents⟩, mid, hmid⟩ :=
            contentsPass_of_valid (fun r r' hr hr' => ((hdeep r r' hr).mp hr').1) h hvalid
          obtain ⟨hvalid₁, hcheckpointSigned⟩ := checkCheckpointSignature_valid hcheckpoint hvalid₂
          obtain ⟨hvalid₀, hreportSigned⟩ := checkReportSignature_valid hreport hvalid₁
          exact ⟨⟨key, keyAgreed_iff.mpr ⟨res₀, hkey, hvalid₀⟩, hreportSigned, hcheckpointSigned⟩,
            ⟨head.1, head.2, hhead, hcontents⟩, ((hdeep mid res hmid).mp hvalid).2⟩
  · rintro ⟨⟨key, hkey, hreportSigned, hcheckpointSigned⟩, ⟨root, n, hhead, hcontents⟩, hpass⟩
    obtain ⟨res₀, hres₀, hvalid₀⟩ := keyAgreed_iff.mp hkey
    obtain ⟨text, sig, data, htext, -⟩ := signatureOk_iff.mp hreportSigned.1
    obtain ⟨block, hblock, -⟩ := exists_dict_of_getD htext
    obtain ⟨res₁, hres₁, hvalid₁⟩ := @exists_checkReportSignature ed report key block hblock res₀
    obtain ⟨res₂, hres₂, hvalid₂⟩ := @exists_checkCheckpointSignature ed key n root _ hhead res₁
    obtain ⟨mid, hmid, hvalid⟩ := @checkContents_of_pass report n root deep hcontents res₂
    -- what the verifier computes is what the parts give
    rw [verifyReport, hres₀] at h
    obtain ⟨res₁', hres₁', h⟩ := bind_eq_ok.mp h
    obtain rfl := Except.ok.inj (hres₁.symm.trans hres₁')
    obtain ⟨res₂', hres₂', h⟩ := bind_eq_ok.mp h
    obtain rfl := Except.ok.inj (hres₂.symm.trans hres₂')
    rw [hhead, hmid] at h
    rw [hdeep mid res h, hvalid, hvalid₂, hvalid₁]
    exact ⟨⟨⟨hvalid₀, hreportSigned⟩, hcheckpointSigned⟩, hpass⟩

/-- The checks of the deep step: the report is pinned to a crosswalk, and its verdicts are re-derived
under it. -/
def VerdictsPass (builtins : Builtins) (reload : Reload) (report : Items)
    (crosswalk : Option Crosswalk) : Prop :=
  ∃ cw, Pinned builtins crosswalk report cw ∧ Rederives cw reload report

/-- Where the deep step returns, it leaves a result valid exactly where its checks pass. -/
theorem deepVerify_valid_iff {res res' : VerificationResult}
    (h : deepVerify builtins reload report crosswalk res = .ok res') :
    res'.valid = true ↔ res.valid = true ∧ VerdictsPass builtins reload report crosswalk := by
  refine ⟨deepVerify_valid h, ?_⟩
  rintro ⟨hvalid, cw, ⟨pinned, actual, hpinned, htruthy, hchosen, hactual, heq⟩, hrederives⟩
  rw [deepVerify] at h
  obtain ⟨pinned', hpinned', h⟩ := bind_eq_ok.mp h
  obtain rfl := Except.ok.inj (hpinned.symm.trans hpinned')
  rw [if_neg (by rw [htruthy]; decide)] at h
  obtain ⟨chosen, hchosen', h⟩ := bind_eq_ok.mp h
  obtain rfl := Except.ok.inj (hchosen.symm.trans hchosen')
  obtain ⟨actual', hactual', h⟩ := bind_eq_ok.mp h
  obtain rfl := Except.ok.inj (hactual.symm.trans hactual')
  rw [if_neg (by rw [heq]; decide)] at h
  obtain ⟨nEvents, -, h⟩ := bind_eq_ok.mp h
  obtain ⟨treeSize, -, h⟩ := bind_eq_ok.mp h
  obtain ⟨out, hout, hsame⟩ := checkVerdicts_of_rederives hrederives _
  obtain rfl := Except.ok.inj (hout.symm.trans h)
  rw [hsame, warnDisclosed_valid, VerificationResult.check_valid, Bool.and_true]
  exact hvalid

/-! ## Well-formed reports -/

/-- A block with a signature: the base64 text of 64 bytes. -/
def HasSignature (block : Items) : Prop :=
  ∃ text sig, block.lookup (lit "signature") = some (.str text) ∧ b64decode text = some sig ∧
    sig.length = 64

/-- A block that names a key. -/
def HasKeyId (block : Items) : Prop :=
  ∃ s, block.lookup (lit "public_key_id") = some (.str s) ∧ s ≠ []

/-- A hash of 32 bytes in hexadecimal. -/
def HexDigest (v : Val) : Prop := ∃ s b, v = .str s ∧ fromhex s = some b ∧ b.length = 32

/-- The fields of the signature block that the checks leave open: the algorithm is never read, and a
key id may be missing. -/
structure LooseSignature (block : Items) : Prop where
  algorithm : block.lookup (lit "algorithm") = some (.str (lit "ed25519"))
  public_key_id : HasKeyId block

/-- The signature block with all its fields. -/
structure WellFormedSignature (block : Items) : Prop extends LooseSignature block where
  signature : HasSignature block

/-- The fields of a checkpoint that the checks leave open: an origin or a timestamp may be any value,
a size whatever `int` reads, a root of any length, and a key id may be missing. -/
structure LooseCheckpoint (cp : Items) : Prop where
  origin : ∃ s, cp.lookup (lit "origin") = some (.str s)
  tree_size : ∃ m : Nat, cp.lookup (lit "tree_size") = some (.int m)
  root_hash : ∃ v, cp.lookup (lit "root_hash") = some v ∧ HexDigest v
  timestamp : ∃ t : Rfc3339, cp.lookup (lit "timestamp") = some (.str t.text)
  public_key_id : HasKeyId cp

/-- A checkpoint with all its fields. -/
structure WellFormedCheckpoint (cp : Items) : Prop extends LooseCheckpoint cp where
  signature : HasSignature cp

/-- The fields of an entry that the checks leave open: an index may be a Boolean, a proof may be
missing, and its elements may have any length. -/
structure LooseEntry (entry : Items) : Prop where
  leaf_index : ∃ i : Nat, entry.lookup (lit "leaf_index") = some (.int i)
  inclusion_proof : ∃ nodes, entry.lookup (lit "inclusion_proof") = some (.list nodes) ∧
    ∀ node ∈ nodes, HexDigest node

/-- An entry with all its fields: the leaf hash has 32 bytes in hexadecimal after the last colon. -/
structure WellFormedEntry (entry : Items) : Prop extends LooseEntry entry where
  leaf_hash : ∃ s b, entry.lookup (lit "leaf_hash") = some (.str s) ∧
    fromhex (afterLast (cp 58) s) = some b ∧ b.length = 32

/-- A report none of whose indices, hashes, proof elements, and checkpoint and signature fields is
missing or malformed. -/
structure WellFormed (report : Items) : Prop where
  signature : ∃ block, reportSignature report = .dict block ∧ WellFormedSignature block
  checkpoint : ∃ cp, reportCheckpoint report = .dict cp ∧ WellFormedCheckpoint cp
  entries : ∃ items, (reportEvents report).iter = .ok items ∧
    ∀ item ∈ items, ∃ entry, item = .dict entry ∧ WellFormedEntry entry

/-- **What the checks leave open** of a well-formed report. -/
structure LooseFields (report : Items) : Prop where
  signature : ∃ block, reportSignature report = .dict block ∧ LooseSignature block
  checkpoint : ∃ cp, reportCheckpoint report = .dict cp ∧ LooseCheckpoint cp
  entries : ∃ items, (reportEvents report).iter = .ok items ∧
    ∀ item ∈ items, ∃ entry, item = .dict entry ∧ LooseEntry entry

/-- A well-formed report is well formed in the fields that the checks leave open. -/
theorem WellFormed.loose (h : WellFormed report) : LooseFields report := by
  obtain ⟨⟨block, hblock, hsignature⟩, ⟨cp, hcp, hcheckpoint⟩, items, hitems, hentries⟩ := h
  refine ⟨⟨block, hblock, hsignature.toLooseSignature⟩, ⟨cp, hcp, hcheckpoint.toLooseCheckpoint⟩,
    items, hitems, fun item hitem => ?_⟩
  obtain ⟨entry, hentry, hfields⟩ := hentries item hitem
  exact ⟨entry, hentry, hfields.toLooseEntry⟩

/-- A signature that verifies is there. -/
theorem hasSignature_of_ok (hed : ∀ raw sig data, ed raw sig data = true → sig.length = 64)
    {kvs : Items} {payload : Except PyErr Bytes}
    (h : signatureOk ed raw (.dict kvs) payload = true) : HasSignature kvs := by
  obtain ⟨text, sig, data, htext, hsig, -, hok⟩ := signatureOk_iff.mp h
  have hlen := hed _ _ _ hok
  refine ⟨text, sig, ?_, hsig, hlen⟩
  have hvalue : valueOf kvs "signature" (.str []) = .str text := Except.ok.inj htext
  rw [valueOf] at hvalue
  cases hlookup : kvs.lookup (lit "signature") with
  | none =>
      -- the default decodes to no bytes
      rw [hlookup, Option.getD_none, Val.str.injEq] at hvalue
      rw [← hvalue] at hsig
      rw [← Option.some.inj hsig] at hlen
      cases hlen
  | some v =>
      rw [hlookup, Option.getD_some] at hvalue
      rw [hvalue]

/-- An entry that passes has its leaf hash. -/
theorem leafHash_of_accepted {kvs : Items} {index : Val} {leaf : Bytes}
    (h : Accepted n root (.dict kvs) index leaf) :
    ∃ s b, kvs.lookup (lit "leaf_hash") = some (.str s) ∧ fromhex (afterLast (cp 58) s) = some b ∧
      b.length = 32 := by
  obtain ⟨event, proof, -, -, hleaf, hstored, -, -⟩ := h
  have hlen : leaf.length = 32 := by
    obtain ⟨_, data, -, -, rfl⟩ := leafFromEventDict_eq_ok hleaf
    exact length_leafHash data
  have hshape := returns_storedLeaf.mp ⟨leaf, hstored⟩
  rw [storedLeaf, getD_valueOf] at hstored
  obtain ⟨stored, hvalue, hstored⟩ := bind_eq_ok.mp hstored
  obtain rfl := Except.ok.inj hvalue
  by_cases htruthy : (valueOf kvs "leaf_hash" (.str [])).truthy = true
  · obtain ⟨s, -, hs, -⟩ := hshape htruthy
    rw [if_pos htruthy, hs] at hstored
    refine ⟨s, leaf, ?_, unhex_eq_ok.mp hstored, hlen⟩
    rw [valueOf] at hs htruthy
    cases hlookup : kvs.lookup (lit "leaf_hash") with
    | none =>
        rw [hlookup] at htruthy
        cases htruthy
    | some v => rw [← hs, hlookup, Option.getD_some]
  · rw [if_neg htruthy] at hstored
    rw [← pure_eq_ok.mp hstored] at hlen
    cases hlen

/-- **What the checks leave open**: a report that passes them is well formed exactly where the loose
fields are. -/
theorem wellFormed_iff_loose (hed : ∀ raw sig data, ed raw sig data = true → sig.length = 64)
    {deepPass : Prop} (h : ChecksPass ed pem report trusted deepPass) :
    WellFormed report ↔ LooseFields report := by
  refine ⟨WellFormed.loose, ?_⟩
  rintro ⟨⟨block, hblock, hsignature⟩, ⟨cp, hcp, hcheckpoint⟩, items, hitems, hentries⟩
  obtain ⟨⟨key, -, ⟨hsigned, -⟩, hcpSigned, -⟩, ⟨root, n, -, hcontents⟩, -⟩ := h
  rw [hblock] at hsigned
  rw [hcp] at hcpSigned
  obtain ⟨items', -, hitems', -, hpass, -⟩ := hcontents
  obtain rfl := Except.ok.inj (hitems.symm.trans hitems')
  refine ⟨⟨block, hblock, hsignature, hasSignature_of_ok hed hsigned⟩,
    ⟨cp, hcp, hcheckpoint, hasSignature_of_ok hed hcpSigned⟩, items, hitems, fun item hitem => ?_⟩
  obtain ⟨entry, rfl, hfields⟩ := hentries item hitem
  obtain ⟨⟨index, leaf, haccepted⟩, -⟩ := hpass _ hitem
  exact ⟨entry, rfl, hfields, leafHash_of_accepted haccepted⟩

/-! ## Reports, not crashes -/

/-- `verify_report`, with deep verification on or off. -/
def verifyReportWith (ed : Ed25519) (pem : PemReader) (builtins : Builtins) (reload : Reload)
    (report : Items) (trusted : Option Bytes) (deep : Bool) (crosswalk : Option Crosswalk) :
    Except PyErr VerificationResult :=
  if deep then verifyReportDeep ed pem builtins reload report trusted crosswalk
  else verifyReport ed pem report trusted

/-- The verifier returns on the readable reports, with deep verification on or off. -/
theorem returns_verifyReportWith (hreload : ∀ event dict, reload event = .ok dict → FieldTypes dict)
    (deep : Bool) :
    Returns (verifyReportWith ed pem builtins reload report trusted deep crosswalk) ↔
      Readable pem report trusted (deep = true → DeepReadable builtins reload report crosswalk) := by
  rw [verifyReportWith]
  cases deep with
  | true =>
      refine returns_verifyReport fun root n res hhead => ?_
      rw [returns_deepVerify hreload hhead res]
      exact ⟨fun h _ => h, fun h => h rfl⟩
  | false =>
      refine returns_verifyReport fun root n res _ => ?_
      exact iff_of_true (returns_pure res) fun h => absurd h Bool.false_ne_true

/-- Its result is valid where the checks pass. -/
theorem verifyReportWith_valid_iff {deep : Bool} {res : VerificationResult}
    (h : verifyReportWith ed pem builtins reload report trusted deep crosswalk = .ok res) :
    res.valid = true ↔
      ChecksPass ed pem report trusted
        (deep = true → VerdictsPass builtins reload report crosswalk) := by
  rw [verifyReportWith] at h
  cases deep with
  | true =>
      refine valid_iff_checksPass (fun r r' hr => ?_) h
      rw [deepVerify_valid_iff hr]
      exact and_congr_right fun _ => ⟨fun hpass _ => hpass, fun hpass => hpass rfl⟩
  | false =>
      refine valid_iff_checksPass (fun r r' hr => ?_) h
      rw [pure_eq_ok.mp hr]
      exact (and_iff_left fun hdeep => absurd hdeep Bool.false_ne_true).symm

/-- **On which reports the verifier reports.** It returns a result, one that is not valid where the
report is malformed, exactly where the report is readable (each block that the verifier comes to has
the shape that it opens it by) and, if it passes the checks, the fields that these leave open are well
formed. -/
theorem reports_iff (hed : ∀ raw sig data, ed raw sig data = true → sig.length = 64)
    (hreload : ∀ event dict, reload event = .ok dict → FieldTypes dict) (deep : Bool) :
    (∃ res, verifyReportWith ed pem builtins reload report trusted deep crosswalk = .ok res ∧
      (¬WellFormed report → res.valid = false)) ↔
      Readable pem report trusted (deep = true → DeepReadable builtins reload report crosswalk) ∧
        (ChecksPass ed pem report trusted
          (deep = true → VerdictsPass builtins reload report crosswalk) → LooseFields report) := by
  rw [← @returns_verifyReportWith ed pem builtins reload report trusted crosswalk hreload deep]
  constructor
  · rintro ⟨res, hres, hinvalid⟩
    refine ⟨⟨res, hres⟩, fun hpass => WellFormed.loose ?_⟩
    by_contra hmalformed
    have hvalid := (verifyReportWith_valid_iff hres).mpr hpass
    rw [hinvalid hmalformed] at hvalid
    cases hvalid
  · rintro ⟨⟨res, hres⟩, hloose⟩
    refine ⟨res, hres, fun hmalformed => ?_⟩
    by_contra hvalid
    rw [Bool.not_eq_false, verifyReportWith_valid_iff hres] at hvalid
    exact hmalformed ((wellFormed_iff_loose hed hvalid).mpr (hloose hvalid))

/-! ## A report that passes, and two that do not fail as they should -/

/-- The schema knows the three records of the sample ledger. -/
def threeReload : Reload := fun event =>
  if event ∈ threeRecords then .ok event else .error { kind := .validationError }

/-- Their dumps have the types of the fields. -/
theorem fieldTypes_threeReload (event dict : Val) (h : threeReload event = .ok dict) :
    FieldTypes dict := by
  rw [threeReload] at h
  split at h
  · rename_i hmem
    obtain rfl := Except.ok.inj h
    simp only [threeRecords, List.mem_cons, List.not_mem_nil, or_false] at hmem
    rcases hmem with rfl | rfl | rfl
    · exact ⟨⟨_, rfl⟩, .inl (by decide +kernel), .inr ⟨_, rfl⟩⟩
    · exact ⟨⟨_, rfl⟩, .inl (by decide +kernel), .inr ⟨_, rfl⟩⟩
    · exact ⟨⟨_, rfl⟩, .inr ⟨lit "evt_633a2e8ec3f0058eb33b021876adea35673cf405", by decide +kernel⟩,
        .inr ⟨_, rfl⟩⟩
  · cases h

/-- A producer whose signatures have 64 bytes. -/
theorem length_of_madeBy {publicKeyRaw : Bytes} {made : List (Bytes × Bytes)}
    (hmade : ∀ m ∈ made, m.2.length = 64) (raw sig data : Bytes)
    (h : madeBy publicKeyRaw made raw sig data = true) : sig.length = 64 :=
  hmade _ (of_decide_eq_true h).2

/-- The log of the three. -/
theorem logged_three : Logged threeRecords [sampleLeaf, approvalLeaf, approvedLeaf] := by
  obtain ⟨l₀, hinit, hinv⟩ := @Ledger.init_empty _ inMemoryLedgerBackend [] rfl (lit "openwright") none
  have hdumped := Ledger.dumped_init_empty rfl hinit
  obtain rfl : sampleNew = l₀ := Except.ok.inj hinit
  have hlog := logged_of_inv (hinv.run threeCalls) (hdumped.run _)
  rwa [run_threeCalls, records_threeLedger, reads_threeLedger.2.2.1] at hlog

/-- The root of their tree. -/
theorem treeHash_three : treeHash [sampleLeaf, approvalLeaf, approvedLeaf] = threeRoot := by
  decide +kernel

/-- The head of the three is signed. -/
theorem signedHead_three : SignedHead (madeBy sampleKey sampleMade) sampleKey threeCheckpoint.dump
    (treeHash [sampleLeaf, approvalLeaf, approvedLeaf]) 3 := by
  have htaken := @checkpoint_threeLedger [((signingPayload sampleUnsigned).toOption.getD [],
    sampleReportSig)]
  rw [Ledger.checkpoint, reads_threeLedger.2.2.2.1, ← treeHash_three] at htaken
  exact signedHead_of_signSnapshot (fun _ _ h => madeBy_of_sign h) htaken

/-- Their entries. -/
theorem entries_three : List.Forall₂ (EntryOf threeRecords [sampleLeaf, approvalLeaf, approvedLeaf])
    (List.range 3) threeEntries := by
  have hleaves := reads_threeLedger.2.2.1
  have hread := entries_of_reportEntry
    (fun record hrecord => sampleReload_threeRecords record (records_threeLedger ▸ hrecord))
    (by rw [hleaves]; exact le_refl 3) (eq_ok_of_toOption reads_threeLedger.2.2.2.2)
  rwa [records_threeLedger, hleaves] at hread

/-- The report on the three passes the deep verification. -/
theorem exists_passing : ∃ signature res,
    verifyReportWith (madeBy sampleKey sampleMade) samplePemReader [] threeReload (sampleUnsigned
        ++ [(lit "signature", signatureBlock (madeKey sampleKey sampleMade) signature)])
      (some sampleKey) true (some sampleCrosswalk) = .ok res ∧ res.valid = true := by
  obtain ⟨signature, hassemble⟩ := exists_agentReport encodable_sampleResult.1 encodable_sampleResult.2
    (encodable_sampleHead 3 threeRoot threeHeadSig) encodable_threeEntries select_threeEntries
    (List.mem_cons_of_mem _ List.mem_cons_self : _ ∈ sampleMade)
  have heval := evaluate_threeRecords
  -- the result as a whole, not field by field
  generalize hresult : sampleResult = cr at hassemble heval
  obtain ⟨res, hres, hvalid⟩ := verifyReportDeep_of_assemble logged_three hassemble
    (List.Subset.refl _) signedHead_three entries_three (by decide)
    (fun record hrecord => if_pos hrecord) heval
    (rfl : chooseCrosswalk [] (some sampleCrosswalk) cr.block = .ok (.ok sampleCrosswalk))
    (fun _ _ h => madeBy_of_sign h) samplePemReader_of
  rw [← hresult] at hres
  exact ⟨signature, res, hres, hvalid⟩

/-- The time on the checkpoint. -/
def threeTime : Rfc3339 where
  date := ⟨2026, 1, 1⟩
  hour := 0
  minute := 0
  second := 0
  fraction := []
  lower := false
  zone := .utc false
  date_valid := by decide
  year_range := by decide
  hour_lt := by decide
  minute_lt := by decide
  second_le := by decide
  fraction_digits := fun _ hc => absurd hc List.not_mem_nil

/-- Its fields are all there. -/
theorem looseFields_three (signature : Bytes) : LooseFields (sampleUnsigned
    ++ [(lit "signature", signatureBlock (madeKey sampleKey sampleMade) signature)]) := by
  have hkeyId : keyIdFor sampleKey ≠ [] := by
    rw [keyIdFor]
    exact List.append_ne_nil_of_left_ne_nil (by decide) _
  have hdigest : ∀ b : Bytes, b.length = 32 → HexDigest (.str (hex b)) :=
    fun b hb => ⟨hex b, b, rfl, fromhex_hex b, hb⟩
  have htime : lit "2026-01-01T00:00:00Z" = threeTime.text := by decide +kernel
  refine ⟨⟨_, rfl, rfl, _, rfl, hkeyId⟩, ⟨_, rfl, ⟨_, rfl⟩, ⟨3, rfl⟩, ⟨_, rfl, hdigest threeRoot rfl⟩,
    ⟨threeTime, ?_⟩, _, rfl, hkeyId⟩, threeEntries.map ReportEntry.dump, rfl, fun item hitem => ?_⟩
  · rw [← htime]
    rfl
  · obtain ⟨e, he, rfl⟩ := List.mem_map.mp hitem
    simp only [threeEntries, List.mem_cons, List.not_mem_nil, or_false] at he
    have hentry : ∀ event index (proof : List Bytes), (∀ node ∈ proof, node.length = 32) →
        ∃ entry, (entryAt event index proof).dump = .dict entry ∧ LooseEntry entry := by
      intro event index proof hproof
      refine ⟨_, rfl, ⟨index, rfl⟩, _, rfl, fun node hnode => ?_⟩
      obtain ⟨s, hs, rfl⟩ := List.mem_map.mp hnode
      obtain ⟨b, hb, rfl⟩ := List.mem_map.mp hs
      exact hdigest b (hproof b hb)
    rcases he with rfl | rfl | rfl
    · exact hentry _ _ _ (by decide +kernel)
    · exact hentry _ _ _ (by decide +kernel)
    · exact hentry _ _ _ (by decide +kernel)

/-- The verifier reports on a report of three events that passes its checks, deep ones included; it
finds the report of the three-leaf log valid, where no algorithm and no key id is named. -/
theorem reports_iff_sample :
    (∃ report res, verifyReportWith (madeBy sampleKey sampleMade) samplePemReader [] threeReload report
        (some sampleKey) true (some sampleCrosswalk) = .ok res ∧
      (¬WellFormed report → res.valid = false) ∧ WellFormed report ∧ res.valid = true) ∧
    ¬∃ res, verifyReportWith sampleReportEd25519 (fun _ => .error []) [] threeReload sampleReport
        (some sampleKey) false none = .ok res ∧ (¬WellFormed sampleReport → res.valid = false) := by
  constructor
  · obtain ⟨signature, res, hres, hvalid⟩ := exists_passing
    have hlength : ∀ m ∈ sampleMade, m.2.length = 64 := by
      simp [sampleMade, Checkpoint.signedAs, threeHeadSig, sampleReportSig]
    have hpass := (verifyReportWith_valid_iff hres).mp hvalid
    obtain ⟨res', hres', hinvalid⟩ := (reports_iff (length_of_madeBy hlength) fieldTypes_threeReload
      true).mpr ⟨(returns_verifyReportWith fieldTypes_threeReload true).mp ⟨res, hres⟩,
        fun _ => looseFields_three signature⟩
    obtain rfl := Except.ok.inj (hres.symm.trans hres')
    exact ⟨_, res, hres, hinvalid,
      (wellFormed_iff_loose (length_of_madeBy hlength) hpass).mpr (looseFields_three signature), hvalid⟩
  · intro h
    have hlength : ∀ raw sig data, sampleReportEd25519 raw sig data = true → sig.length = 64 :=
      length_of_madeBy (by simp [sampleSigs])
    obtain ⟨-, hloose⟩ := (reports_iff hlength fieldTypes_threeReload false).mp h
    obtain ⟨res, hres, hvalid⟩ := verifyReport_sampleReport
    have hwith : verifyReportWith sampleReportEd25519 (fun _ => .error []) [] threeReload sampleReport
        (some sampleKey) false none = .ok res := hres
    obtain ⟨⟨block, hblock, halgorithm, -⟩, -⟩ := hloose ((verifyReportWith_valid_iff hwith).mp hvalid)
    obtain rfl := Val.dict.inj (hblock.symm.trans rfl)
    cases halgorithm

/-- A report with a text in the place of its signature block. -/
def textSigned : Items := [(lit "signature", .str (lit "none"))]

/-- **The verifier raises on it.** -/
theorem verifyReportWith_raises : ¬∀ (ed : Ed25519) (pem : PemReader) (builtins : Builtins)
    (reload : Reload) (report : Items) (trusted : Option Bytes) (deep : Bool)
    (crosswalk : Option Crosswalk), (∀ raw sig data, ed raw sig data = true → sig.length = 64) →
      (∀ event dict, reload event = .ok dict → FieldTypes dict) →
      ∃ res, verifyReportWith ed pem builtins reload report trusted deep crosswalk = .ok res ∧
        (¬WellFormed report → res.valid = false) := by
  intro hclaim
  obtain ⟨res, hres, -⟩ := hclaim (Ed25519Pure.verify fun _ => []) (fun _ => .error []) []
    (fun _ => .error { kind := .validationError }) textSigned (some []) true none
    (fun _ _ _ h => Ed25519Pure.length_of_verify h) fun _ _ h => by cases h
  have hraises : verifyReportWith (Ed25519Pure.verify fun _ => []) (fun _ => .error []) []
      (fun _ => .error { kind := .validationError }) textSigned (some []) true none
      = .error { kind := .attributeError } := rfl
  rw [hraises] at hres
  cases hres

end OpenWright.Verify
