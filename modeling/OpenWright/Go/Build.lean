import OpenWright.Go.Interop

/-! # Reports built in Go

The producer of reports in Go, and what the verifier in Python makes of them. A report travels as JSON:
`ReadAs` relates a Python value to a Go value where the first is what Python reads from the text that Go
writes for the second.

* **`canonicalBytes_of_readAs`** — what one language writes and the other one reads is encoded alike.
* **`verifyReport_of_buildReport`** — a report built in Go is found valid in Python precisely where every
  event came with its leaf hash. -/

namespace OpenWright.Go

open Python Python.Val Canonical Signing

/-! ## The producer -/

/-- `ed25519.PrivateKey`. -/
structure PrivateKey where
  publicKeyRaw : Bytes
  sign : Bytes → Bytes

/-- `reportVersion`. -/
def reportVersion : GoString := goLit "1.0.0"

/-- `BoundaryStatement`. -/
def boundaryStatement : GoString :=
  goLit "This report constitutes EVIDENCE that the listed controls were exercised at "
    ++ goLit "runtime, attested with a tamper-evident Merkle log and an Ed25519 signature. "
    ++ goLit "It DOES NOT constitute legal compliance, certification, conformity assessment, "
    ++ goLit "or an audit opinion. Determinations of compliance are reserved for qualified "
    ++ goLit "auditors, notified bodies, and counsel. Crosswalks are maintainer-authored, "
    ++ goLit "rigorously cited, and pending qualified legal/standards review."

/-- `KeyID`. -/
def keyID (publicKeyRaw : Bytes) : GoString :=
  goLit "ed25519:" ++ (hexString (Hash.sha256 publicKeyRaw)).take 32

/-- `stripSha256Prefix`. -/
def stripSha256Prefix (s : GoString) : GoString :=
  if (goLit "sha256:").length < s.length ∧ s.take (goLit "sha256:").length = goLit "sha256:" then
    s.drop (goLit "sha256:").length
  else s

/-- `hexProofList`. -/
def hexProofList (p : List Bytes) : GoVal := .slice (p.map fun h => .string (hexString h))

/-- The inner loop of `sortStrings`, on the sorted part from its end. -/
def sink (b : GoString) : List GoString → List GoString
  | [] => [b]
  | a :: rest => if order a ≤ order b then b :: a :: rest else a :: sink b rest

/-- `sortStrings`. -/
def sortStrings (s : List GoString) : List GoString :=
  (s.foldl (fun sorted b => sink b sorted) []).reverse

/-- `ReportEventInput`. -/
structure ReportEventInput where
  event : Event
  leafHash : GoString

/-- `ReportInputs`. -/
structure ReportInputs where
  origin : GoString
  timestamp : GoString
  reportId : GoString
  generatedAt : GoString
  scopeDesc : GoString
  toolVersion : GoString
  crosswalkId : GoString
  events : List ReportEventInput

/-- The errors of `BuildReport`. -/
inductive BuildErr
  /-- `event ... leaf hash: ...`. -/
  | leafHash (i : Nat) (err : LeafErr)
  /-- `event ... committed leaf_hash mismatch`. -/
  | mismatch (i : Nat)
  | content (err : LeafErr)
  | publicKeyPEM (err : GoString)
  | encode (err : EncodeErr)

/-- The leaf of an event, which has to be the committed one if there is one. -/
def committedLeaf (input : ReportEventInput × Nat) : Except BuildErr Bytes := do
  let lh ← input.1.event.leafHash.mapError (.leafHash input.2)
  if input.1.leafHash ≠ [] ∧ hexString lh ≠ stripSha256Prefix input.1.leafHash then
    .error (.mismatch input.2)
  else .ok lh

/-- The entry of an event, with a proof under the root of all leaves. -/
def reportEntry (leaves : List Bytes) (input : ReportEventInput × Nat) : Except BuildErr GoVal := do
  let content ← input.1.event.leafContent.mapError .content
  return .map [(goLit "event", .map content), (goLit "leaf_index", .int input.2),
    (goLit "leaf_hash", .string input.1.leafHash),
    (goLit "inclusion_proof", hexProofList (inclusionProof leaves input.2))]

/-- The period of the timestamps, in the order of strings. -/
def reportPeriod : List GoString → GoItems
  | [] => []
  | t :: rest =>
    [(goLit "start", .string (rest.foldl (fun min t => if order t < order min then t else min) t)),
      (goLit "end", .string (rest.foldl (fun max t => if order max < order t then t else max) t))]

/-- The checkpoint of a report. -/
def reportCheckpoint (priv : PrivateKey) (input : ReportInputs) (leaves : List Bytes) (cpSig : Bytes) :
    GoItems :=
  [(goLit "origin", .string input.origin), (goLit "tree_size", .int leaves.length),
    (goLit "root_hash", .string (hexString (treeHash leaves))),
    (goLit "timestamp", .string input.timestamp),
    (goLit "public_key_id", .string (keyID priv.publicKeyRaw)),
    (goLit "signature", .string (base64String cpSig))]

/-- A report without its signature. The order in which Go goes over the set of agents does not matter:
they are sorted. -/
def unsignedReport (input : ReportInputs) (checkpoint : GoItems) (entries : List GoVal) (pem : GoString) :
    GoItems :=
  [(goLit "report_version", .string reportVersion), (goLit "report_id", .string input.reportId),
    (goLit "generated_at", .string input.generatedAt),
    (goLit "tool", .map [(goLit "name", .string (goLit "openwright")),
      (goLit "version", .string input.toolVersion)]),
    (goLit "boundary_statement", .string boundaryStatement),
    (goLit "scope", .map [(goLit "description", .string input.scopeDesc), (goLit "agent_ids", .slice
      ((sortStrings (input.events.map (·.event.actor.agentId)).dedup).map .string))]),
    (goLit "period", .map (reportPeriod (input.events.map (·.event.timestamp)))),
    (goLit "crosswalk", .map [(goLit "id", .string input.crosswalkId)]),
    (goLit "summary", .map [(goLit "total", .int 0), (goLit "satisfied", .int 0),
      (goLit "not_satisfied", .int 0), (goLit "insufficient_evidence", .int 0)]),
    (goLit "controls", .slice []), (goLit "evidence_gaps", .slice []),
    (goLit "checkpoint", .map checkpoint),
    (goLit "events", .slice entries), (goLit "public_key_pem", .string pem)]

/-- The signature block of a report. -/
def signatureBlock (priv : PrivateKey) (sig : Bytes) : GoItems :=
  [(goLit "algorithm", .string (goLit "ed25519")),
    (goLit "public_key_id", .string (keyID priv.publicKeyRaw)),
    (goLit "signature", .string (base64String sig))]

/-- `BuildReport`. -/
def buildReport (publicKeyPEM : Bytes → Except GoString GoString) (priv : PrivateKey)
    (input : ReportInputs) :
    Except BuildErr GoItems := do
  let leaves ← input.events.zipIdx.mapM committedLeaf
  let data ← (checkpointSigningBytes input.origin leaves.length (hexString (treeHash leaves))
    input.timestamp).mapError .encode
  let entries ← input.events.zipIdx.mapM (reportEntry leaves)
  let pem ← (publicKeyPEM priv.publicKeyRaw).mapError .publicKeyPEM
  -- the report is signed as it stands, and the signature added afterwards
  let report := unsignedReport input (reportCheckpoint priv input leaves (priv.sign data)) entries pem
  let payload ← (canonicalBytes (.map report)).mapError .encode
  return report ++ [(goLit "signature", .map (signatureBlock priv (priv.sign payload)))]

/-! ## What Python reads -/

mutual
/-- Python reads this value from what Go writes for the other one: integers in decimal, text in UTF-8,
and the entries of a map under keys that are all different, in any order. -/
def ReadAs : Val → GoVal → Prop
  | .null, g => g = .nil
  | .bool b, g => g = .bool b
  | .int z, g => g = .number (ofStr (Json.intText z)) ∨ g = .int z ∨ g = .int64 z
  | .float _, _ => False
  | .str s, g => Scalar s ∧ g = .string (ofStr s)
  | .list vs, g => ∃ gs, g = .slice gs ∧ ReadAsList vs gs
  | .tuple _, _ => False
  | .dict kvs, g => (kvs.map Prod.fst).Nodup ∧ ∃ gs gs', g = .map gs ∧ gs'.Perm gs ∧ ReadAsItems kvs gs'

/-- `ReadAs`, elementwise. -/
def ReadAsList : List Val → List GoVal → Prop
  | [], gs => gs = []
  | v :: vs, gs => ∃ g rest, gs = g :: rest ∧ ReadAs v g ∧ ReadAsList vs rest

/-- `ReadAs`, itemwise. -/
def ReadAsItems : Items → GoItems → Prop
  | [], gs => gs = []
  | (k, v) :: kvs, gs => ∃ g rest, gs = (ofStr k, g) :: rest ∧ Scalar k ∧ ReadAs v g ∧
      ReadAsItems kvs rest
end

section Reading

variable {v : Val} {g : GoVal} {vs : List Val} {gs : List GoVal} {kvs : Items} {m m' : GoItems}

/-- What is read as text. -/
theorem ReadAs.string {s : GoString} (h : ReadAs v (.string s)) :
    ∃ t, v = .str t ∧ Scalar t ∧ s = ofStr t := by
  cases v with
  | str t =>
      rw [ReadAs, GoVal.string.injEq] at h
      exact ⟨t, rfl, h⟩
  | _ => simp [ReadAs] at h

/-- What is read as an integer. -/
theorem ReadAs.int {z : Int} (h : ReadAs v (.int z)) : v = .int z := by
  cases v with
  | int z' => simpa [ReadAs, eq_comm] using h
  | _ => simp [ReadAs] at h

/-- What is read as a list. -/
theorem ReadAs.slice (h : ReadAs v (.slice gs)) : ∃ vs, v = .list vs ∧ ReadAsList vs gs := by
  cases v with
  | list vs =>
      rw [ReadAs] at h
      obtain ⟨gs', hgs, h⟩ := h
      exact ⟨vs, rfl, GoVal.slice.inj hgs ▸ h⟩
  | _ => simp [ReadAs] at h

/-- What is read as a dictionary. -/
theorem ReadAs.map (h : ReadAs v (.map m)) : ∃ kvs, v = .dict kvs := by
  cases v with
  | dict kvs => exact ⟨kvs, rfl⟩
  | _ => simp [ReadAs] at h

/-- A map is read as a dictionary, in any order. -/
theorem readAs_dict : ReadAs (.dict kvs) (.map m) ↔
    (kvs.map Prod.fst).Nodup ∧ ∃ m' : GoItems, m'.Perm m ∧ ReadAsItems kvs m' := by
  simp [ReadAs]

/-- A slice is read element by element. -/
theorem readAsList_iff : ReadAsList vs gs ↔ List.Forall₂ ReadAs vs gs := by
  induction vs generalizing gs with
  | nil => rw [ReadAsList, List.forall₂_nil_left_iff]
  | cons v vs ih =>
      rw [ReadAsList, List.forall₂_cons_left_iff]
      simp only [ih]
      constructor
      · rintro ⟨g, rest, rfl, hg, hrest⟩
        exact ⟨g, rest, hg, hrest, rfl⟩
      · rintro ⟨g, rest, hg, hrest, rfl⟩
        exact ⟨g, rest, rfl, hg, hrest⟩

/-- The keys are those of the dictionary. -/
theorem ReadAsItems.keys (h : ReadAsItems kvs m) : m.map Prod.fst = kvs.map fun kv => ofStr kv.1 := by
  induction kvs generalizing m with
  | nil =>
      rw [ReadAsItems] at h
      rw [h]
      rfl
  | cons kv kvs ih =>
      obtain ⟨g, rest, rfl, -, -, hrest⟩ := h
      rw [List.map_cons, ih hrest, List.map_cons]

/-- The keys are text in UTF-8. -/
theorem ReadAsItems.scalarKeys (h : ReadAsItems kvs m) : ScalarKeys kvs := by
  induction kvs generalizing m with
  | nil => exact fun kv hkv => absurd hkv List.not_mem_nil
  | cons kv kvs ih =>
      obtain ⟨g, rest, rfl, hk, -, hrest⟩ := h
      exact List.forall_mem_cons.mpr ⟨hk, ih hrest⟩

/-- The keys are all different. -/
theorem ReadAsItems.nodup (h : ReadAsItems kvs m) (hkeys : (kvs.map Prod.fst).Nodup) :
    (m.map Prod.fst).Nodup := by
  rw [h.keys]
  refine List.Nodup.map_on (fun a ha b hb hab => ?_) hkeys.of_map
  exact List.inj_on_of_nodup_map hkeys ha hb (ofStr_injective (h.scalarKeys a ha) (h.scalarKeys b hb) hab)

/-- A key is bound to what is read as its value, or to nothing. -/
theorem ReadAsItems.lookup (h : ReadAsItems kvs m) {k : Str} (hk : Scalar k) :
    Option.Rel ReadAs (kvs.lookup k) (m.lookup (ofStr k)) := by
  induction kvs generalizing m with
  | nil =>
      rw [ReadAsItems] at h
      rw [h]
      exact .none
  | cons kv kvs ih =>
      obtain ⟨g, rest, rfl, hkey, hg, hrest⟩ := h
      rw [List.lookup_cons, List.lookup_cons]
      by_cases hkv : k = kv.1
      · rw [hkv, beq_self_eq_true, beq_self_eq_true]
        exact .some hg
      · rw [beq_false_of_ne hkv, beq_false_of_ne fun heq => hkv (ofStr_injective hk hkey heq)]
        exact ih hrest

/-- The order of the entries does not matter for a key. -/
theorem lookup_perm (hkeys : (m.map Prod.fst).Nodup) (h : m.Perm m') (k : GoString) :
    m.lookup k = m'.lookup k := by
  refine Option.ext fun w => ?_
  rw [lookup_eq_some_iff hkeys, lookup_eq_some_iff ((h.map Prod.fst).nodup_iff.mp hkeys), h.mem_iff]

/-- A key of the map is a key of the dictionary. -/
theorem ReadAs.item (h : ReadAs v (.map m)) (k : String) (hm : m.lookup (goLit k) = some g) :
    ∃ u, v.item? (lit k) = some u ∧ ReadAs u g := by
  obtain ⟨kvs, rfl⟩ := h.map
  obtain ⟨hkeys, m', hperm, hitems⟩ := readAs_dict.mp h
  have hrel := hitems.lookup (scalar_lit k)
  rw [lookup_perm (hitems.nodup hkeys) hperm, show ofStr (lit k) = goLit k from rfl, hm] at hrel
  rw [item?]
  cases hlookup : kvs.lookup (lit k) with
  | none =>
      rw [hlookup] at hrel
      cases hrel
  | some u =>
      rw [hlookup] at hrel
      cases hrel with
      | some hu => exact ⟨u, rfl, hu⟩

mutual
/-- What Python reads can be encoded. -/
theorem ReadAs.encodable : ∀ {v : Val} {g : GoVal}, ReadAs v g → Encodable v
  | .null, _, _ | .bool _, _, _ | .int _, _, _ => by simp [Canonical.Encodable]
  | .float _, _, h => absurd h (by simp [ReadAs])
  | .tuple _, _, h => absurd h (by simp [ReadAs])
  | .str _, _, h => by
      rw [ReadAs] at h
      exact h.1
  | .list vs, _, h => by
      rw [ReadAs] at h
      obtain ⟨gs, -, hgs⟩ := h
      exact ReadAsList.encodable hgs
  | .dict kvs, _, h => by
      rw [ReadAs] at h
      obtain ⟨-, _, m, -, -, hm⟩ := h
      exact ReadAsItems.encodable hm

/-- The same of slices. -/
theorem ReadAsList.encodable : ∀ {vs : List Val} {gs : List GoVal}, ReadAsList vs gs → EncodableList vs
  | [], _, _ => trivial
  | v :: vs, _, h => by
      obtain ⟨g, rest, -, hg, hrest⟩ := h
      exact ⟨hg.encodable, ReadAsList.encodable hrest⟩

/-- The same of maps. -/
theorem ReadAsItems.encodable : ∀ {kvs : Items} {m : GoItems}, ReadAsItems kvs m → EncodableItems kvs
  | [], _, _ => trivial
  | (k, v) :: kvs, _, h => by
      obtain ⟨g, rest, -, hk, hg, hrest⟩ := h
      exact ⟨hk, hg.encodable, ReadAsItems.encodable hrest⟩
end

/-- Only nil is read as `None`. -/
theorem ReadAs.eq_nil_iff (h : ReadAs v g) : g = .nil ↔ goVal v = .nil := by
  cases v with
  | float x => simp [ReadAs] at h
  | tuple vs => simp [ReadAs] at h
  | null | bool b =>
      rw [ReadAs] at h
      rw [h, goVal]
  | int z =>
      rw [ReadAs] at h
      rcases h with rfl | rfl | rfl <;> simp [goVal]
  | str s =>
      rw [ReadAs] at h
      rw [h.2, goVal]
  | list vs =>
      rw [ReadAs] at h
      obtain ⟨gs, rfl, -⟩ := h
      simp [goVal]
  | dict kvs =>
      rw [ReadAs] at h
      obtain ⟨-, gs, -, rfl, -⟩ := h
      simp [goVal]

mutual
/-- **The encoder in Go writes the same** for a value and for what Python reads as it. -/
theorem ReadAs.encode_eq : ∀ {v : Val} {g : GoVal}, ReadAs v g → encode g = encode (goVal v)
  | .null, _, h | .bool _, _, h => by
      rw [ReadAs] at h
      rw [h, goVal]
  | .int z, _, h => by
      rw [ReadAs] at h
      -- an integer of Go may be of three types, which are written alike
      rcases h with rfl | rfl | rfl
      · rfl
      · rw [goVal, encode, encode, spelledFloat_intText]
        rfl
      · rw [goVal, encode, encode, spelledFloat_intText]
        rfl
  | .float _, _, h => absurd h (by simp [ReadAs])
  | .tuple _, _, h => absurd h (by simp [ReadAs])
  | .str _, _, h => by
      rw [ReadAs] at h
      rw [h.2, goVal]
  | .list vs, _, h => by
      rw [ReadAs] at h
      obtain ⟨gs, rfl, hgs⟩ := h
      rw [goVal, encode, encode, ReadAsList.encode_eq hgs]
  | .dict kvs, _, h => by
      rw [ReadAs] at h
      obtain ⟨hkeys, gs, m, rfl, hperm, hm⟩ := h
      have hnodup := hm.nodup hkeys
      -- a map of Go has no order, and is written by its keys
      have hsame : SameMap gs m := fun k => by rw [lookup_perm hnodup hperm k]
      rw [encode_map_congr ((hperm.map Prod.fst).nodup_iff.mp hnodup) hnodup hsame, goVal, encode, encode,
        ReadAsItems.encode_eq hm]

/-- The same of slices. -/
theorem ReadAsList.encode_eq : ∀ {vs : List Val} {gs : List GoVal}, ReadAsList vs gs →
    encodeSlice gs = encodeSlice (goVals vs)
  | [], _, h => by
      rw [ReadAsList] at h
      rw [h, goVals]
  | v :: vs, _, h => by
      obtain ⟨g, rest, rfl, hg, hrest⟩ := h
      rw [goVals, encodeSlice, encodeSlice, hg.encode_eq, ReadAsList.encode_eq hrest]

/-- The same of maps. -/
theorem ReadAsItems.encode_eq : ∀ {kvs : Items} {m : GoItems}, ReadAsItems kvs m →
    encodeEntries m = encodeEntries (goItems kvs)
  | [], _, h => by
      rw [ReadAsItems] at h
      rw [h, goItems]
  | (k, v) :: kvs, _, h => by
      obtain ⟨g, rest, rfl, hk, hg, hrest⟩ := h
      have hwritten : written g = written (goVal v) := by
        by_cases hnil : g = .nil
        · rw [hnil, hg.eq_nil_iff.mp hnil]
        · rw [written_of_ne hnil, written_of_ne fun h => hnil (hg.eq_nil_iff.mpr h), hg.encode_eq]
      have hrest' := ReadAsItems.encode_eq hrest
      rw [encodeEntries_eq, encodeEntries_eq] at hrest' ⊢
      rw [goItems, List.filterMap_cons, List.filterMap_cons, hrest', hwritten]
end

/-- **Both languages encode a document alike**, the one that writes it and the one that reads it. -/
theorem canonicalBytes_of_readAs (h : ReadAs v g) :
    ∃ b, Canonical.canonicalBytes v = .ok b ∧ canonicalBytes g = .ok b := by
  obtain ⟨b, hb⟩ := exists_canonicalBytes h.encodable
  exact ⟨b, hb, h.encode_eq.trans (encode_of_canonicalBytes h.encodable hb)⟩

/-- Both drop a key. -/
theorem ReadAsItems.filter (h : ReadAsItems kvs m) {k : Str} (hk : Scalar k) :
    ReadAsItems (kvs.filter fun kv => kv.1 ≠ k) (m.filter fun kv => kv.1 ≠ ofStr k) := by
  induction kvs generalizing m with
  | nil =>
      rw [ReadAsItems] at h
      rw [h]
      rfl
  | cons kv kvs ih =>
      obtain ⟨g, rest, rfl, hkey, hg, hrest⟩ := h
      by_cases hkv : kv.1 = k
      · rw [List.filter_cons_of_neg (by simp [hkv]), List.filter_cons_of_neg (by simp [hkv])]
        exact ih hrest
      · have hne : ofStr kv.1 ≠ ofStr k := fun heq => hkv (ofStr_injective hkey hk heq)
        rw [List.filter_cons_of_pos (by simp [hkv]), List.filter_cons_of_pos (by simp [hne])]
        exact ⟨g, _, rfl, hkey, hg, ih hrest⟩

/-- A map without a key is read as the dictionary without it. -/
theorem ReadAs.filter (h : ReadAs (.dict kvs) (.map m)) {k : Str} (hk : Scalar k) :
    ReadAs (.dict (kvs.filter fun kv => kv.1 ≠ k)) (.map (m.filter fun kv => kv.1 ≠ ofStr k)) := by
  obtain ⟨hkeys, m', hperm, hitems⟩ := readAs_dict.mp h
  exact readAs_dict.mpr ⟨hkeys.sublist (List.filter_sublist.map _), _, hperm.filter _, hitems.filter hk⟩

end Reading

/-! ## The parts of a report -/

section Parts

variable {leaves : List Bytes} {input : ReportEventInput} {i : Nat} {leaf : Bytes}

/-- Hexadecimal text is ASCII. -/
theorem ascii_hex (b : Bytes) : ∀ c ∈ hex b, c.val < 128 := by
  have hdigit : ∀ n < 16, (hexDigit n).val < 128 := by decide
  induction b with
  | nil => exact fun c hc => absurd hc List.not_mem_nil
  | cons a b ih =>
      have ha := a.toNat_lt
      rw [hex, List.forall_mem_cons, List.forall_mem_cons]
      exact ⟨hdigit _ (by omega), hdigit _ (by omega), ih⟩

/-- Hexadecimal text has no prefix to be stripped. -/
theorem stripSha256Prefix_hexString (b : Bytes) : stripSha256Prefix (hexString b) = hexString b := by
  rw [stripSha256Prefix, if_neg]
  rintro ⟨-, htake⟩
  have hcolon : (58 : UInt8) ∈ hexString b := by
    have hmem : (58 : UInt8) ∈ goLit "sha256:" := by decide
    rw [← htake] at hmem
    exact List.mem_of_mem_take hmem
  rw [hexString, ofStr_ascii (ascii_hex b)] at hcolon
  obtain ⟨c, hc, hbyte⟩ := List.mem_map.mp hcolon
  have hascii := ascii_hex b c hc
  have hval : c.val = 58 := by
    rw [← UInt8.toNat_inj, UInt8.toNat_ofNat_of_lt' (show c.val < 256 by omega)] at hbyte
    exact hbyte
  obtain rfl : c = cp 58 := Fin.ext hval
  exact not_mem_hex b hc

/-- Both languages name a key alike. -/
theorem keyID_eq (raw : Bytes) : Scalar (keyIdFor raw) ∧ keyID raw = ofStr (keyIdFor raw) := by
  have htake : ∀ c ∈ (sha256Hex raw).take 32, c.val < 128 :=
    fun c hc => ascii_hex _ c (List.mem_of_mem_take hc)
  have hscalar := scalar_of_ascii htake
  refine ⟨scalar_append.mpr ⟨scalar_lit _, hscalar⟩, ?_⟩
  rw [keyID, keyIdFor, ofStr_append (scalar_lit _) hscalar, ofStr_ascii htake, hexString,
    ofStr_ascii (ascii_hex _), List.map_take]
  rfl

/-- Setting one key leaves the others. -/
theorem lookup_assign_ne {β : Type} {k l : GoString} (h : k ≠ l) (w : β) (m : List (GoString × β)) :
    (assign m l w).lookup k = m.lookup k := by
  induction m with
  | nil => rw [assign, List.lookup_cons, beq_false_of_ne h]
  | cons kv m ih =>
      obtain ⟨j, u⟩ := kv
      rw [assign]
      split
      · rename_i hjl
        rw [List.lookup_cons, List.lookup_cons, hjl, beq_false_of_ne h]
      · rw [List.lookup_cons, List.lookup_cons, ih]

/-- **The leaf content has the fields of the event** where no extra field is one of them. -/
theorem lookup_leafContent {e : Event} {content : GoItems} (h : e.leafContent = .ok content)
    {k : GoString} (hk : ∀ kv ∈ e.extra, kv.1 ≠ k) : content.lookup k = e.fieldEntries.lookup k := by
  rw [Event.leafContent] at h
  generalize e.fieldEntries = fields at h ⊢
  generalize e.extra = extra at h hk
  induction extra generalizing fields with
  | nil =>
      rw [List.foldlM_nil, pure_eq_ok] at h
      rw [h]
  | cons kv extra ih =>
      rw [List.foldlM_cons] at h
      obtain ⟨mid, hmid, h⟩ := bind_eq_ok.mp h
      rw [List.forall_mem_cons] at hk
      rw [ih _ h hk.2]
      rw [putExtra] at hmid
      split at hmid
      · rw [← Except.ok.inj hmid, lookup_assign_ne hk.1.symm]
      · cases hmid

/-- The extra fields of an event that was read are none of its fields. -/
theorem not_mem_eventKnownKeys {data : GoVal} {e : Event} (h : Event.unmarshalJson data = .ok e)
    {kv : GoString × RawMessage} (hkv : kv ∈ e.extra) : kv.1 ∉ eventKnownKeys := by
  rw [Event.unmarshalJson] at h
  obtain ⟨e₀, -, h⟩ := bind_eq_ok.mp h
  obtain ⟨raw, -, h⟩ := bind_eq_ok.mp h
  rw [← pure_eq_ok.mp h] at hkv
  exact of_decide_eq_true (List.mem_filter.mp hkv).2

/-- **Python hashes an event as Go did.** -/
theorem leafFromEventDict_of_readAs {e : Event} {content : GoItems} {v : Val}
    (hleaf : e.leafHash = .ok leaf)
    (hcontent : e.leafContent = .ok content) (hextra : ∀ kv ∈ e.extra, kv.1 ∉ eventKnownKeys)
    (h : ReadAs v (.map content)) : leafFromEventDict v = .ok leaf := by
  obtain ⟨kvs, rfl⟩ := h.map
  -- the content has no ledger fields
  have hknown : goLit "ledger" ∈ eventKnownKeys := mem_eventKnownKeys.mpr (Or.inr rfl)
  have hnone : content.lookup (goLit "ledger") = none := by
    rw [lookup_leafContent hcontent fun kv hkv heq => hextra kv hkv (heq ▸ hknown), e.fieldEntries_eq]
    exact lookup_entries_of_ne ledger_not_mem_leafFields e
  have hledger : ∀ kv ∈ kvs, kv.1 ≠ lit "ledger" := by
    intro kv hkv heq
    obtain ⟨-, m, hperm, hitems⟩ := readAs_dict.mp h
    have hmem : ofStr kv.1 ∈ content.map Prod.fst := by
      rw [← (hperm.map Prod.fst).mem_iff, hitems.keys]
      exact List.mem_map.mpr ⟨kv, hkv, rfl⟩
    obtain ⟨kg, hkg, hkey⟩ := List.mem_map.mp hmem
    have hne := List.lookup_eq_none_iff.mp hnone kg hkg
    rw [hkey, heq] at hne
    simp [goLit] at hne
  obtain ⟨data, hdata, rfl⟩ := leafHash_eq_ok.mp hleaf
  rw [Event.canonicalBytes, hcontent] at hdata
  have hbytes : canonicalBytes (.map content) = .ok data := mapError_eq_ok.mp hdata
  obtain ⟨b, hb, hb'⟩ := canonicalBytes_of_readAs h
  obtain rfl : data = b := Except.ok.inj (hbytes.symm.trans hb')
  rw [leafFromEventDict, OpenWright.withoutLedger_of_ne hledger]
  exact bind_eq_ok.mpr ⟨data, hb, rfl⟩

/-- The leaf that the ledger has committed is taken. -/
theorem committedLeaf_of_hexString (hleaf : input.event.leafHash = .ok leaf)
    (hhash : input.leafHash = hexString leaf) : committedLeaf (input, i) = .ok leaf := by
  rw [committedLeaf]
  refine bind_eq_ok.mpr ⟨leaf, mapError_eq_ok.mpr hleaf, ?_⟩
  rw [if_neg]
  rintro ⟨-, hne⟩
  exact hne (by rw [hhash, stripSha256Prefix_hexString])

/-- Without a separator the text is all there is. -/
theorem afterLast_of_not_mem {sep : CodePoint} {t : Str} (ht : sep ∉ t) : afterLast sep t = t := by
  have hall : ∀ c ∈ t.reverse, decide (c ≠ sep) = true := by
    intro c hc
    rw [decide_eq_true_eq]
    rintro rfl
    exact ht (List.mem_reverse.mp hc)
  rw [afterLast, List.takeWhile_eq_self_iff.mpr hall, List.reverse_reverse]

/-- Python reads the leaf hash that Go has checked. -/
theorem storedLeaf_of_readAs {item : Val} {m : GoItems} (hleaf : committedLeaf (input, i) = .ok leaf)
    (hhash : input.leafHash ≠ []) (hm : m.lookup (goLit "leaf_hash") = some (.string input.leafHash))
    (h : ReadAs item (.map m)) : Verify.storedLeaf item = .ok leaf := by
  obtain ⟨u, hu, hread⟩ := h.item _ hm
  obtain ⟨t, rfl, ht, hs⟩ := hread.string
  -- the text is the digest, with or without the prefix
  have hdigest : hexString leaf = stripSha256Prefix input.leafHash := by
    rw [committedLeaf] at hleaf
    obtain ⟨lh, -, hleaf⟩ := bind_eq_ok.mp hleaf
    split at hleaf
    · cases hleaf
    · rename_i hsame
      rw [Except.ok.injEq] at hleaf
      by_contra hne
      exact hsame ⟨hhash, hleaf ▸ hne⟩
  have hlast : afterLast (cp 58) t = hex leaf := by
    rw [stripSha256Prefix] at hdigest
    split at hdigest
    · rename_i hprefix
      have hsplit : ofStr (lit "sha256:" ++ hex leaf) = ofStr t := by
        have hlit : ofStr (lit "sha256:") = goLit "sha256:" := rfl
        have hhex : ofStr (hex leaf) = hexString leaf := rfl
        rw [ofStr_append (scalar_lit _) (scalar_hex _), hlit, hhex, hdigest, ← hs]
        nth_rewrite 1 [← hprefix.2]
        exact List.take_append_drop _ _
      rw [← ofStr_injective (scalar_append.mpr ⟨scalar_lit _, scalar_hex _⟩) ht hsplit]
      exact afterLast_append (lit "sha256") (not_mem_hex leaf)
    · rw [← ofStr_injective (scalar_hex leaf) ht (hdigest.trans hs)]
      exact afterLast_of_not_mem (not_mem_hex leaf)
  have htruthy : (Val.str t).truthy = true := by
    cases t with
    | nil => exact absurd hs hhash
    | cons c t => rfl
  rw [Verify.storedLeaf, getD_eq_ok hu]
  refine bind_eq_ok.mpr ⟨_, rfl, ?_⟩
  rw [if_pos htruthy]
  dsimp only
  rw [hlast]
  exact unhex_eq_ok.mpr (fromhex_hex leaf)

/-- Python reads the proof that Go has made. -/
theorem proofNodes_of_readAs {item : Val} {m : GoItems} {P : List Bytes}
    (hm : m.lookup (goLit "inclusion_proof") = some (hexProofList P)) (h : ReadAs item (.map m)) :
    Verify.proofNodes item = .ok P := by
  obtain ⟨u, hu, hread⟩ := h.item _ hm
  obtain ⟨vs, rfl, hvs⟩ := hread.slice
  have hnodes : vs = (P.map hex).map .str := by
    rw [readAsList_iff, List.forall₂_map_right_iff] at hvs
    rw [List.map_map, ← List.forall₂_eq_eq_eq, List.forall₂_map_right_iff]
    refine hvs.imp fun v b hv => ?_
    obtain ⟨t, rfl, ht, hs⟩ := hv.string
    exact congrArg Val.str (ofStr_injective (scalar_hex b) ht hs).symm
  rw [Verify.proofNodes, getD_eq_ok hu]
  refine bind_eq_ok.mpr ⟨_, rfl, bind_eq_ok.mpr ⟨_, rfl, ?_⟩⟩
  rw [hnodes]
  exact mapM_unhexVal P

/-- **An entry of a report built in Go is genuine** in Python. -/
theorem genuineEntry_of_readAs {entry : GoVal} {item : Val} (hget : leaves[i]? = some leaf)
    (hleaf : committedLeaf (input, i) = .ok leaf) (hentry : reportEntry leaves (input, i) = .ok entry)
    (hhash : input.leafHash ≠ []) (hextra : ∀ kv ∈ input.event.extra, kv.1 ∉ eventKnownKeys)
    (h : ReadAs item entry) :
    Verify.GenuineEntry leaves.length (Merkle.treeHash leaves) i leaf item := by
  rw [reportEntry] at hentry
  obtain ⟨content, hcontent, hentry⟩ := bind_eq_ok.mp hentry
  replace hcontent : input.event.leafContent = .ok content := mapError_eq_ok.mp hcontent
  rw [← pure_eq_ok.mp hentry] at h
  have hlt : i < leaves.length := (List.getElem?_eq_some_iff.mp hget).1
  -- the event, its id and its leaf
  obtain ⟨v, hv, hread⟩ := h.item "event" rfl
  obtain ⟨kvs, rfl⟩ := hread.map
  have hid : content.lookup (goLit "event_id") = some (.string input.event.eventId) := by
    have hknown : goLit "event_id" ∈ eventKnownKeys := by decide
    rw [lookup_leafContent hcontent fun kv hkv heq => hextra kv hkv (heq ▸ hknown)]
    rfl
  obtain ⟨id, hid, hidRead⟩ := hread.item _ hid
  obtain ⟨t, rfl, -, -⟩ := hidRead.string
  have htruthy : (Val.dict kvs).truthy = true := by
    cases kvs with
    | nil => cases hid
    | cons kv kvs => rfl
  have hevent : Verify.entryEvent item = .ok (.dict kvs) := by
    rw [Verify.entryEvent, getD_eq_ok hv]
    exact bind_eq_ok.mpr ⟨_, rfl, by rw [orElse, if_pos htruthy]; rfl⟩
  have heventLeaf : input.event.leafHash = .ok leaf := by
    rw [committedLeaf] at hleaf
    obtain ⟨lh, hlh, hleaf⟩ := bind_eq_ok.mp hleaf
    split at hleaf
    · cases hleaf
    · rw [← Except.ok.inj hleaf]
      exact mapError_eq_ok.mp hlh
  -- the index and the proof
  obtain ⟨index, hindex, hindexRead⟩ := h.item "leaf_index" rfl
  obtain rfl := hindexRead.int
  obtain ⟨P, leaf', hP, hleaf', hverify⟩ := @LedgerThreads.inclusionProofHexOf_take leaves leaves.length
    le_rfl i (Int.natCast_nonneg i) (by omega)
  rw [Int.toNat_natCast, hget, Option.some.injEq] at hleaf'
  rw [List.take_length] at hP hverify
  obtain rfl : P = inclusionProof leaves i := by
    have hinj : Function.Injective hex := fun a b hab => by
      rw [← Option.some_inj, ← fromhex_hex a, hab, fromhex_hex]
    rw [Ledger.inclusionProofHexOf, inclusionProof_eq leaves ⟨Int.natCast_nonneg i, by omega⟩] at hP
    exact (List.map_injective_iff.mpr hinj (Except.ok.inj hP)).symm
  refine ⟨⟨_, inclusionProof leaves i, hevent, getD_eq_ok hindex _,
    leafFromEventDict_of_readAs heventLeaf hcontent hextra hread, storedLeaf_of_readAs hleaf hhash rfl h,
    proofNodes_of_readAs rfl h, ?_⟩, .str t, ?_, rfl⟩
  · rw [← hleaf'] at hverify
    exact congrArg Except.ok hverify
  · rw [Verify.entryId, hevent]
    exact bind_eq_ok.mpr ⟨_, rfl, getD_eq_ok hid _⟩

/-- Text of a block of a report. -/
theorem ReadAs.item_str {v : Val} {m : GoItems} {s : Str} (h : ReadAs v (.map m)) (k : String)
    (hs : Scalar s) (hm : m.lookup (goLit k) = some (.string (ofStr s))) :
    v.item? (lit k) = some (.str s) := by
  obtain ⟨u, hu, hread⟩ := h.item _ hm
  obtain ⟨t, rfl, ht, heq⟩ := hread.string
  rw [hu, ofStr_injective hs ht heq]

end Parts

/-! ## The report -/

section Reports

variable {publicKeyPEM : Bytes → Except GoString GoString} {priv : PrivateKey} {input : ReportInputs}
  {report : GoItems}

/-- **A report that is built**: its parts, and what is signed. -/
theorem buildReport_eq_ok : buildReport publicKeyPEM priv input = .ok report ↔
    ∃ leaves data entries pem payload,
      List.Forall₂ (fun e leaf => committedLeaf e = .ok leaf) input.events.zipIdx leaves ∧
      checkpointSigningBytes input.origin leaves.length (hexString (treeHash leaves)) input.timestamp
        = .ok data ∧
      List.Forall₂ (fun e entry => reportEntry leaves e = .ok entry) input.events.zipIdx entries ∧
      publicKeyPEM priv.publicKeyRaw = .ok pem ∧
      canonicalBytes (.map (unsignedReport input (reportCheckpoint priv input leaves (priv.sign data))
        entries pem)) = .ok payload ∧
      report = unsignedReport input (reportCheckpoint priv input leaves (priv.sign data)) entries pem
        ++ [(goLit "signature", .map (signatureBlock priv (priv.sign payload)))] := by
  rw [buildReport]
  simp only [bind_eq_ok, mapM_eq_ok, mapError_eq_ok, pure_eq_ok]
  constructor
  · rintro ⟨leaves, hleaves, data, hdata, entries, hentries, pem, hpem, payload, hpayload, rfl⟩
    exact ⟨leaves, data, entries, pem, payload, hleaves, hdata, hentries, hpem, hpayload, rfl⟩
  · rintro ⟨leaves, data, entries, pem, payload, hleaves, hdata, hentries, hpem, hpayload, rfl⟩
    exact ⟨leaves, hleaves, data, hdata, entries, hentries, pem, hpem, payload, hpayload, rfl⟩

/-- The messages that are signed for a report: what its checkpoint states, and the report without its
signature. -/
def SignedFor (report : GoItems) (data : Bytes) : Prop :=
  (∃ cp, valueAt report "checkpoint" = .map cp ∧
    checkpointSigningBytes (valueAt cp "origin").text (toInt (valueAt cp "tree_size"))
      (valueAt cp "root_hash").text (valueAt cp "timestamp").text = .ok data) ∨
  canonicalBytes (.map (report.filter fun kv => kv.1 ≠ goLit "signature")) = .ok data

/-- The block of a signature is signed. -/
theorem signedBlock_of_readAs {ed : Ed25519} {block : Val} {m : GoItems} {data : Bytes}
    {payload : Except PyErr Bytes} (hed : ed priv.publicKeyRaw (priv.sign data) data = true)
    (h : ReadAs block (.map m))
    (hkey : m.lookup (goLit "public_key_id") = some (.string (keyID priv.publicKeyRaw)))
    (hsig : m.lookup (goLit "signature") = some (.string (base64String (priv.sign data))))
    (hpayload : payload = .ok data) : Verify.SignedBlock ed priv.publicKeyRaw block payload := by
  obtain ⟨hscalar, hid⟩ := keyID_eq priv.publicKeyRaw
  exact Verify.signedBlock_of (h.item_str _ (scalar_b64encode _) hsig)
    (h.item_str _ hscalar (hid ▸ hkey)) hpayload hed

/-- **The head of a report built in Go is signed** in Python. -/
theorem signedHead_of_readAs {ed : Ed25519} {leaves : List Bytes} {data : Bytes}
    (hed : ed priv.publicKeyRaw (priv.sign data) data = true)
    (hdata : checkpointSigningBytes input.origin leaves.length (hexString (treeHash leaves))
      input.timestamp = .ok data) {cp : Val}
    (h : ReadAs cp (.map (reportCheckpoint priv input leaves (priv.sign data)))) :
    Verify.SignedHead ed priv.publicKeyRaw cp (Merkle.treeHash leaves) leaves.length := by
  obtain ⟨origin, horigin, horiginRead⟩ := h.item "origin" rfl
  obtain ⟨timestamp, htimestamp, htimestampRead⟩ := h.item "timestamp" rfl
  obtain ⟨treeSize, htreeSize, htreeSizeRead⟩ := h.item "tree_size" rfl
  obtain rfl := htreeSizeRead.int
  have hroot : cp.item? (lit "root_hash") = some (.str (hex (treeHash leaves))) :=
    h.item_str _ (scalar_hex _) rfl
  -- both sign the same four fields
  have hsigned : ReadAs (.dict [(lit "origin", origin), (lit "root_hash", .str (hex (treeHash leaves))),
      (lit "timestamp", timestamp), (lit "tree_size", .int leaves.length)])
      (.map [(goLit "origin", .string input.origin),
        (goLit "root_hash", .string (hexString (treeHash leaves))),
        (goLit "timestamp", .string input.timestamp), (goLit "tree_size", .int leaves.length)]) := by
    have hkeys : [lit "origin", lit "root_hash", lit "timestamp", lit "tree_size"].Nodup := by decide
    refine readAs_dict.mpr ⟨hkeys, _, .refl _, ?_⟩
    exact ⟨_, _, rfl, scalar_lit _, horiginRead, _, _, rfl, scalar_lit _, ⟨scalar_hex _, rfl⟩, _, _, rfl,
      scalar_lit _, htimestampRead, _, _, rfl, scalar_lit _, htreeSizeRead, rfl⟩
  obtain ⟨b, hb, hb'⟩ := canonicalBytes_of_readAs hsigned
  obtain rfl : data = b := Except.ok.inj (hdata.symm.trans hb')
  have hpayload : Verify.checkpointPayload cp = .ok data := by
    rw [Verify.checkpointPayload, Verify.getItem_eq_ok horigin, Verify.getItem_eq_ok hroot,
      Verify.getItem_eq_ok htimestamp, Verify.getItem_eq_ok htreeSize]
    exact hb
  rw [treeHash_eq] at hroot
  exact ⟨signedBlock_of_readAs hed h rfl rfl hpayload, hroot, htreeSize⟩

/-- A signature that is put into a report is dropped from it. -/
theorem filter_signature {m : GoItems} (hm : ∀ kv ∈ m, kv.1 ≠ goLit "signature") (block : GoVal) :
    (m ++ [(goLit "signature", block)]).filter (fun kv => kv.1 ≠ goLit "signature") = m := by
  rw [List.filter_append, List.filter_cons_of_neg (by simp), List.filter_nil, List.append_nil]
  exact List.filter_eq_self.mpr fun kv hkv => decide_eq_true (hm kv hkv)

/-- What Python signs of a report is what Go has signed. -/
theorem reportSigningPayload_of_readAs {m block : GoItems} {payload : Bytes}
    (hpayload : canonicalBytes (.map m) = .ok payload) (hm : ∀ kv ∈ m, kv.1 ≠ goLit "signature")
    {items : Items} (h : ReadAs (.dict items) (.map (m ++ [(goLit "signature", .map block)]))) :
    Verify.reportSigningPayload items = .ok payload := by
  have hfiltered : ReadAs (.dict (items.filter fun kv => kv.1 ≠ lit "signature"))
      (.map ((m ++ [(goLit "signature", GoVal.map block)]).filter fun kv => kv.1 ≠ goLit "signature")) :=
    h.filter (scalar_lit "signature")
  rw [filter_signature hm] at hfiltered
  obtain ⟨b, hb, hb'⟩ := canonicalBytes_of_readAs hfiltered
  rw [Verify.reportSigningPayload, hb]
  exact congrArg Except.ok (Except.ok.inj (hb'.symm.trans hpayload))

/-- What an event at an index is related to. -/
theorem getElem?_of_zipIdx {α β : Type} {R : α × Nat → β → Prop} {xs : List α} {ys : List β}
    (h : List.Forall₂ R xs.zipIdx ys) {i : Nat} {y : β} (hy : ys[i]? = some y) :
    ∃ x, xs[i]? = some x ∧ R (x, i) y := by
  obtain ⟨hi, rfl⟩ := List.getElem?_eq_some_iff.mp hy
  have hx : i < xs.length := by
    rw [← List.length_zipIdx, h.length_eq]
    exact hi
  have hR := (List.forall₂_iff_get.mp h).2 i (by rwa [List.length_zipIdx]) hi
  rw [List.get_eq_getElem, List.get_eq_getElem, List.getElem_zipIdx, Nat.zero_add] at hR
  exact ⟨_, List.getElem?_eq_getElem hx, hR⟩

/-- **Reports built in Go are genuine** in Python where every event came with its leaf hash. -/
theorem genuineReport_of_buildReport {ed : Ed25519} {pem : Verify.PemReader}
    (hpem : ∀ raw text, Scalar text → publicKeyPEM raw = .ok (ofStr text) → pem (.str text) = .ok raw)
    (hbuild : buildReport publicKeyPEM priv input = .ok report)
    (hed : ∀ data, SignedFor report data → ed priv.publicKeyRaw (priv.sign data) data = true)
    (hextra : ∀ e ∈ input.events, ∀ kv ∈ e.event.extra, kv.1 ∉ eventKnownKeys)
    (hhash : ∀ e ∈ input.events, e.leafHash ≠ []) {items : Items}
    (h : ReadAs (.dict items) (.map report)) :
    ∃ leaves entries, Verify.GenuineReport ed pem priv.publicKeyRaw leaves items entries := by
  obtain ⟨leaves, data, entries, text, payload, hleaves, hdata, hentries, htext, hpayload, rfl⟩ :=
    buildReport_eq_ok.mp hbuild
  obtain ⟨pemText, hpemText, hpemRead⟩ := h.item "public_key_pem" rfl
  obtain ⟨block, hblock, hblockRead⟩ := h.item "signature" rfl
  obtain ⟨cp, hcp, hcpRead⟩ := h.item "checkpoint" rfl
  obtain ⟨events, hevents, heventsRead⟩ := h.item "events" rfl
  obtain ⟨controls, hcontrols, hcontrolsRead⟩ := h.item "controls" rfl
  rw [item?] at hpemText hblock hcp hevents hcontrols
  obtain ⟨pemText, rfl, hscalar, rfl⟩ := hpemRead.string
  obtain ⟨vs, rfl, hvs⟩ := heventsRead.slice
  obtain ⟨cs, rfl, hcs⟩ := hcontrolsRead.slice
  obtain ⟨blockItems, rfl⟩ := hblockRead.map
  obtain ⟨cpItems, rfl⟩ := hcpRead.map
  rw [readAsList_iff] at hvs
  have hsignature : ∀ kv ∈ unsignedReport input
      (reportCheckpoint priv input leaves (priv.sign data)) entries
      (ofStr pemText), kv.1 ≠ goLit "signature" := by
    refine fun kv hkv => ?_
    have hkeys : ∀ k ∈ (unsignedReport input (reportCheckpoint priv input leaves (priv.sign data)) entries
        (ofStr pemText)).map Prod.fst, k ≠ goLit "signature" := by
      simp only [unsignedReport, List.map_cons, List.map_nil]
      decide
    exact hkeys kv.1 (List.mem_map_of_mem hkv)
  have htruthy : ∀ {kvs : Items} {k : Str} {v : Val}, (Val.dict kvs).item? k = some v →
      (Val.dict kvs).truthy = true := by
    intro kvs k v hkv
    cases kvs with
    | nil => cases hkv
    | cons kv kvs => rfl
  refine ⟨leaves, vs, ?_, ?_, ?_, ?_, ?_, ?_⟩
  · intro raw' hraw'
    rw [hpemText, Option.getD_some, hpem _ _ hscalar htext, Except.ok.injEq] at hraw'
    exact hraw'.symm
  · have hsigned := signedBlock_of_readAs
      (hed payload (Or.inr (by rw [filter_signature hsignature]; exact hpayload))) hblockRead rfl rfl
      (reportSigningPayload_of_readAs hpayload hsignature h)
    rwa [hblock, Option.getD_some, orElse, if_pos (htruthy hsigned.keyId)]
  · have hhead := signedHead_of_readAs (hed data (Or.inl ⟨_, rfl, hdata⟩)) hdata hcpRead
    rwa [Verify.reportCheckpoint, hcp, Option.getD_some, orElse, if_pos (htruthy hhead.treeSize)]
  · rw [Verify.reportEvents, hevents, Option.getD_some, orElse]
    -- a list that is not truthy is the empty one
    cases vs with
    | nil => rfl
    | cons v vs => rfl
  · refine List.forall₂_iff_get.mpr ⟨?_, fun i hi hi' => ?_⟩
    · rw [List.length_range, ← hleaves.length_eq, hentries.length_eq, hvs.length_eq]
    · rw [List.get_eq_getElem, List.get_eq_getElem, List.getElem_range]
      rw [List.length_range] at hi
      obtain ⟨e, he, hleaf⟩ := getElem?_of_zipIdx hleaves (List.getElem?_eq_getElem hi)
      have hi'' : i < entries.length := by rwa [← hvs.length_eq]
      obtain ⟨e', he', hentry⟩ := getElem?_of_zipIdx hentries (List.getElem?_eq_getElem hi'')
      obtain rfl : e = e' := Option.some.inj (he.symm.trans he')
      have hmem := List.mem_of_getElem? he
      exact ⟨_, List.getElem?_eq_getElem hi,
        genuineEntry_of_readAs (List.getElem?_eq_getElem hi) hleaf hentry
        (hhash e hmem) (hextra e hmem) ((List.forall₂_iff_get.mp hvs).2 i hi' hi'')⟩
  · refine ⟨cs, ?_, ?_⟩
    · rw [Verify.reportControls, hcontrols]
      rfl
    · cases cs with
      | nil => exact fun control hcontrol => absurd hcontrol List.not_mem_nil
      | cons c cs => simp [ReadAsList] at hcs

/-- **What Go reports, Python finds valid**, precisely where every event came with the leaf hash that its
ledger has committed: without one Go builds the report all the same.

The signatures that the key makes for the report verify, the PEM text of a key is read back, and the extra
fields of an event are none of its fields, as for every event that Go has read
(`not_mem_eventKnownKeys`). -/
theorem verifyReport_of_buildReport (publicKeyPEM : Bytes → Except GoString GoString) (priv : PrivateKey)
    (input : ReportInputs) (ed : Ed25519) (pem : Verify.PemReader)
    (hpem : ∀ raw text, Scalar text → publicKeyPEM raw = .ok (ofStr text) → pem (.str text) = .ok raw)
    (hextra : ∀ e ∈ input.events, ∀ kv ∈ e.event.extra, kv.1 ∉ eventKnownKeys) (report : GoItems)
    (hbuild : buildReport publicKeyPEM priv input = .ok report)
    (hed : ∀ data, SignedFor report data → ed priv.publicKeyRaw (priv.sign data) data = true)
    (items : Items) (h : ReadAs (.dict items) (.map report)) :
    (∃ res, Verify.verifyReport ed pem items (some priv.publicKeyRaw) = .ok res ∧ res.valid = true) ↔
      ∀ e ∈ input.events, e.leafHash ≠ [] := by
  constructor
  · rintro ⟨res, hres, hvalid⟩ e he hnil
    obtain ⟨_, root, n, vs, _, -, -, hvs, haccepted, -⟩ :=
      Verify.verifyReport_valid (fun r r' hr hr' => by rwa [pure_eq_ok.mp hr]) hres hvalid
    obtain ⟨leaves, data, entries, text, payload, -, -, hentries, -, -, rfl⟩ :=
      buildReport_eq_ok.mp hbuild
    obtain ⟨events, hevents, heventsRead⟩ := h.item "events" rfl
    obtain ⟨us, rfl, hus⟩ := heventsRead.slice
    rw [readAsList_iff] at hus
    -- the entry of the event, which has no leaf hash
    obtain ⟨i, hi, rfl⟩ := List.getElem_of_mem he
    have hzip : i < input.events.zipIdx.length := by rwa [List.length_zipIdx]
    have hentry : i < entries.length := by rwa [← hentries.length_eq]
    have hu : i < us.length := by rwa [hus.length_eq]
    have hbuilt := (List.forall₂_iff_get.mp hentries).2 i hzip hentry
    have hread := (List.forall₂_iff_get.mp hus).2 i hu hentry
    simp only [List.get_eq_getElem, List.getElem_zipIdx, Nat.zero_add, reportEntry] at hbuilt hread
    obtain ⟨content, -, hbuilt⟩ := bind_eq_ok.mp hbuilt
    rw [← pure_eq_ok.mp hbuilt] at hread
    have hstored : Verify.storedLeaf us[i] = .ok [] := by
      have hhash := @ReadAs.item_str _ _ [] hread "leaf_hash" scalar_nil (by rw [hnil]; rfl)
      rw [Verify.storedLeaf, getD_eq_ok hhash]
      rfl
    have hmem : us[i] ∈ vs := by
      rw [item?] at hevents
      rw [Verify.reportEvents, hevents, Option.getD_some] at hvs
      cases us with
      | nil => exact absurd hu (Nat.not_lt_zero i)
      | cons u us =>
          rw [← Except.ok.inj hvs]
          exact List.getElem_mem hu
    obtain ⟨index, leaf, event, proof, -, -, hleaf, hstored', -⟩ := haccepted _ hmem
    obtain rfl : [] = leaf := Except.ok.inj (hstored.symm.trans hstored')
    cases event with
    | dict kvs =>
        rw [leafFromEventDict] at hleaf
        obtain ⟨data, -, hleaf⟩ := bind_eq_ok.mp hleaf
        have hlength := Merkle.length_leafHash data
        rw [pure_eq_ok.mp hleaf] at hlength
        cases hlength
    | _ => cases hleaf
  · intro hhash
    obtain ⟨leaves, entries, hgenuine⟩ := genuineReport_of_buildReport hpem hbuild hed hextra hhash h
    exact Verify.verifyReport_of_genuine hgenuine fun res => ⟨res, rfl, rfl⟩

end Reports

/-! ## A report on two events -/

section IsRead

variable {gs : List GoVal} {m : GoItems}

/-- A value that Python reads. -/
def IsRead (g : GoVal) : Prop := ∃ v, ReadAs v g

/-- Text in UTF-8 is read. -/
theorem isRead_string {s : Str} (h : Scalar s) : IsRead (.string (ofStr s)) :=
  ⟨.str s, by rw [ReadAs]; exact ⟨h, rfl⟩⟩

/-- A literal is read. -/
theorem isRead_goLit (s : String) : IsRead (.string (goLit s)) := isRead_string (scalar_lit s)

/-- An integer is read. -/
theorem isRead_int (z : Int) : IsRead (.int z) := ⟨.int z, by simp [ReadAs]⟩

/-- A slice is read as a list. -/
theorem isRead_slice (h : ∀ g ∈ gs, IsRead g) : IsRead (.slice gs) := by
  induction gs with
  | nil => exact ⟨.list [], by simp [ReadAs, ReadAsList]⟩
  | cons g gs ih =>
      rw [List.forall_mem_cons] at h
      obtain ⟨v, hv⟩ := h.1
      obtain ⟨_, hvs⟩ := ih h.2
      obtain ⟨vs, -, hvs⟩ := hvs.slice
      exact ⟨.list (v :: vs), by rw [ReadAs]; exact ⟨_, rfl, g, gs, rfl, hv, hvs⟩⟩

/-- An entry that Python reads. -/
def IsReadEntry (kg : GoString × GoVal) : Prop := (∃ k, Scalar k ∧ kg.1 = ofStr k) ∧ IsRead kg.2

/-- An entry under a literal key. -/
theorem isReadEntry {k : String} {g : GoVal} (h : IsRead g) : IsReadEntry (goLit k, g) :=
  ⟨⟨lit k, scalar_lit k, rfl⟩, h⟩

/-- Such entries are read one by one. -/
theorem exists_readAsItems (h : ∀ kg ∈ m, IsReadEntry kg) : ∃ kvs, ReadAsItems kvs m := by
  induction m with
  | nil => exact ⟨[], rfl⟩
  | cons kg m ih =>
      obtain ⟨k, g⟩ := kg
      rw [List.forall_mem_cons] at h
      obtain ⟨⟨⟨s, hs, rfl⟩, v, hv⟩, hrest⟩ := h
      obtain ⟨kvs, hkvs⟩ := ih hrest
      exact ⟨(s, v) :: kvs, g, m, rfl, hs, hv, hkvs⟩

/-- A map of such entries is read as a dictionary. -/
theorem exists_readAs_map (hkeys : (m.map Prod.fst).Nodup) (h : ∀ kg ∈ m, IsReadEntry kg) :
    ∃ kvs, ReadAs (.dict kvs) (.map m) := by
  obtain ⟨kvs, hkvs⟩ := exists_readAsItems h
  rw [hkvs.keys] at hkeys
  refine ⟨kvs, readAs_dict.mpr ⟨?_, m, .refl m, hkvs⟩⟩
  have hcomp : (kvs.map fun kv => ofStr kv.1) = (kvs.map Prod.fst).map ofStr := by
    rw [List.map_map]
    rfl
  rw [hcomp] at hkeys
  exact hkeys.of_map

/-- So it is read. -/
theorem isRead_map (hkeys : (m.map Prod.fst).Nodup) (h : ∀ kg ∈ m, IsReadEntry kg) : IsRead (.map m) := by
  obtain ⟨kvs, hkvs⟩ := exists_readAs_map hkeys h
  exact ⟨.dict kvs, hkvs⟩

end IsRead


/-- The identifier of a key is read. -/
theorem isRead_keyID (raw : Bytes) : IsRead (.string (keyID raw)) := by
  obtain ⟨hscalar, hid⟩ := keyID_eq raw
  exact hid ▸ isRead_string hscalar

/-- Hexadecimal text is read. -/
theorem isRead_hexString (b : Bytes) : IsRead (.string (hexString b)) := isRead_string (scalar_hex b)

/-- Base64 text is read. -/
theorem isRead_base64String (b : Bytes) : IsRead (.string (base64String b)) :=
  isRead_string (scalar_b64encode b)

/-- Without entries, there is nothing to read. -/
theorem forall_isReadEntry_nil : ∀ kg ∈ ([] : GoItems), IsReadEntry kg :=
  fun _ hkg => absurd hkg List.not_mem_nil

/-- An event of the sample log. -/
def sampleEvent (id timestamp : String) : Event where
  schemaVersion := goLit "1.0.0"
  eventId := goLit id
  timestamp := goLit timestamp
  kind := goLit "agent_decision"
  actor := { agentId := goLit "agent-1" }
  attributes := some [(goLit "score", .number (goLit "7"))]
  source := { format := goLit "sdk" }
  extra := [(goLit "session", some (.string (goLit "s-1")))]

/-- The content of its leaf. -/
def sampleLeafContent (id timestamp : String) : GoItems :=
  (sampleEvent id timestamp).fieldEntries ++ [(goLit "session", .string (goLit "s-1"))]

/-- The events are decoded from their documents, and have their bytes. -/
theorem decoded_sampleEvent {id timestamp : String}
    (h : (id, timestamp) ∈ [("e1", "2026-01-01T00:00:00Z"), ("e2", "2026-01-02T00:00:00Z")]) :
    Event.unmarshalJson (.map (sampleDoc id timestamp)) = .ok (sampleEvent id timestamp) ∧
      (sampleEvent id timestamp).leafContent = .ok (sampleLeafContent id timestamp) ∧
      (sampleEvent id timestamp).canonicalBytes = .ok (sampleContent id timestamp) := by
  simp only [List.mem_cons, List.not_mem_nil, or_false, Prod.mk.injEq] at h
  rcases h with ⟨rfl, rfl⟩ | ⟨rfl, rfl⟩
  · exact ⟨rfl, rfl, eq_ok_of_toOption (by decide +kernel)⟩
  · exact ⟨rfl, rfl, eq_ok_of_toOption (by decide +kernel)⟩

/-- The input with the sample events, one of which comes with a prefix before its leaf hash. -/
def sampleInput : ReportInputs where
  origin := goLit "openwright"
  timestamp := goLit "2026-01-03T00:00:00Z"
  reportId := goLit "r1"
  generatedAt := goLit "2026-01-03T00:00:00Z"
  scopeDesc := goLit "sample"
  toolVersion := goLit "0.1.0"
  crosswalkId := goLit "eu_ai_act"
  events := [⟨sampleEvent "e1" "2026-01-01T00:00:00Z", hexString sampleLeaves[0]!⟩,
    ⟨sampleEvent "e2" "2026-01-02T00:00:00Z", goLit "sha256:" ++ hexString sampleLeaves[1]!⟩]

/-- An entry of the report. -/
def builtEntry (content : GoItems) (index : Int) (leafHash : GoString) (proof : List Bytes) : GoVal :=
  .map [(goLit "event", .map content), (goLit "leaf_index", .int index),
    (goLit "leaf_hash", .string leafHash), (goLit "inclusion_proof", hexProofList proof)]

/-- The entries of the report: each leaf is the proof of the other one. -/
def builtEntries : List GoVal :=
  [builtEntry (sampleLeafContent "e1" "2026-01-01T00:00:00Z") 0 (hexString sampleLeaves[0]!)
      [sampleLeaves[1]!],
    builtEntry (sampleLeafContent "e2" "2026-01-02T00:00:00Z") 1
      (goLit "sha256:" ++ hexString sampleLeaves[1]!) [sampleLeaves[0]!]]

/-- The checkpoint of the report. -/
def builtCheckpoint : GoItems :=
  [(goLit "origin", .string (goLit "openwright")), (goLit "tree_size", .int 2),
    (goLit "root_hash", .string (hexString sampleRoot)),
    (goLit "timestamp", .string (goLit "2026-01-03T00:00:00Z")),
    (goLit "public_key_id", .string (keyID sampleKey)),
    (goLit "signature", .string (base64String sampleCheckpointSig))]

/-- The report, before it is signed. -/
def builtReport : GoItems := unsignedReport sampleInput builtCheckpoint builtEntries (ofStr samplePem)

/-- What the report is signed over. -/
def builtPayload : Bytes := (canonicalBytes (.map builtReport)).toOption.getD []

/-- The producer's signature of the report. -/
def builtReportSig : Bytes :=
  [139, 207, 124, 152, 22, 123, 128, 159, 216, 156, 22, 33, 143, 224, 79, 169, 242, 82, 74, 65,
   93, 80, 227, 76, 199, 107, 120, 12, 150, 140, 114, 109, 52, 47, 50, 0, 173, 32, 171, 184, 252,
   184, 129, 151, 104, 207, 120, 177, 5, 80, 159, 147, 192, 194, 249, 146, 96, 150, 100, 131, 207,
   173, 60, 8]

/-- What the producer has signed. -/
def builtMade : List (Bytes × Bytes) :=
  [(sampleSigned, sampleCheckpointSig), (builtPayload, builtReportSig)]

/-- The producer's key, which makes these signatures. -/
def samplePrivateKey : PrivateKey := ⟨sampleKey, fun data => (builtMade.lookup data).getD []⟩

/-- The PEM text of the sample key. -/
def samplePublicKeyPEM (raw : Bytes) : Except GoString GoString :=
  if raw = sampleKey then .ok (ofStr samplePem) else .error (goLit "x509: unsupported public key type")

/-- What Python reads it as. -/
def samplePemReader : Verify.PemReader
  | .str text => if text = samplePem then .ok sampleKey else .error (lit "Unable to load PEM file")
  | _ => .error (lit "Unable to load PEM file")

/-- Python reads an event of the sample log. -/
theorem isRead_sampleLeafContent (id timestamp : String) :
    IsRead (.map (sampleLeafContent id timestamp)) := by
  have hempty : IsRead (.map []) := isRead_map List.nodup_nil forall_isReadEntry_nil
  have hactor : IsRead (.map (actorMap { agentId := goLit "agent-1" })) :=
    isRead_map (by decide)
      (List.forall_mem_cons.mpr ⟨isReadEntry (isRead_goLit "agent-1"), forall_isReadEntry_nil⟩)
  have hsource : IsRead (.map (sourceMap { format := goLit "sdk" })) :=
    isRead_map (by decide)
      (List.forall_mem_cons.mpr ⟨isReadEntry (isRead_goLit "sdk"), forall_isReadEntry_nil⟩)
  have hattributes : IsRead (.map [(goLit "score", .number (goLit "7"))]) :=
    isRead_map (List.nodup_singleton _) (List.forall_mem_cons.mpr
      ⟨isReadEntry ⟨.int 7, by rw [ReadAs]; exact Or.inl (congrArg _ (by decide +kernel))⟩,
        forall_isReadEntry_nil⟩)
  have hkeys : (sampleLeafContent id timestamp).map Prod.fst
      = [goLit "schema_version", goLit "event_id", goLit "timestamp", goLit "kind", goLit "actor",
        goLit "source", goLit "provenance", goLit "attributes", goLit "labels", goLit "session"] := rfl
  refine isRead_map (hkeys ▸ by decide) ?_
  simp only [sampleLeafContent, Event.fieldEntries, sampleEvent, List.forall_mem_append,
    List.forall_mem_cons, Option.map_none, Option.toList_none, List.append_nil]
  exact ⟨⟨isReadEntry (isRead_goLit _), isReadEntry (isRead_goLit _), isReadEntry (isRead_goLit _),
    isReadEntry (isRead_goLit _), isReadEntry hactor, isReadEntry hsource, isReadEntry hempty,
    isReadEntry hattributes, isReadEntry hempty, forall_isReadEntry_nil⟩,
    isReadEntry (isRead_goLit _), forall_isReadEntry_nil⟩

/-- An entry is read where its event and its leaf hash are. -/
theorem isRead_builtEntry {content : GoItems} {leafHash : GoString} (hcontent : IsRead (.map content))
    (hhash : IsRead (.string leafHash)) (index : Int) (proof : List Bytes) :
    IsRead (builtEntry content index leafHash proof) := by
  have hproof : IsRead (hexProofList proof) := isRead_slice fun g hg => by
    obtain ⟨h, -, rfl⟩ := List.mem_map.mp hg
    exact isRead_hexString h
  refine isRead_map (by simp only [List.map_cons, List.map_nil]; decide) ?_
  simp only [List.forall_mem_cons]
  exact ⟨isReadEntry hcontent, isReadEntry (isRead_int index), isReadEntry hhash, isReadEntry hproof,
    forall_isReadEntry_nil⟩

/-- Text that is put together is read. -/
theorem isRead_append {s t : GoString} (hs : IsRead (.string s)) (ht : IsRead (.string t)) :
    IsRead (.string (s ++ t)) := by
  obtain ⟨_, hs⟩ := hs
  obtain ⟨_, ht⟩ := ht
  obtain ⟨u, -, hu, rfl⟩ := hs.string
  obtain ⟨w, -, hw, rfl⟩ := ht.string
  exact ofStr_append hu hw ▸ isRead_string (scalar_append.mpr ⟨hu, hw⟩)

/-- Python reads the checkpoint of the report. -/
theorem isRead_builtCheckpoint : IsRead (.map builtCheckpoint) := by
  refine isRead_map (by simp only [builtCheckpoint, List.map_cons, List.map_nil]; decide) ?_
  simp only [builtCheckpoint, List.forall_mem_cons]
  exact ⟨isReadEntry (isRead_goLit _), isReadEntry (isRead_int _), isReadEntry (isRead_hexString _),
    isReadEntry (isRead_goLit _), isReadEntry (isRead_keyID _), isReadEntry (isRead_base64String _),
    forall_isReadEntry_nil⟩

/-- Python reads the statement of the boundary. -/
theorem isRead_boundaryStatement : IsRead (.string boundaryStatement) :=
  isRead_append (isRead_append (isRead_append (isRead_append (isRead_append (isRead_goLit _)
    (isRead_goLit _)) (isRead_goLit _)) (isRead_goLit _)) (isRead_goLit _)) (isRead_goLit _)

/-- The entries of the report, before it is signed. -/
theorem isReadEntry_builtReport : ∀ kg ∈ builtReport, IsReadEntry kg := by
  -- each entry by itself: what `json.Unmarshal` gives is kept as it is
  have hslice : IsRead (.slice []) := isRead_slice fun g hg => absurd hg List.not_mem_nil
  have hentries : IsRead (.slice builtEntries) := by
    refine isRead_slice (List.forall_mem_cons.mpr ⟨?_, List.forall_mem_singleton.mpr ?_⟩)
    · exact isRead_builtEntry (isRead_sampleLeafContent _ _) (isRead_hexString _) _ _
    · exact isRead_builtEntry (isRead_sampleLeafContent _ _)
        (isRead_append (isRead_goLit _) (isRead_hexString _)) _ _
  have hpem : IsRead (.string (ofStr samplePem)) :=
    isRead_string (scalar_append.mpr ⟨scalar_append.mpr ⟨scalar_lit _, scalar_b64encode _⟩, scalar_lit _⟩)
  have htool : IsRead (.map [(goLit "name", .string (goLit "openwright")),
      (goLit "version", .string (goLit "0.1.0"))]) := by
    refine isRead_map (by simp only [List.map_cons, List.map_nil]; decide) ?_
    simp only [List.forall_mem_cons]
    exact ⟨isReadEntry (isRead_goLit _), isReadEntry (isRead_goLit _), forall_isReadEntry_nil⟩
  have hagents : sortStrings (sampleInput.events.map (·.event.actor.agentId)).dedup
      = [goLit "agent-1"] := by decide
  have hscope : IsRead (.map [(goLit "description", .string sampleInput.scopeDesc),
      (goLit "agent_ids", .slice
      ((sortStrings (sampleInput.events.map (·.event.actor.agentId)).dedup).map .string))]) := by
    refine isRead_map (by simp only [List.map_cons, List.map_nil]; decide) ?_
    rw [hagents]
    simp only [List.forall_mem_cons]
    exact ⟨isReadEntry (isRead_goLit "sample"), isReadEntry (isRead_slice
      (List.forall_mem_singleton.mpr (isRead_goLit "agent-1"))), forall_isReadEntry_nil⟩
  have hperiod : reportPeriod (sampleInput.events.map (·.event.timestamp))
      = [(goLit "start", .string (goLit "2026-01-01T00:00:00Z")),
        (goLit "end", .string (goLit "2026-01-02T00:00:00Z"))] := rfl
  have hperiod : IsRead (.map (reportPeriod (sampleInput.events.map (·.event.timestamp)))) := by
    rw [hperiod]
    refine isRead_map (by simp only [List.map_cons, List.map_nil]; decide) ?_
    simp only [List.forall_mem_cons]
    exact ⟨isReadEntry (isRead_goLit _), isReadEntry (isRead_goLit _), forall_isReadEntry_nil⟩
  have hcrosswalk : IsRead (.map [(goLit "id", .string (goLit "eu_ai_act"))]) :=
    isRead_map (by simp) (List.forall_mem_cons.mpr ⟨isReadEntry (isRead_goLit _), forall_isReadEntry_nil⟩)
  have hsummary : IsRead (.map [(goLit "total", .int 0), (goLit "satisfied", .int 0),
      (goLit "not_satisfied", .int 0), (goLit "insufficient_evidence", .int 0)]) := by
    refine isRead_map (by simp only [List.map_cons, List.map_nil]; decide) ?_
    simp only [List.forall_mem_cons]
    exact ⟨isReadEntry (isRead_int _), isReadEntry (isRead_int _), isReadEntry (isRead_int _),
      isReadEntry (isRead_int _), forall_isReadEntry_nil⟩
  simp only [builtReport, unsignedReport, List.forall_mem_cons]
  exact ⟨isReadEntry (isRead_goLit _), isReadEntry (isRead_goLit "r1"),
    isReadEntry (isRead_goLit "2026-01-03T00:00:00Z"), isReadEntry htool,
    isReadEntry isRead_boundaryStatement, isReadEntry hscope, isReadEntry hperiod, isReadEntry hcrosswalk,
    isReadEntry hsummary, isReadEntry hslice, isReadEntry hslice, isReadEntry isRead_builtCheckpoint,
    isReadEntry hentries, isReadEntry hpem, forall_isReadEntry_nil⟩

/-- The report, signed. -/
def signedReport : GoItems :=
  builtReport ++ [(goLit "signature",
    .map (signatureBlock samplePrivateKey (samplePrivateKey.sign builtPayload)))]

/-- Its payload is written. -/
theorem canonicalBytes_builtReport : canonicalBytes (.map builtReport) = .ok builtPayload := by
  have hkeys : (builtReport.map Prod.fst).Nodup := by
    simp only [builtReport, unsignedReport, List.map_cons, List.map_nil]
    decide
  obtain ⟨unsigned, hunsigned⟩ := exists_readAs_map hkeys isReadEntry_builtReport
  obtain ⟨payload, -, hpayload⟩ := canonicalBytes_of_readAs hunsigned
  rw [builtPayload, hpayload]
  rfl

/-- Python reads the report. -/
theorem exists_readAs_signedReport : ∃ items, ReadAs (.dict items) (.map signedReport) := by
  have hblock : IsRead (.map (signatureBlock samplePrivateKey (samplePrivateKey.sign builtPayload))) := by
    refine isRead_map (by simp only [signatureBlock, List.map_cons, List.map_nil]; decide) ?_
    simp only [signatureBlock, List.forall_mem_cons]
    exact ⟨isReadEntry (isRead_goLit _), isReadEntry (isRead_keyID _),
      isReadEntry (isRead_base64String _), forall_isReadEntry_nil⟩
  refine exists_readAs_map ?_ (List.forall_mem_append.mpr
    ⟨isReadEntry_builtReport, List.forall_mem_cons.mpr ⟨isReadEntry hblock, forall_isReadEntry_nil⟩⟩)
  simp only [signedReport, builtReport, unsignedReport, List.map_cons, List.map_nil, List.cons_append,
    List.nil_append]
  decide

/-- The leaves are taken. -/
theorem committedLeaf_sample : List.Forall₂ (fun e leaf => committedLeaf e = .ok leaf)
    sampleInput.events.zipIdx sampleLeaves := by
  have hleaves := leafHash_sampleContents
  simp only [sampleContents, sampleLeaves, List.map_cons, List.map_nil, List.cons.injEq,
    and_true] at hleaves
  have hleaf : ∀ {id timestamp : String}, (id, timestamp) ∈
      [("e1", "2026-01-01T00:00:00Z"), ("e2", "2026-01-02T00:00:00Z")] → ∀ {leaf : Bytes},
      Merkle.leafHash (sampleContent id timestamp) = leaf →
        (sampleEvent id timestamp).leafHash = .ok leaf := by
    intro id timestamp h leaf hleaf
    exact leafHash_eq_ok.mpr ⟨_, (decoded_sampleEvent h).2.2, hleaf.symm⟩
  refine .cons ?_ (.cons ?_ .nil)
  · exact committedLeaf_of_hexString (hleaf List.mem_cons_self hleaves.1) rfl
  · refine bind_eq_ok.mpr ⟨_, mapError_eq_ok.mpr
      (hleaf (List.mem_cons_of_mem _ List.mem_cons_self) hleaves.2), ?_⟩
    rw [if_neg (by decide)]

/-- The entries are those of the events. -/
theorem reportEntry_sample : List.Forall₂ (fun e entry => reportEntry sampleLeaves e = .ok entry)
    sampleInput.events.zipIdx builtEntries := by
  have hproof : ∀ i < sampleLeaves.length, ∀ path,
      Merkle.inclusionProof sampleLeaves (i : Nat) = .ok path →
        inclusionProof sampleLeaves (i : Nat) = path := by
    intro i hi path hpath
    rw [inclusionProof_eq _ ⟨Int.natCast_nonneg i, by exact_mod_cast hi⟩] at hpath
    exact Except.ok.inj hpath
  have hfirst := hproof 0 (by decide) [sampleLeaves[1]!] (eq_ok_of_toOption (by decide +kernel))
  have hsecond := hproof 1 (by decide) [sampleLeaves[0]!] (eq_ok_of_toOption (by decide +kernel))
  refine .cons ?_ (.cons ?_ .nil)
  · refine bind_eq_ok.mpr ⟨_, mapError_eq_ok.mpr (decoded_sampleEvent List.mem_cons_self).2.1, ?_⟩
    rw [hfirst]
    rfl
  · refine bind_eq_ok.mpr ⟨_, mapError_eq_ok.mpr
      (decoded_sampleEvent (List.mem_cons_of_mem _ List.mem_cons_self)).2.1, ?_⟩
    rw [show (0 + 1 : Nat) = 1 from rfl, hsecond]
    rfl

/-- The checkpoint is that of the leaves, signed. -/
theorem reportCheckpoint_sample : reportCheckpoint samplePrivateKey sampleInput sampleLeaves
    (samplePrivateKey.sign sampleSigned) = builtCheckpoint := by
  have hsign : samplePrivateKey.sign sampleSigned = sampleCheckpointSig := by
    change (builtMade.lookup sampleSigned).getD [] = sampleCheckpointSig
    rw [builtMade, List.lookup_cons_self]
    rfl
  rw [reportCheckpoint, treeHash_sampleLeaves, hsign]
  rfl

/-- The report is built. -/
theorem buildReport_sample :
    buildReport samplePublicKeyPEM samplePrivateKey sampleInput = .ok signedReport := by
  refine buildReport_eq_ok.mpr ⟨sampleLeaves, sampleSigned, builtEntries, ofStr samplePem, builtPayload,
    committedLeaf_sample, ?_, reportEntry_sample, rfl, ?_, ?_⟩
  · rw [treeHash_sampleLeaves]
    exact checkpointSigningBytes_sample
  · rw [reportCheckpoint_sample]
    exact canonicalBytes_builtReport
  · rw [reportCheckpoint_sample]
    rfl

/-- What is looked up on a list of signatures is on it. -/
theorem madeBy_lookup {made : List (Bytes × Bytes)} {data : Bytes} (h : data ∈ made.map Prod.fst)
    (publicKeyRaw : Bytes) :
    madeBy publicKeyRaw made publicKeyRaw ((made.lookup data).getD []) data = true := by
  obtain ⟨⟨data, sig⟩, hmem, rfl⟩ := List.mem_map.mp h
  cases hlookup : made.lookup data with
  | none => exact absurd (List.lookup_eq_none_iff.mp hlookup _ hmem) (by simp)
  | some sig' =>
      obtain ⟨l₁, l₂, rfl, -⟩ := List.lookup_eq_some_iff.mp hlookup
      exact decide_eq_true ⟨rfl, List.mem_append_right _ List.mem_cons_self⟩

/-- What is signed for the report is signed by the key. -/
theorem madeBy_signedReport {data : Bytes} (h : SignedFor signedReport data) :
    madeBy sampleKey builtMade sampleKey (samplePrivateKey.sign data) data = true := by
  have hkeys : ∀ kv ∈ builtReport, kv.1 ≠ goLit "signature" := by
    have hkeys : ∀ k ∈ builtReport.map Prod.fst, k ≠ goLit "signature" := by
      simp only [builtReport, unsignedReport, List.map_cons, List.map_nil]
      decide
    exact fun kv hkv => hkeys kv.1 (List.mem_map_of_mem hkv)
  have hdata : data ∈ builtMade.map Prod.fst := by
    rcases h with ⟨cp, hcp, hdata⟩ | hpayload
    · obtain rfl : builtCheckpoint = cp := GoVal.map.inj hcp
      rw [← Except.ok.inj (checkpointSigningBytes_sample.symm.trans hdata)]
      exact List.mem_cons_self
    · rw [signedReport, filter_signature hkeys, canonicalBytes_builtReport] at hpayload
      rw [← Except.ok.inj hpayload]
      exact List.mem_cons_of_mem _ List.mem_cons_self
  exact madeBy_lookup hdata sampleKey

/-- **The report is found valid**: two events, each with a proof under the root, decoded from
documents that have an entry beside their fields. -/
theorem verifyReport_of_buildReport_sample :
    buildReport samplePublicKeyPEM samplePrivateKey sampleInput = .ok signedReport ∧
      ∃ items, ReadAs (.dict items) (.map signedReport) ∧
        ∃ res, Verify.verifyReport (madeBy sampleKey builtMade) samplePemReader items (some sampleKey)
          = .ok res ∧ res.valid = true := by
  obtain ⟨items, hitems⟩ := exists_readAs_signedReport
  -- the PEM text of the key is read back
  have hpem : ∀ raw text, Scalar text → samplePublicKeyPEM raw = .ok (ofStr text) →
      samplePemReader (.str text) = .ok raw := by
    intro raw text htext h
    have hscalar : Scalar samplePem :=
      scalar_append.mpr ⟨scalar_append.mpr ⟨scalar_lit _, scalar_b64encode _⟩, scalar_lit _⟩
    rw [samplePublicKeyPEM] at h
    split at h
    · rename_i hraw
      rw [← ofStr_injective hscalar htext (Except.ok.inj h), hraw, samplePemReader, if_pos rfl]
    · cases h
  -- what is kept beside the fields of a decoded event is no field
  have hextra : ∀ e ∈ sampleInput.events, ∀ kv ∈ e.event.extra, kv.1 ∉ eventKnownKeys := by
    refine List.forall_mem_cons.mpr ⟨fun kv => ?_, List.forall_mem_singleton.mpr fun kv => ?_⟩
    · exact not_mem_eventKnownKeys (decoded_sampleEvent List.mem_cons_self).1
    · exact not_mem_eventKnownKeys (decoded_sampleEvent (List.mem_cons_of_mem _ List.mem_cons_self)).1
  have hhash : ∀ e ∈ sampleInput.events, e.leafHash ≠ [] :=
    List.forall_mem_cons.mpr ⟨by decide, List.forall_mem_singleton.mpr (by decide)⟩
  refine ⟨buildReport_sample, items, hitems, (verifyReport_of_buildReport samplePublicKeyPEM
    samplePrivateKey sampleInput (madeBy sampleKey builtMade) samplePemReader hpem hextra signedReport
    buildReport_sample (fun data hdata => madeBy_signedReport hdata) items hitems).mpr hhash⟩

end OpenWright.Go
