import Mathlib.Data.List.TakeWhile
import OpenWright.Go.Report
import OpenWright.Report

/-! # Reports across languages

What Python signs, Go accepts: a report on a ledger of events that the event model in Go declares is
read back by the verifier in Go, which finds the root of the ledger and the signature of its checkpoint.

* **`verifyReportRoot_of_buildReport`** — reports built in Python are accepted in Go. -/

namespace OpenWright.Go

open Python Python.Val Canonical EventModel Signing

/-! ## Writing a document again -/

section Documents

/-- Text in UTF-8 is not changed. -/
theorem validText_ofStr {s : Str} (h : Scalar s) : validText (ofStr s) = ofStr s := by
  rw [validText, runes_utf8 h]
  induction s with
  | nil => rfl
  | cons c s ih =>
      rw [List.flatMap_cons, ih (scalar_cons.mp h).2, ofStr_cons h]

/-- The text of digits, byte by byte. -/
theorem dropWhile_digits {s : Str} (h : ∀ c ∈ s, Json.isDigit c = true) :
    (ofStr s).dropWhile isDigitByte = [] := by
  rw [ofStr_ascii fun c hc => by have := h c hc; simp [Json.isDigit] at this; omega]
  refine List.dropWhile_eq_nil_iff.mpr fun a ha => ?_
  obtain ⟨c, hc, rfl⟩ := List.mem_map.mp ha
  have hdigit : 48 ≤ c.val ∧ c.val < 58 := by simpa [Json.isDigit] using h c hc
  rw [isDigitByte, UInt8.toNat_ofNat_of_lt' (show c.val < 256 by omega)]
  exact decide_eq_true hdigit

/-- The text of a natural number is a number. -/
theorem isValidUnsigned_natText (n : Nat) : isValidUnsigned (ofStr (Json.natText n)) = true := by
  obtain ⟨hdigits, -⟩ := Json.natText_digits n
  obtain ⟨c, rest, htext, hzero⟩ := Json.natText_cons n
  rw [htext] at hdigits ⊢
  rw [List.forall_mem_cons] at hdigits
  have hc : 48 ≤ c.val ∧ c.val < 58 := by simpa [Json.isDigit] using hdigits.1
  have hrest : ∀ d ∈ rest, d.val < 128 := fun d hd => by
    have hd' := hdigits.2 d hd
    simp [Json.isDigit] at hd'
    omega
  have hbyte : (UInt8.ofNat c.val).toNat = c.val := UInt8.toNat_ofNat_of_lt' (show c.val < 256 by omega)
  rw [ofStr_digit (by omega) (scalar_of_ascii hrest), isValidUnsigned]
  by_cases h48 : UInt8.ofNat c.val = 48
  · -- a leading zero stands alone
    have hc48 : c = cp 48 := by
      rw [h48] at hbyte
      exact Fin.ext hbyte.symm
    rw [if_pos h48, (hzero hc48).2]
    rfl
  · have hdigit : isDigitByte (UInt8.ofNat c.val) = true := by
      rw [isDigitByte, hbyte]
      exact decide_eq_true hc
    rw [if_neg h48, if_pos hdigit, dropWhile_digits hdigits.2]
    rfl

/-- The text of an integer is a number. -/
theorem isValidNumber_intText (z : Int) : isValidNumber (ofStr (Json.intText z)) = true := by
  have hdigits : Scalar (Json.natText z.natAbs) := scalar_of_ascii fun c hc => by
    have hc' := (Json.natText_digits z.natAbs).1 c hc
    simp [Json.isDigit] at hc'
    omega
  have hvalid := isValidUnsigned_natText z.natAbs
  rw [Json.intText]
  split
  · rw [ofStr_digit (by decide) hdigits]
    exact hvalid
  · cases htext : ofStr (Json.natText z.natAbs) with
    | nil =>
        rw [htext] at hvalid
        cases hvalid
    | cons a s =>
        rw [htext] at hvalid
        rw [isValidNumber.eq_2]
        · exact hvalid
        · intro s' heq
          rw [(List.cons.inj heq).1] at hvalid
          cases hvalid

variable (formatFloat : PyFloat → Option GoString)

mutual
/-- **A value is written and read again** with the keys of its dictionaries in order. -/
theorem remarshal_goVal : ∀ {v : Val}, Encodable v →
    remarshal formatFloat (goVal v) = some (goVal (Json.sorted v))
  | .null, _ | .bool _, _ => rfl
  | .int z, _ => by
      -- a number with digits is kept, where an empty one would become zero
      have hne : ofStr (Json.intText z) ≠ [] := fun hnil => by
        have hvalid := isValidNumber_intText z
        rw [hnil] at hvalid
        cases hvalid
      rw [goVal, remarshal, if_neg hne, if_pos (isValidNumber_intText z)]
      rfl
  | .str s, h => by
      rw [goVal, remarshal, validText_ofStr h]
      rfl
  | .list vs, h => by
      rw [goVal, remarshal, remarshalSlice_goVals h, Option.map_some]
      rfl
  | .tuple vs, h => by
      rw [goVal, remarshal, remarshalSlice_goVals h, Option.map_some]
      rfl
  | .dict kvs, h => by
      -- keys are text that Go leaves as it is
      have hkeys : ∀ kv ∈ Json.sortedItems kvs, Scalar kv.1 := fun kv hkv => by
        rw [Json.sortedItems_eq_map] at hkv
        obtain ⟨lv, hlv, rfl⟩ := List.mem_map.mp hkv
        exact (encodableItems_iff.mp h lv hlv).1
      rw [goVal, remarshal, remarshalEntries_goItems h, Option.map_some, Json.sorted, goVal,
        goItems_eq_map, sortEntries_ofStr goVal hkeys, List.map_map, goItems_eq_map]
      refine congrArg (fun kvs => some (GoVal.map kvs)) (List.map_congr_left fun kv hkv => ?_)
      exact Prod.ext (validText_ofStr (hkeys kv (mem_sortKeys.mp hkv))) rfl

/-- The same of slices. -/
theorem remarshalSlice_goVals : ∀ {vs : List Val}, EncodableList vs →
    remarshalSlice formatFloat (goVals vs) = some (goVals (Json.sortedList vs))
  | [], _ => rfl
  | v :: vs, h => by
      rw [goVals, remarshalSlice, remarshal_goVal h.1, Option.bind_some, remarshalSlice_goVals h.2]
      rfl

/-- The same of maps. -/
theorem remarshalEntries_goItems : ∀ {kvs : Items}, EncodableItems kvs →
    remarshalEntries formatFloat (goItems kvs) = some (goItems (Json.sortedItems kvs))
  | [], _ => rfl
  | (k, v) :: kvs, h => by
      rw [goItems, remarshalEntries, remarshal_goVal h.2.1, Option.bind_some,
        remarshalEntries_goItems h.2.2]
      rfl
end

end Documents

/-! ## Entries -/

section Entries

variable {formatFloat : PyFloat → Option GoString} {records : List Val} {leaves : List Bytes}

/-- **Go reads the leaf of a record** from an entry of a report, in which its keys may be in any order. -/
theorem leafHash_of_entry {items : Items} {leaf : Bytes} (hrecord : EventRecord items)
    (hread : Readable items) (hleaf : leafFromEventDict (.dict items) = .ok leaf) :
    ∃ ev, eventFromMap formatFloat (goVal (.dict items)) = .ok ev ∧ ev.leafHash = .ok leaf := by
  obtain ⟨ev, hev, hhash⟩ := leafHash_of_record hrecord.sorted hread.sorted
    (leafFromEventDict_sorted hread.plain.2 hleaf)
  refine ⟨ev, ?_, hhash⟩
  have hdoc := remarshal_goVal formatFloat hread.plain.1
  rw [goVal] at hdoc ⊢
  rw [eventFromMap, hdoc]
  dsimp only
  exact mapError_eq_ok.mpr hev

/-- What the verifier finds in an entry. -/
theorem valueAt_goItems {kvs : Items} (hkeys : ScalarKeys kvs) (k : String) :
    valueAt (goItems kvs) k = ((kvs.lookup (lit k)).map goVal).getD .nil := by
  rw [valueAt, goLit, lookup_goItems hkeys (scalar_lit k)]

/-- The entry of a record adds its leaf. -/
theorem addLeaf_dump {e : ReportEntry} {acc : List (Int × Bytes)} {items : Items} {leaf : Bytes}
    (hevent : e.event = .dict items) (hrecord : EventRecord items) (hread : Readable items)
    (hleaf : leafFromEventDict (.dict items) = .ok leaf) (hindex : e.leafIndex < 2 ^ 63) :
    addLeaf formatFloat acc (goVal e.dump) = .ok (Verify.setLeaf e.leafIndex leaf acc) := by
  obtain ⟨ev, hev, hhash⟩ := @leafHash_of_entry formatFloat _ _ hrecord hread hleaf
  obtain ⟨data, hdata, rfl⟩ := leafHash_eq_ok.mp hhash
  have hkeys : ScalarKeys [(lit "event", e.event), (lit "leaf_index", .int e.leafIndex),
      (lit "leaf_hash", entry (lit "leaf_hash") (entry (lit "ledger") e.event)),
      (lit "inclusion_proof", .list (e.proof.map .str))] := by
    intro kv hkv
    simp only [List.mem_cons, List.not_mem_nil, or_false] at hkv
    rcases hkv with rfl | rfl | rfl | rfl <;> exact scalar_lit _
  refine addLeaf_eq_ok.mpr ⟨_, ev, data, rfl, ⟨?_, hdata⟩, ?_⟩
  · rw [valueAt_goItems hkeys, List.lookup_cons_self, Option.map_some, Option.getD_some, hevent]
    exact hev
  · have hfits : inInt64 (e.leafIndex : Int) := ⟨by omega, by omega⟩
    have hvalue : valueAt (goItems [(lit "event", e.event), (lit "leaf_index", .int e.leafIndex),
        (lit "leaf_hash", entry (lit "leaf_hash") (entry (lit "ledger") e.event)),
        (lit "inclusion_proof", .list (e.proof.map .str))]) "leaf_index" = goVal (.int e.leafIndex) := by
      rw [valueAt_goItems hkeys]
      rfl
    rw [hvalue, toInt_goVal hfits]

/-- The entries of a report on a log are read. -/
theorem foldlM_addLeaf_dump (hlog : Logged records leaves)
    (hrecords : ∀ items, .dict items ∈ records → EventRecord items ∧ Readable items)
    (hsize : leaves.length < 2 ^ 63) {entries : List ReportEntry}
    (hentries : List.Forall₂ (EntryOf records leaves) (List.range leaves.length) entries) :
    (goVals (entries.map ReportEntry.dump)).foldlM (addLeaf formatFloat) []
      = .ok (Verify.numbered leaves) := by
  have hlen : entries.length = leaves.length := by
    rw [← hentries.length_eq, List.length_range]
  have hgoVals : ∀ vs : List Val, goVals vs = vs.map goVal := by
    intro vs
    induction vs with
    | nil => rfl
    | cons v vs ih => rw [goVals, ih, List.map_cons]
  -- after `k` entries the first `k` leaves are there
  have hprefix : ∀ k ≤ leaves.length, ((entries.take k).map fun e => goVal e.dump).foldlM
      (addLeaf formatFloat) [] = .ok (Verify.numbered (leaves.take k)) := by
    intro k hk
    induction k with
    | zero => rfl
    | succ k ih =>
        have hke : k < entries.length := by omega
        have hentry := (List.forall₂_iff_get.mp hentries).2 k (by rw [List.length_range]; omega) hke
        simp only [List.get_eq_getElem, List.getElem_range] at hentry
        obtain ⟨eventId, rest, hevent⟩ :=
          exists_eventId (hlog.dumped _ (List.mem_of_getElem? hentry.event))
        obtain ⟨hrecord, hread⟩ := hrecords _ (hevent ▸ List.mem_of_getElem? hentry.event)
        have hleaf : leaves[k]? = some leaves[k] := List.getElem?_eq_getElem (by omega)
        have hrecorded := hlog.recorded k _ _ hentry.event hleaf
        have hset := Verify.setLeaf_numbered (leaves.take k) leaves[k]
        rw [List.length_take, Nat.min_eq_left (by omega)] at hset
        have hstep := @addLeaf_dump formatFloat entries[k] (Verify.numbered (leaves.take k)) _ leaves[k]
          hevent hrecord hread (hevent ▸ hrecorded.leaf_eq) (by rw [hentry.index]; omega)
        rw [hentry.index, hset] at hstep
        rw [List.take_add_one, List.getElem?_eq_getElem hke, List.map_append, List.foldlM_append,
          ih (by omega), List.take_add_one, hleaf]
        exact bind_eq_ok.mpr ⟨_, rfl, bind_eq_ok.mpr ⟨_, hstep, rfl⟩⟩
  have hall := hprefix leaves.length (le_refl _)
  rwa [← hlen, List.take_length, hlen, List.take_length,
    show (fun e : ReportEntry => goVal e.dump) = goVal ∘ ReportEntry.dump from rfl, ← List.map_map,
    ← hgoVals] at hall

/-- All leaves are there. -/
theorem mapM_leafAt_numbered (leaves : List Bytes) :
    (List.range leaves.length).mapM (leafAt (Verify.numbered leaves)) = .ok leaves := by
  refine mapM_eq_ok.mpr (List.forall₂_iff_get.mpr ⟨List.length_range, fun i hi hi' => ?_⟩)
  rw [List.get_eq_getElem, List.get_eq_getElem, List.getElem_range, leafAt, Verify.lookup_numbered,
    List.getElem?_eq_getElem hi']

end Entries

/-! ## Reports -/

section Reports

variable {formatFloat : PyFloat → Option GoString} {records : List Val} {leaves : List Bytes}
  {key : KeySource} {ed : Ed25519} {publicKeyRawFromPEM : GoString → Except GoString Bytes}

/-- What Python signs for a checkpoint is what Go verifies. -/
theorem checkpointSigningBytes_ofStr {origin rootHash timestamp : Str} {n : Int} {data : Bytes}
    (h : Signing.checkpointSigningBytes origin n rootHash timestamp = .ok data) :
    checkpointSigningBytes (ofStr origin) n (ofStr rootHash) (ofStr timestamp) = .ok data := by
  rw [Signing.checkpointSigningBytes] at h
  obtain ⟨c, hc, hutf8⟩ := canonicalBytes_eq_ok.mp h
  have henc : Encodable (.dict [(lit "origin", .str origin), (lit "root_hash", .str rootHash),
      (lit "timestamp", .str timestamp), (lit "tree_size", .int n)]) := by
    rw [Except.ok.inj (show _ = Except.ok c from hc)]
    exact encodable_of_scalar_text (plain_of_clean hc) (scalar_of_utf8 hutf8)
  have hencode := encode_of_canonicalBytes henc h
  rw [checkpointSigningBytes, canonicalBytes, ← hencode]
  simp only [goVal, goItems, encode, encodeEntries, spelledFloat_intText, goLit]
  rfl

/-- The keys of a report are ASCII. -/
theorem scalarKeys_signedReport {cr : CrosswalkResult} {options : ReportOptions}
    {reportId generatedAt pemText : Str} {c : Checkpoint} {entries gaps : List ReportEntry}
    {block : Val} :
    ScalarKeys (unsignedReport cr options reportId generatedAt pemText c entries gaps
      ++ [(lit "signature", block)]) := by
  have hkeys : ∀ k ∈ (unsignedReport cr options reportId generatedAt pemText c entries gaps
      ++ [(lit "signature", block)]).map Prod.fst, Scalar k := by
    simp [unsignedReport]
  exact fun kv hkv => hkeys kv.1 (List.mem_map_of_mem hkv)

/-- The items of a checkpoint without extra fields. -/
def checkpointItems (c : Checkpoint) : Items :=
  [(lit "origin", .str c.origin), (lit "tree_size", .int c.treeSize), (lit "root_hash", .str c.rootHash),
    (lit "timestamp", .str c.timestamp), (lit "public_key_id", .str c.publicKeyId),
    (lit "signature", .str c.signature)]

/-- The keys of a checkpoint are text in UTF-8. -/
theorem scalarKeys_checkpointItems {c : Checkpoint} : ScalarKeys (checkpointItems c) := by
  intro kv hkv
  simp only [checkpointItems, List.mem_cons, List.not_mem_nil, or_false] at hkv
  rcases hkv with rfl | rfl | rfl | rfl | rfl | rfl <;> exact scalar_lit _

/-- **A report that Python assembled on a log is accepted in Go**, where Go reads the records of the log
as they are. -/
theorem verifyReportRoot_of_assemble (hlog : Logged records leaves)
    (hrecords : ∀ items, .dict items ∈ records → EventRecord items ∧ Readable items)
    (hsize : leaves.length < 2 ^ 63) {cr : CrosswalkResult} {options : ReportOptions} {env : ReportEnv}
    {c : Checkpoint} {entries : List ReportEntry} {report : Items}
    (h : assembleReport cr key options env c entries = .ok report) {origin : Str}
    {timestamp : Option Str} {clock : Except PyErr Str}
    (hc : Ledger.signSnapshot origin key timestamp clock (leaves.length, hex (Merkle.treeHash leaves))
      = .ok c)
    (hentries : List.Forall₂ (EntryOf records leaves) (List.range leaves.length) entries)
    (hed : ∀ data sig, key.sign data = .ok sig → ed key.publicKeyRaw sig data = true)
    (hpem : ∀ raw text, env.publicKeyPem raw = .ok text → publicKeyRawFromPEM (ofStr text) = .ok raw) :
    verifyReportRoot formatFloat ed publicKeyRawFromPEM (goItems report) = .ok () := by
  obtain ⟨gaps, reportId, generatedAt, pemText, payload, signature, -, hpemText, -, -, rfl⟩ :=
    assembleReport_eq_ok h
  -- what the checkpoint carries, and what it is signed over
  obtain ⟨t, data, sig, hdata, hsig, hc⟩ : ∃ t data sig,
      Signing.checkpointSigningBytes origin leaves.length (hex (Merkle.treeHash leaves)) t = .ok data ∧
      key.sign data = .ok sig ∧ c = ⟨origin, leaves.length, hex (Merkle.treeHash leaves), t, key.keyId,
        b64encode sig, []⟩ := by
    rw [Ledger.signSnapshot] at hc
    obtain ⟨t, -, hc⟩ := bind_eq_ok.mp hc
    rw [signCheckpoint] at hc
    obtain ⟨data, hdata, hc⟩ := bind_eq_ok.mp hc
    obtain ⟨sig, hsig, hc⟩ := bind_eq_ok.mp hc
    exact ⟨t, data, sig, hdata, hsig, (pure_eq_ok.mp hc).symm⟩
  have hcp : valueAt (goItems (unsignedReport cr options reportId generatedAt pemText c entries gaps
      ++ [(lit "signature", signatureBlock key signature)])) "checkpoint" = goVal c.dump := by
    rw [valueAt_goItems scalarKeys_signedReport]
    rfl
  have hevents : valueAt (goItems (unsignedReport cr options reportId generatedAt pemText c entries gaps
      ++ [(lit "signature", signatureBlock key signature)])) "events"
      = goVal (.list (entries.map ReportEntry.dump)) := by
    rw [valueAt_goItems scalarKeys_signedReport]
    rfl
  have hpemValue : valueAt (goItems (unsignedReport cr options reportId generatedAt pemText c entries gaps
      ++ [(lit "signature", signatureBlock key signature)])) "public_key_pem" = goVal (.str pemText) := by
    rw [valueAt_goItems scalarKeys_signedReport]
    rfl
  have hhead : ∀ k : String, valueAt (goItems (checkpointItems c)) k
      = (((checkpointItems c).lookup (lit k)).map goVal).getD .nil :=
    valueAt_goItems scalarKeys_checkpointItems
  have hfits : inInt64 (leaves.length : Int) := ⟨by omega, by omega⟩
  have htreeSize : toInt (valueAt (goItems (checkpointItems c)) "tree_size") = leaves.length := by
    rw [hhead, hc]
    exact toInt_goVal hfits
  refine verifyReportRoot_eq_ok.mpr ⟨goItems (checkpointItems c), _, key.publicKeyRaw,
    Verify.numbered leaves, leaves, sig, data, ?_, hevents, ?_,
    foldlM_addLeaf_dump hlog hrecords hsize hentries, ?_, ?_, ?_, ?_, ?_, hed data sig hsig⟩
  · rw [hcp, hc]
    rfl
  · rw [hpemValue]
    exact hpem _ _ hpemText
  · rw [htreeSize]
    exact Int.natCast_nonneg _
  · rw [htreeSize, Int.toNat_natCast]
    exact mapM_leafAt_numbered leaves
  · rw [hhead, hc, treeHash_eq]
    rfl
  · rw [hhead, hc]
    exact base64Decode_base64String sig
  · rw [htreeSize, hhead, hhead, hhead, hc]
    exact checkpointSigningBytes_ofStr hdata

/-- **What Python reports, Go accepts.** Let a ledger be reached from an empty backend by commits of
validated events, corrections and reopenings, and let Go read its records as they are. A report on the
ledger that is built before it changes (under a checkpoint of that ledger, if one is given) is accepted
in Go, which finds the root of the ledger in the events and the signature of the checkpoint.

Signatures that the key makes verify, the PEM text of a key is read back, validating a record of the
ledger and dumping it again gives the record, and the size of the ledger is a machine integer. -/
theorem verifyReportRoot_of_buildReport {σ : Type} (B : LedgerBackend σ) (store : σ)
    (hstore : B.records store = []) (origin : Str) (retention : Option (Str → Except PyErr Str))
    (calls : List Ledger.LedgerCall) (hcalls : ∀ call ∈ calls, call.Modelled) (cr : CrosswalkResult)
    (key : KeySource) (ed : Ed25519)
    (hed : ∀ data sig, key.sign data = .ok sig → ed key.publicKeyRaw sig data = true)
    (publicKeyRawFromPEM : GoString → Except GoString Bytes) (env : ReportEnv)
    (hpem : ∀ raw text, env.publicKeyPem raw = .ok text → publicKeyRawFromPEM (ofStr text) = .ok raw)
    (reload : Reload) (options : ReportOptions) (formatFloat : PyFloat → Option GoString) :
    ∃ l₀, Ledger.init B store origin retention = .ok l₀ ∧
      let l := Ledger.run B l₀ calls
      (∀ record ∈ B.records l.store, reload record = .ok record) →
      (∀ items, .dict items ∈ B.records l.store → Readable items) → l.leaves.length < 2 ^ 63 →
      (∀ c, options.checkpoint = some c → ∃ timestamp clock, l.checkpoint key timestamp clock = .ok c) →
      ∀ report, buildReport B reload l cr key options env = .ok report →
        verifyReportRoot formatFloat ed publicKeyRawFromPEM (goItems report) = .ok () := by
  obtain ⟨l₀, hinit, hinv₀⟩ := Ledger.init_empty hstore origin retention
  refine ⟨l₀, hinit, ?_⟩
  intro l hreload hread hsize hcheckpoint report hbuild
  have hinv : Ledger.Inv B l := hinv₀.run calls
  have hmodelled : Ledger.ModelledRecords B l :=
    (Ledger.modelledRecords_init_empty hstore hinit).run hcalls
  have hlog : Logged (B.records l.store) l.leaves :=
    logged_of_inv hinv ((Ledger.dumped_init_empty hstore hinit).run calls)
  have hrecords : ∀ items, .dict items ∈ B.records l.store → EventRecord items ∧ Readable items := by
    intro items hitems
    obtain ⟨event, hevent, hdump⟩ := hmodelled _ hitems
    have hitem := hread items hitems
    exact ⟨eventRecord_of_dump hevent hdump hitem.plain, hitem⟩
  -- the checkpoint is one of the ledger
  rw [buildReport] at hbuild
  obtain ⟨_, -, hbuild⟩ := bind_eq_ok.mp hbuild
  obtain ⟨c, hc, hbuild⟩ := bind_eq_ok.mp hbuild
  obtain ⟨entries, hentries, hbuild⟩ := bind_eq_ok.mp hbuild
  obtain ⟨timestamp, clock, htaken⟩ : ∃ timestamp clock, l.checkpoint key timestamp clock = .ok c := by
    rw [reportCheckpointOf] at hc
    split at hc
    · rename_i c' hgiven
      exact hcheckpoint c (hgiven.trans (congrArg some (Except.ok.inj hc)))
    · exact ⟨_, _, hc⟩
  rw [Ledger.checkpoint, Ledger.snapshot, hinv.tree.root_eq] at htaken
  have hcsize := (Ledger.signSnapshot_eq_ok htaken).1
  -- the entries are those of the whole log
  have hentries' : List.Forall₂ (EntryOf (B.records l.store) l.leaves) (List.range l.leaves.length)
      entries := by
    rw [hcsize, Int.toNat_natCast, mapM_eq_ok] at hentries
    refine List.forall₂_iff_get.mpr ⟨hentries.length_eq, fun i hi hi' => ?_⟩
    have hentry := (List.forall₂_iff_get.mp hentries).2 i hi hi'
    rw [List.length_range] at hi
    simp only [List.get_eq_getElem, List.getElem_range] at hentry ⊢
    have hentryOf := entryOf_reportEntry hreload le_rfl hi hentry
    rwa [List.take_length, ← hinv.length_records, List.take_length] at hentryOf
  exact verifyReportRoot_of_assemble hlog hrecords hsize hbuild htaken hentries' hed hpem

end Reports

/-! ## The sample ledger -/

/-- The PEM text of the sample producer's key is read back in Go. -/
def samplePublicKeyRawFromPEM (text : GoString) : Except GoString Bytes :=
  if text = ofStr samplePem then .ok sampleKey else .error (goLit "invalid PEM")

/-- The report on the sample ledger is accepted. -/
theorem verifyReportRoot_of_buildReport_sample : ∃ report,
    buildReport inMemoryLedgerBackend sampleReload threeLedger sampleResult
      (madeKey sampleKey sampleMade) sampleOptions sampleEnv = .ok report ∧
    verifyReportRoot (fun _ => none) (madeBy sampleKey sampleMade) samplePublicKeyRawFromPEM
      (goItems report) = .ok () := by
  obtain ⟨report, hreport⟩ := exists_sampleReport
  -- the PEM text of the key is read back
  have hpem : ∀ raw text, sampleEnv.publicKeyPem raw = .ok text →
      samplePublicKeyRawFromPEM (ofStr text) = .ok raw := by
    intro raw text h
    rw [sampleEnv] at h
    dsimp only at h
    split at h
    · rename_i hraw
      rw [hraw, ← Except.ok.inj h, samplePublicKeyRawFromPEM, if_pos rfl]
    · cases h
  obtain ⟨l₀, hinit, h⟩ := verifyReportRoot_of_buildReport inMemoryLedgerBackend [] rfl (lit "openwright")
    none threeCalls modelled_threeCalls sampleResult (madeKey sampleKey sampleMade)
    (madeBy sampleKey sampleMade) (fun _ _ h => madeBy_of_sign h) samplePublicKeyRawFromPEM sampleEnv hpem
    sampleReload sampleOptions fun _ => none
  obtain rfl : sampleNew = l₀ := Except.ok.inj hinit
  rw [run_threeCalls] at h
  refine ⟨report, hreport, h (fun record hrecord => ?_) (fun items hitems => ?_) ?_
    (fun c hc => by cases hc) report hreport⟩
  · exact sampleReload_threeRecords record (records_threeLedger ▸ hrecord)
  · exact readable_threeRecords (records_threeLedger ▸ hitems)
  · rw [reads_threeLedger.2.2.1]
    decide

end OpenWright.Go
