import OpenWright.Canonical
import OpenWright.Python.Base64

/-! # Signing and checkpoints

Key sources, the verification of Ed25519 signatures, and checkpoints: signed tree heads that bind a
Merkle root to a tree size, an origin and a timestamp.

The signature scheme itself is not part of the repository. Verification takes it as a predicate
`Ed25519` on a public key, a signature and the signed data; a key source is whatever signs. -/

namespace OpenWright.Signing

open Python Hash Canonical

/-- Whether a signature by the raw public key over the data verifies: `verify_signature`, which
answers `False` for a malformed key as well. -/
abbrev Ed25519 := Bytes → Bytes → Bytes → Bool

/-- `key_id_for`. -/
def keyIdFor (publicKeyRaw : Bytes) : Str :=
  lit "ed25519:" ++ (sha256Hex publicKeyRaw).take 32

/-- `KeySource`: a file, a variable, or a device; signing may fail. -/
structure KeySource where
  sign : Bytes → Except PyErr Bytes
  publicKeyRaw : Bytes

/-- `KeySource.key_id`. -/
def KeySource.keyId (key : KeySource) : Str := keyIdFor key.publicKeyRaw

/-- `checkpoint_signing_bytes`. -/
def checkpointSigningBytes (origin : Str) (treeSize : Int) (rootHashHex timestamp : Str) :
    Except PyErr Bytes :=
  canonicalBytes (.dict [(lit "origin", .str origin), (lit "root_hash", .str rootHashHex),
    (lit "timestamp", .str timestamp), (lit "tree_size", .int treeSize)])

/-- `Checkpoint`: a signed tree head. -/
structure Checkpoint where
  origin : Str
  treeSize : Int
  /-- The root in hexadecimal. -/
  rootHash : Str
  timestamp : Str
  publicKeyId : Str
  /-- The signature in base64. -/
  signature : Str
  /-- The fields `extra="allow"` lets through. -/
  extra : Items := []
deriving DecidableEq

namespace Checkpoint

/-- `Checkpoint.signing_bytes`. -/
def signingBytes (c : Checkpoint) : Except PyErr Bytes :=
  checkpointSigningBytes c.origin c.treeSize c.rootHash c.timestamp

/-- `Checkpoint.verify`. -/
def verify (ed : Ed25519) (c : Checkpoint) (publicKeyRaw : Bytes) : Except PyErr Bool :=
  if keyIdFor publicKeyRaw ≠ c.publicKeyId then return false
  else
    match b64decode c.signature with
    | none => return false
    | some sig => do
      let data ← c.signingBytes
      return ed publicKeyRaw sig data

end Checkpoint

/-- `sign_checkpoint`. -/
def signCheckpoint (key : KeySource) (origin : Str) (treeSize : Int) (rootHashHex timestamp : Str) :
    Except PyErr Checkpoint := do
  let data ← checkpointSigningBytes origin treeSize rootHashHex timestamp
  let signature ← key.sign data
  return { origin, treeSize, rootHash := rootHashHex, timestamp, publicKeyId := key.keyId,
           signature := b64encode signature }

/-- A signed checkpoint carries the head it was asked for. -/
theorem signCheckpoint_eq_ok {key : KeySource} {origin rootHashHex timestamp : Str}
    {treeSize : Int} {c : Checkpoint}
    (h : signCheckpoint key origin treeSize rootHashHex timestamp = .ok c) :
    c.origin = origin ∧ c.treeSize = treeSize ∧ c.rootHash = rootHashHex ∧
      c.timestamp = timestamp := by
  rw [signCheckpoint] at h
  obtain ⟨data, -, h⟩ := bind_eq_ok.mp h
  obtain ⟨signature, -, h⟩ := bind_eq_ok.mp h
  rw [← pure_eq_ok.mp h]
  exact ⟨rfl, rfl, rfl, rfl⟩

/-- **The signed bytes say what was signed.** -/
theorem checkpointSigningBytes_injective {o o' r r' t t' : Str} {n n' : Int} {data : Bytes}
    (h : checkpointSigningBytes o n r t = .ok data)
    (h' : checkpointSigningBytes o' n' r' t' = .ok data) : o = o' ∧ n = n' ∧ r = r' ∧ t = t' := by
  obtain ⟨c, d, hc, hd, hsorted⟩ := sorted_clean_eq_of_canonicalBytes_eq h h'
  rw [← Except.ok.inj (show _ = Except.ok c from hc), ← Except.ok.inj (show _ = Except.ok d from hd),
    Json.sorted, Json.sorted, Val.dict.injEq] at hsorted
  -- the dictionaries bind each of the four keys to one value
  have hbound := fun k => congrArg (List.lookup k) hsorted
  simp only [lookup_sortKeys, Json.sortedItems, Json.sorted] at hbound
  refine ⟨?_, ?_, ?_, ?_⟩
  · exact Val.str.inj (Option.some.inj (hbound (lit "origin")))
  · exact Val.int.inj (Option.some.inj (hbound (lit "tree_size")))
  · exact Val.str.inj (Option.some.inj (hbound (lit "root_hash")))
  · exact Val.str.inj (Option.some.inj (hbound (lit "timestamp")))

/-- What verifies is signed. -/
theorem Checkpoint.exists_signed {ed : Ed25519} {c : Checkpoint} {publicKeyRaw : Bytes}
    (h : c.verify ed publicKeyRaw = .ok true) :
    ∃ data sig, c.signingBytes = .ok data ∧ ed publicKeyRaw sig data = true := by
  rw [verify] at h
  split at h
  · cases h
  · split at h
    · cases h
    · rename_i sig _
      obtain ⟨data, hdata, h⟩ := bind_eq_ok.mp h
      exact ⟨data, sig, hdata, pure_eq_ok.mp h⟩

/-! ## Sample key pairs

An Ed25519 key pair, given by its public key and the signatures it made: by signed data, each with
its signature. -/

/-- The signatures a key pair made verify, and no others. -/
def madeBy (publicKeyRaw : Bytes) (made : List (Bytes × Bytes)) : Ed25519 :=
  fun key sig data => decide (key = publicKeyRaw ∧ (data, sig) ∈ made)

/-- The key source that makes the listed signatures. -/
def madeKey (publicKeyRaw : Bytes) (made : List (Bytes × Bytes)) : KeySource where
  publicKeyRaw
  sign data :=
    match made.lookup data with
    | some sig => .ok sig
    | none => .error { kind := .other }

/-- A sample key signs what is on its list. -/
theorem exists_sign_of_mem {publicKeyRaw data sig : Bytes} {made : List (Bytes × Bytes)}
    (h : (data, sig) ∈ made) : ∃ sig', (madeKey publicKeyRaw made).sign data = .ok sig' := by
  have hlookup : made.lookup data ≠ none := fun hnone =>
    absurd (List.lookup_eq_none_iff.mp hnone (data, sig) h) (by simp)
  obtain ⟨sig', hsig'⟩ := Option.ne_none_iff_exists'.mp hlookup
  exact ⟨sig', by simp only [madeKey, hsig']⟩

/-- The signatures of a sample key verify. -/
theorem madeBy_of_sign {publicKeyRaw data sig : Bytes} {made : List (Bytes × Bytes)}
    (h : (madeKey publicKeyRaw made).sign data = .ok sig) :
    madeBy publicKeyRaw made publicKeyRaw sig data = true := by
  rw [madeKey] at h
  dsimp only at h
  split at h
  · rename_i sig' hlookup
    obtain ⟨l₁, l₂, rfl, -⟩ := List.lookup_eq_some_iff.mp hlookup
    rw [← Except.ok.inj h]
    exact decide_eq_true ⟨rfl, List.mem_append_right l₁ List.mem_cons_self⟩
  · cases h

/-- A sample producer's public key. -/
def sampleKey : Bytes :=
  [3, 161, 7, 191, 243, 206, 16, 190, 29, 112, 221, 24,
   231, 75, 192, 153, 103, 228, 214, 48, 155, 165, 13, 95,
   29, 220, 134, 100, 18, 85, 49, 184]

/-- A head of the sample producer, with its signature. -/
def sampleHead (treeSize : Int) (root sig : Bytes) : Checkpoint where
  origin := lit "openwright"
  treeSize
  rootHash := hex root
  timestamp := lit "2026-01-01T00:00:00Z"
  publicKeyId := keyIdFor sampleKey
  signature := b64encode sig

/-- A checkpoint with a genuine signature verifies. -/
theorem Checkpoint.verify_eq_ok_true {ed : Ed25519} {c : Checkpoint} {publicKeyRaw sig data : Bytes}
    (hkey : c.publicKeyId = keyIdFor publicKeyRaw) (hsig : c.signature = b64encode sig)
    (hdata : c.signingBytes = .ok data) (hed : ed publicKeyRaw sig data = true) :
    c.verify ed publicKeyRaw = .ok true := by
  rw [verify, if_neg (not_not.mpr hkey.symm), hsig, b64decode_b64encode, hdata]
  exact congrArg Except.ok hed

/-- The signing bytes of a checkpoint with a signature over them. -/
def Checkpoint.signedAs (c : Checkpoint) (sig : Bytes) : Bytes × Bytes :=
  (c.signingBytes.toOption.getD [], sig)

/-- What a signature of a head is over. -/
theorem Checkpoint.signedAs_eq {c : Checkpoint} {data : Bytes} (hdata : c.signingBytes = .ok data)
    (sig : Bytes) : c.signedAs sig = (data, sig) := by
  rw [signedAs, hdata]
  rfl

/-- It signs what is on its list. -/
theorem madeKey_sign {c : Checkpoint} {publicKeyRaw data : Bytes} {made : List (Bytes × Bytes)}
    (sig : Bytes) (hdata : c.signingBytes = .ok data) (hmade : c.signedAs sig ∈ made) :
    ∃ sig', (madeKey publicKeyRaw made).sign data = .ok sig' :=
  exists_sign_of_mem (Checkpoint.signedAs_eq hdata sig ▸ hmade)

/-- A sample head that was signed verifies. -/
theorem sampleHead_verify {treeSize : Int} {root sig data : Bytes} {made : List (Bytes × Bytes)}
    (hdata : (sampleHead treeSize root sig).signingBytes = .ok data)
    (hmade : (sampleHead treeSize root sig).signedAs sig ∈ made) :
    (sampleHead treeSize root sig).verify (madeBy sampleKey made) sampleKey = .ok true := by
  refine Checkpoint.verify_eq_ok_true rfl rfl hdata (decide_eq_true ⟨rfl, ?_⟩)
  rwa [Checkpoint.signedAs_eq hdata] at hmade

end OpenWright.Signing
