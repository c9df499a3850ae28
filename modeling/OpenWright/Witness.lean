import OpenWright.Signing
import OpenWright.Merkle.Consistency

/-! # The checkpoint witness

An independent party that co-signs the signed tree heads of a producer. It keeps the last head it
endorsed, and asks a larger one for a proof that it extends that head.

* **`cosign_consistent`** — in every run, any two endorsed heads are heads of one log, as long as no
  call brings another root for the size of the last endorsed head: that case `cosign` does not look
  at. -/

namespace OpenWright

open Hash Python Merkle Signing

/-! ## Co-signing -/

/-- `WitnessCosignature`. -/
structure WitnessCosignature where
  witnessKeyId : Str
  treeSize : Int
  rootHash : Str
  /-- Base64 over the signing bytes of the checkpoint. -/
  signature : Str
deriving DecidableEq

/-- `Witness`: its key and the last checkpoint it endorsed. -/
structure Witness where
  key : KeySource
  last : Option Checkpoint

/-- The arguments of a call to `Witness.cosign`. -/
structure CosignCall where
  checkpoint : Checkpoint
  producerPublicKeyRaw : Bytes
  consistencyProofHex : Option (List Str)

namespace Witness

/-- `Witness.__init__`. -/
def new (key : KeySource) : Witness := { key, last := none }

/-- `raise WitnessError(text)`. -/
def witnessError (text : String) : PyErr := { kind := .witnessError, msg := [.text (lit text)] }

/-- Step 2 of `Witness.cosign`: the checkpoint has to extend the last endorsed one. -/
def checkExtends (last : Checkpoint) (call : CosignCall) : Except PyErr Unit :=
  if call.checkpoint.treeSize < last.treeSize then
    .error (witnessError "checkpoint tree_size went backwards")
  else if call.checkpoint.treeSize > last.treeSize then do
    let proof ← (call.consistencyProofHex.getD []).mapM unhex
    let firstRoot ← unhex last.rootHash
    let secondRoot ← unhex call.checkpoint.rootHash
    if verifyConsistency last.treeSize call.checkpoint.treeSize firstRoot secondRoot proof then
      return ()
    else .error (witnessError "consistency proof from last endorsed checkpoint failed")
  -- of the same size, nothing is asked for: the roots are not compared
  else return ()

/-- What `Witness.cosign` does before it changes the witness: the two checks and the signature. -/
def endorse (ed : Ed25519) (w : Witness) (call : CosignCall) : Except PyErr Bytes := do
  let valid ← call.checkpoint.verify ed call.producerPublicKeyRaw
  if valid = false then .error (witnessError "producer signature on checkpoint is invalid")
  else do
    w.last.forM (checkExtends · call)
    let data ← call.checkpoint.signingBytes
    w.key.sign data

/-- `Witness.cosign`: what it returns or raises, and the witness afterwards. -/
def cosign (ed : Ed25519) (w : Witness) (call : CosignCall) :
    Except PyErr WitnessCosignature × Witness :=
  match endorse ed w call with
  | .error err => (.error err, w)
  | .ok sig =>
    (.ok { witnessKeyId := w.key.keyId, treeSize := call.checkpoint.treeSize,
           rootHash := call.checkpoint.rootHash, signature := b64encode sig },
      { w with last := some call.checkpoint })

/-- The strings step 2 of a call hashes. -/
def hashedByCheckExtends (last : Checkpoint) (call : CosignCall) : List Bytes :=
  if call.checkpoint.treeSize > last.treeSize then
    match (call.consistencyProofHex.getD []).mapM unhex, unhex last.rootHash with
    | .ok proof, .ok firstRoot =>
      hashedByVerifyConsistency last.treeSize call.checkpoint.treeSize firstRoot proof
    | _, _ => []
  else []

/-- **What a call does**: it raises and leaves the witness as it was, or it endorses a checkpoint
that passed the check against the last one, and keeps it. -/
theorem cosign_cases (ed : Ed25519) (w : Witness) (call : CosignCall) :
    (∃ err, cosign ed w call = (.error err, w)) ∨
      ∃ cosig, cosign ed w call = (.ok cosig, { w with last := some call.checkpoint }) ∧
        ∀ last, w.last = some last → checkExtends last call = .ok () := by
  rw [cosign]
  cases hendorse : endorse ed w call with
  | error err => exact Or.inl ⟨err, rfl⟩
  | ok sig =>
      refine Or.inr ⟨_, rfl, fun last hlast => ?_⟩
      rw [endorse] at hendorse
      obtain ⟨valid, -, hendorse⟩ := bind_eq_ok.mp hendorse
      cases valid with
      | false => cases hendorse
      | true =>
          rw [if_neg (by decide), hlast] at hendorse
          obtain ⟨_, hcheck, -⟩ := bind_eq_ok.mp hendorse
          exact hcheck

/-- **What passes the checks is endorsed.** -/
theorem cosign_eq_ok {ed : Ed25519} {w : Witness} {call : CosignCall} {data sig : Bytes}
    (hvalid : call.checkpoint.verify ed call.producerPublicKeyRaw = .ok true)
    (hcheck : ∀ last, w.last = some last → checkExtends last call = .ok ())
    (hdata : call.checkpoint.signingBytes = .ok data) (hsign : w.key.sign data = .ok sig) :
    ∃ cosig, cosign ed w call = (.ok cosig, { w with last := some call.checkpoint }) := by
  have hextends : w.last.forM (checkExtends · call) = .ok () := by
    cases hlast : w.last with
    | none => rfl
    | some last => exact hcheck last hlast
  have hendorse : endorse ed w call = .ok sig := by
    rw [endorse, hvalid]
    refine bind_eq_ok.mpr ⟨true, rfl, ?_⟩
    rw [if_neg (by decide)]
    exact bind_eq_ok.mpr ⟨(), hextends, bind_eq_ok.mpr ⟨data, hdata, hsign⟩⟩
  exact ⟨_, by rw [cosign, hendorse]⟩

/-! ## The steps of a call -/

/-- The comparison: the producer's signature, and the head against the last endorsed one. -/
def checkCall (ed : Ed25519) (last : Option Checkpoint) (call : CosignCall) : Except PyErr Unit := do
  let valid ← call.checkpoint.verify ed call.producerPublicKeyRaw
  if valid = false then .error (witnessError "producer signature on checkpoint is invalid")
  else last.forM (checkExtends · call)

/-- The signature. -/
def signCall (key : KeySource) (call : CosignCall) : Except PyErr Bytes := do
  let data ← call.checkpoint.signingBytes
  key.sign data

/-- What a granted call returns. -/
def cosignature (key : KeySource) (call : CosignCall) (sig : Bytes) : WitnessCosignature where
  witnessKeyId := key.keyId
  treeSize := call.checkpoint.treeSize
  rootHash := call.checkpoint.rootHash
  signature := b64encode sig

/-- `cosign` checks and then signs. -/
theorem endorse_eq (ed : Ed25519) (w : Witness) (call : CosignCall) :
    endorse ed w call = (checkCall ed w.last call >>= fun _ => signCall w.key call) := by
  unfold endorse checkCall signCall
  cases call.checkpoint.verify ed call.producerPublicKeyRaw with
  | error err => rfl
  | ok valid =>
      cases valid with
      | false => rfl
      | true => rfl

section Steps

variable {ed : Ed25519} {w : Witness} {call : CosignCall} {err : PyErr} {sig : Bytes}

/-- A call that fails the comparison is refused. -/
theorem cosign_of_check_error (h : checkCall ed w.last call = .error err) :
    cosign ed w call = (.error err, w) := by
  have hendorse : endorse ed w call = .error err := by
    rw [endorse_eq, h]
    rfl
  unfold cosign
  rw [hendorse]

/-- A call that cannot be signed is refused. -/
theorem cosign_of_sign_error (h : checkCall ed w.last call = .ok ())
    (hsign : signCall w.key call = .error err) : cosign ed w call = (.error err, w) := by
  have hendorse : endorse ed w call = .error err := by
    rw [endorse_eq, h]
    exact hsign
  unfold cosign
  rw [hendorse]

/-- A call that passes both is granted. -/
theorem cosign_of_sign (h : checkCall ed w.last call = .ok ()) (hsign : signCall w.key call = .ok sig) :
    cosign ed w call = (.ok (cosignature w.key call sig), { w with last := some call.checkpoint }) := by
  have hendorse : endorse ed w call = .ok sig := by
    rw [endorse_eq, h]
    exact hsign
  unfold cosign
  rw [hendorse]
  rfl

end Steps

/-! ## Passing the checks -/

/-- A passed check: the size did not go down, and a larger one came with an accepted proof. -/
theorem checkExtends_eq_ok {last : Checkpoint} {call : CosignCall}
    (h : checkExtends last call = .ok ()) :
    last.treeSize ≤ call.checkpoint.treeSize ∧ (last.treeSize < call.checkpoint.treeSize →
      ∃ proof firstRoot secondRoot, (call.consistencyProofHex.getD []).mapM unhex = .ok proof ∧
        fromhex last.rootHash = some firstRoot ∧
        fromhex call.checkpoint.rootHash = some secondRoot ∧
        verifyConsistency last.treeSize call.checkpoint.treeSize firstRoot secondRoot proof = true ∧
        hashedByCheckExtends last call = hashedByVerifyConsistency last.treeSize
          call.checkpoint.treeSize firstRoot proof) := by
  rw [checkExtends] at h
  split at h
  · cases h
  rename_i hle
  refine ⟨by omega, fun hlt => ?_⟩
  rw [if_pos hlt] at h
  obtain ⟨proof, hproof, h⟩ := bind_eq_ok.mp h
  obtain ⟨firstRoot, hfirst, h⟩ := bind_eq_ok.mp h
  obtain ⟨secondRoot, hsecond, h⟩ := bind_eq_ok.mp h
  split at h
  · rename_i haccept
    refine ⟨proof, firstRoot, secondRoot, hproof, unhex_eq_ok.mp hfirst, unhex_eq_ok.mp hsecond,
      haccept, ?_⟩
    rw [hashedByCheckExtends, if_pos hlt, hproof, hfirst]
  · cases h

/-! ## Heads of one log -/

/-- A checkpoint is the head of the log with the leaf hashes `L`. -/
def HeadOf (c : Checkpoint) (L : List Bytes) : Prop :=
  c.treeSize = L.length ∧ fromhex c.rootHash = some (treeHash L)

/-- The strings of `S` include those that the tree hashes of `L` and its prefixes hash. -/
def Covers (S L : List Bytes) : Prop :=
  ∀ k, ∀ s ∈ hashedByTreeHash (L.take k), s ∈ S

/-- Two heads are consistent: of equal sizes they have one root, and where the larger is the head of
a log the smaller is the head of a prefix. -/
structure Consistent (S : List Bytes) (c d : Checkpoint) : Prop where
  rootHash_eq : c.treeSize = d.treeSize → c.rootHash = d.rootHash
  headOf_take : 0 < c.treeSize → c.treeSize < d.treeSize → ∀ L : List Bytes,
    (∀ l ∈ L, l.length = 32) → Covers S L → HeadOf d L → HeadOf c (L.take c.treeSize.toNat)

/-- The later head `d` extends the earlier head `c`. -/
structure Extends (S : List Bytes) (c d : Checkpoint) : Prop where
  size_le : c.treeSize ≤ d.treeSize
  rootHash_eq : c.treeSize = d.treeSize → c.rootHash = d.rootHash
  headOf_take : 0 < c.treeSize → ∀ L : List Bytes, (∀ l ∈ L, l.length = 32) → Covers S L →
    HeadOf d L → HeadOf c (L.take c.treeSize.toNat)

variable {S : List Bytes}

/-- Prefixes are covered. -/
theorem Covers.take {L : List Bytes} (h : Covers S L) (k : Nat) : Covers S (L.take k) := by
  intro j s hs
  rw [List.take_take] at hs
  exact h _ s hs

/-- **Extension is transitive.** -/
theorem Extends.trans {c d e : Checkpoint} (hcd : Extends S c d) (hde : Extends S d e) :
    Extends S c e where
  size_le := hcd.size_le.trans hde.size_le
  rootHash_eq heq := by
    have hcd' := hcd.size_le
    have hde' := hde.size_le
    exact (hcd.rootHash_eq (by omega)).trans (hde.rootHash_eq (by omega))
  headOf_take hpos L hL hS he := by
    have hsize := hcd.size_le
    have hd := hde.headOf_take (by omega) L hL hS he
    have hc := hcd.headOf_take hpos _ (fun l hl => hL l (List.mem_of_mem_take hl)) (hS.take _) hd
    rwa [List.take_take, Nat.min_eq_left (by omega)] at hc

instance : Trans (Extends S) (Extends S) (Extends S) := ⟨Extends.trans⟩

/-- An extended head is consistent with its extension, both ways round. -/
theorem Extends.consistent {c d : Checkpoint} (h : Extends S c d) :
    Consistent S c d ∧ Consistent S d c := by
  refine ⟨⟨h.rootHash_eq, fun hpos _ => h.headOf_take hpos⟩,
    ⟨fun heq => (h.rootHash_eq heq.symm).symm, fun _ hlt => ?_⟩⟩
  have hsize := h.size_le
  omega

/-! ## Runs -/

/-- A checkpoint of non-negative size with a 32-byte root. -/
def WellFormed (c : Checkpoint) : Prop :=
  0 ≤ c.treeSize ∧ ∃ root, fromhex c.rootHash = some root ∧ root.length = 32

/-- A call with such a checkpoint, and a proof whose nodes have 32 bytes. -/
def CallWellFormed (call : CosignCall) : Prop :=
  WellFormed call.checkpoint ∧
    ∀ h ∈ call.consistencyProofHex.getD [], ∀ node, fromhex h = some node → node.length = 32

/-- The call does not bring another root for the size of the last endorsed head. -/
def SameHead (w : Witness) (call : CosignCall) : Prop :=
  ∀ last, w.last = some last → call.checkpoint.treeSize = last.treeSize →
    call.checkpoint.rootHash = last.rootHash

/-- No call of a run brings another root for the size of the head endorsed last before it. -/
def SameHeads (ed : Ed25519) : Witness → List CosignCall → Prop
  | _, [] => True
  | w, call :: calls => SameHead w call ∧ SameHeads ed (cosign ed w call).2 calls

/-- The checkpoints a run endorses, in order. -/
def endorsed (ed : Ed25519) : Witness → List CosignCall → List Checkpoint
  | _, [] => []
  | w, call :: calls =>
    match cosign ed w call with
    | (.ok _, w') => call.checkpoint :: endorsed ed w' calls
    | (.error _, w') => endorsed ed w' calls

/-- The strings the consistency checks of a run hash. -/
def hashedByRun (ed : Ed25519) : Witness → List CosignCall → List Bytes
  | _, [] => []
  | w, call :: calls =>
    w.last.toList.flatMap (hashedByCheckExtends · call) ++ hashedByRun ed (cosign ed w call).2 calls

/-- A run that starts with an endorsement. -/
theorem run_of_ok {ed : Ed25519} {w w' : Witness} {call : CosignCall} {cosig : WitnessCosignature}
    (h : cosign ed w call = (.ok cosig, w')) (calls : List CosignCall) :
    endorsed ed w (call :: calls) = call.checkpoint :: endorsed ed w' calls ∧
      hashedByRun ed w (call :: calls)
        = w.last.toList.flatMap (hashedByCheckExtends · call) ++ hashedByRun ed w' calls ∧
      (SameHeads ed w (call :: calls) ↔ SameHead w call ∧ SameHeads ed w' calls) := by
  rw [endorsed, hashedByRun, SameHeads, h]
  exact ⟨rfl, rfl, Iff.rfl⟩

/-- **One step**: what a well-formed call gets endorsed extends the last head. -/
theorem extends_of_checkExtends {last : Checkpoint} {call : CosignCall} (hlast : WellFormed last)
    (hcall : CallWellFormed call) (hS : CollisionFree S)
    (hrun : ∀ s ∈ hashedByCheckExtends last call, s ∈ S)
    (hsame : call.checkpoint.treeSize = last.treeSize → call.checkpoint.rootHash = last.rootHash)
    (hcheck : checkExtends last call = .ok ()) : Extends S last call.checkpoint := by
  obtain ⟨hle, hlarger⟩ := checkExtends_eq_ok hcheck
  refine ⟨hle, fun heq => (hsame heq.symm).symm, fun hpos L hL hcover hhead => ?_⟩
  obtain ⟨hsize, hroot⟩ := hhead
  obtain ⟨m, hm⟩ := Int.eq_ofNat_of_zero_le hlast.1
  rw [hm, Int.toNat_natCast]
  rcases hle.eq_or_lt with heq | hlt
  · -- the same size: the same root
    have hmL : m = L.length := by omega
    refine ⟨by rw [hmL, List.take_length, heq, hsize], ?_⟩
    rw [← hsame heq.symm, hroot, hmL, List.take_length]
  · -- a larger size: the accepted proof proves the old root
    obtain ⟨proof, firstRoot, secondRoot, hproof, hfirst, hsecond, haccept, hhashed⟩ := hlarger hlt
    rw [hroot, Option.some.injEq] at hsecond
    subst hsecond
    rw [hm, hsize] at haccept hhashed
    have hnodes : ∀ node ∈ proof, node.length = 32 := by
      intro node hnode
      obtain ⟨h, hmem, hh⟩ := exists_of_mem_mapM hproof hnode
      exact hcall.2 h hmem node (unhex_eq_ok.mp hh)
    have hfirst32 : firstRoot.length = 32 := by
      obtain ⟨root, hroot', hlen⟩ := hlast.2
      rw [hfirst, Option.some.injEq] at hroot'
      rw [hroot', hlen]
    have hold := verifyConsistency_sound hL (m := m) (by omega) (by omega) hS
      (by simpa using hcover L.length) (fun s hs => hrun s (hhashed ▸ hs)) ?_ haccept
    · refine ⟨?_, by rw [hfirst, hold]⟩
      rw [hm, List.length_take, Nat.min_eq_left (by omega)]
    · refine not_recut_of_length hL (by omega) fun c path hpath => ?_
      rw [splicedPath] at hpath
      split at hpath
      · rw [← (List.cons.inj hpath).1, hfirst32]
      · exact hnodes c (hpath ▸ List.mem_cons_self)

/-- **A run**: the last head and the heads endorsed after it form a chain of extensions. -/
theorem isChain_endorsed (ed : Ed25519) (hS : CollisionFree S) : ∀ (calls : List CosignCall)
    (w : Witness), (∀ call ∈ calls, CallWellFormed call) → (∀ c, w.last = some c → WellFormed c) →
      SameHeads ed w calls → (∀ s ∈ hashedByRun ed w calls, s ∈ S) →
      List.IsChain (Extends S) (w.last.toList ++ endorsed ed w calls)
  | [], w, _, _, _, _ => by
      cases hlast : w.last with
      | none => simp [endorsed]
      | some c => simp [endorsed]
  | call :: calls, w, hcalls, hlast, ⟨hsame, hsames⟩, hrun => by
      have hcall := hcalls call List.mem_cons_self
      have hcalls' : ∀ call ∈ calls, CallWellFormed call :=
        fun call hmem => hcalls call (List.mem_cons_of_mem _ hmem)
      have hrun' : ∀ s ∈ hashedByRun ed (cosign ed w call).2 calls, s ∈ S :=
        fun s hs => hrun s (List.mem_append_right _ hs)
      rw [endorsed]
      rcases cosign_cases ed w call with ⟨err, hcosign⟩ | ⟨cosig, hcosign, hcheck⟩
      · -- refused: nothing changes
        rw [hcosign] at hsames hrun' ⊢
        exact isChain_endorsed ed hS calls w hcalls' hlast hsames hrun'
      · rw [hcosign] at hsames hrun' ⊢
        have hchain := isChain_endorsed ed hS calls { w with last := some call.checkpoint } hcalls'
          (fun c hc => Option.some.inj hc ▸ hcall.1) hsames hrun'
        cases hold : w.last with
        | none => exact hchain
        | some last =>
            refine List.isChain_cons_cons.mpr ⟨?_, hchain⟩
            refine extends_of_checkExtends (hlast last hold) hcall hS (fun s hs => ?_)
              (hsame last hold) (hcheck last hold)
            refine hrun s (List.mem_append_left _ ?_)
            rw [hold, Option.toList_some, List.flatMap_singleton]
            exact hs

/-- The heads a run of a new witness endorses are consistent. -/
theorem consistent_of_mem_endorsed {ed : Ed25519} {key : KeySource} {calls : List CosignCall}
    (hcalls : ∀ call ∈ calls, CallWellFormed call) (hsame : SameHeads ed (new key) calls)
    (hS : CollisionFree S) (hrun : ∀ s ∈ hashedByRun ed (new key) calls, s ∈ S) :
    ∀ c ∈ endorsed ed (new key) calls, ∀ d ∈ endorsed ed (new key) calls, Consistent S c d := by
  have hchain := isChain_endorsed ed hS calls (new key) hcalls (by simp [new]) hsame hrun
  rw [new, Option.toList_none, List.nil_append, List.isChain_iff_pairwise] at hchain
  refine List.Pairwise.forall_of_forall_of_flip (fun c _ => ?_)
    (hchain.imp fun h => h.consistent.1) (hchain.imp fun h => h.consistent.2)
  exact ⟨fun _ => rfl, fun _ hlt => absurd hlt (lt_irrefl _)⟩

/-- **A witness never endorses two inconsistent histories**, in a run none of whose calls brings
another root for the size of the last endorsed head; and a refused call changes nothing. -/
theorem cosign_consistent (ed : Ed25519) (key : KeySource) (calls : List CosignCall)
    (hcalls : ∀ call ∈ calls, CallWellFormed call) (hsame : SameHeads ed (new key) calls)
    (S : List Bytes) (hS : CollisionFree S)
    (hrun : ∀ s ∈ hashedByRun ed (new key) calls, s ∈ S) :
    (∀ c ∈ endorsed ed (new key) calls, ∀ d ∈ endorsed ed (new key) calls,
        Consistent S c d) ∧
      ∀ w call err, (cosign ed w call).1 = .error err → (cosign ed w call).2.last = w.last := by
  refine ⟨consistent_of_mem_endorsed hcalls hsame hS hrun, fun w call err herr => ?_⟩
  rcases cosign_cases ed w call with ⟨err', hcosign⟩ | ⟨cosig, hcosign, -⟩
  · rw [hcosign]
  · rw [hcosign] at herr
    cases herr

/-! ## Two runs on the heads of a sample producer -/

/-- A leaf hash of 32 equal bytes. -/
def sampleLeaf (b : UInt8) : Bytes := List.replicate 32 b

/-- The signatures of the producer on the three heads below. -/
def producerSigs : Bytes × Bytes × Bytes :=
  ([63, 45, 157, 215, 17, 161, 61, 127, 225, 128, 50, 255,
    22, 43, 60, 61, 110, 161, 100, 93, 168, 166, 1, 157,
    135, 94, 2, 146, 101, 199, 51, 218, 96, 189, 63, 162,
    206, 209, 133, 106, 230, 148, 89, 46, 26, 114, 135, 21,
    105, 89, 156, 130, 169, 160, 232, 96, 13, 9, 48, 92,
    40, 253, 236, 14],
   [68, 246, 38, 68, 147, 183, 4, 254, 236, 218, 226, 167,
    144, 147, 80, 31, 220, 27, 98, 39, 105, 182, 17, 76,
    166, 106, 68, 55, 135, 190, 37, 179, 233, 212, 189, 120,
    169, 21, 172, 167, 224, 147, 38, 54, 210, 189, 39, 101,
    102, 144, 195, 22, 58, 230, 140, 145, 251, 61, 43, 66,
    39, 12, 153, 5],
   [49, 201, 122, 165, 22, 158, 196, 53, 173, 212, 143, 210,
    218, 39, 52, 154, 109, 8, 176, 60, 158, 48, 101, 51,
    17, 175, 137, 200, 143, 247, 34, 49, 55, 165, 165, 114,
    141, 16, 7, 134, 195, 169, 73, 30, 218, 214, 128, 76,
    150, 102, 106, 250, 141, 230, 190, 83, 66, 150, 208, 28,
    15, 187, 250, 7])

/-- The head of a log with one leaf. -/
def headOne : Checkpoint := sampleHead 1 (treeHash [sampleLeaf 1]) producerSigs.1

/-- The head of the same log with a second leaf. -/
def headTwo : Checkpoint := sampleHead 2 (treeHash [sampleLeaf 1, sampleLeaf 2]) producerSigs.2.1

/-- The head of another log with one leaf. -/
def headFork : Checkpoint := sampleHead 1 (treeHash [sampleLeaf 2]) producerSigs.2.2

/-- The producer signed these three heads. -/
def sampleEd25519 : Ed25519 :=
  madeBy sampleKey [headOne.signedAs producerSigs.1, headTwo.signedAs producerSigs.2.1,
    headFork.signedAs producerSigs.2.2]

/-- The signatures of the witness on them. -/
def witnessSigs : Bytes × Bytes × Bytes :=
  ([4, 209, 145, 31, 111, 108, 240, 104, 170, 17, 87, 238,
    51, 186, 186, 5, 193, 124, 233, 33, 55, 45, 75, 84,
    91, 77, 175, 90, 51, 135, 117, 46, 128, 95, 231, 73,
    39, 225, 6, 196, 84, 173, 199, 192, 238, 235, 68, 130,
    176, 220, 235, 94, 188, 117, 150, 120, 56, 159, 125, 226,
    138, 8, 134, 12],
   [207, 25, 35, 95, 50, 12, 118, 201, 3, 130, 55, 142,
    24, 163, 103, 55, 80, 100, 69, 82, 33, 219, 158, 81,
    167, 186, 116, 55, 49, 220, 220, 114, 20, 210, 75, 229,
    52, 54, 145, 37, 153, 108, 101, 208, 176, 176, 236, 189,
    134, 88, 173, 15, 182, 220, 16, 194, 223, 159, 12, 102,
    195, 11, 11, 6],
   [160, 161, 185, 20, 26, 50, 121, 107, 240, 204, 133, 211,
    226, 254, 61, 169, 253, 159, 107, 49, 162, 225, 13, 250,
    206, 88, 226, 90, 189, 166, 114, 112, 178, 13, 24, 133,
    2, 93, 161, 106, 225, 140, 135, 38, 59, 158, 155, 81,
    116, 226, 122, 134, 40, 121, 238, 211, 3, 254, 134, 61,
    46, 57, 143, 13])

/-- The witness's public key. -/
def witnessKey : Bytes :=
  [41, 172, 186, 225, 65, 188, 202, 240, 178, 46, 26, 148,
   211, 77, 11, 199, 54, 30, 82, 109, 11, 254, 18, 200,
   151, 148, 188, 147, 34, 150, 109, 215]

/-- The witness can sign the three heads. -/
def sampleWitnessKey : KeySource :=
  madeKey witnessKey [headOne.signedAs witnessSigs.1, headTwo.signedAs witnessSigs.2.1,
    headFork.signedAs witnessSigs.2.2]

/-- A call with a head of the producer. -/
def sampleCall (c : Checkpoint) (proof : Option (List Str)) : CosignCall :=
  { checkpoint := c, producerPublicKeyRaw := sampleKey, consistencyProofHex := proof }

/-- The producer's log grows by one leaf. -/
def growingRun : List CosignCall :=
  [sampleCall headOne none, sampleCall headTwo (some [hex (sampleLeaf 2)])]

/-- The producer shows another log of the same size. -/
def forkingRun : List CosignCall := [sampleCall headOne none, sampleCall headFork none]

/-- The signed heads are endorsed where they extend the last one. -/
theorem cosign_sampleCall {w : Witness} (hw : w.key = sampleWitnessKey) {c : Checkpoint}
    (hc : c ∈ [headOne, headTwo, headFork]) (proof : Option (List Str))
    (hcheck : ∀ last, w.last = some last → checkExtends last (sampleCall c proof) = .ok ()) :
    ∃ cosig, cosign sampleEd25519 w (sampleCall c proof) = (.ok cosig, { w with last := some c }) := by
  have hdata : ∃ data, c.signingBytes = .ok data := by
    have hsome : ∀ c ∈ [headOne, headTwo, headFork], c.signingBytes.toOption.isSome := by
      decide +kernel
    cases hdata : c.signingBytes with
    | ok data => exact ⟨data, rfl⟩
    | error err =>
        have hnone := hsome c hc
        rw [hdata] at hnone
        cases hnone
  obtain ⟨data, hdata⟩ := hdata
  have hboth : c.verify sampleEd25519 sampleKey = .ok true ∧
      ∃ sig, sampleWitnessKey.sign data = .ok sig := by
    simp only [List.mem_cons, List.not_mem_nil, or_false] at hc
    rcases hc with rfl | rfl | rfl
    · exact ⟨sampleHead_verify hdata List.mem_cons_self,
        madeKey_sign witnessSigs.1 hdata List.mem_cons_self⟩
    · exact ⟨sampleHead_verify hdata (List.mem_cons_of_mem _ List.mem_cons_self),
        madeKey_sign witnessSigs.2.1 hdata (List.mem_cons_of_mem _ List.mem_cons_self)⟩
    · exact ⟨sampleHead_verify hdata
          (List.mem_cons_of_mem _ (List.mem_cons_of_mem _ List.mem_cons_self)),
        madeKey_sign witnessSigs.2.2 hdata
          (List.mem_cons_of_mem _ (List.mem_cons_of_mem _ List.mem_cons_self))⟩
  obtain ⟨hvalid, sig, hsign⟩ := hboth
  exact cosign_eq_ok hvalid hcheck hdata (hw ▸ hsign)

/-- The witness that endorsed the first head. -/
def afterHeadOne : Witness := { key := sampleWitnessKey, last := some headOne }

/-- The first head is endorsed by a new witness. -/
theorem cosign_headOne : ∃ cosig, cosign sampleEd25519 (new sampleWitnessKey)
    (sampleCall headOne none) = (.ok cosig, afterHeadOne) := by
  refine cosign_sampleCall rfl List.mem_cons_self none fun last hlast => ?_
  cases hlast

/-- The proof in the growing run is accepted. -/
theorem checkExtends_headTwo :
    checkExtends headOne (sampleCall headTwo (some [hex (sampleLeaf 2)])) = .ok () := by
  have hproof : consistencyProof [sampleLeaf 1, sampleLeaf 2] 1 = .ok [sampleLeaf 2] := by
    decide +kernel
  have haccept := verifyConsistency_of_consistencyProof hproof
  have hdecode : ([hex (sampleLeaf 2)] : List Str).mapM unhex = .ok [sampleLeaf 2] :=
    mapM_eq_ok.mpr (.cons (unhex_eq_ok.mpr (fromhex_hex _)) .nil)
  rw [checkExtends, if_neg (by decide), if_pos (by decide)]
  refine bind_eq_ok.mpr ⟨_, hdecode, bind_eq_ok.mpr ⟨_, unhex_eq_ok.mpr (fromhex_hex _),
    bind_eq_ok.mpr ⟨_, unhex_eq_ok.mpr (fromhex_hex _), ?_⟩⟩⟩
  exact if_pos haccept

/-- The heads of the sample producer are well formed. -/
theorem sampleCall_wellFormed {treeSize : Int} (hsize : 0 ≤ treeSize) {L : List Bytes}
    (hL : ∀ l ∈ L, l.length = 32) (sig : Bytes) (proof : List Bytes)
    (hproof : ∀ node ∈ proof, node.length = 32) :
    CallWellFormed (sampleCall (sampleHead treeSize (treeHash L) sig) (some (proof.map hex))) := by
  refine ⟨⟨hsize, treeHash L, fromhex_hex _, length_treeHash hL⟩, fun h hh node hnode => ?_⟩
  obtain ⟨node', hmem, rfl⟩ := List.mem_map.mp hh
  rw [fromhex_hex, Option.some.injEq] at hnode
  exact hnode ▸ hproof node' hmem

/-- The two heads of the growing run are consistent. -/
theorem cosign_consistent_two : endorsed sampleEd25519 (new sampleWitnessKey) growingRun
      = [headOne, headTwo] ∧
    Consistent [nodePrefix ++ sampleLeaf 1 ++ sampleLeaf 2] headOne headTwo := by
  obtain ⟨cosig, hone⟩ := cosign_headOne
  obtain ⟨cosig', htwo⟩ := cosign_sampleCall (w := afterHeadOne) rfl (c := headTwo)
    (List.mem_cons_of_mem _ List.mem_cons_self) (some [hex (sampleLeaf 2)])
    fun last hlast => Option.some.inj hlast ▸ checkExtends_headTwo
  obtain ⟨hendorsed, hhashed, hsame⟩ := run_of_ok hone [sampleCall headTwo (some [hex (sampleLeaf 2)])]
  obtain ⟨hendorsed', hhashed', hsame'⟩ := run_of_ok htwo []
  -- one pair is hashed in the whole run
  have hcheck : hashedByCheckExtends headOne (sampleCall headTwo (some [hex (sampleLeaf 2)]))
      = [nodePrefix ++ sampleLeaf 1 ++ sampleLeaf 2] := by decide +kernel
  rw [hendorsed'] at hendorsed
  rw [hhashed', hashedByRun, List.append_nil] at hhashed
  have hconsistent := (cosign_consistent sampleEd25519 sampleWitnessKey growingRun ?_ ?_
    [nodePrefix ++ sampleLeaf 1 ++ sampleLeaf 2] (collisionFree_of_forall_eq fun t ht =>
      List.mem_singleton.mp ht) ?_).1
  · refine ⟨hendorsed, hconsistent headOne ?_ headTwo ?_⟩
    · exact hendorsed ▸ List.mem_cons_self
    · exact hendorsed ▸ List.mem_cons_of_mem _ List.mem_cons_self
  -- both calls are well formed
  · intro call hcall
    rcases List.mem_cons.mp hcall with rfl | hcall
    · exact ⟨⟨by decide, _, fromhex_hex _, length_treeHash (by decide)⟩, by simp [sampleCall]⟩
    · rw [List.mem_singleton.mp hcall]
      exact sampleCall_wellFormed (by decide) (by decide) _ [sampleLeaf 2] (by decide)
  -- the sizes differ, so nothing is said of equal ones
  · refine hsame.mpr ⟨fun last hlast => ?_, hsame'.mpr ⟨fun last hlast hsize => ?_, trivial⟩⟩
    · cases hlast
    rw [← Option.some.inj hlast] at hsize
    exact absurd hsize (by decide)
  · intro s hs
    rw [growingRun, hhashed] at hs
    have hs' : s ∈ hashedByCheckExtends headOne _ ++ [] := hs
    rwa [List.append_nil, hcheck] at hs'

/-- Both heads of the fork are endorsed. -/
theorem cosign_not_consistent :
    ¬∀ (ed : Ed25519) (key : KeySource) (calls : List CosignCall),
      (∀ call ∈ calls, CallWellFormed call) → ∀ S : List Bytes, CollisionFree S →
        (∀ s ∈ hashedByRun ed (new key) calls, s ∈ S) →
        ∀ c ∈ endorsed ed (new key) calls, ∀ d ∈ endorsed ed (new key) calls, Consistent S c d := by
  intro hclaim
  obtain ⟨cosig, hone⟩ := cosign_headOne
  obtain ⟨cosig', hfork⟩ := cosign_sampleCall (w := afterHeadOne) rfl (c := headFork)
    (List.mem_cons_of_mem _ (List.mem_cons_of_mem _ List.mem_cons_self)) none
    fun last hlast => by
      rw [← Option.some.inj hlast, checkExtends, if_neg (by decide), if_neg (by decide)]
      rfl
  obtain ⟨hendorsed, hhashed, -⟩ := run_of_ok hone [sampleCall headFork none]
  obtain ⟨hendorsed', hhashed', -⟩ := run_of_ok hfork []
  rw [hendorsed'] at hendorsed
  have hsame := (hclaim sampleEd25519 sampleWitnessKey forkingRun ?_ [] ?_ ?_ headOne ?_ headFork
    ?_).rootHash_eq rfl
  · -- the two roots are different leaves
    have hroots : hex (treeHash [sampleLeaf 1]) = hex (treeHash [sampleLeaf 2]) := hsame
    rw [treeHash_singleton, treeHash_singleton] at hroots
    exact absurd hroots (by decide)
  · intro call hcall
    have hleaf : ∀ b, ∀ l ∈ [sampleLeaf b], l.length = 32 := fun b l hl => by
      rw [List.mem_singleton.mp hl, sampleLeaf, List.length_replicate]
    rcases List.mem_cons.mp hcall with rfl | hcall
    · exact ⟨⟨by decide, _, fromhex_hex _, length_treeHash (hleaf 1)⟩, by simp [sampleCall]⟩
    · rw [List.mem_singleton.mp hcall]
      exact ⟨⟨by decide, _, fromhex_hex _, length_treeHash (hleaf 2)⟩, by simp [sampleCall]⟩
  · exact fun s hs => absurd hs List.not_mem_nil
  · intro s hs
    rw [forkingRun, hhashed, hhashed'] at hs
    exact hs
  · exact hendorsed ▸ List.mem_cons_self
  · exact hendorsed ▸ List.mem_cons_of_mem _ List.mem_cons_self

end Witness

end OpenWright
