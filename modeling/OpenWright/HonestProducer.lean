import OpenWright.LedgerThreads
import OpenWright.Witness

/-! # An honest producer and its witness

A producer commits to its ledger, takes checkpoints, and submits them in order to a witness, each with
the consistency proof from the one before. The witness holds the empty tree to be consistent with any
other, but the ledger has no consistency proof from it.

* **`submissions_succeed_iff`** — every submission succeeds exactly when only the last submitted
  checkpoint may be one of the empty ledger. -/

namespace OpenWright

open Python Merkle Signing Ledger

namespace Witness

/-- `verify_cosignature`. -/
def verifyCosignature (ed : Ed25519) (c : Checkpoint) (cosig : WitnessCosignature)
    (witnessPublicKeyRaw : Bytes) : Except PyErr Bool :=
  -- another witness's signature, or one of another head, is not looked at
  if keyIdFor witnessPublicKeyRaw ≠ cosig.witnessKeyId then return false
  else if cosig.treeSize ≠ c.treeSize ∨ cosig.rootHash ≠ c.rootHash then return false
  else
    match b64decode cosig.signature with
    | none => return false
    | some sig => do
      let data ← c.signingBytes
      return ed witnessPublicKeyRaw sig data

end Witness

open Witness LedgerThreads

namespace HonestProducer

variable {σ : Type} (B : LedgerBackend σ) (ed : Ed25519) (key : KeySource)

/-! ## Submissions -/

/-- The producer and its witness. -/
structure Producer (σ : Type) where
  ledger : Ledger σ
  witness : Witness
  /-- The checkpoints taken and not yet submitted. -/
  waiting : List Checkpoint := []
  submitted : List Checkpoint := []
  /-- For each submitted checkpoint what `verify_cosignature` says of the co-signature, or the
  exception that was raised. -/
  outcomes : List (Except PyErr Bool) := []

/-- The proof a checkpoint is submitted with: none for the first one. -/
def proofFor (l : Ledger σ) (previous : Option Checkpoint) (c : Checkpoint) :
    Except PyErr (Option (List Str)) :=
  match previous with
  | none => .ok none
  | some p => do
    let proof ← l.consistencyProofHex p.treeSize (some c.treeSize)
    return some proof

/-- Submitting a checkpoint: the outcome, and the witness afterwards. -/
def submission (l : Ledger σ) (w : Witness) (previous : Option Checkpoint) (c : Checkpoint) :
    Except PyErr Bool × Witness :=
  match proofFor l previous c with
  | .error err => (.error err, w)
  | .ok proof =>
    -- the witness may keep what it has endorsed even if its answer is not accepted
    match cosign ed w
      { checkpoint := c, producerPublicKeyRaw := key.publicKeyRaw, consistencyProofHex := proof } with
    | (.error err, w') => (.error err, w')
    | (.ok cosig, w') => (verifyCosignature ed c cosig w.key.publicKeyRaw, w')

/-- What the producer does. -/
inductive Step
  | call (c : LedgerCall)
  | takeCheckpoint (timestamp : Option Str) (clock : Except PyErr Str)
  | submit

/-- The producer after a step. -/
def step (p : Producer σ) : Step → Producer σ
  | .call c => { p with ledger := Ledger.step B p.ledger c }
  | .takeCheckpoint timestamp clock =>
    match p.ledger.checkpoint key timestamp clock with
    | .error _ => p
    | .ok c => { p with waiting := p.waiting ++ [c] }
  | .submit =>
    -- nothing waits, so nothing is submitted
    match p.waiting with
    | [] => p
    | c :: waiting =>
      let result := submission ed key p.ledger p.witness p.submitted.getLast? c
      { p with witness := result.2, waiting, submitted := p.submitted ++ [c],
               outcomes := p.outcomes ++ [result.1] }

/-- The producer after a run. -/
def runProducer (p : Producer σ) (steps : List Step) : Producer σ := steps.foldl (step B ed key) p

/-! ## One submission -/

variable {B ed key}

/-- A checkpoint the producer signed over a state of its ledger. -/
structure Signed (key : KeySource) (leaves : List Bytes) (c : Checkpoint) : Prop where
  head : IsCheckpoint leaves c
  publicKeyId : c.publicKeyId = key.keyId
  signature : ∃ data sig, c.signingBytes = .ok data ∧ key.sign data = .ok sig ∧
    c.signature = b64encode sig

/-- A checkpoint stays one the producer signed when the ledger grows. -/
theorem Signed.mono {leaves leaves' : List Bytes} (hgrow : leaves <+: leaves') {c : Checkpoint}
    (h : Signed key leaves c) : Signed key leaves' c :=
  ⟨h.head.mono hgrow, h.publicKeyId, h.signature⟩

/-- **What `checkpoint` returns is signed.** -/
theorem signed_of_checkpoint {l : Ledger σ} (hinv : Inv B l) {timestamp : Option Str}
    {clock : Except PyErr Str} {c : Checkpoint} (h : l.checkpoint key timestamp clock = .ok c) :
    Signed key l.leaves c ∧ c.treeSize = l.leaves.length := by
  obtain ⟨hsize, hroot⟩ := signSnapshot_eq_ok h
  unfold checkpoint signSnapshot at h
  obtain ⟨t, -, h⟩ := bind_eq_ok.mp h
  unfold signCheckpoint at h
  obtain ⟨data, hdata, h⟩ := bind_eq_ok.mp h
  obtain ⟨sig, hsig, h⟩ := bind_eq_ok.mp h
  refine ⟨⟨⟨l.leaves.length, hsize, ?_⟩, ?_, data, sig, ?_, hsig, ?_⟩, hsize⟩
  · rw [hroot]
    exact isHead_snapshot hinv
  all_goals rw [← pure_eq_ok.mp h]
  exact hdata

/-- The keys are those of Ed25519: what the producer signs verifies, and the witness signs it too. -/
structure Genuine (ed : Ed25519) (key witnessKey : KeySource) : Prop where
  producer : ∀ data sig, key.sign data = .ok sig → ed key.publicKeyRaw sig data = true
  witness : ∀ data sig, key.sign data = .ok sig →
    ∃ sig', witnessKey.sign data = .ok sig' ∧ ed witnessKey.publicKeyRaw sig' data = true

/-- The checkpoint of the empty ledger has no successor: the proof from it cannot be made. -/
theorem proofFor_empty {l : Ledger σ} {p c : Checkpoint} (hp : p.treeSize = 0) :
    ∃ err, proofFor l (some p) c = .error err := by
  have hproof : ∃ err, consistencyProof (l.pinned (some c.treeSize)) 0 = .error err := by
    unfold consistencyProof
    rw [dif_neg (by omega)]
    exact ⟨_, rfl⟩
  obtain ⟨err, herr⟩ := hproof
  refine ⟨err, ?_⟩
  simp only [proofFor, consistencyProofHex, consistencyProofHexOf, hp, herr]
  rfl

/-- The proof from a checkpoint of a nonempty ledger is made, and is accepted. -/
theorem proofFor_of_ne {l : Ledger σ} {p c : Checkpoint} (hp : IsCheckpoint l.leaves p)
    (hc : IsCheckpoint l.leaves c) (hle : p.treeSize ≤ c.treeSize) (hne : p.treeSize ≠ 0) :
    ∃ proof, proofFor l (some p) c = .ok proof ∧
      ∀ raw, checkExtends p { checkpoint := c, producerPublicKeyRaw := raw,
                              consistencyProofHex := proof } = .ok () := by
  obtain ⟨m, hm, hmle, hproot⟩ := hp
  obtain ⟨n, hn, hnle, hcroot⟩ := hc
  -- the proof is made over the first leaves only
  obtain ⟨P, hP, hverify⟩ :=
    @consistencyProofHexOf_take l.leaves m n (by omega) (by omega) hnle
  refine ⟨some (P.map hex), ?_, fun raw => ?_⟩
  · have hpinned : l.pinned (some c.treeSize) = l.leaves.take n := by
      simp [pinned, hn]
    simp only [proofFor, consistencyProofHex, hpinned, hm, hP]
    rfl
  · unfold checkExtends
    dsimp only
    rw [if_neg (by omega)]
    split
    -- the proof travels in hexadecimal
    · have hdecode : (P.map hex).mapM unhex = .ok P := by
        refine mapM_eq_ok.mpr ?_
        rw [List.forall₂_map_left_iff, List.forall₂_same]
        exact fun b _ => unhex_eq_ok.mpr (fromhex_hex b)
      rw [Option.getD_some, hdecode, hproot, hcroot, hm, hn]
      refine bind_eq_ok.mpr ⟨P, rfl, bind_eq_ok.mpr ⟨_, unhex_eq_ok.mpr (fromhex_hex _),
        bind_eq_ok.mpr ⟨_, unhex_eq_ok.mpr (fromhex_hex _), ?_⟩⟩⟩
      exact if_pos hverify
    · rfl

/-- The co-signature of a witness is accepted. -/
theorem verifyCosignature_cosignature {witnessKey : KeySource} {call : CosignCall} {data sig : Bytes}
    (hdata : call.checkpoint.signingBytes = .ok data)
    (hed : ed witnessKey.publicKeyRaw sig data = true) :
    verifyCosignature ed call.checkpoint (cosignature witnessKey call sig) witnessKey.publicKeyRaw
      = .ok true := by
  unfold verifyCosignature cosignature
  rw [if_neg (by simp [KeySource.keyId]), if_neg (by simp), b64decode_b64encode]
  simp only [hdata]
  exact congrArg Except.ok hed

/-- **A checkpoint that extends the last endorsed one is co-signed.** -/
theorem submission_eq {witnessKey : KeySource} (hkeys : Genuine ed key witnessKey) {l : Ledger σ}
    {w : Witness} {previous : Option Checkpoint} {c : Checkpoint} (hw : w.key = witnessKey)
    (hlast : w.last = previous) (hc : Signed key l.leaves c)
    (hprevious : ∀ p, previous = some p →
      IsCheckpoint l.leaves p ∧ p.treeSize ≤ c.treeSize ∧ p.treeSize ≠ 0) :
    submission ed key l w previous c = (.ok true, { w with last := some c }) := by
  -- with a previous head the producer sends a proof from it, and without one the witness has none
  obtain ⟨proof, hproof, hextends⟩ : ∃ proof, proofFor l previous c = .ok proof ∧
      ∀ last, w.last = some last → checkExtends last
        { checkpoint := c, producerPublicKeyRaw := key.publicKeyRaw,
          consistencyProofHex := proof } = .ok () := by
    rw [hlast]
    cases previous with
    | none => exact ⟨none, rfl, fun last h => by cases h⟩
    | some p =>
        obtain ⟨hp, hle, hne⟩ := hprevious p rfl
        obtain ⟨proof, hproof, hcheck⟩ := proofFor_of_ne hp hc.head hle hne
        exact ⟨proof, hproof, fun last h => Option.some.inj h ▸ hcheck _⟩
  -- the producer's signature verifies, and then the witness's own
  obtain ⟨data, sig, hdata, hsig, hencoded⟩ := hc.signature
  obtain ⟨sig', hsig', hed⟩ := hkeys.witness data sig hsig
  have hvalid : c.verify ed key.publicKeyRaw = .ok true :=
    Checkpoint.verify_eq_ok_true hc.publicKeyId hencoded hdata (hkeys.producer data sig hsig)
  let call : CosignCall :=
    { checkpoint := c, producerPublicKeyRaw := key.publicKeyRaw, consistencyProofHex := proof }
  have hcheck : checkCall ed w.last call = .ok () := by
    refine bind_eq_ok.mpr ⟨true, hvalid, ?_⟩
    rw [if_neg (by decide)]
    cases hold : w.last with
    | none => rfl
    | some last => exact hextends last hold
  have hsign : signCall w.key call = .ok sig' := bind_eq_ok.mpr ⟨data, hdata, hw ▸ hsig'⟩
  unfold submission
  rw [hproof]
  dsimp only
  rw [cosign_of_sign hcheck hsign, hw]
  exact congrArg (·, _) (@verifyCosignature_cosignature ed witnessKey call data sig' hdata hed)

/-! ## Runs -/

variable (B key) in
/-- What holds of the producer in every run. -/
structure Inv (witnessKey : KeySource) (p : Producer σ) : Prop where
  ledger : Ledger.Inv B p.ledger
  witness_key : p.witness.key = witnessKey
  signed : ∀ c ∈ p.submitted ++ p.waiting, Signed key p.ledger.leaves c
  sorted : (p.submitted ++ p.waiting).Pairwise fun c d => c.treeSize ≤ d.treeSize
  /-- While no checkpoint followed one of the empty ledger, every submission has succeeded. -/
  accepted : (∀ c ∈ p.submitted.dropLast, c.treeSize ≠ 0) →
    (∀ o ∈ p.outcomes, o = .ok true) ∧ p.witness.last = p.submitted.getLast?
  /-- Once one did, a submission has failed. -/
  refused : (∃ c ∈ p.submitted.dropLast, c.treeSize = 0) → ∃ o ∈ p.outcomes, o ≠ .ok true

/-- Committing and reopening only append leaves. -/
theorem leaves_prefix_step {l : Ledger σ} (hinv : Ledger.Inv B l) (c : LedgerCall) :
    l.leaves <+: (Ledger.step B l c).leaves := by
  have hcommit : ∀ event clock, l.leaves <+: (Ledger.commit B l event clock).2.leaves := by
    intro event clock
    rcases commit_cases B l event clock with ⟨err, hcommit⟩ | ⟨p, -, hcommit⟩
    · simpa only [hcommit] using List.prefix_refl l.leaves
    · rw [hcommit]
      exact leaves_prefix_commitLocked B l p
  cases c with
  | commit event clock => exact hcommit event clock
  | correct targetEventId reason actorId clock clock' =>
      cases clock with
      | error err => exact List.prefix_refl _
      | ok timestamp =>
          have hcorrect : Ledger.step B l (.correct targetEventId reason actorId (.ok timestamp) clock')
              = (Ledger.commit B l (correctionEvent timestamp targetEventId reason actorId) clock').2 :=
            rfl
          rw [hcorrect]
          exact hcommit _ clock'
  | reopen origin retention =>
      simp only [Ledger.step, hinv.init origin retention]
      exact List.prefix_refl _

/-- The checkpoints but the last, when one more is submitted. -/
theorem dropLast_concat_eq (cs : List Checkpoint) (c : Checkpoint) :
    (cs ++ [c]).dropLast = cs ∧ (cs ++ [c]).getLast? = some c :=
  ⟨List.dropLast_concat, List.getLast?_concat⟩

variable {witnessKey : KeySource} {p : Producer σ}

/-- Every submitted checkpoint has an outcome. -/
theorem length_outcomes (h : p.outcomes.length = p.submitted.length) (steps : List Step) :
    (runProducer B ed key p steps).outcomes.length
      = (runProducer B ed key p steps).submitted.length := by
  induction steps generalizing p with
  | nil => exact h
  | cons a steps ih =>
      refine ih ?_
      cases a with
      | call c => exact h
      | takeCheckpoint timestamp clock =>
          simp only [step]
          split
          · exact h
          · exact h
      | submit =>
          simp only [step]
          split
          · exact h
          · simp [h]

/-- A checkpoint is taken. -/
theorem Inv.takeCheckpoint (h : Inv B key witnessKey p) {timestamp : Option Str}
    {clock : Except PyErr Str} {c : Checkpoint} (hc : p.ledger.checkpoint key timestamp clock = .ok c) :
    Inv B key witnessKey { p with waiting := p.waiting ++ [c] } := by
  obtain ⟨hsigned, hsize⟩ := signed_of_checkpoint h.ledger hc
  refine ⟨h.ledger, h.witness_key, ?_, ?_, h.accepted, h.refused⟩
  · intro d hd
    rw [← List.append_assoc] at hd
    rcases List.mem_append.mp hd with hmem | hmem
    · exact h.signed d hmem
    · rw [List.mem_singleton.mp hmem]
      exact hsigned
  · rw [← List.append_assoc, List.pairwise_append]
    refine ⟨h.sorted, List.pairwise_singleton _ _, fun d hd e he => ?_⟩
    -- the new checkpoint has all leaves
    obtain ⟨size, hdsize, hle, -⟩ := (h.signed d hd).head
    rw [List.mem_singleton.mp he, hsize, hdsize]
    exact_mod_cast hle

/-- The next checkpoint is submitted. -/
theorem Inv.submit (hkeys : Genuine ed key witnessKey) (h : Inv B key witnessKey p) {c : Checkpoint}
    {waiting : List Checkpoint} (hwaiting : p.waiting = c :: waiting) :
    Inv B key witnessKey (step B ed key p .submit) := by
  have hsplit : p.submitted ++ p.waiting = p.submitted ++ [c] ++ waiting := by
    rw [hwaiting, List.append_assoc, List.singleton_append]
  have hsigned : Signed key p.ledger.leaves c := h.signed c (by simp [hwaiting])
  have hsorted := h.sorted
  rw [hsplit] at hsorted
  have hlater : ∀ d ∈ p.submitted, d.treeSize ≤ c.treeSize := fun d hd =>
    (List.pairwise_append.mp (List.pairwise_append.mp hsorted).1).2.2 d hd c List.mem_cons_self
  obtain ⟨hdrop, hlast⟩ := dropLast_concat_eq p.submitted c
  simp only [step, hwaiting]
  refine ⟨h.ledger, ?_, fun d hd => h.signed d (hsplit ▸ hd), hsorted, ?_, ?_⟩
  · -- a submission does not change the key
    unfold submission
    split
    · exact h.witness_key
    · rename_i proof _
      rcases cosign_cases ed p.witness { checkpoint := c, producerPublicKeyRaw := key.publicKeyRaw,
                                         consistencyProofHex := proof } with
        ⟨err, hcosign⟩ | ⟨cosig, hcosign, -⟩
      · rw [hcosign]
        exact h.witness_key
      · rw [hcosign]
        exact h.witness_key
  · intro hne
    rw [hdrop] at hne
    obtain ⟨hall, hwitness⟩ := h.accepted fun d hd => hne d (List.dropLast_subset _ hd)
    have hresult : submission ed key p.ledger p.witness p.submitted.getLast? c
        = (.ok true, { p.witness with last := some c }) := by
      refine submission_eq hkeys h.witness_key hwitness hsigned fun d hd => ?_
      have hmem : d ∈ p.submitted := List.mem_of_getLast? hd
      exact ⟨(h.signed d (List.mem_append_left _ hmem)).head, hlater d hmem, hne d hmem⟩
    rw [hresult, hlast]
    refine ⟨fun o ho => ?_, rfl⟩
    rcases List.mem_append.mp ho with hmem | hmem
    · exact hall o hmem
    · exact List.mem_singleton.mp hmem
  · rintro ⟨d, hd, hzero⟩
    rw [hdrop] at hd
    by_cases hearlier : ∃ d ∈ p.submitted.dropLast, d.treeSize = 0
    · obtain ⟨o, ho, hne⟩ := h.refused hearlier
      exact ⟨o, List.mem_append_left _ ho, hne⟩
    · -- the checkpoint of the empty ledger was the last one submitted
      have hlast' : p.submitted.getLast? = some d := by
        obtain ⟨init, e, hinit⟩ := List.eq_nil_or_concat p.submitted |>.resolve_left
          (List.ne_nil_of_mem hd)
        rw [hinit, List.concat_eq_append] at hd hearlier ⊢
        rw [List.dropLast_concat] at hearlier
        rw [List.getLast?_concat]
        rcases List.mem_append.mp hd with hmem | hmem
        · exact absurd ⟨d, hmem, hzero⟩ hearlier
        · rw [List.mem_singleton.mp hmem]
      obtain ⟨err, herr⟩ := @proofFor_empty σ p.ledger d c hzero
      refine ⟨.error err, List.mem_append_right _ ?_, fun hok => by cases hok⟩
      rw [hlast', submission, herr]
      exact List.mem_cons_self

/-- **One step.** -/
theorem Inv.step (hkeys : Genuine ed key witnessKey) (h : Inv B key witnessKey p) (a : Step) :
    Inv B key witnessKey (step B ed key p a) := by
  cases a with
  | call c =>
      have hgrow := leaves_prefix_step h.ledger c
      exact ⟨h.ledger.step c, h.witness_key, fun d hd => (h.signed d hd).mono hgrow, h.sorted,
        h.accepted, h.refused⟩
  | takeCheckpoint timestamp clock =>
      simp only [HonestProducer.step]
      split
      · exact h
      · rename_i c hc
        exact h.takeCheckpoint hc
  | submit =>
      cases hwaiting : p.waiting with
      | nil =>
          simp only [HonestProducer.step, hwaiting]
          exact h
      | cons c waiting => exact h.submit hkeys hwaiting

/-- **A run.** -/
theorem Inv.run (hkeys : Genuine ed key witnessKey) (h : Inv B key witnessKey p) (steps : List Step) :
    Inv B key witnessKey (runProducer B ed key p steps) := by
  induction steps generalizing p with
  | nil => exact h
  | cons a steps ih => exact ih (h.step hkeys a)

/-- **When an honest producer is never refused.** In every run of a producer on a new ledger and of a
fresh witness, all submissions succeed and give co-signatures that are accepted, if and only if no
submitted checkpoint but the last is one of the empty ledger. -/
theorem submissions_succeed_iff (B : LedgerBackend σ) (ed : Ed25519) (key witnessKey : KeySource)
    (hkeys : Genuine ed key witnessKey) (store : σ) (hstore : B.records store = []) (origin : Str)
    (retention : Option (Str → Except PyErr Str)) (steps : List Step) :
    ∃ l₀, Ledger.init B store origin retention = .ok l₀ ∧
      let p := runProducer B ed key { ledger := l₀, witness := .new witnessKey } steps
      p.outcomes.length = p.submitted.length ∧
        ((∀ o ∈ p.outcomes, o = .ok true) ↔ ∀ c ∈ p.submitted.dropLast, c.treeSize ≠ 0) := by
  obtain ⟨l₀, hinit, hinv⟩ := init_empty hstore origin retention
  refine ⟨l₀, hinit, ?_⟩
  have hstart : Inv B key witnessKey { ledger := l₀, witness := .new witnessKey } :=
    ⟨hinv, rfl, fun c hc => absurd hc List.not_mem_nil, List.Pairwise.nil,
      fun _ => ⟨fun o ho => absurd ho List.not_mem_nil, rfl⟩,
      fun ⟨c, hc, _⟩ => absurd hc List.not_mem_nil⟩
  have hrun := hstart.run hkeys steps
  intro p
  refine ⟨length_outcomes rfl steps, fun hall c hc hzero => ?_, fun hne => (hrun.accepted hne).1⟩
  obtain ⟨o, ho, hfailed⟩ := hrun.refused ⟨c, hc, hzero⟩
  exact hfailed (hall o ho)

/-! ## Two keys -/

/-- What a producer and a witness made verifies. -/
def madeByBoth (made cosigned : List (Bytes × Bytes)) : Ed25519 := fun raw sig data =>
  madeBy sampleKey made raw sig data || madeBy Witness.witnessKey cosigned raw sig data

/-- Two keys that sign the same data are genuine. -/
theorem genuine_madeByBoth {made cosigned : List (Bytes × Bytes)}
    (h : made.map Prod.fst = cosigned.map Prod.fst) :
    Genuine (madeByBoth made cosigned) (madeKey sampleKey made)
      (madeKey Witness.witnessKey cosigned) where
  producer data sig hsig := by
    rw [madeByBoth, Bool.or_eq_true]
    exact Or.inl (madeBy_of_sign hsig)
  witness data sig hsig := by
    have hdata : data ∈ cosigned.map Prod.fst := by
      rw [← h]
      have hmade := madeBy_of_sign hsig
      rw [madeBy, decide_eq_true_eq] at hmade
      exact List.mem_map.mpr ⟨_, hmade.2, rfl⟩
    obtain ⟨⟨data', sig'⟩, hmem, rfl⟩ := List.mem_map.mp hdata
    obtain ⟨sig'', hsig''⟩ := @exists_sign_of_mem Witness.witnessKey data' sig' cosigned hmem
    refine ⟨sig'', hsig'', ?_⟩
    rw [madeByBoth, Bool.or_eq_true]
    exact Or.inr (madeBy_of_sign hsig'')

/-- A new ledger in memory. -/
def emptyLedger : Ledger (List Val) where
  store := []
  origin := lit "openwright"
  retention := none
  leaves := []
  tree := .new

/-- The empty ledger is the one that is opened on no records. -/
theorem init_emptyLedger :
    Ledger.init inMemoryLedgerBackend [] (lit "openwright") none = .ok emptyLedger := rfl

/-! ## Three submissions -/

/-- A correction is committed. -/
def sampleCorrection (targetEventId : Str) : LedgerCall :=
  .correct targetEventId (lit "typo") (lit "agent-1") (.ok (lit "2026-01-01T00:00:00Z"))
    (.ok (lit "2026-01-01T00:00:00Z"))

/-- The leaf of the second of two corrections. -/
def secondLeaf : Bytes :=
  [44, 148, 49, 3, 102, 130, 183, 27, 207, 49, 72, 140, 206, 40, 117, 215, 104, 239, 138, 219, 157,
    159, 215, 184, 65, 61, 110, 72, 191, 183, 59, 93]

/-- The producer's signatures of the heads of one correction and of two. -/
def grownSigs : Bytes × Bytes :=
  ([137, 236, 173, 219, 55, 34, 7, 237, 215, 95, 43, 228, 252, 30, 161, 181, 54, 188, 0, 35, 158, 245,
    105, 232, 206, 75, 93, 152, 123, 76, 153, 203, 137, 157, 92, 135, 252, 161, 65, 164, 133, 249, 14,
    81, 251, 234, 126, 43, 15, 202, 233, 219, 51, 45, 93, 75, 241, 70, 52, 68, 189, 237, 18, 10],
  [60, 132, 245, 237, 62, 252, 245, 118, 212, 93, 177, 190, 27, 181, 9, 70, 93, 225, 200, 66, 49, 176,
    27, 188, 25, 182, 72, 113, 76, 162, 166, 199, 136, 122, 126, 236, 161, 65, 227, 148, 188, 244,
    213, 238, 175, 58, 230, 61, 184, 112, 226, 254, 193, 130, 202, 112, 148, 43, 71, 56, 210, 142, 38,
    8])

/-- Those of the witness. -/
def grownCosigs : Bytes × Bytes :=
  ([43, 89, 102, 81, 209, 231, 128, 144, 143, 195, 129, 138, 128, 66, 208, 219, 115, 40, 201, 6, 79,
    76, 18, 252, 37, 243, 164, 219, 59, 188, 98, 186, 216, 8, 120, 81, 126, 61, 9, 226, 173, 185, 214,
    25, 253, 206, 194, 247, 135, 18, 187, 250, 141, 147, 33, 128, 154, 201, 135, 9, 255, 60, 93, 11],
  [21, 187, 250, 65, 85, 162, 237, 59, 15, 241, 171, 12, 4, 46, 78, 169, 0, 72, 6, 227, 171, 246, 5,
    255, 212, 253, 26, 29, 60, 156, 251, 87, 12, 4, 209, 54, 225, 121, 10, 67, 49, 227, 98, 172, 87,
    92, 48, 197, 209, 113, 234, 31, 36, 200, 212, 140, 112, 128, 66, 36, 147, 113, 8, 9])

/-- The head of one correction. -/
def grownOne : Checkpoint :=
  sampleHead 1 [106, 244, 51, 183, 92, 230, 98, 197, 214, 207, 51, 198, 138, 32, 67, 142, 97, 57, 201,
    164, 5, 130, 127, 232, 123, 76, 84, 31, 14, 100, 60, 178] grownSigs.1

/-- The head of two corrections. -/
def grownTwo : Checkpoint :=
  sampleHead 2 [167, 53, 8, 131, 15, 35, 108, 248, 125, 244, 70, 44, 220, 142, 191, 180, 180, 106, 248,
    155, 222, 94, 209, 220, 36, 72, 25, 240, 70, 252, 140, 232] grownSigs.2

/-- What the producer made. -/
def grownMade : List (Bytes × Bytes) := [grownOne.signedAs grownSigs.1, grownTwo.signedAs grownSigs.2]

/-- What the witness made. -/
def grownCosigned : List (Bytes × Bytes) :=
  [grownOne.signedAs grownCosigs.1, grownTwo.signedAs grownCosigs.2]

/-- They signed the same. -/
theorem genuine_grown : Genuine (madeByBoth grownMade grownCosigned) (madeKey sampleKey grownMade)
    (madeKey Witness.witnessKey grownCosigned) :=
  genuine_madeByBoth (by simp only [grownMade, grownCosigned, Checkpoint.signedAs, List.map_cons,
    List.map_nil])

/-- A checkpoint is taken and submitted after each of two commits, the second one twice. -/
def sampleSteps : List Step :=
  [.call (sampleCorrection (lit "evt_1")),
    .takeCheckpoint none (.ok (lit "2026-01-01T00:00:00Z")), .submit,
    .call (sampleCorrection (lit "evt_2")),
    .takeCheckpoint none (.ok (lit "2026-01-01T00:00:00Z")),
    .takeCheckpoint none (.ok (lit "2026-01-01T00:00:00Z")), .submit, .submit]

/-- The run of these steps on a new ledger, with a fresh witness. -/
def sampleRun : Producer (List Val) :=
  runProducer inMemoryLedgerBackend (madeByBoth grownMade grownCosigned) (madeKey sampleKey grownMade)
    { ledger := emptyLedger, witness := .new (madeKey Witness.witnessKey grownCosigned) } sampleSteps

/-- What is submitted in the run, and the proof that the second checkpoint is submitted with. -/
theorem submitted_sampleRun :
    sampleRun.submitted = [grownOne, grownTwo, grownTwo] ∧
      (proofFor sampleRun.ledger (some grownOne) grownTwo).toOption
        = some (some [hex secondLeaf]) := by
  decide +kernel

/-- All three submissions of the run succeed: the first has no proof, the second one of one node, the
third an empty one. -/
theorem submissions_succeed_iff_three :
    sampleRun.submitted = [grownOne, grownTwo, grownTwo] ∧
      proofFor sampleRun.ledger (some grownOne) grownTwo = .ok (some [hex secondLeaf]) ∧
      sampleRun.outcomes = [.ok true, .ok true, .ok true] := by
  obtain ⟨l₀, hinit, hspec⟩ := submissions_succeed_iff inMemoryLedgerBackend
    (madeByBoth grownMade grownCosigned) (madeKey sampleKey grownMade)
    (madeKey Witness.witnessKey grownCosigned) genuine_grown [] rfl (lit "openwright") none sampleSteps
  obtain rfl : emptyLedger = l₀ := Except.ok.inj (init_emptyLedger.symm.trans hinit)
  obtain ⟨hsubmitted, hproof⟩ := submitted_sampleRun
  unfold sampleRun at hsubmitted hproof ⊢
  dsimp only at hspec
  generalize runProducer inMemoryLedgerBackend _ _ _ sampleSteps = p at hspec hsubmitted hproof ⊢
  obtain ⟨hlength, hiff⟩ := hspec
  rw [hsubmitted] at hlength hiff
  refine ⟨hsubmitted, eq_ok_of_toOption hproof, ?_⟩
  have hall : ∀ o ∈ p.outcomes, o = .ok true := hiff.mpr (by decide)
  exact List.eq_replicate_iff.mpr ⟨hlength, hall⟩

/-! ## The empty ledger -/

/-- The producer's signature of the head of the empty ledger. -/
def emptyHeadSig : Bytes :=
  [24, 36, 29, 199, 77, 54, 203, 100, 234, 17, 5, 160, 134, 113, 87, 74, 19, 178, 20, 242, 114,
    58, 170, 216, 60, 249, 34, 3, 53, 144, 54, 78, 144, 206, 11, 159, 67, 89, 174, 121, 96, 175,
    127, 145, 91, 38, 35, 93, 145, 248, 220, 213, 93, 62, 84, 42, 29, 48, 80, 79, 11, 112, 29, 2]

/-- The signature of the witness on it. -/
def emptyHeadCosig : Bytes :=
  [99, 217, 182, 255, 151, 247, 80, 21, 158, 195, 151, 17, 115, 97, 216, 0, 243, 162, 2, 165, 2,
    232, 179, 3, 134, 26, 57, 157, 252, 62, 104, 241, 169, 219, 190, 245, 207, 173, 200, 173, 251,
    121, 184, 74, 20, 19, 229, 235, 131, 219, 170, 99, 148, 31, 84, 113, 173, 84, 48, 12, 167, 190,
    241, 10]

/-- The checkpoint of the empty ledger. -/
def emptyHead : Checkpoint := sampleHead 0 (treeHash []) emptyHeadSig

/-- Its checkpoint is taken. -/
theorem checkpoint_emptyLedger :
    emptyLedger.checkpoint (madeKey sampleKey [emptyHead.signedAs emptyHeadSig]) none
      (.ok (lit "2026-01-01T00:00:00Z")) = .ok emptyHead := by
  refine checkpoint_sampleHead rfl ?_
  rw [treeHash_nil]
  rfl

/-- A second checkpoint of the empty ledger cannot be submitted: there is no proof from the first
one. -/
theorem submissions_not_succeed :
    ¬∀ (ed : Ed25519) (key witnessKey : KeySource), Genuine ed key witnessKey → ∀ steps : List Step,
      ∀ o ∈ (runProducer inMemoryLedgerBackend ed key
        { ledger := emptyLedger, witness := .new witnessKey } steps).outcomes, o = .ok true := by
  intro hclaim
  obtain ⟨err, herr⟩ := @proofFor_empty (List Val) emptyLedger emptyHead emptyHead rfl
  have hfailed := hclaim _ _ _
    (@genuine_madeByBoth [emptyHead.signedAs emptyHeadSig] [emptyHead.signedAs emptyHeadCosig] rfl)
    [.takeCheckpoint none (.ok (lit "2026-01-01T00:00:00Z")), .submit,
      .takeCheckpoint none (.ok (lit "2026-01-01T00:00:00Z")), .submit] (.error err) (by
        simp [runProducer, step, checkpoint_emptyLedger, submission, herr])
  cases hfailed

end HonestProducer

end OpenWright
