import OpenWright.Encodable
import OpenWright.Ledger
import OpenWright.Merkle.Consistency

/-! # Threads on one ledger

Any number of threads commit to one ledger, take checkpoints of it and ask it for proofs. What a
method does under the lock is one atomic step; what it does before or after (preparing the event,
signing, computing the proof) is a step of its own, so that steps of other threads may come between.

* **`runThreads_spec`** — every checkpoint is the head of a prefix of the committed leaves, and the
  proofs pinned to its size verify against its root however the log has grown. -/

namespace OpenWright

open Python Canonical Merkle Signing

variable {σ : Type} (B : LedgerBackend σ)

namespace Ledger

/-! ## The reading methods -/

/-- The locked part of the proof methods: `_leaves[:tree_size]`, or all leaves. -/
def pinned (l : Ledger σ) (treeSize : Option Int) : List Bytes :=
  match treeSize with
  | none => l.leaves
  | some n => if 0 ≤ n then l.leaves.take n.toNat else l.leaves.take (l.leaves.length - n.natAbs)

/-- The rest of `inclusion_proof_hex`. -/
def inclusionProofHexOf (leaves : List Bytes) (index : Int) : Except PyErr (List Str) := do
  let proof ← inclusionProof leaves index
  return proof.map hex

/-- The rest of `consistency_proof_hex`. -/
def consistencyProofHexOf (leaves : List Bytes) (oldSize : Int) : Except PyErr (List Str) := do
  let proof ← consistencyProof leaves oldSize
  return proof.map hex

/-- `inclusion_proof_hex`. -/
def inclusionProofHex (l : Ledger σ) (index : Int) (treeSize : Option Int := none) :
    Except PyErr (List Str) :=
  inclusionProofHexOf (l.pinned treeSize) index

/-- `consistency_proof_hex`. -/
def consistencyProofHex (l : Ledger σ) (oldSize : Int) (treeSize : Option Int := none) :
    Except PyErr (List Str) :=
  consistencyProofHexOf (l.pinned treeSize) oldSize

/-- The locked part of `checkpoint`: size and root. -/
def snapshot (l : Ledger σ) : Nat × Str := (l.leaves.length, hex l.tree.root)

/-- `timestamp or self._clock()`. -/
def stamp (timestamp : Option Str) (clock : Except PyErr Str) : Except PyErr Str :=
  match timestamp with
  | none | some [] => clock
  | some t => .ok t

/-- The rest of `checkpoint`. -/
def signSnapshot (origin : Str) (key : KeySource) (timestamp : Option Str) (clock : Except PyErr Str)
    (snap : Nat × Str) : Except PyErr Checkpoint := do
  let timestamp ← stamp timestamp clock
  signCheckpoint key origin snap.1 snap.2 timestamp

/-- What is signed is the snapshot. -/
theorem signSnapshot_eq_ok {origin : Str} {key : KeySource} {timestamp : Option Str}
    {clock : Except PyErr Str} {snap : Nat × Str} {c : Checkpoint}
    (h : signSnapshot origin key timestamp clock snap = .ok c) :
    c.treeSize = snap.1 ∧ c.rootHash = snap.2 := by
  rw [signSnapshot] at h
  obtain ⟨_, -, h⟩ := bind_eq_ok.mp h
  obtain ⟨-, hsize, hroot, -⟩ := signCheckpoint_eq_ok h
  exact ⟨hsize, hroot⟩

/-- `checkpoint`. -/
def checkpoint (l : Ledger σ) (key : KeySource) (timestamp : Option Str) (clock : Except PyErr Str) :
    Except PyErr Checkpoint :=
  signSnapshot l.origin key timestamp clock l.snapshot

end Ledger

/-- A checkpoint of the sample producer. -/
theorem checkpoint_sampleHead {σ : Type} {l : Ledger σ} {n : Nat} {root sig : Bytes}
    {made : List (Bytes × Bytes)} (horigin : l.origin = lit "openwright")
    (hsnapshot : l.snapshot = (n, hex root)) :
    l.checkpoint (madeKey sampleKey ((sampleHead n root sig).signedAs sig :: made)) none
      (.ok (lit "2026-01-01T00:00:00Z")) = .ok (sampleHead n root sig) := by
  obtain ⟨data, hdata⟩ : ∃ data, (sampleHead n root sig).signingBytes = .ok data := by
    refine exists_canonicalBytes ?_
    simp [sampleHead, Canonical.Encodable, EncodableItems]
  have hsign : (madeKey sampleKey ((sampleHead n root sig).signedAs sig :: made)).sign data
      = .ok sig := by
    rw [Checkpoint.signedAs_eq hdata]
    simp only [madeKey, List.lookup_cons_self]
  rw [Ledger.checkpoint, horigin, hsnapshot, Ledger.signSnapshot]
  refine bind_eq_ok.mpr ⟨lit "2026-01-01T00:00:00Z", rfl, ?_⟩
  rw [signCheckpoint]
  exact bind_eq_ok.mpr ⟨data, hdata, bind_eq_ok.mpr ⟨sig, hsign, rfl⟩⟩

namespace LedgerThreads

open Ledger

/-! ## Threads -/

/-- Which proof a thread asks for. -/
inductive Query
  | inclusion (index : Int)
  | consistency (oldSize : Int)
deriving DecidableEq

/-- A call for a proof, with the checkpoints that had been returned when it took the lock. -/
structure Request where
  query : Query
  treeSize : Option Int
  known : List Checkpoint

/-- A finished call for a proof. -/
structure Answer where
  request : Request
  proof : Except PyErr (List Str)

/-- A thread inside a method, outside the lock. -/
inductive Thread
  | committing (p : Prepared)
  | signing (snap : Nat × Str)
  | proving (request : Request) (leaves : List Bytes)

/-- The ledger, the threads inside its methods, and what calls have returned so far. -/
structure System (σ : Type) where
  ledger : Ledger σ
  threads : List Thread := []
  checkpoints : List Checkpoint := []
  answers : List Answer := []

/-- One step of one thread; threads are named by their position. -/
inductive Step
  | commitBegin (event : ComplianceEvent) (clock : Except PyErr Str)
  | commitLocked (k : Nat)
  | checkpointLocked
  | checkpointSign (k : Nat) (key : KeySource) (timestamp : Option Str) (clock : Except PyErr Str)
  | proofLocked (query : Query) (treeSize : Option Int)
  | proofCompute (k : Nat)

/-- The proof a request gets from the leaves it was given. -/
def proofOf (leaves : List Bytes) : Query → Except PyErr (List Str)
  | .inclusion index => inclusionProofHexOf leaves index
  | .consistency oldSize => consistencyProofHexOf leaves oldSize

/-- What a step does. A step of a thread that is not there does nothing; a method that raises ends
without a result. -/
def step (s : System σ) : Step → System σ
  | .commitBegin event clock =>
    match prepare s.ledger.retention event clock with
    | .ok p => { s with threads := s.threads ++ [.committing p] }
    | .error _ => s
  | .commitLocked k =>
    match s.threads[k]? with
    | some (.committing p) =>
      { s with ledger := (Ledger.commitLocked B s.ledger p).2, threads := s.threads.eraseIdx k }
    | _ => s
  | .checkpointLocked => { s with threads := s.threads ++ [.signing s.ledger.snapshot] }
  | .checkpointSign k key timestamp clock =>
    match s.threads[k]? with
    -- signing is outside the lock: the ledger may have grown since
    | some (.signing snap) =>
      match signSnapshot s.ledger.origin key timestamp clock snap with
      | .ok c => { s with threads := s.threads.eraseIdx k, checkpoints := s.checkpoints ++ [c] }
      | .error _ => { s with threads := s.threads.eraseIdx k }
    | _ => s
  | .proofLocked query treeSize =>
    { s with threads := s.threads ++ [.proving { query, treeSize, known := s.checkpoints }
        (s.ledger.pinned treeSize)] }
  | .proofCompute k =>
    match s.threads[k]? with
    -- so is computing the proof, from the leaves that were copied
    | some (.proving request leaves) =>
      { s with threads := s.threads.eraseIdx k,
               answers := s.answers ++ [{ request, proof := proofOf leaves request.query }] }
    | _ => s

/-- A run: steps of threads in any order. -/
def runThreads (s : System σ) (steps : List Step) : System σ := steps.foldl (step B) s

/-! ## The invariant -/

/-- A size and a root are the head of a prefix of the leaves. -/
def IsHead (leaves : List Bytes) (size : Nat) (rootHex : Str) : Prop :=
  size ≤ leaves.length ∧ rootHex = hex (treeHash (leaves.take size))

/-- A checkpoint is the head of a prefix of the leaves. -/
def IsCheckpoint (leaves : List Bytes) (c : Checkpoint) : Prop :=
  ∃ size : Nat, c.treeSize = size ∧ IsHead leaves size c.rootHash

/-- What a request knows is true of the leaves, and pinned to a size that it knows it got the prefix
of that size. -/
def Serves (leaves : List Bytes) (request : Request) (given : List Bytes) : Prop :=
  (∀ c ∈ request.known, IsCheckpoint leaves c) ∧
    ∀ size : Nat, request.treeSize = some (size : Int) →
      (∃ c ∈ request.known, c.treeSize = size) → given = leaves.take size

/-- What a thread holds is true of the leaves. -/
def Thread.Holds (leaves : List Bytes) : Thread → Prop
  | .committing _ => True
  | .signing snap => IsHead leaves snap.1 snap.2
  | .proving request given => Serves leaves request given

/-- An answer is the proof from leaves that serve its request. -/
def Answer.Holds (leaves : List Bytes) (a : Answer) : Prop :=
  ∃ given, Serves leaves a.request given ∧ a.proof = proofOf given a.request.query

/-- The ledger is consistent, and what threads, checkpoints and answers hold is true of its
leaves. -/
structure SystemInv (s : System σ) : Prop where
  ledger : Inv B s.ledger
  threads : ∀ t ∈ s.threads, t.Holds s.ledger.leaves
  checkpoints : ∀ c ∈ s.checkpoints, IsCheckpoint s.ledger.leaves c
  answers : ∀ a ∈ s.answers, a.Holds s.ledger.leaves

section Growth

variable {leaves leaves' : List Bytes} (hgrow : leaves <+: leaves')
include hgrow

/-- A prefix of a prefix. -/
theorem take_prefix_eq {n : Nat} (hn : n ≤ leaves.length) : leaves'.take n = leaves.take n := by
  obtain ⟨rest, rfl⟩ := hgrow
  exact List.take_append_of_le_length hn

/-- A head stays a head when the log grows. -/
theorem IsHead.mono {size : Nat} {rootHex : Str} (h : IsHead leaves size rootHex) :
    IsHead leaves' size rootHex :=
  ⟨h.1.trans hgrow.length_le, by rw [take_prefix_eq hgrow h.1, h.2]⟩

/-- A checkpoint stays one when the log grows. -/
theorem IsCheckpoint.mono {c : Checkpoint} (h : IsCheckpoint leaves c) : IsCheckpoint leaves' c := by
  obtain ⟨size, hsize, hhead⟩ := h
  exact ⟨size, hsize, hhead.mono hgrow⟩

/-- The leaves a request was given still serve it when the log grows. -/
theorem Serves.mono {request : Request} {given : List Bytes} (h : Serves leaves request given) :
    Serves leaves' request given := by
  refine ⟨fun c hc => (h.1 c hc).mono hgrow, fun size hsize hknown => ?_⟩
  obtain ⟨c, hc, hcsize⟩ := hknown
  obtain ⟨size', hsize', hhead⟩ := h.1 c hc
  have heq : size' = size := by omega
  rw [take_prefix_eq hgrow (heq ▸ hhead.1)]
  exact h.2 size hsize ⟨c, hc, hcsize⟩

/-- What holds of a thread stays true of a longer log. -/
theorem Thread.Holds.mono {t : Thread} (h : t.Holds leaves) : t.Holds leaves' := by
  cases t with
  | committing p => trivial
  | signing snap => exact IsHead.mono hgrow h
  | proving request given => exact Serves.mono hgrow h

/-- So does what holds of an answer. -/
theorem Answer.Holds.mono {a : Answer} (h : a.Holds leaves) : a.Holds leaves' := by
  obtain ⟨given, hserves, hproof⟩ := h
  exact ⟨given, hserves.mono hgrow, hproof⟩

end Growth

/-- **The lock's one writer only appends leaves.** -/
theorem leaves_prefix_commitLocked (l : Ledger σ) (p : Prepared) :
    l.leaves <+: (Ledger.commitLocked B l p).2.leaves := by
  rcases commitLocked_cases B l p with ⟨_, _, hlocked, -⟩ | ⟨_, _, _, hlocked, -⟩
  · simpa only [hlocked] using List.prefix_refl l.leaves
  · rw [hlocked]
    exact List.prefix_append _ _

variable {B}

/-- The snapshot of a ledger is the head of its leaves. -/
theorem isHead_snapshot {l : Ledger σ} (h : Inv B l) : IsHead l.leaves l.snapshot.1 l.snapshot.2 := by
  refine ⟨le_refl _, ?_⟩
  rw [snapshot, List.take_length, h.tree.root_eq]

/-- What is pinned now serves the checkpoints returned so far. -/
theorem serves_pinned {l : Ledger σ} {known : List Checkpoint}
    (hknown : ∀ c ∈ known, IsCheckpoint l.leaves c) (query : Query) (treeSize : Option Int) :
    Serves l.leaves { query, treeSize, known } (l.pinned treeSize) := by
  refine ⟨hknown, fun size hsize _ => ?_⟩
  rw [show treeSize = some (size : Int) from hsize, pinned, if_pos (by omega), Int.toNat_natCast]

/-- A thread that starts or ends changes nothing else. -/
theorem SystemInv.withThread {s : System σ} (h : SystemInv B s) {t : Thread}
    (ht : t.Holds s.ledger.leaves) : SystemInv B { s with threads := s.threads ++ [t] } where
  ledger := h.ledger
  threads t' ht' := by
    rcases List.mem_append.mp ht' with hmem | hmem
    · exact h.threads t' hmem
    · rwa [List.mem_singleton.mp hmem]
  checkpoints := h.checkpoints
  answers := h.answers

/-- **Every step of every thread keeps the invariant.** -/
theorem SystemInv.step {s : System σ} (h : SystemInv B s) (a : Step) : SystemInv B (step B s a) := by
  have hthread : ∀ {k : Nat} {t : Thread}, s.threads[k]? = some t → t.Holds s.ledger.leaves :=
    fun hk => h.threads _ (List.mem_of_getElem? hk)
  have herase : ∀ k, ∀ t ∈ s.threads.eraseIdx k, t.Holds s.ledger.leaves :=
    fun k t ht => h.threads t (List.mem_of_mem_eraseIdx ht)
  cases a with
  | commitBegin event clock =>
      rw [LedgerThreads.step]
      split
      · exact h.withThread trivial
      · exact h
  | commitLocked k =>
      rw [LedgerThreads.step]
      split
      · -- the log may have grown: everything is carried over to the longer one
        rename_i p hk
        have hgrow := leaves_prefix_commitLocked B s.ledger p
        exact ⟨h.ledger.commitLocked p, fun t ht => (herase k t ht).mono hgrow,
          fun c hc => (h.checkpoints c hc).mono hgrow, fun a ha => (h.answers a ha).mono hgrow⟩
      · exact h
  | checkpointLocked => exact h.withThread (isHead_snapshot h.ledger)
  | checkpointSign k key timestamp clock =>
      rw [LedgerThreads.step]
      split
      · rename_i snap hk
        split
        · rename_i c hsign
          refine ⟨h.ledger, herase k, fun c' hc' => ?_, h.answers⟩
          rcases List.mem_append.mp hc' with hmem | hmem
          · exact h.checkpoints c' hmem
          · rw [List.mem_singleton.mp hmem]
            obtain ⟨hsize, hroot⟩ := signSnapshot_eq_ok hsign
            exact ⟨snap.1, hsize, hroot ▸ hthread hk⟩
        · exact ⟨h.ledger, herase k, h.checkpoints, h.answers⟩
      · exact h
  | proofLocked query treeSize => exact h.withThread (serves_pinned h.checkpoints query treeSize)
  | proofCompute k =>
      rw [LedgerThreads.step]
      split
      · rename_i request given hk
        refine ⟨h.ledger, herase k, h.checkpoints, fun a ha => ?_⟩
        rcases List.mem_append.mp ha with hmem | hmem
        · exact h.answers a hmem
        · rw [List.mem_singleton.mp hmem]
          exact ⟨given, hthread hk, rfl⟩
      · exact h

/-- **Every interleaving keeps the invariant.** -/
theorem SystemInv.run {s : System σ} (h : SystemInv B s) (steps : List Step) :
    SystemInv B (runThreads B s steps) := by
  induction steps generalizing s with
  | nil => exact h
  | cons a steps ih => exact ih (h.step a)

/-! ## Pinned proofs verify -/

/-- What a pinned proof has to do against a checkpoint of its size: an inclusion proof verifies for
the leaf at its index, a consistency proof between an earlier checkpoint and this one. -/
def Verifies (leaves : List Bytes) (a : Answer) (c : Checkpoint) : Prop :=
  match a.request.query with
  | .inclusion index => 0 ≤ index → index < c.treeSize → ∃ P leaf root,
      a.proof = .ok (P.map hex) ∧ leaves[index.toNat]? = some leaf ∧
      fromhex c.rootHash = some root ∧ verifyInclusion index c.treeSize leaf P root = true
  | .consistency oldSize => ∀ old ∈ a.request.known, old.treeSize = oldSize → 0 < oldSize →
      oldSize ≤ c.treeSize → ∃ P oldRoot root, a.proof = .ok (P.map hex) ∧
        fromhex old.rootHash = some oldRoot ∧ fromhex c.rootHash = some root ∧
        verifyConsistency oldSize c.treeSize oldRoot root P = true

/-- An inclusion proof from a prefix verifies against the head of that prefix. -/
theorem inclusionProofHexOf_take {leaves : List Bytes} {n : Nat} (hn : n ≤ leaves.length)
    {index : Int} (hindex : 0 ≤ index) (hlt : index < n) :
    ∃ P leaf, inclusionProofHexOf (leaves.take n) index = .ok (P.map hex) ∧
      leaves[index.toNat]? = some leaf ∧
      verifyInclusion index n leaf P (treeHash (leaves.take n)) = true := by
  obtain ⟨i, rfl⟩ := Int.eq_ofNat_of_zero_le hindex
  have hlen : (leaves.take n).length = n := by rw [List.length_take, Nat.min_eq_left hn]
  have hi : i < (leaves.take n).length := by omega
  have hget : (leaves.take n)[i]? = some (leaves.take n)[i] := List.getElem?_eq_getElem hi
  refine ⟨_, (leaves.take n)[i], bind_eq_ok.mpr ⟨_, inclusionProof_eq_ok.mpr ⟨?_, rfl⟩, rfl⟩, ?_, ?_⟩
  · omega
  · rwa [List.getElem?_take_of_lt (by omega)] at hget
  · have hverify := verifyInclusion_complete hget
    rwa [hlen] at hverify

/-- A consistency proof from a prefix verifies between the heads of a shorter one and its own. -/
theorem consistencyProofHexOf_take {leaves : List Bytes} {m n : Nat} (hm : 0 < m) (hmn : m ≤ n)
    (hn : n ≤ leaves.length) :
    ∃ P, consistencyProofHexOf (leaves.take n) m = .ok (P.map hex) ∧
      verifyConsistency m n (treeHash (leaves.take m)) (treeHash (leaves.take n)) P = true := by
  have hlen : (leaves.take n).length = n := by rw [List.length_take, Nat.min_eq_left hn]
  obtain ⟨P, hproof⟩ := exists_consistencyProof (L := leaves.take n) (m := m) (by omega)
  have hverify := verifyConsistency_of_consistencyProof hproof
  rw [hlen, Int.toNat_natCast, List.take_take, Nat.min_eq_left hmn] at hverify
  exact ⟨P, bind_eq_ok.mpr ⟨P, hproof, rfl⟩, hverify⟩

/-- **A pinned answer verifies** against the checkpoints it was asked for. -/
theorem Answer.Holds.verifies {leaves : List Bytes} {a : Answer} (h : a.Holds leaves)
    {c : Checkpoint} (hc : c ∈ a.request.known) (hsize : a.request.treeSize = some c.treeSize) :
    Verifies leaves a c := by
  obtain ⟨given, ⟨hknown, hserves⟩, hproof⟩ := h
  obtain ⟨n, hn, hle, hroot⟩ := hknown c hc
  have hgiven := hserves n (hn ▸ hsize) ⟨c, hc, hn⟩
  rw [hgiven] at hproof
  rw [Verifies, hn, hproof, hroot]
  cases hquery : a.request.query with
  | inclusion index =>
      intro hindex hlt
      obtain ⟨P, leaf, hP, hleaf, hverify⟩ := inclusionProofHexOf_take hle hindex hlt
      exact ⟨P, leaf, _, hP, hleaf, fromhex_hex _, hverify⟩
  | consistency oldSize =>
      intro old hold holdSize hpos hle'
      obtain ⟨m, hm, hmle, holdRoot⟩ := hknown old hold
      rw [← holdSize, hm] at hpos hle' ⊢
      obtain ⟨P, hP, hverify⟩ := @consistencyProofHexOf_take leaves m n
        (by omega) (by omega) hle
      exact ⟨P, _, _, hP, holdRoot ▸ fromhex_hex _, fromhex_hex _, hverify⟩

/-- **Signed heads and pinned proofs survive concurrent growth.** From any state a ledger reaches,
and for any interleaving of threads that commit, take checkpoints and ask for proofs: the leaves are
those of the records in the backend, every checkpoint is the head of the first leaves committed, and
every proof asked for after a checkpoint and pinned to its size verifies against that checkpoint. -/
theorem runThreads_spec (B : LedgerBackend σ) (store : σ) (hstore : B.records store = [])
    (origin : Str) (retention : Option (Str → Except PyErr Str)) (calls : List LedgerCall)
    (steps : List Step) :
    ∃ l₀, Ledger.init B store origin retention = .ok l₀ ∧
      let s := runThreads B { ledger := Ledger.run B l₀ calls } steps
      Inv B s.ledger ∧
      (∀ c ∈ s.checkpoints, ∃ n : Nat, c.treeSize = n ∧ n ≤ s.ledger.leaves.length ∧
        c.rootHash = hex (treeHash (s.ledger.leaves.take n))) ∧
      ∀ a ∈ s.answers, ∀ c ∈ a.request.known, a.request.treeSize = some c.treeSize →
        Verifies s.ledger.leaves a c := by
  obtain ⟨l₀, hinit, hinv₀⟩ := init_empty hstore origin retention
  have hstart : SystemInv B { ledger := Ledger.run B l₀ calls } :=
    ⟨hinv₀.run calls, fun _ h => absurd h List.not_mem_nil, fun _ h => absurd h List.not_mem_nil,
      fun _ h => absurd h List.not_mem_nil⟩
  have hinv := hstart.run steps
  exact ⟨l₀, hinit, hinv.ledger, hinv.checkpoints, fun a ha c hc => (hinv.answers a ha).verifies hc⟩

/-- The root of the ledger after the sample calls: the leaf hash of the one correction. -/
def sampleRoot : Bytes :=
  [242, 250, 104, 130, 111, 230, 100, 254, 179, 226, 3, 229, 162, 117, 244, 100, 255, 41, 220, 241,
    2, 234, 26, 203, 104, 209, 208, 16, 0, 1, 56, 195]

/-- Its root after one more correction. -/
def sampleRootTwo : Bytes :=
  [67, 97, 69, 151, 103, 60, 106, 224, 26, 138, 145, 162, 70, 90, 52, 177, 18, 15, 187, 127, 119, 105,
    217, 36, 90, 104, 67, 117, 176, 222, 107, 42]

/-- What the sample producer signs for a head. -/
def sampleSigned (treeSize : Int) (root : Bytes) : Bytes :=
  (checkpointSigningBytes (lit "demo") treeSize (hex root)
    (lit "2026-01-01T00:00:03Z")).toOption.getD []

/-- The sample producer can sign both heads. -/
def sampleProducer : KeySource :=
  madeKey sampleKey [(sampleSigned 1 sampleRoot,
      [63, 134, 139, 208, 191, 184, 233, 142, 228, 55, 145, 122, 109, 224, 4, 145, 1, 43, 41, 70, 122,
        95, 26, 174, 249, 174, 133, 39, 168, 117, 240, 54, 122, 42, 63, 45, 223, 59, 26, 189, 42, 39,
        38, 71, 32, 33, 182, 244, 188, 253, 31, 195, 13, 104, 91, 51, 255, 138, 255, 163, 228, 137,
        191, 6]),
    (sampleSigned 2 sampleRootTwo,
      [119, 49, 16, 211, 154, 89, 204, 40, 104, 254, 217, 158, 74, 166, 101, 174, 142, 59, 11, 65, 14,
        190, 227, 208, 14, 117, 93, 69, 104, 5, 7, 99, 41, 21, 95, 214, 50, 241, 218, 251, 21, 190,
        201, 123, 168, 254, 6, 86, 145, 116, 61, 145, 165, 149, 134, 198, 74, 27, 166, 120, 218, 91,
        228, 3])]

/-- A thread prepares the commit of a correction. -/
def sampleCommit (targetEventId : Str) : Step :=
  .commitBegin (correctionEvent (lit "2026-01-01T00:00:02Z") targetEventId (lit "typo")
    (lit "agent-1")) (.ok (lit "2026-01-01T00:00:02Z"))

/-- A checkpoint is taken. After a commit a second one is taken, another commit comes in while it is
signed, and proofs pinned to its size are asked for, with a last commit before they are computed. -/
def sampleSteps : List Step :=
  [.checkpointLocked, .checkpointSign 0 sampleProducer none (.ok (lit "2026-01-01T00:00:03Z")),
    sampleCommit (lit "evt_2"), .commitLocked 0,
    .checkpointLocked, sampleCommit (lit "evt_3"), .commitLocked 1,
    .checkpointSign 0 sampleProducer none (.ok (lit "2026-01-01T00:00:03Z")),
    .proofLocked (.inclusion 1) (some 2), .proofLocked (.consistency 1) (some 2),
    sampleCommit (lit "evt_4"), .commitLocked 2, .proofCompute 1, .proofCompute 0]

/-- A new ledger in memory. -/
def sampleLedger : Ledger (List Val) where
  store := []
  origin := lit "demo"
  retention := none
  leaves := []
  tree := .new

/-- The sample ledger is the one that is opened on no records. -/
theorem init_sampleLedger :
    Ledger.init inMemoryLedgerBackend [] (lit "demo") none = .ok sampleLedger := rfl

/-- The sample run, on the ledger of the sample calls. -/
def sampleRun : System (List Val) :=
  runThreads inMemoryLedgerBackend
    { ledger := Ledger.run inMemoryLedgerBackend sampleLedger sampleCalls } sampleSteps

/-- What can be seen of a run. -/
structure Shown where
  leaves : Nat
  checkpoints : List Int
  /-- The query, the size it is pinned to, how many checkpoints were known, and how many nodes the
  answer has. -/
  answers : List (Query × Option Int × Nat × Option Nat)
deriving DecidableEq

/-- What can be seen of a state. -/
def shown (s : System σ) : Shown where
  leaves := s.ledger.leaves.length
  checkpoints := s.checkpoints.map Checkpoint.treeSize
  answers := s.answers.map fun a => (a.request.query, a.request.treeSize, a.request.known.length,
    a.proof.toOption.map List.length)

/-- What can be seen of the sample run. -/
def sampleShown : Shown where
  leaves := 4
  checkpoints := [1, 2]
  answers := [(.consistency 1, some 2, 2, some 1), (.inclusion 1, some 2, 2, some 1)]

/-- What its threads answer. -/
theorem shown_sampleRun : shown sampleRun = sampleShown := by decide +kernel

/-- The proofs of the sample run, of an event and from the first checkpoint, have one node each and
verify against the second checkpoint, which has two of the four leaves. -/
theorem runThreads_spec_sample :
    (inMemoryLedgerBackend.records sampleRun.ledger.store).length = 4 ∧
      shown sampleRun = sampleShown ∧
      ∀ a ∈ sampleRun.answers, ∀ c ∈ a.request.known, a.request.treeSize = some c.treeSize →
        Verifies sampleRun.ledger.leaves a c := by
  obtain ⟨l₀, hinit, hspec⟩ :=
    runThreads_spec inMemoryLedgerBackend [] rfl (lit "demo") none sampleCalls sampleSteps
  obtain rfl : sampleLedger = l₀ := Except.ok.inj (init_sampleLedger.symm.trans hinit)
  have hshown := shown_sampleRun
  unfold sampleRun at hshown ⊢
  dsimp only at hspec
  generalize runThreads inMemoryLedgerBackend _ sampleSteps = s at hspec hshown ⊢
  have hlength : s.ledger.leaves.length = 4 := congrArg Shown.leaves hshown
  exact ⟨hlength ▸ hspec.1.length_records, hshown, hspec.2.2⟩

end LedgerThreads

end OpenWright
