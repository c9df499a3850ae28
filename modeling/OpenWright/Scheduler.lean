import OpenWright.BrowserVerifier
import OpenWright.CheckpointStore
import OpenWright.HonestProducer

/-! # Scheduled checkpoints

Threads tick one scheduler while others commit to its ledger. A tick takes a snapshot under the lock of
the ledger, signs it, and puts the head into a store, unless the tree has not grown since the last one.

* **`run_serves`** — whatever the order of the steps, the store shows signed heads of the log, one for
  each tick that has returned, and any two of them are verified to be consistent. -/

namespace OpenWright.CheckpointStore

open Python Python.Val Merkle Signing Ledger LedgerThreads Verify
open HonestProducer (Signed Signed.mono leaves_prefix_step emptyLedger init_emptyLedger madeByBoth
  genuine_grown grownMade grownCosigned sampleCorrection secondLeaf)

/-! ## Two checkpoints -/

/-- The checks of one of two checkpoints. -/
def signedByKey (ed : Ed25519) (publicKeyRaw : Bytes) (cp : Val) : Except PyErr Bool := do
  let sig ← BrowserVerifier.signatureOf cp
  let data ← checkpointPayload cp
  if ed publicKeyRaw sig data then
    let keyId ← cp.getD (lit "public_key_id") .null
    return keyId.eq (.str (keyIdFor publicKeyRaw))
  else return false

/-- `verify_consistency_between`. -/
def verifyConsistencyBetween (ed : Ed25519) (oldCheckpoint newCheckpoint : Val) (proofHex : List Str) :
    Option Bytes → Except PyErr Bool
  | none => return false
  | some publicKeyRaw => do
    if ← signedByKey ed publicKeyRaw oldCheckpoint then
      if ← signedByKey ed publicKeyRaw newCheckpoint then
        let oldSize ← oldCheckpoint.getItem (lit "tree_size") >>= toInt
        let newSize ← newCheckpoint.getItem (lit "tree_size") >>= toInt
        let oldRoot ← oldCheckpoint.getItem (lit "root_hash") >>= unhexVal
        let newRoot ← newCheckpoint.getItem (lit "root_hash") >>= unhexVal
        let proof ← proofHex.mapM unhex
        return verifyConsistency oldSize newSize oldRoot newRoot proof
      else return false
    else return false

section Between

variable {ed : Ed25519} {key : KeySource} {leaves : List Bytes}

/-- What the key signed is signed by the key. -/
theorem signedByKey_dump
    (hed : ∀ data sig, key.sign data = .ok sig → ed key.publicKeyRaw sig data = true)
    {c : Checkpoint} (hc : Signed key leaves c) : signedByKey ed key.publicKeyRaw c.dump = .ok true := by
  obtain ⟨data, sig, hdata, hsign, hsignature⟩ := hc.signature
  have hsig : BrowserVerifier.signatureOf c.dump = .ok sig := by
    refine bind_eq_ok.mpr ⟨.str c.signature, getD_eq_ok rfl _, ?_⟩
    rw [BrowserVerifier.b64decodeVal, hsignature, b64decode_b64encode]
  have hpayload : checkpointPayload c.dump = .ok data := (checkpointPayload_dump c).trans hdata
  have hid : c.dump.getD (lit "public_key_id") .null = .ok (.str c.publicKeyId) := getD_eq_ok rfl _
  rw [signedByKey, hsig, hpayload]
  change (if ed key.publicKeyRaw sig data = true then _ else _) = _
  rw [if_pos (hed data sig hsign), hid, hc.publicKeyId]
  exact congrArg Except.ok (by simp [KeySource.keyId])

/-- **Heads of one log are consistent**, by the proof that the ledger gives. -/
theorem verifyConsistencyBetween_dump
    (hed : ∀ data sig, key.sign data = .ok sig → ed key.publicKeyRaw sig data = true)
    {a b : Checkpoint} (ha : Signed key leaves a) (hb : Signed key leaves b) (hpos : 0 < a.treeSize)
    (hle : a.treeSize ≤ b.treeSize) :
    ∃ P, consistencyProofHexOf (leaves.take b.treeSize.toNat) a.treeSize = .ok P ∧
      verifyConsistencyBetween ed a.dump b.dump P (some key.publicKeyRaw) = .ok true := by
  obtain ⟨m, hm, hmle, hma⟩ := ha.head
  obtain ⟨n, hn, hnle, hnb⟩ := hb.head
  obtain ⟨P, hproof, hverify⟩ := @consistencyProofHexOf_take leaves m n (by omega) (by omega) hnle
  refine ⟨P.map hex, by rw [hm, hn, Int.toNat_natCast, hproof], ?_⟩
  have hsize : ∀ c : Checkpoint, (c.dump.getItem (lit "tree_size") >>= toInt) = .ok c.treeSize :=
    fun c => bind_eq_ok.mpr ⟨_, getItem_eq_ok rfl, rfl⟩
  have hroot : ∀ {c : Checkpoint} {root : Bytes}, c.rootHash = hex root →
      (c.dump.getItem (lit "root_hash") >>= unhexVal) = .ok root := by
    intro c root h
    refine bind_eq_ok.mpr ⟨.str c.rootHash, getItem_eq_ok rfl, ?_⟩
    rw [unhexVal, unhex_eq_ok, h, fromhex_hex]
  have hnodes : (P.map hex).mapM unhex = .ok P := by
    rw [mapM_eq_ok, List.forall₂_map_left_iff, List.forall₂_same]
    exact fun b _ => unhex_eq_ok.mpr (fromhex_hex b)
  rw [verifyConsistencyBetween, signedByKey_dump hed ha, signedByKey_dump hed hb, hsize, hsize,
    hroot hma, hroot hnb, hnodes, hm, hn]
  exact congrArg Except.ok hverify

end Between

/-! ## The store -/

/-- A `CheckpointStore`: for each tree size it shows what was put last under it. -/
structure Store (S : Type) where
  /-- `put` at a time. -/
  put : S → Int → ValidCheckpoint → S
  get : S → Int → Except PyErr (Option Checkpoint)
  get_put : ∀ s now cp n,
    get (put s now cp) n = if n = cp.1.treeSize then .ok (some (asJson cp.1)) else get s n

/-- The directory is a store. -/
def LocalCheckpointStore.store {readInt : ReadInt} (hint : readInt.Sound) :
    Store LocalCheckpointStore where
  put s _ cp := (s.put cp.1).2
  get s := s.get readInt
  get_put s _ cp n := LocalCheckpointStore.showsLast hint s cp n

/-- The bucket is a store. -/
def S3CheckpointStore.store {readInt : ReadInt} (hint : readInt.Sound) : Store S3CheckpointStore where
  put s now cp := (s.put now cp.1).2
  get s := s.get readInt
  get_put s now cp n := S3CheckpointStore.showsLast hint s (now, cp) n

/-! ## Ticks -/

/-- A fresh checkpoint has no extra fields. -/
theorem valid_signSnapshot {origin : Str} {key : KeySource} {timestamp : Option Str}
    {clock : Except PyErr Str} {snap : Nat × Str} {cp : Checkpoint}
    (h : signSnapshot origin key timestamp clock snap = .ok cp) : Valid cp := by
  unfold signSnapshot signCheckpoint at h
  obtain ⟨t, -, h⟩ := bind_eq_ok.mp h
  obtain ⟨data, -, h⟩ := bind_eq_ok.mp h
  obtain ⟨sig, -, h⟩ := bind_eq_ok.mp h
  rw [← pure_eq_ok.mp h]
  exact fun kv hkv => absurd hkv List.not_mem_nil

/-- A thread inside `tick`: it signs its snapshot, compares the size, puts the head, or notes it. -/
inductive Ticker
  | signing (origin : Str) (snap : Nat × Str)
  | comparing (cp : ValidCheckpoint)
  | putting (cp : ValidCheckpoint)
  | noting (cp : ValidCheckpoint)

/-- A ledger, a store, their scheduler, and the threads that tick it. -/
structure Scheduled (σ S : Type) where
  ledger : Ledger σ
  store : S
  scheduler : CheckpointScheduler := {}
  tickers : List Ticker := []
  /-- The tree sizes of the ticks that have returned. -/
  returned : List Int := []

namespace Scheduled

/-- What happens next: a call on the ledger, a step of a tick, or a new scheduler. A `put` that raises
ends its tick, and the store is as it was. -/
inductive Step
  | call (c : LedgerCall)
  | enter
  | sign (k : Nat) (clock : Except PyErr Str)
  | compare (k : Nat)
  | put (k : Nat) (now : Except PyErr Int)
  | note (k : Nat)
  | restart (skipIfUnchanged : Bool)

variable {σ S : Type} (B : LedgerBackend σ) (store : Store S) (key : KeySource)

/-- One step; a step that no thread can take changes nothing. -/
def step (s : Scheduled σ S) : Step → Scheduled σ S
  | .call c => { s with ledger := Ledger.step B s.ledger c }
  -- size and root are read under the lock of the ledger
  | .enter => { s with tickers := s.tickers ++ [.signing s.ledger.origin s.ledger.snapshot] }
  | .sign k clock =>
    match s.tickers[k]? with
    | some (.signing origin snap) =>
      match h : signSnapshot origin key none clock snap with
      | .ok cp => { s with tickers := s.tickers.set k (.comparing ⟨cp, valid_signSnapshot h⟩) }
      | .error _ => { s with tickers := s.tickers.eraseIdx k }
    | _ => s
  | .compare k =>
    match s.tickers[k]? with
    | some (.comparing cp) =>
      if s.scheduler.skipIfUnchanged ∧ s.scheduler.lastSize = some cp.1.treeSize then
        -- unchanged: the tick returns without a put
        { s with tickers := s.tickers.eraseIdx k, returned := s.returned ++ [cp.1.treeSize] }
      else { s with tickers := s.tickers.set k (.putting cp) }
    | _ => s
  | .put k now =>
    match s.tickers[k]? with
    | some (.putting cp) =>
      match now with
      | .ok t => { s with store := store.put s.store t cp, tickers := s.tickers.set k (.noting cp) }
      -- the store refused the head, and the last size stays
      | .error _ => { s with tickers := s.tickers.eraseIdx k }
    | _ => s
  | .note k =>
    match s.tickers[k]? with
    | some (.noting cp) =>
      { s with
        -- only now the size is noted, so two ticks may put heads of one size
        scheduler := s.scheduler.stored cp
        tickers := s.tickers.eraseIdx k
        returned := s.returned ++ [cp.1.treeSize] }
    | _ => s
  -- the last size is not kept across a start
  | .restart skipIfUnchanged => { s with scheduler := { skipIfUnchanged }, tickers := [] }

/-- The steps in order. -/
def run (s : Scheduled σ S) (steps : List Step) : Scheduled σ S := steps.foldl (step B store key) s

/-! ## What the store shows -/

/-- There is a head of the size. -/
def Shown (s : S) (n : Int) : Prop := ∃ c, store.get s n = .ok (some c)

/-- A thread holds the head of a snapshot, or one that is signed; the one that is noted is in the
store. -/
def Ticker.Holds (leaves : List Bytes) (s : S) : Ticker → Prop
  | .signing _ snap => IsHead leaves snap.1 snap.2
  | .comparing cp | .putting cp => Signed key leaves cp.1
  | .noting cp => Signed key leaves cp.1 ∧ Shown store s cp.1.treeSize

/-- The store can be read, and shows signed heads of the log, each under its size. -/
def Serves (leaves : List Bytes) (s : S) : Prop :=
  ∀ n, ∃ o, store.get s n = .ok o ∧ ∀ c ∈ o, c.treeSize = n ∧ Signed key leaves c

/-- Every thread holds what it should, and there is a head for each tick that has returned. -/
structure Inv (s : Scheduled σ S) : Prop where
  ledger : Ledger.Inv B s.ledger
  tickers : ∀ t ∈ s.tickers, Ticker.Holds store key s.ledger.leaves s.store t
  serves : Serves store key s.ledger.leaves s.store
  returned : ∀ n ∈ s.returned, Shown store s.store n
  lastSize : ∀ n, s.scheduler.lastSize = some n → Shown store s.store n

variable {B store key}

/-- The JSON form of a signed head is signed. -/
theorem signed_asJson {leaves : List Bytes} {c : Checkpoint} (h : Signed key leaves c) :
    Signed key leaves (asJson c) := ⟨h.head, h.publicKeyId, h.signature⟩

section Put

variable {s : S} {leaves leaves' : List Bytes} {cp : ValidCheckpoint} {now n : Int}

/-- What is put is shown. -/
theorem shown_put : Shown store (store.put s now cp) cp.1.treeSize :=
  ⟨asJson cp.1, by rw [store.get_put, if_pos rfl]⟩

/-- What is shown stays shown, or another head of the size is. -/
theorem Shown.put (h : Shown store s n) : Shown store (store.put s now cp) n := by
  by_cases hn : n = cp.1.treeSize
  · rw [hn]
    exact shown_put
  · obtain ⟨c, hc⟩ := h
    exact ⟨c, by rw [store.get_put, if_neg hn, hc]⟩

/-- A signed head is put under its size. -/
theorem Serves.put (h : Serves store key leaves s) (hcp : Signed key leaves cp.1) :
    Serves store key leaves (store.put s now cp) := by
  intro n
  rw [store.get_put]
  by_cases hn : n = cp.1.treeSize
  · refine ⟨some (asJson cp.1), if_pos hn, ?_⟩
    intro c hc
    rw [← Option.some.inj hc]
    exact ⟨hn.symm, signed_asJson hcp⟩
  · obtain ⟨o, ho, hall⟩ := h n
    exact ⟨o, (if_neg hn).trans ho, hall⟩

/-- What a thread holds stays true when a head is put. -/
theorem Ticker.Holds.put {t : Ticker} (h : Ticker.Holds store key leaves s t) :
    Ticker.Holds store key leaves (store.put s now cp) t := by
  cases t with
  | noting cp' => exact ⟨h.1, h.2.put⟩
  | _ => exact h

/-- What a thread holds stays true when the log grows. -/
theorem Ticker.Holds.mono (hgrow : leaves <+: leaves') {t : Ticker}
    (h : Ticker.Holds store key leaves s t) : Ticker.Holds store key leaves' s t := by
  cases t with
  | signing origin snap => exact IsHead.mono hgrow h
  | comparing cp => exact Signed.mono hgrow h
  | putting cp => exact Signed.mono hgrow h
  | noting cp => exact ⟨h.1.mono hgrow, h.2⟩

/-- What the store shows stays true when the log grows. -/
theorem Serves.mono (hgrow : leaves <+: leaves') (h : Serves store key leaves s) :
    Serves store key leaves' s := by
  intro n
  obtain ⟨o, ho, hall⟩ := h n
  exact ⟨o, ho, fun c hc => ⟨(hall c hc).1, (hall c hc).2.mono hgrow⟩⟩

end Put

section Runs

variable {s : Scheduled σ S}

/-- A snapshot that is signed is a signed head. -/
theorem signed_signSnapshot {leaves : List Bytes} {origin : Str} {clock : Except PyErr Str}
    {snap : Nat × Str} {cp : Checkpoint} (hsnap : IsHead leaves snap.1 snap.2)
    (h : signSnapshot origin key none clock snap = .ok cp) : Signed key leaves cp := by
  obtain ⟨hsize, hroot⟩ := signSnapshot_eq_ok h
  unfold signSnapshot signCheckpoint at h
  obtain ⟨t, -, h⟩ := bind_eq_ok.mp h
  obtain ⟨data, hdata, h⟩ := bind_eq_ok.mp h
  obtain ⟨sig, hsig, h⟩ := bind_eq_ok.mp h
  refine ⟨⟨snap.1, hsize, hroot ▸ hsnap⟩, ?_, data, sig, ?_, hsig, ?_⟩
  all_goals rw [← pure_eq_ok.mp h]
  exact hdata

/-- A thread moves on. -/
theorem Inv.set (h : Inv B store key s) (k : Nat) {t : Ticker}
    (ht : Ticker.Holds store key s.ledger.leaves s.store t) :
    Inv B store key { s with tickers := s.tickers.set k t } := by
  refine ⟨h.ledger, fun u hu => ?_, h.serves, h.returned, h.lastSize⟩
  rcases List.mem_or_eq_of_mem_set hu with hu | rfl
  · exact h.tickers u hu
  · exact ht

/-- A thread ends. -/
theorem Inv.erase (h : Inv B store key s) (k : Nat) :
    Inv B store key { s with tickers := s.tickers.eraseIdx k } :=
  ⟨h.ledger, fun u hu => h.tickers u (List.mem_of_mem_eraseIdx hu), h.serves, h.returned, h.lastSize⟩

/-- A tick returns. -/
theorem Inv.return (h : Inv B store key s) {n : Int} (hn : Shown store s.store n) :
    Inv B store key { s with returned := s.returned ++ [n] } := by
  refine ⟨h.ledger, h.tickers, h.serves, fun m hm => ?_, h.lastSize⟩
  rcases List.mem_append.mp hm with hm | hm
  · exact h.returned m hm
  · rw [List.mem_singleton.mp hm]
    exact hn

/-- **Every step keeps the invariant.** -/
theorem Inv.step (h : Inv B store key s) (a : Step) : Inv B store key (step B store key s a) := by
  have hholds : ∀ {k : Nat} {t : Ticker}, s.tickers[k]? = some t →
      Ticker.Holds store key s.ledger.leaves s.store t :=
    fun hk => h.tickers _ (List.mem_of_getElem? hk)
  cases a with
  | call c =>
      have hgrow := leaves_prefix_step h.ledger c
      exact ⟨h.ledger.step c, fun t ht => (h.tickers t ht).mono hgrow, h.serves.mono hgrow, h.returned,
        h.lastSize⟩
  | enter =>
      -- the snapshot is taken under the lock, so it is a head of the log
      refine ⟨h.ledger, fun t ht => ?_, h.serves, h.returned, h.lastSize⟩
      rcases List.mem_append.mp ht with ht | ht
      · exact h.tickers t ht
      · rw [List.mem_singleton.mp ht]
        exact isHead_snapshot h.ledger
  | sign k clock =>
      rw [Scheduled.step]
      split
      · rename_i origin snap hk
        split
        · rename_i cp hsign
          exact h.set k (signed_signSnapshot (hholds hk) hsign)
        · exact h.erase k
      · exact h
  | compare k =>
      rw [Scheduled.step]
      split
      · rename_i cp hk
        have hcp : Signed key s.ledger.leaves cp.1 := hholds hk
        by_cases hskip : s.scheduler.skipIfUnchanged = true ∧ s.scheduler.lastSize = some cp.1.treeSize
        · -- the tick is skipped: a head of its size was put before
          rw [if_pos hskip]
          exact (h.erase k).return (h.lastSize _ hskip.2)
        · rw [if_neg hskip]
          exact h.set k hcp
      · exact h
  | put k now =>
      rw [Scheduled.step]
      split
      · rename_i cp hk
        have hcp : Signed key s.ledger.leaves cp.1 := hholds hk
        split
        · rename_i t
          have hput : Inv B store key { s with store := store.put s.store t cp } :=
            ⟨h.ledger, fun u hu => (h.tickers u hu).put, h.serves.put hcp,
              fun n hn => (h.returned n hn).put, fun n hn => (h.lastSize n hn).put⟩
          -- a head of the same size may be replaced, by one that is signed as well
          exact hput.set k ⟨hcp, shown_put⟩
        · exact h.erase k
      · exact h
  | note k =>
      rw [Scheduled.step]
      split
      · rename_i cp hk
        obtain ⟨-, hshown⟩ := hholds hk
        have hreturn := (h.erase k).return hshown
        refine ⟨hreturn.ledger, hreturn.tickers, hreturn.serves, hreturn.returned, fun n hn => ?_⟩
        rw [← Option.some.inj hn]
        exact hshown
      · exact h
  | restart skipIfUnchanged =>
      exact ⟨h.ledger, fun t ht => absurd ht List.not_mem_nil, h.serves, h.returned,
        fun n hn => (by cases hn)⟩

/-- Every run keeps the invariant. -/
theorem Inv.run (h : Inv B store key s) (steps : List Step) :
    Inv B store key (run B store key s steps) := by
  induction steps generalizing s with
  | nil => exact h
  | cons a steps ih => exact ih (h.step a)

end Runs

/-- The steps of a tick that nothing comes between. -/
def tickSteps (clock : Except PyErr Str) (now : Int) : List Step :=
  [.enter, .sign 0 clock, .compare 0, .put 0 (.ok now), .note 0]

/-- **A tick that runs alone is `tick`.** -/
theorem run_tickSteps {s : Scheduled σ S} (halone : s.tickers = []) {clock : Except PyErr Str}
    {cp : Checkpoint} (hcp : s.ledger.checkpoint key none clock = .ok cp) (now : Int) :
    ∃ hvalid : Valid cp,
      let t := run B store key s (tickSteps clock now)
      t.scheduler = (s.scheduler.tick ⟨cp, hvalid⟩).2 ∧ t.tickers = [] ∧
        t.returned = s.returned ++ [cp.treeSize] ∧
        t.store = (s.scheduler.tick ⟨cp, hvalid⟩).1.toList.foldl (store.put · now ·) s.store := by
  have hsign : signSnapshot s.ledger.origin key none clock s.ledger.snapshot = .ok cp := hcp
  refine ⟨valid_signSnapshot hsign, ?_⟩
  have hsigned : run B store key s [.enter, .sign 0 clock] = { s with
      tickers := [.comparing ⟨cp, valid_signSnapshot hsign⟩] } := by
    simp only [run, List.foldl_cons, List.foldl_nil, step, halone, List.nil_append,
      List.getElem?_cons_zero]
    split
    -- the tick alone signs what the ledger would
    · rename_i cp' hsign'
      obtain rfl : cp' = cp := Except.ok.inj (hsign'.symm.trans hsign)
      rfl
    · rename_i err hsign'
      cases hsign'.symm.trans hsign
  have hrun : run B store key s (tickSteps clock now) = run B store key
      (run B store key s [.enter, .sign 0 clock]) [.compare 0, .put 0 (.ok now), .note 0] := rfl
  rw [hrun, hsigned, CheckpointScheduler.tick]
  -- unchanged, or put and noted
  by_cases hskip : s.scheduler.skipIfUnchanged = true ∧ s.scheduler.lastSize = some cp.treeSize
  · rw [if_pos hskip]
    simp [run, step, hskip.1, hskip.2]
  · rw [if_neg hskip]
    simp [run, step, hskip]

/-- **Scheduled checkpoints.** Whatever the order in which threads commit and tick, whichever clocks,
signatures and puts fail, and however often the scheduler is started anew: the store can be read at any
size; what it shows is a head of the log under its size, which verifies under the key of the scheduler;
there is one for each tick that has returned, even if it was skipped; and any two of them are verified
to be consistent, by the proof that the ledger gives. -/
theorem run_serves (B : LedgerBackend σ) (store : Store S) (key : KeySource) (ed : Ed25519)
    (hed : ∀ data sig, key.sign data = .ok sig → ed key.publicKeyRaw sig data = true)
    (backend : σ) (hbackend : B.records backend = []) (origin : Str)
    (retention : Option (Str → Except PyErr Str)) (cps : S) (hcps : ∀ n, store.get cps n = .ok none)
    (steps : List Step) :
    ∃ l₀, Ledger.init B backend origin retention = .ok l₀ ∧
      let s := run B store key { ledger := l₀, store := cps } steps
      (∀ n, ∃ o, store.get s.store n = .ok o ∧ ∀ c ∈ o, c.treeSize = n ∧
        IsCheckpoint s.ledger.leaves c ∧ c.verify ed key.publicKeyRaw = .ok true) ∧
      (∀ n ∈ s.returned, ∃ c, store.get s.store n = .ok (some c)) ∧
      ∀ m n a b, store.get s.store m = .ok (some a) → store.get s.store n = .ok (some b) →
        0 < m → m ≤ n → ∃ P, s.ledger.consistencyProofHex m (some n) = .ok P ∧
          verifyConsistencyBetween ed a.dump b.dump P (some key.publicKeyRaw) = .ok true := by
  obtain ⟨l₀, hinit, hinv₀⟩ := init_empty hbackend origin retention
  refine ⟨l₀, hinit, ?_⟩
  intro s
  -- nothing is shown and nothing has returned yet
  have hstart : Inv B store key { ledger := l₀, store := cps } := by
    refine ⟨hinv₀, fun t ht => absurd ht List.not_mem_nil, fun n => ⟨none, hcps n, ?_⟩,
      fun n hn => absurd hn List.not_mem_nil, fun n hn => (by cases hn)⟩
    intro c hc
    cases hc
  have hinv : Inv B store key s := hstart.run steps
  -- what is shown under a size is a signed head of that size
  have hshows : ∀ {n c}, store.get s.store n = .ok (some c) →
      c.treeSize = n ∧ Signed key s.ledger.leaves c := by
    intro n c hc
    obtain ⟨o, ho, hall⟩ := hinv.serves n
    exact hall c (Except.ok.inj (ho.symm.trans hc))
  refine ⟨fun n => ?_, hinv.returned, fun m n a b ha hb hpos hle => ?_⟩
  · obtain ⟨o, ho, hall⟩ := hinv.serves n
    refine ⟨o, ho, fun c hc => ?_⟩
    obtain ⟨hsize, hsigned⟩ := hall c hc
    obtain ⟨data, sig, hdata, hsign, hsignature⟩ := hsigned.signature
    exact ⟨hsize, hsigned.head, Checkpoint.verify_eq_ok_true hsigned.publicKeyId hsignature hdata
      (hed data sig hsign)⟩
  · obtain ⟨rfl, hsa⟩ := hshows ha
    obtain ⟨rfl, hsb⟩ := hshows hb
    obtain ⟨P, hproof, hverify⟩ := verifyConsistencyBetween_dump hed hsa hsb hpos hle
    refine ⟨P, ?_, hverify⟩
    -- the proof of the ledger is pinned to the larger size
    rw [consistencyProofHex, pinned, if_pos (by omega)]
    exact hproof

/-- A directory of integer sizes. -/
def sampleStore : Store LocalCheckpointStore :=
  @LocalCheckpointStore.store sampleReadInt fun _ => rfl

/-- A tick comes after each of two commits, and one more after the second tick. -/
def sampleTicks : List Step :=
  .call (sampleCorrection (lit "evt_1")) :: tickSteps (.ok (lit "2026-01-01T00:00:00Z")) 0
    ++ .call (sampleCorrection (lit "evt_2")) :: tickSteps (.ok (lit "2026-01-01T00:00:00Z")) 1
    ++ tickSteps (.ok (lit "2026-01-01T00:00:00Z")) 2

/-- The run of these steps on a new ledger and an empty directory. -/
def sampleScheduled : Scheduled (List Val) LocalCheckpointStore :=
  run inMemoryLedgerBackend sampleStore (madeKey sampleKey grownMade)
    { ledger := emptyLedger, store := { dir := lit "cps" } } sampleTicks

/-- The ticks that have returned, and the proof that the ledger gives. -/
theorem returned_sampleScheduled : sampleScheduled.returned = [1, 2, 2] ∧
    (sampleScheduled.ledger.consistencyProofHex 1 (some 2)).toOption = some [hex secondLeaf] := by
  decide +kernel

/-- The store shows the heads of one leaf and of two, and the node between them shows that they are
consistent. -/
theorem run_serves_sample :
    sampleScheduled.returned = [1, 2, 2] ∧
      sampleScheduled.ledger.consistencyProofHex 1 (some 2) = .ok [hex secondLeaf] ∧
      ∃ a b, sampleStore.get sampleScheduled.store 1 = .ok (some a) ∧
        sampleStore.get sampleScheduled.store 2 = .ok (some b) ∧
        a.verify (madeByBoth grownMade grownCosigned) sampleKey = .ok true ∧
        b.verify (madeByBoth grownMade grownCosigned) sampleKey = .ok true ∧
        verifyConsistencyBetween (madeByBoth grownMade grownCosigned) a.dump b.dump [hex secondLeaf]
          (some sampleKey) = .ok true := by
  obtain ⟨l₀, hinit, hspec⟩ := run_serves inMemoryLedgerBackend sampleStore
    (madeKey sampleKey grownMade) (madeByBoth grownMade grownCosigned) genuine_grown.producer [] rfl
    (lit "openwright") none { dir := lit "cps" } (fun _ => rfl) sampleTicks
  obtain rfl : emptyLedger = l₀ := Except.ok.inj (init_emptyLedger.symm.trans hinit)
  obtain ⟨hreturned, hproof⟩ := returned_sampleScheduled
  unfold sampleScheduled at hreturned hproof ⊢
  dsimp only at hspec
  generalize run inMemoryLedgerBackend _ _ _ sampleTicks = s at hspec hreturned hproof ⊢
  replace hproof := eq_ok_of_toOption hproof
  obtain ⟨hread, hshown, hconsistent⟩ := hspec
  obtain ⟨a, ha⟩ := hshown 1 (by rw [hreturned]; decide)
  obtain ⟨b, hb⟩ := hshown 2 (by rw [hreturned]; decide)
  -- what the store shows verifies
  have hverify : ∀ {n c}, sampleStore.get s.store n = .ok (some c) →
      c.verify (madeByBoth grownMade grownCosigned) sampleKey = .ok true := by
    intro n c hc
    obtain ⟨o, ho, hall⟩ := hread n
    exact (hall c (Except.ok.inj (ho.symm.trans hc))).2.2
  obtain ⟨P, hP, hbetween⟩ := hconsistent 1 2 a b ha hb (by decide) (by decide)
  obtain rfl : [hex secondLeaf] = P := Except.ok.inj (hproof.symm.trans hP)
  exact ⟨hreturned, hproof, a, b, ha, hb, hverify ha, hverify hb, hbetween⟩

end Scheduled

end OpenWright.CheckpointStore
