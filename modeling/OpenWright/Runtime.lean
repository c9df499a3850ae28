import OpenWright.Report

/-! # The runtime of a live agent

`Runtime.report` reads the events and evaluates a built-in crosswalk over them, takes a checkpoint,
reads each event with its proof, and signs. Threads of the agent commit while it does so (the report
scheduler has a thread of its own), so each of these is a step, and steps of other threads may come
between any two.

* **`runRuntime_verifies`** — where no commit comes between an evaluation and its checkpoint, every
  report deep-verifies, with the verdicts over the events its checkpoint covers.
* **`runRuntime_not_verifies`** — one commit between the two, and the report does not. -/

namespace OpenWright

open Python Python.Val Canonical Signing Verify Ledger

/-- What a runtime is set up with. -/
structure Runtime (σ : Type) where
  backend : LedgerBackend σ
  key : KeySource
  builtins : Builtins
  reload : Reload
  publicKeyPem : Bytes → Except PyErr Str

namespace Runtime

variable {σ : Type} (R : Runtime σ)

/-- `load_builtin` without a profile. -/
def loadBuiltin (name : Str) : Except PyErr Crosswalk :=
  match R.builtins.lookup name with
  | some cw => cw
  | none => .error
    { kind := .keyError
      msg := [.text (lit "unknown built-in crosswalk "), .repr (.str name),
        .text (lit "; available: "),
        .repr (strings ((R.builtins.map Prod.fst).insertionSort (· ≤ ·)))] }

/-- `evaluate(load_builtin(crosswalk), list(self.ledger.events()))`. -/
def evaluateEvents (l : Ledger σ) (crosswalk : Str) : Except PyErr CrosswalkResult := do
  let cw ← R.loadBuiltin crosswalk
  let dicts ← l.events R.backend R.reload
  cw.evaluate dicts

/-- `Runtime.report` without an output directory. -/
def report (l : Ledger σ) (crosswalk scopeDescription : Str) (env : ReportEnv) :
    Except PyErr Items := do
  let result ← R.evaluateEvents l crosswalk
  buildReport R.backend R.reload l result R.key { scopeDescription } env

/-! ## Threads -/

/-- The report a thread is making: its scope and the results of the controls. -/
structure Pending where
  scopeDescription : Str
  result : CrosswalkResult

/-- A thread inside `commit` or `report`. -/
inductive Thread
  | committing (p : Prepared)
  | evaluated (r : Pending)
  | signing (r : Pending) (snap : Nat × Str)
  | reading (r : Pending) (c : Checkpoint) (entries : List ReportEntry)

/-- The ledger, the threads, and the reports returned so far. -/
structure System (σ : Type) where
  ledger : Ledger σ
  threads : List Thread := []
  reports : List Items := []

/-- One step of one thread; threads are named by their position. -/
inductive Step
  | commitBegin (event : ComplianceEvent) (clock : Except PyErr Str)
  | commitLocked (k : Nat)
  /-- Read the events and evaluate. -/
  | reportBegin (crosswalk scopeDescription : Str)
  /-- The locked part of `checkpoint`. -/
  | reportSnapshot (k : Nat)
  /-- The rest of `checkpoint`. -/
  | reportCheckpoint (k : Nat) (clock : Except PyErr Str)
  /-- Read the next event and its proof. -/
  | reportEntry (k : Nat)
  | reportSign (k : Nat) (uuid : Str) (now : Except PyErr Str)

/-- What the signing of a report takes from outside. -/
def signEnv (uuid : Str) (now : Except PyErr Str) : ReportEnv where
  uuid
  now
  clock := now
  publicKeyPem := R.publicKeyPem

/-- What a step does. A step of a thread that is not there does nothing; a method that raises ends
without a result. -/
def step (s : System σ) : Step → System σ
  | .commitBegin event clock =>
    -- the event is prepared before the lock is taken
    match prepare s.ledger.retention event clock with
    | .ok p => { s with threads := s.threads ++ [.committing p] }
    | .error _ => s
  | .commitLocked k =>
    match s.threads[k]? with
    | some (.committing p) =>
      { s with ledger := (Ledger.commitLocked R.backend s.ledger p).2, threads := s.threads.eraseIdx k }
    | _ => s
  | .reportBegin crosswalk scopeDescription =>
    -- the events are read and evaluated without the lock
    match R.evaluateEvents s.ledger crosswalk with
    | .ok result => { s with threads := s.threads ++ [.evaluated { scopeDescription, result }] }
    | .error _ => s
  | .reportSnapshot k =>
    match s.threads[k]? with
    -- size and root are read under the lock, and signed without it
    | some (.evaluated r) => { s with threads := s.threads.set k (.signing r s.ledger.snapshot) }
    | _ => s
  | .reportCheckpoint k clock =>
    match s.threads[k]? with
    | some (.signing r snap) =>
      match signSnapshot s.ledger.origin R.key none clock snap with
      | .ok c => { s with threads := s.threads.set k (.reading r c []) }
      | .error _ => { s with threads := s.threads.eraseIdx k }
    | _ => s
  | .reportEntry k =>
    match s.threads[k]? with
    | some (.reading r c entries) =>
      -- an entry at a time, each with a proof pinned to the signed size
      if entries.length < c.treeSize.toNat then
        match s.ledger.reportEntry R.backend R.reload c.treeSize entries.length with
        | .ok e => { s with threads := s.threads.set k (.reading r c (entries ++ [e])) }
        | .error _ => { s with threads := s.threads.eraseIdx k }
      else s
    | _ => s
  | .reportSign k uuid now =>
    match s.threads[k]? with
    | some (.reading r c entries) =>
      if entries.length = c.treeSize.toNat then
        match assembleReport r.result R.key { scopeDescription := r.scopeDescription }
            (R.signEnv uuid now) c entries with
        | .ok report => { s with threads := s.threads.eraseIdx k, reports := s.reports ++ [report] }
        | .error _ => { s with threads := s.threads.eraseIdx k }
      else s
    | _ => s

/-- A commit begins: its event is prepared. -/
theorem step_commitBegin {s : System σ} {event : ComplianceEvent} {clock : Except PyErr Str}
    {p : Prepared} (h : prepare s.ledger.retention event clock = .ok p) :
    R.step s (.commitBegin event clock) = { s with threads := s.threads ++ [.committing p] } := by
  rw [step, h]

/-- A commit ends under the lock. -/
theorem step_commitLocked {s : System σ} {k : Nat} {p : Prepared}
    (h : s.threads[k]? = some (.committing p)) :
    R.step s (.commitLocked k) = { s with
      ledger := (Ledger.commitLocked R.backend s.ledger p).2, threads := s.threads.eraseIdx k } := by
  rw [step, h]

/-- A report begins: the events are evaluated. -/
theorem step_reportBegin {s : System σ} {crosswalk scopeDescription : Str} {result : CrosswalkResult}
    (h : R.evaluateEvents s.ledger crosswalk = .ok result) :
    R.step s (.reportBegin crosswalk scopeDescription)
      = { s with threads := s.threads ++ [.evaluated { scopeDescription, result }] } := by
  rw [step, h]

/-- A report reads the next entry. -/
theorem step_reportEntry {s : System σ} {k : Nat} {r : Pending} {c : Checkpoint}
    {entries : List ReportEntry} {e : ReportEntry} (h : s.threads[k]? = some (.reading r c entries))
    (hlt : entries.length < c.treeSize.toNat)
    (he : s.ledger.reportEntry R.backend R.reload c.treeSize entries.length = .ok e) :
    R.step s (.reportEntry k)
      = { s with threads := s.threads.set k (.reading r c (entries ++ [e])) } := by
  rw [step, h]
  dsimp only
  rw [if_pos hlt, he]

/-- A report is signed after the last entry. -/
theorem step_reportSign {s : System σ} {k : Nat} {r : Pending} {c : Checkpoint}
    {entries : List ReportEntry} {uuid : Str} {now : Except PyErr Str} {report : Items}
    (h : s.threads[k]? = some (.reading r c entries)) (hlen : entries.length = c.treeSize.toNat)
    (hr : assembleReport r.result R.key { scopeDescription := r.scopeDescription } (R.signEnv uuid now) c
      entries = .ok report) :
    R.step s (.reportSign k uuid now)
      = { s with threads := s.threads.eraseIdx k, reports := s.reports ++ [report] } := by
  rw [step, h]
  dsimp only
  rw [if_pos hlen, hr]

/-- A run: steps of threads in any order. -/
def runRuntime (s : System σ) (steps : List Step) : System σ := steps.foldl R.step s

/-- A longer run goes on from the shorter one. -/
theorem runRuntime_append (s : System σ) (steps steps' : List Step) :
    R.runRuntime s (steps ++ steps') = R.runRuntime (R.runRuntime s steps) steps' :=
  List.foldl_append

/-- A run of one step. -/
theorem runRuntime_singleton (s : System σ) (a : Step) : R.runRuntime s [a] = R.step s a := rfl

/-- A commit that nothing interrupts. -/
theorem run_commit {s : System σ} {event : ComplianceEvent} {clock : Except PyErr Str} {p : Prepared}
    (h : prepare s.ledger.retention event clock = .ok p) :
    R.runRuntime s [.commitBegin event clock, .commitLocked s.threads.length]
      = { s with ledger := (Ledger.commitLocked R.backend s.ledger p).2 } := by
  have hlast : (s.threads ++ [.committing p])[s.threads.length]? = some (.committing p) := by simp
  rw [runRuntime, List.foldl_cons, R.step_commitBegin h, List.foldl_cons, R.step_commitLocked hlast,
    List.foldl_nil, List.eraseIdx_append_of_length_le le_rfl]
  simp

/-! ## A thread on its own -/

/-- The steps that build a report of a log of `n` entries. -/
def buildSteps (env : ReportEnv) (n : Nat) : List Step :=
  [.reportSnapshot 0, .reportCheckpoint 0 env.clock] ++ List.replicate n (.reportEntry 0)
    ++ [.reportSign 0 env.uuid env.now]

/-- The steps of one report of a log of `n` entries. -/
def reportSteps (crosswalk scopeDescription : Str) (env : ReportEnv) (n : Nat) : List Step :=
  .reportBegin crosswalk scopeDescription :: buildSteps env n

/-- The steps that read entries read them in order. -/
theorem run_reportEntry {l : Ledger σ} {r : Pending} {c : Checkpoint} {entries : List ReportEntry}
    (h : (List.range c.treeSize.toNat).mapM (l.reportEntry R.backend R.reload c.treeSize)
      = .ok entries) {m : Nat} (hm : m ≤ c.treeSize.toNat) :
    R.runRuntime { ledger := l, threads := [.reading r c []] } (List.replicate m (.reportEntry 0))
      = { ledger := l, threads := [.reading r c (entries.take m)] } := by
  rw [mapM_eq_ok] at h
  have hlen : entries.length = c.treeSize.toNat := by rw [← h.length_eq, List.length_range]
  induction m with
  | zero => rfl
  | succ m ih =>
      have hlt : m < entries.length := by omega
      have hread : l.reportEntry R.backend R.reload c.treeSize m = .ok entries[m] := by
        have hentry := (List.forall₂_iff_get.mp h).2 m (by rw [List.length_range]; omega) hlt
        simpa using hentry
      have htaken : (entries.take m).length = m := by
        rw [List.length_take, Nat.min_eq_left hlt.le]
      rw [List.replicate_succ', runRuntime_append, ih (by omega), runRuntime_singleton, step]
      simp only [List.getElem?_cons_zero, htaken]
      rw [if_pos (by omega), hread]
      simp only [List.set_cons_zero]
      rw [List.take_add_one, List.getElem?_eq_getElem hlt, Option.toList_some]

/-- The steps that build a report give what `build_report` returns. -/
theorem run_buildSteps {l : Ledger σ} {r : Pending} {env : ReportEnv}
    (hauthorized : env.authorized = .ok ()) (hpem : env.publicKeyPem = R.publicKeyPem) {rep : Items}
    (h : buildReport R.backend R.reload l r.result R.key { scopeDescription := r.scopeDescription } env
      = .ok rep) :
    R.runRuntime { ledger := l, threads := [.evaluated r] } (buildSteps env l.leaves.length)
      = { ledger := l, reports := [rep] } := by
  rw [buildReport, hauthorized] at h
  obtain ⟨_, -, h⟩ := bind_eq_ok.mp h
  obtain ⟨c, hc, h⟩ := bind_eq_ok.mp h
  obtain ⟨entries, hentries, h⟩ := bind_eq_ok.mp h
  have hsign : signSnapshot l.origin R.key none env.clock l.snapshot = .ok c := hc
  have hsize : c.treeSize.toNat = l.leaves.length := by
    rw [(signSnapshot_eq_ok hsign).1, snapshot, Int.toNat_natCast]
  have hlen : entries.length = c.treeSize.toNat := by
    rw [← (mapM_eq_ok.mp hentries).length_eq, List.length_range]
  -- up to the checkpoint
  have hhead : R.runRuntime { ledger := l, threads := [.evaluated r] }
      [.reportSnapshot 0, .reportCheckpoint 0 env.clock]
      = { ledger := l, threads := [.reading r c []] } := by
    simp [runRuntime, step, hsign]
  have hassemble : assembleReport r.result R.key { scopeDescription := r.scopeDescription }
      (R.signEnv env.uuid env.now) c entries = .ok rep := by
    rw [← h, assembleReport, assembleReport, signEnv, hpem]
  have hread := R.run_reportEntry (r := r) hentries le_rfl
  rw [buildSteps, runRuntime_append, runRuntime_append, hhead, ← hsize, hread, ← hlen,
    List.take_length, runRuntime_singleton, step]
  simp [hlen, hassemble]

/-- **The steps of a report are the report.** Where `report` returns, its steps on a ledger at rest
return the same and leave the ledger as it is. -/
theorem run_reportSteps {l : Ledger σ} {crosswalk scopeDescription : Str} {env : ReportEnv}
    (hauthorized : env.authorized = .ok ()) (hpem : env.publicKeyPem = R.publicKeyPem) {rep : Items}
    (h : R.report l crosswalk scopeDescription env = .ok rep) :
    R.runRuntime { ledger := l } (reportSteps crosswalk scopeDescription env l.leaves.length)
      = { ledger := l, reports := [rep] } := by
  rw [report] at h
  obtain ⟨result, hresult, h⟩ := bind_eq_ok.mp h
  rw [reportSteps, runRuntime, List.foldl_cons, R.step_reportBegin hresult]
  exact R.run_buildSteps (r := { scopeDescription, result }) hauthorized hpem h

/-! ## What a report has to be -/

/-- The verdicts of a report are those of a built-in crosswalk over the events that its checkpoint
covers. -/
def Faithful (records : List Val) (report : Items) : Prop :=
  ∃ (n : Nat) (name : Str) (cw : Crosswalk) (result : CrosswalkResult),
    (reportCheckpoint report).item? (lit "tree_size") = some (.int n) ∧ n ≤ records.length ∧
    R.builtins.lookup name = some (.ok cw) ∧ cw.evaluate (records.take n) = .ok result ∧
    reportControls report = .list (result.controls.map ControlResult.dump)

/-- A report is valid for the deep verifier under the key of the runtime. -/
def Passes (ed : Ed25519) (pem : PemReader) (report : Items) : Prop :=
  ∃ res, verifyReportDeep ed pem R.builtins R.reload report (some R.key.publicKeyRaw) none = .ok res ∧
    res.valid = true

/-! ## Quiet runs -/

/-- A step comes between the evaluation of a report and its checkpoint: it commits while a thread
has evaluated and has not taken the size and the root yet. -/
def Disturbs (s : System σ) : Step → Prop
  | .commitLocked k => (∃ p, s.threads[k]? = some (.committing p)) ∧ ∃ r, .evaluated r ∈ s.threads
  | _ => False

/-- No step of the run comes between an evaluation and its checkpoint. -/
def Quiet (s : System σ) : List Step → Prop
  | [] => True
  | a :: steps => ¬Disturbs s a ∧ Quiet (R.step s a) steps

/-- Without commits a run is quiet. -/
theorem quiet_of_forall {steps : List Step} (h : ∀ k, .commitLocked k ∉ steps) (s : System σ) :
    R.Quiet s steps := by
  induction steps generalizing s with
  | nil => trivial
  | cons a steps ih =>
      refine ⟨?_, ih (fun k hk => h k (List.mem_cons_of_mem a hk)) (R.step s a)⟩
      cases a with
      | commitLocked k => exact absurd List.mem_cons_self (h k)
      | _ => exact fun hdisturbs => hdisturbs

/-- A commit is quiet where no report has been evaluated and not snapshotted. -/
theorem quiet_commit {s : System σ} (h : ∀ r, .evaluated r ∉ s.threads) (event : ComplianceEvent)
    (clock : Except PyErr Str) (k : Nat) : R.Quiet s [.commitBegin event clock, .commitLocked k] := by
  refine ⟨fun hdisturbs => hdisturbs, ?_, trivial⟩
  rintro ⟨-, r, hr⟩
  rw [step] at hr
  split at hr
  · rcases List.mem_append.mp hr with hmem | hmem
    · exact h r hmem
    · cases List.mem_singleton.mp hmem
  · exact h r hr

/-- A run is quiet where its two parts are. -/
theorem quiet_append {s : System σ} {steps steps' : List Step} :
    R.Quiet s (steps ++ steps') ↔ R.Quiet s steps ∧ R.Quiet (R.runRuntime s steps) steps' := by
  induction steps generalizing s with
  | nil => exact ⟨fun h => ⟨trivial, h⟩, fun h => h.2⟩
  | cons a steps ih =>
      rw [List.cons_append, Quiet, Quiet, ih, and_assoc]
      rfl

/-! ## The invariant -/

/-- The result of a built-in crosswalk over records. -/
def ResultOf (records : List Val) (result : CrosswalkResult) : Prop :=
  ∃ name cw, R.builtins.lookup name = some (.ok cw) ∧ cw.evaluate records = .ok result

/-- What a thread holds is true of the log. What has been evaluated is the whole of it; from the
snapshot on, the first entries. -/
def Thread.Holds (ed : Ed25519) (records : List Val) (leaves : List Bytes) : Thread → Prop
  | .committing _ => True
  | .evaluated r => R.ResultOf records r.result
  | .signing r snap =>
    LedgerThreads.IsHead leaves snap.1 snap.2 ∧ R.ResultOf (records.take snap.1) r.result
  | .reading r c entries => ∃ n : Nat, c.treeSize = n ∧ n ≤ leaves.length ∧ entries.length ≤ n ∧
      SignedHead ed R.key.publicKeyRaw c.dump (Merkle.treeHash (leaves.take n)) n ∧
      R.ResultOf (records.take n) r.result ∧
      List.Forall₂ (EntryOf (records.take n) (leaves.take n)) (List.range entries.length) entries

/-- The ledger is consistent, what the threads hold is true of it, and the reports verify. -/
structure SystemInv (ed : Ed25519) (pem : PemReader) (s : System σ) : Prop where
  ledger : Inv R.backend s.ledger
  dumped : Dumped R.backend s.ledger
  threads : ∀ t ∈ s.threads, t.Holds R ed (R.backend.records s.ledger.store) s.ledger.leaves
  reports : ∀ report ∈ s.reports, R.Passes ed pem report ∧
    R.Faithful (R.backend.records s.ledger.store) report

/-! ## Growth -/

variable {R} {ed : Ed25519} {pem : PemReader}

/-- The lock's one writer only appends records. -/
theorem records_prefix_commitLocked (B : LedgerBackend σ) (l : Ledger σ) (p : Prepared) :
    B.records l.store <+: B.records (Ledger.commitLocked B l p).2.store := by
  rcases commitLocked_cases B l p with ⟨_, _, hlocked, hrecords⟩ | ⟨_, _, _, hlocked, -, -, hrecords⟩
  · rw [hlocked]
    exact hrecords ▸ List.prefix_refl _
  · rw [hlocked]
    exact hrecords ▸ List.prefix_append _ _

/-- A prefix of a prefix of records. -/
theorem take_records_eq {records records' : List Val} (hgrow : records <+: records') {n : Nat}
    (hn : n ≤ records.length) : records'.take n = records.take n := by
  obtain ⟨rest, rfl⟩ := hgrow
  exact List.take_append_of_le_length hn

/-- A faithful report stays faithful when the log grows. -/
theorem Faithful.mono {records records' : List Val} (hgrow : records <+: records') {report : Items}
    (h : R.Faithful records report) : R.Faithful records' report := by
  obtain ⟨n, name, cw, result, hsize, hn, hlookup, heval, hcontrols⟩ := h
  refine ⟨n, name, cw, result, hsize, hn.trans hgrow.length_le, hlookup, ?_, hcontrols⟩
  rwa [take_records_eq hgrow hn]

/-- What a thread that is not between evaluation and checkpoint holds stays true when the log
grows. -/
theorem Thread.Holds.mono {records records' : List Val} {leaves leaves' : List Bytes}
    (hlen : records.length = leaves.length) (hrecords : records <+: records')
    (hleaves : leaves <+: leaves') {t : Thread} (ht : ∀ r, t ≠ .evaluated r)
    (h : t.Holds R ed records leaves) : t.Holds R ed records' leaves' := by
  cases t with
  | committing p => trivial
  | evaluated r => exact absurd rfl (ht r)
  | signing r snap =>
      obtain ⟨hhead, hresult⟩ := h
      refine ⟨hhead.mono hleaves, ?_⟩
      rwa [take_records_eq hrecords (hlen ▸ hhead.1)]
  | reading r c entries =>
      obtain ⟨n, hsize, hn, hentries, hhead, hresult, hread⟩ := h
      refine ⟨n, hsize, hn.trans hleaves.length_le, hentries, ?_⟩
      rw [take_records_eq hrecords (hlen ▸ hn), LedgerThreads.take_prefix_eq hleaves hn]
      exact ⟨hhead, hresult, hread⟩

/-! ## Reports verify -/

/-- A report names the built-in crosswalk its results come from. -/
theorem chooseCrosswalk_builtin {builtins : Builtins} {cw : Crosswalk} {records : List Val}
    {result : CrosswalkResult} (hlookup : builtins.lookup cw.id = some (.ok cw))
    (heval : cw.evaluate records = .ok result) :
    chooseCrosswalk builtins none result.block = .ok (.ok cw) := by
  obtain ⟨controls, hash, -, -, rfl⟩ := Crosswalk.evaluate_eq_ok heval
  rw [chooseCrosswalk]
  refine bind_eq_ok.mpr ⟨.str cw.id, getD_eq_ok rfl _, ?_⟩
  rw [Verify.loadBuiltin, hlookup]
  rfl

/-- What the built-in crosswalks, the signatures and the keys' PEM texts are relied on for. -/
structure Sound (R : Runtime σ) (ed : Ed25519) (pem : PemReader) : Prop where
  /-- A built-in crosswalk has the id it is loaded by, and its controls have distinct ids. -/
  builtins : ∀ name cw, R.builtins.lookup name = some (.ok cw) →
    cw.id = name ∧ (cw.controls.map (·.id)).Nodup
  /-- Signatures that the key makes verify. -/
  sign : ∀ data sig, R.key.sign data = .ok sig → ed R.key.publicKeyRaw sig data = true
  /-- The PEM text of a key is read back. -/
  pem : ∀ raw text, R.publicKeyPem raw = .ok text → pem (.str text) = .ok raw

/-- **A report on the first entries of a log** passes and is faithful. -/
theorem passes_of_assemble (hsound : R.Sound ed pem) {records : List Val} {leaves : List Bytes}
    (hlog : Logged records leaves) (hreload : ∀ record ∈ records, R.reload record = .ok record)
    {n : Nat} (hn : n ≤ leaves.length) {result : CrosswalkResult} {options : ReportOptions}
    {uuid : Str} {now : Except PyErr Str} {c : Checkpoint} {entries : List ReportEntry}
    {report : Items}
    (hhead : SignedHead ed R.key.publicKeyRaw c.dump (Merkle.treeHash (leaves.take n)) n)
    (hresult : R.ResultOf (records.take n) result)
    (hread : List.Forall₂ (EntryOf (records.take n) (leaves.take n)) (List.range n) entries)
    (h : assembleReport result R.key options (R.signEnv uuid now) c entries = .ok report) :
    R.Passes ed pem report ∧ R.Faithful records report := by
  obtain ⟨name, cw, hlookup, heval⟩ := hresult
  obtain ⟨hname, hids⟩ := hsound.builtins name cw hlookup
  -- the first `n` entries are a log of their own
  have hlen : (leaves.take n).length = n := by rw [List.length_take, Nat.min_eq_left hn]
  constructor
  · refine verifyReportDeep_of_assemble (hlog.take n) h (List.Subset.refl _) ?_ ?_ hids
      (fun record hrecord => hreload record (List.mem_of_mem_take hrecord)) heval
      (chooseCrosswalk_builtin (hname ▸ hlookup) heval) hsound.sign hsound.pem
    · rw [hlen]
      exact hhead
    · rw [hlen]
      exact hread
  · obtain ⟨gaps, reportId, generatedAt, pemText, payload, signature, -, -, -, -, rfl⟩ :=
      assembleReport_eq_ok h
    exact ⟨n, name, cw, result, hhead.treeSize, hlog.length_eq ▸ hn, hlookup, heval, rfl⟩

/-! ## Steps -/

/-- The events of a ledger are its records. -/
theorem resultOf_evaluateEvents {l : Ledger σ}
    (hreload : ∀ record ∈ R.backend.records l.store, R.reload record = .ok record) {name : Str}
    {result : CrosswalkResult} (h : R.evaluateEvents l name = .ok result) :
    R.ResultOf (R.backend.records l.store) result := by
  rw [evaluateEvents] at h
  obtain ⟨cw, hcw, h⟩ := bind_eq_ok.mp h
  obtain ⟨dicts, hdicts, heval⟩ := bind_eq_ok.mp h
  have hself : l.events R.backend R.reload = .ok ((R.backend.records l.store).map id) :=
    mapM_eq_ok_map hreload
  rw [hself, List.map_id, Except.ok.injEq] at hdicts
  refine ⟨name, cw, ?_, hdicts ▸ heval⟩
  rw [loadBuiltin] at hcw
  split at hcw
  · rename_i found hlookup
    rw [hlookup, hcw]
  · cases hcw

namespace SystemInv

variable {s : System σ}

/-- A thread that goes on changes nothing else. -/
theorem setThread (h : R.SystemInv ed pem s) (k : Nat) {t : Thread}
    (ht : t.Holds R ed (R.backend.records s.ledger.store) s.ledger.leaves) :
    R.SystemInv ed pem { s with threads := s.threads.set k t } where
  ledger := h.ledger
  dumped := h.dumped
  threads t' ht' := by
    rcases List.mem_or_eq_of_mem_set ht' with hmem | rfl
    · exact h.threads t' hmem
    · exact ht
  reports := h.reports

/-- A thread that starts changes nothing else. -/
theorem withThread (h : R.SystemInv ed pem s) {t : Thread}
    (ht : t.Holds R ed (R.backend.records s.ledger.store) s.ledger.leaves) :
    R.SystemInv ed pem { s with threads := s.threads ++ [t] } where
  ledger := h.ledger
  dumped := h.dumped
  threads t' ht' := by
    rcases List.mem_append.mp ht' with hmem | hmem
    · exact h.threads t' hmem
    · rwa [List.mem_singleton.mp hmem]
  reports := h.reports

/-- A thread that ends changes nothing else. -/
theorem eraseThread (h : R.SystemInv ed pem s) (k : Nat) :
    R.SystemInv ed pem { s with threads := s.threads.eraseIdx k } where
  ledger := h.ledger
  dumped := h.dumped
  threads t ht := h.threads t (List.mem_of_mem_eraseIdx ht)
  reports := h.reports

/-- A quiet commit carries everything over to the longer log. -/
theorem commitLocked (h : R.SystemInv ed pem s) (k : Nat) (p : Prepared)
    (hquiet : ∀ r, .evaluated r ∉ s.threads) :
    R.SystemInv ed pem { s with
      ledger := (Ledger.commitLocked R.backend s.ledger p).2, threads := s.threads.eraseIdx k } where
  ledger := h.ledger.commitLocked p
  dumped := h.dumped.commitLocked p
  threads t ht := by
    have hmem := List.mem_of_mem_eraseIdx ht
    refine (h.threads t hmem).mono h.ledger.length_records
      (records_prefix_commitLocked R.backend s.ledger p)
      (LedgerThreads.leaves_prefix_commitLocked R.backend s.ledger p) fun r hr => ?_
    exact hquiet r (hr ▸ hmem)
  reports report hreport := by
    obtain ⟨hpasses, hfaithful⟩ := h.reports report hreport
    exact ⟨hpasses, hfaithful.mono (records_prefix_commitLocked R.backend s.ledger p)⟩

/-- **Every step that disturbs no report keeps the invariant.** -/
theorem step (hsound : R.Sound ed pem) (h : R.SystemInv ed pem s)
    (hreload : ∀ record ∈ R.backend.records s.ledger.store, R.reload record = .ok record) {a : Step}
    (hquiet : ¬Disturbs s a) : R.SystemInv ed pem (R.step s a) := by
  have hthread : ∀ {k : Nat} {t : Thread}, s.threads[k]? = some t →
      t.Holds R ed (R.backend.records s.ledger.store) s.ledger.leaves :=
    fun hk => h.threads _ (List.mem_of_getElem? hk)
  have hlog := logged_of_inv h.ledger h.dumped
  cases a with
  | commitBegin event clock =>
      rw [Runtime.step]
      split
      · exact h.withThread trivial
      · exact h
  | commitLocked k =>
      rw [Runtime.step]
      split
      · rename_i p hk
        exact h.commitLocked k p fun r hr => hquiet ⟨⟨p, hk⟩, r, hr⟩
      · exact h
  | reportBegin crosswalk scopeDescription =>
      rw [Runtime.step]
      split
      · rename_i result hresult
        exact h.withThread (resultOf_evaluateEvents hreload hresult)
      · exact h
  | reportSnapshot k =>
      rw [Runtime.step]
      split
      · -- the whole log is its first entries
        rename_i r hk
        refine h.setThread k ⟨LedgerThreads.isHead_snapshot h.ledger, ?_⟩
        have hsize : s.ledger.snapshot.1 = (R.backend.records s.ledger.store).length :=
          h.ledger.length_records.symm
        rw [hsize, List.take_length]
        exact hthread hk
      · exact h
  | reportCheckpoint k clock =>
      rw [Runtime.step]
      split
      · rename_i r snap hk
        split
        · rename_i c hsign
          obtain ⟨⟨hle, hroot⟩, hresult⟩ := hthread hk
          have hsnap : snap = (snap.1, hex (Merkle.treeHash (s.ledger.leaves.take snap.1))) :=
            Prod.ext rfl hroot
          refine h.setThread k ⟨snap.1, (signSnapshot_eq_ok hsign).1, hle, Nat.zero_le _, ?_, hresult,
            .nil⟩
          rw [hsnap] at hsign
          exact signedHead_of_signSnapshot hsound.sign hsign
        · exact h.eraseThread k
      · exact h
  | reportEntry k =>
      rw [Runtime.step]
      split
      · rename_i r c entries hk
        split
        · rename_i hlt
          split
          · -- the next entry is read at its index, pinned to the size of the checkpoint
            rename_i e he
            obtain ⟨n, hsize, hn, hle, hhead, hresult, hread⟩ := hthread hk
            rw [hsize] at hlt he
            have hentry := entryOf_reportEntry hreload hn (by omega) he
            refine h.setThread k ⟨n, hsize, hn, ?_, hhead, hresult, ?_⟩
            · rw [List.length_append, List.length_singleton]
              omega
            · rw [List.length_append, List.length_singleton, List.range_succ]
              exact List.rel_append hread (.cons hentry .nil)
          · exact h.eraseThread k
        · exact h
      · exact h
  | reportSign k uuid now =>
      rw [Runtime.step]
      split
      · rename_i r c entries hk
        split
        · rename_i hlen
          split
          · rename_i report hreport
            obtain ⟨n, hsize, hn, hle, hhead, hresult, hread⟩ := hthread hk
            rw [hsize, Int.toNat_natCast] at hlen
            rw [hlen] at hread
            have herase := h.eraseThread k
            refine ⟨herase.ledger, herase.dumped, herase.threads, fun report' hmem => ?_⟩
            rcases List.mem_append.mp hmem with hold | hnew
            · exact h.reports report' hold
            · rw [List.mem_singleton.mp hnew]
              exact passes_of_assemble hsound hlog hreload hn hhead hresult hread hreport
          · exact h.eraseThread k
        · exact h
      · exact h

end SystemInv

variable (R) in
/-- A step leaves the ledger as it is or is the locked part of a commit. -/
theorem ledger_step (s : System σ) (a : Step) : (R.step s a).ledger = s.ledger ∨
    ∃ p, (R.step s a).ledger = (Ledger.commitLocked R.backend s.ledger p).2 := by
  cases a with
  | commitBegin event clock =>
      rw [Runtime.step]
      split <;> exact Or.inl rfl
  | commitLocked k =>
      rw [Runtime.step]
      split
      -- the one step that writes the ledger
      · exact Or.inr ⟨_, rfl⟩
      · exact Or.inl rfl
  | reportBegin crosswalk scopeDescription =>
      rw [Runtime.step]
      split <;> exact Or.inl rfl
  | reportSnapshot k =>
      rw [Runtime.step]
      split <;> exact Or.inl rfl
  | reportCheckpoint k clock =>
      rw [Runtime.step]
      split
      · split <;> exact Or.inl rfl
      · exact Or.inl rfl
  | reportEntry k =>
      rw [Runtime.step]
      split
      · split
        · split <;> exact Or.inl rfl
        · exact Or.inl rfl
      · exact Or.inl rfl
  | reportSign k uuid now =>
      rw [Runtime.step]
      split
      · split
        · split <;> exact Or.inl rfl
        · exact Or.inl rfl
      · exact Or.inl rfl

variable (R) in
/-- In a run the records only grow. -/
theorem records_prefix_run (s : System σ) (steps : List Step) :
    R.backend.records s.ledger.store <+: R.backend.records (R.runRuntime s steps).ledger.store := by
  induction steps generalizing s with
  | nil => exact List.prefix_refl _
  | cons a steps ih =>
      refine List.IsPrefix.trans ?_ (ih (R.step s a))
      rcases R.ledger_step s a with hsame | ⟨p, hcommit⟩
      · simpa only [hsame] using List.prefix_refl (R.backend.records s.ledger.store)
      · rw [hcommit]
        exact records_prefix_commitLocked R.backend s.ledger p

/-- **Every quiet run keeps the invariant.** -/
theorem SystemInv.run (hsound : R.Sound ed pem) {s : System σ} (h : R.SystemInv ed pem s)
    {steps : List Step} (hquiet : R.Quiet s steps)
    (hreload : ∀ record ∈ R.backend.records (R.runRuntime s steps).ledger.store,
      R.reload record = .ok record) : R.SystemInv ed pem (R.runRuntime s steps) := by
  induction steps generalizing s with
  | nil => exact h
  | cons a steps ih =>
      have hnow : ∀ record ∈ R.backend.records s.ledger.store, R.reload record = .ok record :=
        fun record hrecord => hreload record ((R.records_prefix_run s (a :: steps)).subset hrecord)
      exact ih (h.step hsound hnow hquiet.1) hquiet.2 hreload

/-- Article 14: each high-risk decision is linked to an approval. -/
def euAiActV1Art14 : Control where
  id := lit "art-14-human-oversight"
  title := lit "Article 14 — Human oversight (in-the-loop, per-decision approval)"
  requirement :=
    lit "Every high-risk agent decision is linked to a recorded human-approval event whose "
      ++ lit "oversight status is 'approved' — a natural person approved the decision before it "
      ++ lit "took effect.\n"
  citation :=
    [(lit "instrument", .str (lit "Regulation (EU) 2024/1689")),
     (lit "article", .str (lit "14")),
     (lit "paragraphs", strings [lit "1", lit "4"]),
     (lit "url", .str (lit "https://artificialintelligenceact.eu/article/14/")),
     (lit "quote", .str (
        lit "High-risk AI systems shall be designed and developed in such a way ... that "
          ++ lit "they can be effectively overseen by natural persons during the period in which "
          ++ lit "they are in use.\n")),
     (lit "effective_date", .str (lit "2027-12-02"))]
  scope := { kind := some [lit "agent_decision"], riskClassification := some [lit "high"] }
  condition := .mk (lit "linked") none none .null (some (lit "approval_ref"))
    (some { kind := some [lit "human_approval"], oversightStatus := some [lit "approved"] }) []
  rationale := some <|
    lit "Per-decision approval is a crisp, observable runtime fact: the decision event "
      ++ lit "carries an approval_ref to a human_approval whose status is approved. This is "
      ++ lit "OpenWright's strongest single mapping and the natural first control for specialist "
      ++ lit "review.\n"
  variant := some (lit "in_the_loop")

/-- Article 26(6): each high-risk decision has a retention commitment. -/
def euAiActV1Art26 : Control where
  id := lit "art-26-retention"
  title := lit "Article 26(6) — Deployer log-retention commitment (>=6 months)"
  requirement :=
    lit "Each high-risk decision carries a cryptographically-attested retention commitment "
      ++ lit "(the substantive Art-26(6) bar being at least six months). The retention_until "
      ++ lit "value is part of the signed Merkle leaf, so the commitment is tamper-evident, not "
      ++ lit "merely declared.\n"
  citation :=
    [(lit "instrument", .str (lit "Regulation (EU) 2024/1689")),
     (lit "article", .str (lit "26")),
     (lit "paragraphs", strings [lit "6"]),
     (lit "url", .str (lit "https://artificialintelligenceact.eu/article/26/")),
     (lit "quote", .str (
        lit "Deployers shall keep the logs automatically generated by that high-risk AI "
          ++ lit "system ... for a period appropriate to the intended purpose of the high-risk "
          ++ lit "AI system, of at least six months.\n")),
     (lit "effective_date", .str (lit "2027-12-02")),
     (lit "notes", .str (
        lit "Verifying the retention *duration* (>= 6 months) is a predicate enhancement "
          ++ lit "pending an engine date-difference op; today the attested retention "
          ++ lit "commitment's existence is evidenced. Pending V16.\n"))]
  scope := { kind := some [lit "agent_decision"], riskClassification := some [lit "high"] }
  condition := .mk (lit "field") (some (lit "ledger.retention_until")) (some (lit "exists")) .null
    none none []
  rationale := some <|
    lit "Retention is a concrete deployer obligation, distinct from the circular \"it's in "
      ++ lit "the log\" framing of bare record-keeping; binding retention_until into the signed "
      ++ lit "leaf makes the commitment itself tamper-evident.\n"

/-- `eu_ai_act_v1.yaml`. -/
def euAiActV1 : Crosswalk where
  id := lit "eu-ai-act-v1"
  title := lit "EU AI Act — narrowed v1 (review-survivable subset)"
  version := lit "1.0.0"
  source := lit "Regulation (EU) 2024/1689 (OJ L, 2024/1689, 12.7.2024)"
  reviewedAsOf := lit "2026-06-01"
  description := some <|
    lit "The narrowed, specialist-review-ready subset of the EU AI Act crosswalk: Article "
      ++ lit "14 human oversight (in-the-loop, per-decision approval) and Article 26(6) deployer "
      ++ lit "log-retention. These are the two controls where runtime agent evidence maps most "
      ++ lit "defensibly to a specific obligation. Use the full eu-ai-act crosswalk for broader "
      ++ lit "(less review-hardened) coverage.\n"
  disclaimer := some <|
    lit "This crosswalk produces EVIDENCE that specific controls were exercised at runtime. "
      ++ lit "It does NOT constitute legal compliance, certification, conformity assessment, or "
      ++ lit "an audit opinion under the EU AI Act. Those determinations are reserved for "
      ++ lit "qualified auditors, notified bodies, and counsel. This subset is prepared for "
      ++ lit "specialist review (V16) and is not yet specialist-attested.\n"
  controls := [euAiActV1Art14, euAiActV1Art26]

/-! ## Two reports of the sample runtime -/

/-- The result of the crosswalk on an empty log. -/
def sampleEmptyResult : CrosswalkResult where
  crosswalkId := euAiActV1.id
  crosswalkTitle := euAiActV1.title
  crosswalkVersion := euAiActV1.version
  crosswalkContentHash := (crosswalkContentHash euAiActV1).toOption
  source := euAiActV1.source
  reviewedAsOf := euAiActV1.reviewedAsOf
  disclaimer := euAiActV1.disclaimer
  controls := euAiActV1.controls.map Control.emptyResult

/-- The report that was evaluated on the empty log and covers a decision, without its signature. -/
def sampleStaleUnsigned : Items := agentReport sampleEmptyResult sampleCheckpoint [sampleEntry]

/-- The producer's signature of it. -/
def sampleStaleSig : Bytes :=
  [56, 141, 133, 160, 189, 168, 37, 43, 29, 224, 138, 181, 140, 244, 70, 77, 67, 128, 242, 110, 81,
    219, 47, 182, 144, 63, 174, 46, 104, 97, 77, 158, 177, 8, 68, 67, 185, 131, 68, 255, 189, 120, 9,
    230, 249, 85, 47, 232, 123, 122, 144, 63, 124, 168, 19, 134, 10, 86, 46, 71, 136, 194, 120, 0]

/-- The signatures that the key makes. -/
def sampleStaleMade : List (Bytes × Bytes) :=
  [sampleCheckpoint.signedAs sampleHeadSig,
    ((signingPayload sampleStaleUnsigned).toOption.getD [], sampleStaleSig)]

/-- A runtime with the signatures that its key makes. The other built-in crosswalks are not asked
for. -/
def sampleRuntime (made : List (Bytes × Bytes)) : Runtime (List Val) where
  backend := inMemoryLedgerBackend
  key := madeKey sampleKey made
  builtins := [(lit "eu-ai-act-v1", .ok euAiActV1)]
  reload := sampleReload
  publicKeyPem := sampleEnv.publicKeyPem

/-- The sample runtime is sound. -/
theorem sound_sampleRuntime (made : List (Bytes × Bytes)) :
    (sampleRuntime made).Sound (madeBy sampleKey made) samplePemReader where
  builtins name cw h := by
    rw [sampleRuntime, List.lookup_cons] at h
    split at h
    · rename_i hname
      obtain rfl : euAiActV1 = cw := Except.ok.inj (Option.some.inj h)
      exact ⟨(eq_of_beq hname).symm, by decide⟩
    · cases h
  sign _ _ h := madeBy_of_sign h
  pem := samplePemReader_of

/-- The crosswalk is encodable. -/
theorem encodable_euAiActV1 : Encodable euAiActV1.dump := by
  simp [euAiActV1, euAiActV1Art14, euAiActV1Art26, Crosswalk.dump, Control.dump, EventFilter.dump,
    Condition.dump, Condition.dumpList, Canonical.Encodable, EncodableItems, EncodableList, ifSet,
    strings, jsonMode, jsonModeItems, jsonModeList, EmptyScopePolicy.value]

/-- It has a content hash. -/
theorem exists_euAiActV1Hash : ∃ hash, crosswalkContentHash euAiActV1 = .ok hash ∧ Scalar hash :=
  exists_contentHash encodable_euAiActV1

/-- Without events both controls have insufficient evidence. -/
theorem evaluate_nil_euAiActV1 : euAiActV1.evaluate [] = .ok sampleEmptyResult := by
  obtain ⟨hash, hhash, -⟩ := exists_euAiActV1Hash
  rw [Crosswalk.evaluate, Crosswalk.controlResults_nil]
  refine bind_eq_ok.mpr ⟨_, rfl, ?_⟩
  rw [sampleEmptyResult, hhash]
  rfl

/-- The runtime loads the crosswalk. -/
theorem loadBuiltin_sampleRuntime (made : List (Bytes × Bytes)) :
    (sampleRuntime made).loadBuiltin (lit "eu-ai-act-v1") = .ok euAiActV1 := by
  simp [loadBuiltin, sampleRuntime]

/-- The runtime evaluates an empty ledger. -/
theorem evaluateEvents_sampleNew (made : List (Bytes × Bytes)) :
    (sampleRuntime made).evaluateEvents sampleNew (lit "eu-ai-act-v1") = .ok sampleEmptyResult := by
  rw [evaluateEvents, loadBuiltin_sampleRuntime]
  exact bind_eq_ok.mpr ⟨euAiActV1, rfl, bind_eq_ok.mpr ⟨[], rfl, evaluate_nil_euAiActV1⟩⟩

/-- The result is encodable. -/
theorem encodable_sampleEmptyResult :
    Encodable sampleEmptyResult.block ∧ ∀ r ∈ sampleEmptyResult.controls, Encodable r.dump := by
  refine ⟨encodable_block encodable_euAiActV1 (by rw [sampleEmptyResult]) ?_, fun r hr => ?_⟩
  · simp [sampleEmptyResult, CrosswalkResult.block, euAiActV1, Canonical.Encodable, EncodableItems,
      optStr]
  · have hor : r = euAiActV1Art14.emptyResult ∨ r = euAiActV1Art26.emptyResult := by
      simpa [sampleEmptyResult, euAiActV1] using hr
    rcases hor with rfl | rfl <;> refine encodable_jsonMode ?_ <;>
      simp [Control.emptyResult, euAiActV1Art14, euAiActV1Art26, Canonical.Encodable, EncodableItems,
        EncodableList, strings, ControlStatus.value, EmptyScopePolicy.status, emptyReason]

/-! ## A run whose reports verify -/

/-- The result of the crosswalk on the sample records: one decision of two names its approval, and
neither has a retention commitment. -/
def liveResult : CrosswalkResult :=
  { sampleEmptyResult with
    controls := [
      { euAiActV1Art14.emptyResult with
        status := .notSatisfied
        reason := lit "1 of 2 in-scope event(s) did not satisfy the required predicate."
        evaluatedCount := 2
        satisfiedCount := 1
        evidenceEventIds := [.str (lit "evt_255df9eb28af5d9d418e2c65d08e49deb0b22587")]
        gapEventIds := [.str (lit "evt_19e720c5a36bc08eec958330a7c88197cf94569d")] },
      { euAiActV1Art26.emptyResult with
        status := .notSatisfied
        reason := lit "2 of 2 in-scope event(s) did not satisfy the required predicate."
        evaluatedCount := 2
        gapEventIds := [.str (lit "evt_19e720c5a36bc08eec958330a7c88197cf94569d"),
          .str (lit "evt_255df9eb28af5d9d418e2c65d08e49deb0b22587")] }] }

/-- The producer's signature of the report on it. -/
def liveSig : Bytes :=
  [99, 17, 21, 253, 222, 39, 138, 5, 35, 142, 92, 0, 196, 102, 251, 4, 254, 224, 78, 236, 2, 114, 27,
    49, 253, 128, 118, 126, 13, 113, 16, 207, 175, 144, 16, 100, 84, 12, 192, 89, 204, 31, 28, 240,
    251, 27, 73, 73, 145, 9, 56, 21, 163, 146, 226, 107, 18, 254, 117, 102, 99, 74, 122, 0]

/-- The two signatures that the key makes. -/
def liveMade : List (Bytes × Bytes) :=
  [threeCheckpoint.signedAs threeHeadSig,
    ((signingPayload (agentReport liveResult threeCheckpoint threeEntries)).toOption.getD [], liveSig)]

/-- The steps of a report up to its first entry. -/
def liveHead : List Step :=
  [.reportBegin (lit "eu-ai-act-v1") (lit "agent"), .reportSnapshot 0,
    .reportCheckpoint 0 (.ok (lit "2026-01-01T00:00:00Z")), .reportEntry 0]

/-- The decision is committed again before the other entries are read. -/
def liveSteps : List Step :=
  liveHead ++ [.commitBegin sampleDecision (.ok (lit "2026-01-01T00:00:00Z")), .commitLocked 1]
    ++ [.reportEntry 0, .reportEntry 0, .reportSign 0 (lit "1") (.ok (lit "2026-01-01T00:00:00Z"))]

/-- The ledger after that. -/
def fourLedger : Ledger (List Val) :=
  (Ledger.commit inMemoryLedgerBackend threeLedger sampleDecision (.ok (lit "2026-01-01T00:00:00Z"))).2

/-- The decision is committed. -/
theorem commit_threeLedger : (Ledger.commit inMemoryLedgerBackend threeLedger sampleDecision
    (.ok (lit "2026-01-01T00:00:00Z"))).2 = fourLedger := rfl

attribute [irreducible] fourLedger

/-- What is read of it. -/
theorem reads_fourLedger : threeLedger.retention.isNone = true ∧ fourLedger.leaves.length = 4 ∧
    fourLedger.store.map Val.jsonMode = fourLedger.store ∧
    (fourLedger.reportEntry inMemoryLedgerBackend sampleReload 3 1).toOption = threeEntries[1]? ∧
    (fourLedger.reportEntry inMemoryLedgerBackend sampleReload 3 2).toOption = threeEntries[2]? := by
  decide +kernel

/-- The result is that of the evaluation. -/
theorem evaluate_euAiActV1_threeRecords : euAiActV1.evaluate threeRecords = .ok liveResult := by
  have hcontrols : euAiActV1.controlResults threeRecords = .ok liveResult.controls :=
    eq_ok_of_toOption (by decide +kernel)
  obtain ⟨hash, hhash, -⟩ := exists_euAiActV1Hash
  rw [Crosswalk.evaluate, hcontrols]
  refine bind_eq_ok.mpr ⟨_, rfl, ?_⟩
  rw [liveResult, sampleEmptyResult, hhash]
  rfl

/-- It is encodable. -/
theorem encodable_liveResult :
    Encodable liveResult.block ∧ ∀ r ∈ liveResult.controls, Encodable r.dump := by
  refine ⟨?_, fun r hr => ?_⟩
  · exact encodable_block encodable_euAiActV1 (by rw [liveResult, sampleEmptyResult]) (by
      simp [liveResult, sampleEmptyResult, CrosswalkResult.block, euAiActV1, Canonical.Encodable,
        EncodableItems, optStr])
  simp only [liveResult, List.mem_cons, List.not_mem_nil, or_false] at hr
  rcases hr with rfl | rfl <;> refine encodable_jsonMode ?_ <;>
    simp [Control.emptyResult, euAiActV1Art14, euAiActV1Art26, Canonical.Encodable, EncodableItems,
      EncodableList, strings, ControlStatus.value]

/-- The runtime evaluates the ledger. -/
theorem evaluateEvents_threeLedger (made : List (Bytes × Bytes)) :
    (sampleRuntime made).evaluateEvents threeLedger (lit "eu-ai-act-v1") = .ok liveResult := by
  rw [evaluateEvents, loadBuiltin_sampleRuntime]
  exact bind_eq_ok.mpr ⟨euAiActV1, rfl, bind_eq_ok.mpr ⟨threeRecords, events_threeLedger,
    evaluate_euAiActV1_threeRecords⟩⟩

/-- The thread of the report that has read `n` entries. -/
def liveThread (n : Nat) : Thread :=
  .reading ⟨lit "agent", liveResult⟩ threeCheckpoint (threeEntries.take n)

/-- The first entry is read off the ledger of the three. -/
theorem run_liveHead : (sampleRuntime liveMade).runRuntime { ledger := threeLedger } liveHead
    = { ledger := threeLedger, threads := [liveThread 1] } := by
  have hsign : signSnapshot threeLedger.origin (sampleRuntime liveMade).key none
      (.ok (lit "2026-01-01T00:00:00Z")) threeLedger.snapshot = .ok threeCheckpoint :=
    checkpoint_threeLedger
  have hentry : threeLedger.reportEntry (sampleRuntime liveMade).backend (sampleRuntime liveMade).reload
      threeCheckpoint.treeSize 0 = .ok (entryAt sampleRecord 0 [approvalLeaf, approvedLeaf]) :=
    (List.forall₂_cons.mp (mapM_eq_ok.mp (eq_ok_of_toOption reads_threeLedger.2.2.2.2))).1
  have hsize : 0 < threeCheckpoint.treeSize.toNat := by decide
  have hfirst : liveThread 1 = .reading ⟨lit "agent", liveResult⟩ threeCheckpoint
      [entryAt sampleRecord 0 [approvalLeaf, approvedLeaf]] := rfl
  rw [liveHead, runRuntime, List.foldl_cons, step_reportBegin _ (evaluateEvents_threeLedger liveMade),
    hfirst]
  simp [step, hsign, hentry, hsize]

/-- The decision is committed while the entries are read. -/
theorem run_liveCommit (threads : List Thread) :
    (sampleRuntime liveMade).runRuntime ⟨threeLedger, threads, []⟩
      [.commitBegin sampleDecision (.ok (lit "2026-01-01T00:00:00Z")), .commitLocked threads.length]
      = ⟨fourLedger, threads, []⟩ := by
  have hretention : threeLedger.retention = none :=
    Option.isNone_iff_eq_none.mp reads_fourLedger.1
  have hcommit := commit_sampleDecision
  rw [Ledger.commit] at hcommit
  split at hcommit
  · cases hcommit
  · rename_i p hp
    have hprepare : prepare threeLedger.retention sampleDecision (.ok (lit "2026-01-01T00:00:00Z"))
        = .ok p := by
      rw [hretention]
      exact hp
    have hfour := commit_threeLedger
    rw [Ledger.commit, hprepare] at hfour
    exact ((sampleRuntime liveMade).run_commit (s := ⟨threeLedger, threads, []⟩) hprepare).trans
      (congrArg (System.mk · threads []) hfour)

/-- The other entries are read off the longer ledger. -/
theorem reportEntry_fourLedger :
    fourLedger.reportEntry (sampleRuntime liveMade).backend (sampleRuntime liveMade).reload
        threeCheckpoint.treeSize 1 = .ok (entryAt approvalRecord 1 [sampleLeaf, approvedLeaf]) ∧
      fourLedger.reportEntry (sampleRuntime liveMade).backend (sampleRuntime liveMade).reload
        threeCheckpoint.treeSize 2
        = .ok (entryAt approvedRecord 2 [Merkle.treeHash [sampleLeaf, approvalLeaf]]) :=
  ⟨eq_ok_of_toOption reads_fourLedger.2.2.2.1, eq_ok_of_toOption reads_fourLedger.2.2.2.2⟩

/-- The report is signed. -/
theorem exists_liveReport : ∃ report,
    assembleReport liveResult (sampleRuntime liveMade).key { scopeDescription := lit "agent" }
      ((sampleRuntime liveMade).signEnv (lit "1") (.ok (lit "2026-01-01T00:00:00Z"))) threeCheckpoint
      threeEntries = .ok report := by
  obtain ⟨signature, hassemble⟩ := exists_agentReport encodable_liveResult.1 encodable_liveResult.2
    (encodable_sampleHead 3 threeRoot threeHeadSig) encodable_threeEntries select_threeEntries
    (List.mem_cons_of_mem _ List.mem_cons_self : _ ∈ liveMade)
  exact ⟨_, hassemble⟩

/-- In the run the decision is committed while the entries are read. -/
theorem run_liveSteps : ∃ report,
    (sampleRuntime liveMade).runRuntime { ledger := threeLedger } liveSteps
      = { ledger := fourLedger, reports := [report] } := by
  obtain ⟨hsecond, hthird⟩ := reportEntry_fourLedger
  obtain ⟨report, hsign⟩ := exists_liveReport
  -- the report is being read, with as many entries as read so far
  have hreading : ∀ n, [liveThread n][0]? = some (.reading ⟨lit "agent", liveResult⟩ threeCheckpoint
      (threeEntries.take n)) := fun _ => rfl
  have hone : (sampleRuntime liveMade).step ⟨fourLedger, [liveThread 1], []⟩ (.reportEntry 0)
      = ⟨fourLedger, [liveThread 2], []⟩ := by
    refine step_reportEntry (s := ⟨fourLedger, [liveThread 1], []⟩) _ (hreading 1) ?_ hsecond
    decide
  have htwo : (sampleRuntime liveMade).step ⟨fourLedger, [liveThread 2], []⟩ (.reportEntry 0)
      = ⟨fourLedger, [liveThread 3], []⟩ := by
    refine step_reportEntry (s := ⟨fourLedger, [liveThread 2], []⟩) _ (hreading 2) ?_ hthird
    decide
  have hlast : (sampleRuntime liveMade).step ⟨fourLedger, [liveThread 3], []⟩
      (.reportSign 0 (lit "1") (.ok (lit "2026-01-01T00:00:00Z"))) = ⟨fourLedger, [], [report]⟩ := by
    refine step_reportSign (s := ⟨fourLedger, [liveThread 3], []⟩) _ (hreading 3) ?_ hsign
    decide
  -- the commit goes in between, on the second thread
  have hcommit : (sampleRuntime liveMade).runRuntime ⟨threeLedger, [liveThread 1], []⟩
      [.commitBegin sampleDecision (.ok (lit "2026-01-01T00:00:00Z")), .commitLocked 1]
      = ⟨fourLedger, [liveThread 1], []⟩ := run_liveCommit [liveThread 1]
  refine ⟨report, ?_⟩
  rw [liveSteps, runRuntime_append, runRuntime_append, run_liveHead, hcommit, runRuntime,
    List.foldl_cons, hone, List.foldl_cons, htwo, List.foldl_cons, hlast, List.foldl_nil]

/-- A decision is committed between the evaluation and the checkpoint. -/
def sampleStaleSteps : List Step :=
  [.reportBegin (lit "eu-ai-act-v1") (lit "agent"),
    .commitBegin sampleDecision (.ok (lit "2026-01-01T00:00:00Z")), .commitLocked 1]
    ++ buildSteps sampleEnv 1

/-- The decision is committed, whatever the other threads are doing. -/
theorem run_sampleCommit (made : List (Bytes × Bytes)) (threads : List Thread)
    (reports : List Items) :
    (sampleRuntime made).runRuntime ⟨sampleNew, threads, reports⟩
      [.commitBegin sampleDecision (.ok (lit "2026-01-01T00:00:00Z")), .commitLocked threads.length]
      = ⟨sampleLedger, threads, reports⟩ := by
  have hcommit := commit_sampleDecision
  rw [Ledger.commit] at hcommit
  split at hcommit
  · cases hcommit
  · rename_i p hp
    exact ((sampleRuntime made).run_commit (s := ⟨sampleNew, threads, reports⟩) hp).trans
      (congrArg (System.mk · threads reports) hcommit)

/-- The report covers the decision, under the results without events. -/
theorem run_sampleStaleSteps : ∃ signature,
    (sampleRuntime sampleStaleMade).runRuntime { ledger := sampleNew } sampleStaleSteps
      = { ledger := sampleLedger,
          reports := [sampleStaleUnsigned ++ [(lit "signature",
            signatureBlock (madeKey sampleKey sampleStaleMade) signature)]] } := by
  obtain ⟨signature, hassemble⟩ := exists_agentReport encodable_sampleEmptyResult.1
    encodable_sampleEmptyResult.2 (encodable_sampleHead 1 sampleLeaf sampleHeadSig)
    encodable_sampleEntry select_sampleEntry
    (List.mem_cons_of_mem _ List.mem_cons_self : _ ∈ sampleStaleMade)
  have hbuild : buildReport inMemoryLedgerBackend sampleReload sampleLedger sampleEmptyResult
      (madeKey sampleKey sampleStaleMade) sampleOptions sampleEnv
      = .ok (sampleStaleUnsigned ++ [(lit "signature",
        signatureBlock (madeKey sampleKey sampleStaleMade) signature)]) :=
    buildReport_of rfl checkpoint_sampleLedger (mapM_eq_ok.mpr (.cons reportEntry_sampleLedger .nil))
      hassemble
  have hresult : (sampleRuntime sampleStaleMade).evaluateEvents
      ({ ledger := sampleNew } : System (List Val)).ledger (lit "eu-ai-act-v1")
      = .ok sampleEmptyResult := evaluateEvents_sampleNew sampleStaleMade
  -- the decision is committed after the evaluation
  have hbegin : (sampleRuntime sampleStaleMade).runRuntime { ledger := sampleNew }
      [.reportBegin (lit "eu-ai-act-v1") (lit "agent"),
        .commitBegin sampleDecision (.ok (lit "2026-01-01T00:00:00Z")), .commitLocked 1]
      = { ledger := sampleLedger, threads := [.evaluated
          { scopeDescription := lit "agent", result := sampleEmptyResult }] } := by
    rw [runRuntime, List.foldl_cons, step_reportBegin _ hresult]
    exact run_sampleCommit _ [.evaluated ⟨lit "agent", sampleEmptyResult⟩] []
  refine ⟨signature, ?_⟩
  rw [sampleStaleSteps, runRuntime_append, hbegin]
  exact (sampleRuntime sampleStaleMade).run_buildSteps rfl rfl hbuild

/-- With the decision neither control is satisfied. -/
theorem status_sampleRecord {result : CrosswalkResult}
    (h : euAiActV1.evaluate [sampleRecord] = .ok result) {r : ControlResult}
    (hr : r ∈ result.controls) : r.status = .notSatisfied := by
  have hstatus : (euAiActV1.controlResults [sampleRecord]).toOption.map (·.map (·.status))
      = some [.notSatisfied, .notSatisfied] := by
    decide +kernel
  obtain ⟨controls, hash, hcontrols, -, rfl⟩ := Crosswalk.evaluate_eq_ok h
  rw [hcontrols, Except.toOption, Option.map_some, Option.some.injEq] at hstatus
  have hmem : r.status ∈ controls.map (·.status) := List.mem_map_of_mem hr
  rw [hstatus] at hmem
  simpa using hmem

end Runtime

end OpenWright
