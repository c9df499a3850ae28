import OpenWright.FileLedger

/-! # Commits on a file ledger whose appends fail

`Ledger.commit` on a file backend whose `append_record` may raise after any number of bytes of the line
have reached the file, while the process goes on committing.

* **`run_atomic`** — as long as an append that raises has written nothing, the file serves exactly the
  records of the commits that returned, and reopening it gives the size and root of the live ledger. -/

namespace OpenWright

open Python Canonical Merkle Ledger FileLedgerBackend

/-- An event whose content dumps as itself in JSON mode: there is no tuple in it, and no key twice. -/
structure JsonEvent where
  event : ComplianceEvent
  jsonMode_eq : ∀ kvs, event.content = .ok kvs → Val.jsonModeItems kvs = kvs
  distinct : ∀ kvs, event.content = .ok kvs → Val.distinct (.dict kvs) = true

namespace FileCommit

/-! ## The ledger -/

/-- The locked block of `Ledger.commit` on a file backend. -/
def commitLocked (l : Ledger FileLedgerBackend) (p : Prepared) (fault : Option Nat) :
    Except PyErr ComplianceEvent × Ledger FileLedgerBackend :=
  let event := { p.event with ledger := some (ledgerFields p l.store.size) }
  match event.dump with
  | .error err => (.error err, l)
  | .ok record =>
    -- a write that fails leaves the file as far as it came, and the tree as it was
    match l.store.appendRecord record fault with
    | (.error err, store) => (.error err, { l with store })
    | (.ok (), store) =>
      (.ok event, { l with store, leaves := l.leaves ++ [p.leaf], tree := l.tree.append p.leaf })

/-- `Ledger.commit` on a file backend; `fault` says where its append fails. -/
def commit (l : Ledger FileLedgerBackend) (event : ComplianceEvent) (clock : Except PyErr Str)
    (fault : Option Nat) : Except PyErr ComplianceEvent × Ledger FileLedgerBackend :=
  match prepare l.retention event clock with
  | .error err => (.error err, l)
  | .ok p => commitLocked l p fault

/-- A commit whose append raises when some bytes of the line are in the file. -/
def Tears (l : Ledger FileLedgerBackend) (event : ComplianceEvent) (clock : Except PyErr Str)
    (fault : Option Nat) : Prop :=
  ∃ p record line k, prepare l.retention event clock = .ok p ∧
    ({ p.event with ledger := some (ledgerFields p l.store.size) } : ComplianceEvent).dump
      = .ok record ∧
    utf8 (lineText record) = some line ∧ fault = some k ∧ 0 < k

/-! ## What is appended is a record -/

/-- The ledger fields a commit assigns are plain and have distinct keys. -/
theorem dump_ledgerFields (p : Prepared) (i : Nat) : Json.Plain (ledgerFields p i).dump ∧
    Val.distinct (ledgerFields p i).dump = true := by
  rw [LedgerFields.dump, ledgerFields]
  cases p.retentionUntil with
  | none => exact ⟨⟨trivial, trivial, trivial, trivial⟩, rfl⟩
  | some retentionUntil => exact ⟨⟨trivial, trivial, trivial, trivial, trivial⟩, rfl⟩

/-- **What a commit appends is a record.** -/
theorem exists_record {retention : Option (Str → Except PyErr Str)} {e : JsonEvent}
    {clock : Except PyErr Str} {p : Prepared} (hp : prepare retention e.event clock = .ok p) {i : Nat}
    {record : Val}
    (h : ({ p.event with ledger := some (ledgerFields p i) } : ComplianceEvent).dump = .ok record) :
    ∃ r : Record, r.val = record := by
  obtain ⟨kvs, hkvs, rfl⟩ := ComplianceEvent.exists_content h
  have hcontent : e.event.content = .ok kvs := (content_of_prepare hp).symm.trans hkvs
  obtain ⟨hplain, hdistinct⟩ := dump_ledgerFields p i
  -- the leaf content has been cleaned, so there are no floats
  have hclean : Json.PlainItems kvs := by
    obtain ⟨data, hdata, -⟩ := p.leaf_spec
    obtain ⟨kvs', hkvs', hbytes⟩ := ComplianceEvent.leafContentBytes_eq_ok.mp hdata
    obtain rfl : kvs = kvs' := Except.ok.inj (hkvs.symm.trans hkvs')
    rw [canonicalBytes] at hbytes
    obtain ⟨c, hc, -⟩ := bind_eq_ok.mp hbytes
    have hjson : Val.jsonMode (.dict ((lit "event_id", .str p.event.eventId) :: kvs))
        = .dict ((lit "event_id", .str p.event.eventId) :: kvs) := by
      rw [Val.jsonMode, Val.jsonModeItems, e.jsonMode_eq kvs hcontent, Val.jsonMode]
      · intro vs hvs
        cases hvs
      · intro vs hvs
        cases hvs
      · intro vs hvs
        cases hvs
    exact (Val.plain_of_clean_of_jsonMode hc hjson).2
  have hkeys := e.event.content_keys kvs hcontent
  obtain ⟨hnodup, hvals⟩ := Val.distinct_dict.mp (e.distinct kvs hcontent)
  refine ⟨⟨(lit "event_id", .str p.event.eventId) :: kvs
    ++ [(lit "ledger", (ledgerFields p i).dump)], ?_, ?_⟩, rfl⟩
  · refine @Json.Plain.isJson (.dict _) (Json.plainItems_iff.mpr ?_)
    intro kv hkv
    rcases List.mem_append.mp hkv with hmem | hmem
    · rcases List.mem_cons.mp hmem with rfl | hmem
      · trivial
      · exact Json.plainItems_iff.mp hclean kv hmem
    · rw [List.mem_singleton.mp hmem]
      exact hplain
  · apply Val.distinct_dict.mpr
    constructor
    · -- neither of the two keys is one of the content
      rw [List.map_append, List.map_cons, List.map_singleton, List.cons_append, List.nodup_cons,
        List.nodup_append, List.mem_append, List.mem_singleton]
      refine ⟨?_, hnodup, List.nodup_singleton _, ?_⟩
      · rintro (hmem | heq)
        · obtain ⟨kv, hkv, hkey⟩ := List.mem_map.mp hmem
          exact (hkeys kv hkv).1 hkey
        · exact (by decide : lit "event_id" ≠ lit "ledger") heq
      · intro k hk k' hk' heq
        obtain ⟨kv, hkv, rfl⟩ := List.mem_map.mp hk
        exact (hkeys kv hkv).2 (heq.trans (List.mem_singleton.mp hk'))
    · intro kv hkv
      rcases List.mem_append.mp hkv with hmem | hmem
      · rcases List.mem_cons.mp hmem with rfl | hmem
        · rfl
        · exact hvals kv hmem
      · rw [List.mem_singleton.mp hmem]
        exact hdistinct

/-- **What an untorn commit does**: it raises and changes nothing, or it returns and appends the record
of the event it returns. -/
theorem commit_cases {l : Ledger FileLedgerBackend} {e : JsonEvent} {clock : Except PyErr Str}
    {fault : Option Nat} (h : ¬Tears l e.event clock fault) :
    (∃ err, commit l e.event clock fault = (.error err, l)) ∨
      ∃ (p : Prepared) (event : ComplianceEvent) (r : Record) (line : Bytes),
        commit l e.event clock fault = (.ok event,
          { l with store := (l.store.appendRecord r.val none).2, leaves := l.leaves ++ [p.leaf],
                   tree := l.tree.append p.leaf }) ∧
        event.dump = .ok r.val ∧ r.line = some line ∧ Recorded l.store.size p.leaf r.val := by
  rw [commit]
  cases hprepare : prepare l.retention e.event clock with
  -- no event to commit: nothing was written
  | error err => exact Or.inl ⟨err, rfl⟩
  | ok p =>
      dsimp only
      rw [commitLocked]
      cases hdump : ({ p.event with ledger := some (ledgerFields p l.store.size) } :
          ComplianceEvent).dump with
      -- an event that has no dump: nothing was written either
      | error err => exact Or.inl ⟨err, rfl⟩
      | ok record =>
          obtain ⟨r, rfl⟩ := exists_record hprepare hdump
          dsimp only
          cases hline : r.line with
          -- a record that has no UTF-8 text is refused before the file is opened
          | none =>
              refine Or.inl ⟨{ kind := .unicodeEncodeError }, ?_⟩
              rw [appendRecord, show utf8 (lineText r.val) = none from hline]
          | some line =>
              have hline' : utf8 (lineText r.val) = some line := hline
              cases fault with
              | none =>
                  refine Or.inr ⟨p, _, r, line, ?_, hdump, hline, recorded_of_dump hdump⟩
                  rw [appendRecord, hline']
              | some k =>
                  cases k with
                  -- the write failed before its first byte
                  | zero =>
                      refine Or.inl ⟨{ kind := .osError }, ?_⟩
                      rw [appendRecord, hline']
                      simp
                  | succ k =>
                      -- it failed after some of them, which is what tearing the file means
                      exact absurd ⟨p, r.val, line, k + 1, hprepare, hdump, hline', rfl,
                        Nat.succ_pos k⟩ h

/-! ## Runs -/

/-- The live ledger, and the records of the commits that have returned. -/
structure State where
  ledger : Ledger FileLedgerBackend
  returned : List Val := []

/-- A commit; a retry is one more. -/
structure Call where
  event : JsonEvent
  clock : Except PyErr Str
  fault : Option Nat := none

/-- The state after a commit. -/
def step (s : State) (call : Call) : State :=
  match commit s.ledger call.event.event call.clock call.fault with
  | (.ok event, ledger) => { ledger, returned := s.returned ++ event.dump.toOption.toList }
  | (.error _, ledger) => { s with ledger }

/-- The state after a sequence of commits. -/
def run (s : State) (calls : List Call) : State := calls.foldl step s

/-- No append of the run raises when some bytes of its line are in the file. -/
def Untorn (s : State) : List Call → Prop
  | [] => True
  | call :: calls =>
    ¬Tears s.ledger call.event.event call.clock call.fault ∧ Untorn (step s call) calls

/-- The file serves exactly the records of the commits that returned, and reopening it gives the size
and root of the live ledger. -/
structure Atomic (s : State) : Prop where
  iterRecords_eq : s.ledger.store.iterRecords = .ok s.returned
  getRecord_eq : ∀ (i : Nat) (record : Val), s.returned[i]? = some record →
    s.ledger.store.getRecord i = .ok record
  reopen : ∀ origin retention, ∃ l,
    (init (some s.ledger.store.file)).openLedger origin retention = .ok l ∧
      l.leaves.length = s.ledger.leaves.length ∧ l.root = s.ledger.root

/-- The file, the leaves and the tree agree. -/
structure Inv (s : State) (rs : List Record) : Prop where
  holds : s.ledger.store.Holds rs
  returned_eq : s.returned = rs.map Record.val
  tree : s.ledger.tree.Represents s.ledger.leaves
  length_eq : rs.length = s.ledger.leaves.length
  recorded : ∀ (i : Nat) (r : Record) (leaf : Bytes), rs[i]? = some r → s.ledger.leaves[i]? = some leaf →
    Recorded i leaf r.val

/-- The stored leaf hashes are the leaves. -/
theorem Inv.leaves_eq {s : State} {rs : List Record} (h : Inv s rs) :
    (rs.map Record.val).mapM leafBytesFromRecord = .ok s.ledger.leaves := by
  rw [mapM_eq_ok, List.forall₂_map_left_iff, List.forall₂_iff_get]
  refine ⟨h.length_eq, ?_⟩
  intro i hi hi'
  exact (h.recorded i _ _ (List.getElem?_eq_getElem hi)
    (List.getElem?_eq_getElem hi')).leafBytesFromRecord_eq

/-- What the invariant says of the file. -/
theorem Inv.atomic {s : State} {rs : List Record} (h : Inv s rs) : Atomic s := by
  refine ⟨h.returned_eq ▸ h.holds.iterRecords_eq, ?_, ?_⟩
  · intro i record hrecord
    rw [h.returned_eq, List.getElem?_map] at hrecord
    obtain ⟨r, hr, rfl⟩ := Option.map_eq_some_iff.mp hrecord
    exact h.holds.getRecord_eq hr
  · intro origin retention
    have hinit := holds_init h.holds.line_eq List.not_mem_nil
    rw [List.append_nil, ← h.holds.file_eq] at hinit
    refine ⟨_, hinit.openLedger_eq origin retention h.leaves_eq, rfl, ?_⟩
    exact (IncrementalMerkleTree.represents_fromLeaves _).root_eq.trans h.tree.root_eq.symm

/-- **Every untorn commit keeps the invariant.** -/
theorem Inv.step {s : State} {rs : List Record} (h : Inv s rs) {call : Call}
    (huntorn : ¬Tears s.ledger call.event.event call.clock call.fault) :
    ∃ rs', Inv (step s call) rs' := by
  rw [FileCommit.step]
  rcases commit_cases huntorn with ⟨err, hcommit⟩ | ⟨p, event, r, line, hcommit, hdump, hline, hrec⟩
  · rw [hcommit]
    exact ⟨rs, h⟩
  · rw [hcommit]
    dsimp only
    rw [hdump]
    refine ⟨rs ++ [r], h.holds.append hline, ?_, h.tree.append p.leaf, ?_, ?_⟩
    · rw [h.returned_eq, List.map_append]
      rfl
    · rw [List.length_append, List.length_append, h.length_eq]
      rfl
    · intro i r' leaf hr' hleaf
      rcases Nat.lt_or_ge i rs.length with hlt | hge
      · -- an earlier record
        rw [List.getElem?_append_left hlt] at hr'
        rw [List.getElem?_append_left (h.length_eq ▸ hlt)] at hleaf
        exact h.recorded i r' leaf hr' hleaf
      · -- the new one
        rw [List.getElem?_append_right hge] at hr'
        rw [List.getElem?_append_right (h.length_eq ▸ hge), ← h.length_eq] at hleaf
        obtain ⟨hi, rfl⟩ := List.getElem?_eq_some_iff.mp hr'
        have hzero : i - rs.length = 0 := Nat.lt_one_iff.mp hi
        have hsize : s.ledger.store.size = i := by rw [h.holds.size_eq]; omega
        simp only [hzero, List.getElem?_cons_zero, Option.some.injEq] at hleaf
        simp only [hzero, List.getElem_cons_zero]
        rw [← hleaf, ← hsize]
        exact hrec

/-- **Every untorn run keeps the invariant.** -/
theorem Inv.run {s : State} {rs : List Record} (h : Inv s rs) {calls : List Call}
    (huntorn : Untorn s calls) : ∃ rs', Inv (run s calls) rs' := by
  induction calls generalizing s rs with
  | nil => exact ⟨rs, h⟩
  | cons call calls ih =>
      obtain ⟨rs', h'⟩ := h.step huntorn.1
      exact ih h' huntorn.2

/-- A ledger on a new directory. -/
theorem inv_start {origin : Str} {retention : Option (Str → Except PyErr Str)}
    {l₀ : Ledger FileLedgerBackend} (h : (init none).openLedger origin retention = .ok l₀) :
    Inv { ledger := l₀ } [] := by
  rw [holds_init_none.openLedger_eq origin retention rfl, Except.ok.injEq] at h
  subst h
  refine ⟨holds_init_none, rfl, IncrementalMerkleTree.represents_fromLeaves [], rfl, ?_⟩
  intro i r leaf hr
  cases hr

/-- **A failed append is atomic if it has written nothing.** In every run of commits on a new directory
in which no append raises when some bytes of its line are in the file, the file serves exactly the
records of the commits that returned, in order and by index, and reopening the directory gives the
size and root of the live ledger. -/
theorem run_atomic (origin : Str) (retention : Option (Str → Except PyErr Str))
    (l₀ : Ledger FileLedgerBackend) (hopen : (init none).openLedger origin retention = .ok l₀)
    (calls : List Call) (huntorn : Untorn { ledger := l₀ } calls) :
    Atomic (run { ledger := l₀ } calls) := by
  obtain ⟨rs, h⟩ := (inv_start hopen).run huntorn
  exact h.atomic

/-- A small event. -/
def sampleEvent : JsonEvent where
  event :=
    { content := .ok [(lit "kind", .str (lit "generic"))],
      content_keys := by
        intro kvs hkvs kv hkv
        rw [← Except.ok.inj hkvs, List.mem_singleton] at hkv
        rw [hkv]
        exact ⟨by simp only; decide, by simp only; decide⟩ }
  jsonMode_eq := by
    intro kvs hkvs
    rw [← Except.ok.inj hkvs]
    rfl
  distinct := by
    intro kvs hkvs
    rw [← Except.ok.inj hkvs]
    rfl

/-- A ledger on a new directory. -/
def sampleLedger : Ledger FileLedgerBackend where
  store := init none
  origin := lit "demo"
  retention := none
  leaves := []
  tree := .fromLeaves []

/-- A commit of the sample event. -/
def sampleCall (fault : Option Nat) : Call where
  event := sampleEvent
  clock := .ok (lit "2026-01-01T00:00:00Z")
  fault := fault

/-- A commit that fails before anything is written, and its retry. -/
theorem run_atomic_sample :
    Atomic (run { ledger := sampleLedger } [sampleCall (some 0), sampleCall none]) := by
  refine run_atomic (lit "demo") none sampleLedger rfl _ ⟨?_, ?_, trivial⟩
  · rintro ⟨-, -, -, k, -, -, -, hfault, hpos⟩
    cases hfault
    exact Nat.lt_irrefl 0 hpos
  · rintro ⟨-, -, -, k, -, -, -, hfault, -⟩
    cases hfault

/-- The first byte is written, then writing fails; the retry returns, and the file is unreadable. -/
theorem run_not_atomic : ∃ l₀, (init none).openLedger (lit "demo") none = .ok l₀ ∧
    ¬Atomic (run { ledger := l₀ } [sampleCall (some 1), sampleCall none]) := by
  refine ⟨sampleLedger, rfl, fun h => ?_⟩
  have hiter :
      (run { ledger := sampleLedger } [sampleCall (some 1), sampleCall none]).ledger.store.iterRecords
        = .error { kind := .jsonDecodeError } := by
    decide +kernel
  have hserved := h.iterRecords_eq
  rw [hiter] at hserved
  cases hserved

end FileCommit

end OpenWright
