import OpenWright.Ledger

/-! # What a commit appends

* **`records_of_commit`** — a commit that returns appends one record, which is its event under the id and
  the fields of the ledger. -/

namespace OpenWright

open Python Python.Val

/-- A record of an event: it binds what the dump of the event binds, beside its id and the fields of the
ledger. -/
def RecordOf (event : ComplianceEvent) (record : Val) : Prop :=
  ∃ kvs, event.content = .ok kvs ∧
    ∀ k, k ≠ lit "event_id" → k ≠ lit "ledger" → record.item? k = kvs.lookup k

namespace Ledger

variable {σ : Type} {B : LedgerBackend σ}

/-- A dump is a record of each event with its content. -/
theorem recordOf_dump {event event' : ComplianceEvent} {record : Val} (h : event'.dump = .ok record)
    (hcontent : event'.content = event.content) : RecordOf event record := by
  cases hkvs : event.content with
  | error err =>
      rw [ComplianceEvent.dump, ComplianceEvent.dumpItems, hcontent, hkvs] at h
      cases h
  | ok kvs =>
      rw [ComplianceEvent.dump, ComplianceEvent.dumpItems_eq (hcontent.trans hkvs)] at h
      refine ⟨kvs, hkvs, fun k hid hledger => ?_⟩
      rw [← Except.ok.inj h, item?, List.lookup_append, List.lookup_cons, beq_false_of_ne hid]
      cases event'.ledger with
      | none => simp
      | some f => simp [List.lookup_cons, beq_false_of_ne hledger]

/-- **A commit that returns appends the record of its event.** -/
theorem records_of_commit {l l' : Ledger σ} {event event' : ComplianceEvent} {clock : Except PyErr Str}
    (h : commit B l event clock = (.ok event', l')) :
    ∃ record, RecordOf event record ∧ B.records l'.store = B.records l.store ++ [record] := by
  rcases commit_cases B l event clock with ⟨err, hcommit⟩ | ⟨p, hprepare, hcommit⟩
  · rw [hcommit] at h
    cases h
  · rw [hcommit] at h
    rcases commitLocked_cases B l p with
      ⟨err, store, hlocked, -⟩ | ⟨event'', record, store, hlocked, rfl, hdump, hrecords⟩
    · rw [hlocked] at h
      cases h
    · rw [hlocked] at h
      cases h
      exact ⟨record, recordOf_dump hdump (content_of_prepare hprepare), hrecords⟩

/-- A commit that raises appends nothing. -/
theorem records_of_commit_error {l l' : Ledger σ} {event : ComplianceEvent} {clock : Except PyErr Str}
    {err : PyErr} (h : commit B l event clock = (.error err, l')) :
    B.records l'.store = B.records l.store := by
  have herror := @commit_error σ B l event clock err
  rw [h] at herror
  exact (herror rfl).1

end Ledger

end OpenWright
