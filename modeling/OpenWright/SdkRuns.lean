import OpenWright.Committed
import OpenWright.Effects
import OpenWright.Sdk

/-! # Runs of programs that use the SDK

* **`records_of_run`** — whatever is raised and caught, each record that a program leaves is the event of
  one of its calls in the tasks that are written around it, and the records are in the order of the
  calls.
* **`run_eq_eval`** — where no file fails, a program does to the ledger what it does without a vault
  and without a context variable.
* **`run_fetches`** — what a record refers to is in the vault. -/

namespace OpenWright.Sdk

open Python Python.Val Adapters EventModel Effects

variable {σ : Type} {B : LedgerBackend σ}

/-! ## Working with payloads -/

/-- Only the vault changes, which loses nothing; each file stays named by what it holds, where none is
cut off. -/
structure Moves (untorn : Prop) (d d' : Desk σ) : Prop where
  ledger : d'.ledger = d.ledger
  vault : d.vault.Extends d'.vault
  addressed : untorn → d.vault.Addressed → d'.vault.Addressed

instance (untorn : Prop) : Std.Refl (@Moves σ untorn) where
  refl d := ⟨rfl, .refl d.vault, fun _ h => h⟩

instance (untorn : Prop) : IsTrans (Desk σ) (Moves untorn) where
  trans _ _ _ h h' := ⟨h'.ledger.trans h.ledger, h.vault.trans h'.vault,
    fun hu ha => h'.addressed hu (h.addressed hu ha)⟩

/-- Writing it is not cut off. -/
def Captured.Untorn (x : Captured) : Prop := ∀ n err, x.fault ≠ some (.torn n err)

/-- What is stored. -/
theorem storePayload_cases (x : Captured) (d : Desk σ) :
    (∃ ref vault, storePayload x d = .ok ref { d with vault } ∧ x.payload.hashPayload = .ok ref ∧
        Moves x.Untorn d { d with vault } ∧ (vault.fetch ref).isSome) ∨
      ∃ err vault, storePayload x d = .error err { d with vault } ∧
        (x.payload.hashPayload = .error err ∨ x.fault ≠ none) ∧
        Moves x.Untorn d { d with vault } := by
  have hmoves : Moves x.Untorn d { d with vault := (d.vault.store x.payload x.fault).2 } :=
    ⟨rfl, FileVault.extends_store _ _ _, fun hu ha => ha.store x.payload hu⟩
  rw [storePayload]
  cases hstore : d.vault.store x.payload x.fault with
  | mk result vault =>
      rw [hstore] at hmoves
      cases hfault : x.fault with
      | none =>
          rw [hfault] at hstore
          have hhash := FileVault.store_ref d.vault x.payload
          rw [hstore] at hhash
          cases result with
          | ok ref =>
              obtain ⟨data, -, -, hfetch⟩ := FileVault.fetch_store (congrArg Prod.fst hstore)
              rw [hstore] at hfetch
              exact Or.inl ⟨ref, vault, rfl, hhash.symm, hmoves, Option.isSome_of_eq_some hfetch⟩
          | error err => exact Or.inr ⟨err, vault, rfl, Or.inl hhash.symm, hmoves⟩
      | some fault =>
          -- a fault is an exception, if there are bytes at all
          cases result with
          | ok ref =>
              rw [hfault, FileVault.store] at hstore
              split at hstore
              · cases hstore
              · cases fault with
                | refused err => cases hstore
                | torn n err => cases hstore
          | error err => exact Or.inr ⟨err, vault, rfl, Or.inr (Option.some_ne_none fault), hmoves⟩

/-- The payload has a reference, or none if it is `None`, and it is kept under it where there is a
vault. -/
def Kept (c : EvidenceClient) (x : Captured) (v : FileVault) : Prop :=
  ∃ r, x.hash = .ok r ∧ (c.vaulted → ∀ ref ∈ r, (v.fetch ref).isSome)

/-- What is kept stays in a vault that grows. -/
theorem Kept.extends {c : EvidenceClient} {x : Captured} {v v' : FileVault} (h : Kept c x v)
    (hv : v.Extends v') : Kept c x v' := by
  obtain ⟨r, hr, hfetch⟩ := h
  exact ⟨r, hr, fun hvaulted ref href => hv ref (hfetch hvaulted ref href)⟩

/-- What is kept stays while a desk moves. -/
theorem Kept.moves {c : EvidenceClient} {x : Captured} {u : Prop} (_ : Option Str) (d d' : Desk σ)
    (h : Kept c x d.vault) (hmoves : Moves u d d') : Kept c x d'.vault :=
  h.extends hmoves.vault

/-- **A client refers to a payload by its hash**, and keeps it in its vault. -/
theorem computes_ref (c : EvidenceClient) (x : Captured) {u F : Prop} (hu : u → x.Untorn)
    (hF : x.fault ≠ none → F) :
    Computes (@Moves σ u) F (fun _ d => Kept c x d.vault) (c.ref x) x.hash := by
  have hkeep : ∀ d d' : Desk σ, Moves x.Untorn d d' → Moves u d d' :=
    fun d d' h => ⟨h.ledger, h.vault, fun hx => h.addressed (hu hx)⟩
  rw [EvidenceClient.ref]
  -- nothing given: no reference, and nothing to keep
  by_cases hnone : x.payload.isNone
  · have hhash : x.hash = .ok none := if_pos hnone
    rw [if_pos hnone, hhash]
    refine computes_pure fun d => ⟨none, hhash, fun _ ref href => ?_⟩
    cases href
  · have hhash : x.hash = x.payload.hashPayload.map some := if_neg hnone
    rw [if_neg hnone, hhash]
    by_cases hv : c.vaulted
    · rw [if_pos hv]
      -- with a vault the payload is stored under its hash, which can fail in the file system
      have hstore : Computes (@Moves σ u) F (fun ref d => (d.vault.fetch ref).isSome) (storePayload x)
          x.payload.hashPayload := by
        intro d
        rcases storePayload_cases x d with
          ⟨ref, vault, hstore, hhash, hmoves, hfetch⟩ | ⟨err, vault, hstore, hhash, hmoves⟩
        · rw [hstore]
          exact ⟨hhash, hkeep _ _ hmoves, hfetch⟩
        · rw [hstore]
          exact ⟨hhash.imp_right hF, hkeep _ _ hmoves⟩
      have hmap : x.payload.hashPayload.map some
          = x.payload.hashPayload >>= fun ref => pure (some ref) := by
        cases x.payload.hashPayload with
        | error err => rfl
        | ok ref => rfl
      rw [hmap]
      refine hstore.bind (fun ref d d' h hmoves => hmoves.vault ref h) fun ref href => ?_
      refine computes_pure fun d hfetch => ⟨some ref, ?_, fun _ ref' href' => ?_⟩
      · rw [hhash, href]
        rfl
      · rwa [← Option.some.inj href']
    -- without one only its hash is taken
    · rw [if_neg hv]
      exact computes_ofExcept fun r d hr => ⟨r, hhash.trans hr, fun hv' => absurd hv' hv⟩

/-- **The arguments are resolved to hashes.** -/
theorem computes_resolve (c : EvidenceClient) (clock : Except PyErr Str) (b : Body Captured) {u F : Prop}
    (hu : u → ∀ x ∈ b.payloads, x.Untorn) (hF : ∀ x ∈ b.payloads, x.fault ≠ none → F) :
    Computes (@Moves σ u) F (fun _ d => ∀ x ∈ b.payloads, Kept c x d.vault) (b.resolve c.ref clock)
      (b.resolve Captured.hash clock) := by
  have href : ∀ x ∈ b.payloads,
      Computes (@Moves σ u) F (fun _ d => Kept c x d.vault) (c.ref x) x.hash :=
    fun x hx => computes_ref c x (fun h => hu h x hx) (hF x hx)
  -- the payloads of each recorder in the order in which it resolves them
  cases b with
  | decision output input classification rationale approvalRef model control attributes =>
      refine computes_ofExcept_bind fun timestamp _ => ?_
      refine (href input (by simp [Body.payloads])).bind Kept.moves fun inputRef _ => ?_
      refine (href output (by simp [Body.payloads])).bind Kept.moves fun outputRef _ => ?_
      refine computes_ofExcept_bind fun _ _ => ?_
      refine (href rationale (by simp [Body.payloads])).bind Kept.moves fun rationaleRef _ => ?_
      refine computes_pure fun d hrationale houtput hinput => ?_
      simp [Body.payloads, hrationale, houtput, hinput]
  | approval reviewer approved rationale =>
      refine computes_ofExcept_bind fun timestamp _ => ?_
      refine (href rationale (by simp [Body.payloads])).bind Kept.moves fun rationaleRef _ => ?_
      refine computes_pure fun d hrationale => ?_
      simp [Body.payloads, hrationale]
  | risk classification rationale fria framework =>
      refine (href fria (by simp [Body.payloads])).bind Kept.moves fun friaRef _ => ?_
      refine computes_ofExcept_bind fun timestamp _ => ?_
      refine (href rationale (by simp [Body.payloads])).bind Kept.moves fun rationaleRef _ => ?_
      refine computes_pure fun d hrationale hfria => ?_
      simp [Body.payloads, hrationale, hfria]
  | policy d p =>
      refine computes_ofExcept_bind fun timestamp _ => ?_
      exact computes_pure fun d x hx => absurd hx List.not_mem_nil
  | incident severity reportDeadlineDays description =>
      refine computes_ofExcept_bind fun timestamp _ => ?_
      refine (href description (by simp [Body.payloads])).bind Kept.moves fun descriptionRef _ => ?_
      refine computes_pure fun d hdescription => ?_
      simp [Body.payloads, hdescription]

/-! ## Calls -/

/-- The payloads of a call. -/
def Site.payloads (s : Site) : List Captured :=
  match s.call.request with
  | .record _ => []
  | .make body _ _ => body.payloads

/-- What has a place in the event is a payload of the call. -/
theorem Site.mem_payloads {s : Site} {body : Body Captured} {overrides : Overrides}
    {clock : Except PyErr Str} (hrequest : s.call.request = .make body overrides clock)
    {x : Captured × Place} (hx : x ∈ body.places) : x.1 ∈ s.payloads := by
  have hmem := List.mem_map_of_mem (f := Prod.fst) hx
  rw [Body.map_fst_places] at hmem
  rwa [Site.payloads, hrequest]

/-- No payload of the call is cut off. -/
def Site.Untorn (s : Site) : Prop := ∀ x ∈ s.payloads, x.Untorn

/-- Each payload of the call is written, where there is a vault. -/
def Site.Sound (s : Site) : Prop := ∀ x ∈ s.payloads, x.fault = none

/-- The payloads of the call are kept. -/
def Site.Kept (s : Site) (v : FileVault) : Prop := ∀ x ∈ s.payloads, Sdk.Kept s.call.client x v

/-- **A call makes its event**, whatever the state. -/
theorem computes_make (s : Site) :
    Computes (@Moves σ s.Untorn) (¬ s.Sound) (fun _ d => s.Kept d.vault) (s.call.make s.scope)
      s.event := by
  obtain ⟨scope, ⟨client, request, commitClock⟩⟩ := s
  cases request with
  | record event => exact computes_pure fun d x hx => absurd hx List.not_mem_nil
  | make body overrides clock =>
      have hbody := @computes_resolve σ client clock body (∀ x ∈ body.payloads, x.Untorn)
        (¬ ∀ x ∈ body.payloads, x.fault = none) id fun x hx hfault hall => hfault (hall x hx)
      refine hbody.bind (fun b d d' h hmoves x hx => (h x hx).extends hmoves.vault) fun resolved _ => ?_
      exact computes_ofExcept fun event d _ hkept => hkept

/-- What is committed. -/
theorem commitEvent_cases (event : ComplianceEvent) (clock : Except PyErr Str) (d : Desk σ) :
    (∃ event' ledger, Ledger.commit B d.ledger event clock = (.ok event', ledger) ∧
        commitEvent B event clock d = .ok () { d with ledger }) ∨
      ∃ err ledger, Ledger.commit B d.ledger event clock = (.error err, ledger) ∧
        commitEvent B event clock d = .error err { d with ledger } := by
  rw [commitEvent]
  cases hcommit : Ledger.commit B d.ledger event clock with
  | mk result ledger =>
      cases result with
      | ok event' => exact Or.inl ⟨event', ledger, rfl, rfl⟩
      | error err => exact Or.inr ⟨err, ledger, rfl, rfl⟩

/-- How a call ends: it raises before the ledger is asked, or it commits its event, which it may. -/
theorem runIn_cases (s : Site) (d : Desk σ) :
    (∃ err d', s.call.runIn B s.scope d = .error err d' ∧ Moves s.Untorn d d' ∧
        (s.Sound → s.eval B d.ledger = .error err d.ledger)) ∨
      ∃ event d', s.event = .ok event ∧ s.call.client.mayRecord = .ok () ∧ Moves s.Untorn d d' ∧
        s.Kept d'.vault ∧ s.call.runIn B s.scope d = commitEvent B event s.call.commitClock d' := by
  rcases (computes_make s).cases d with
    ⟨event, d', hmake, hevent, hmoves, hkept⟩ | ⟨err, d', hmake, hevent, hmoves⟩
  · have hrun : s.call.runIn B s.scope d = s.call.client.record B event s.call.commitClock d' :=
      bind_ok hmake
    cases hmay : s.call.client.mayRecord with
    | ok u =>
        refine Or.inr ⟨event, d', hevent, rfl, hmoves, hkept, ?_⟩
        rw [hrun, EvidenceClient.record, hmay]
        rfl
    | error err =>
        refine Or.inl ⟨err, d', ?_, hmoves, fun _ => ?_⟩
        · rw [hrun, EvidenceClient.record, hmay]
          rfl
        · rw [Site.eval, hevent, hmay]
          rfl
  · refine Or.inl ⟨err, d', bind_error hmake, hmoves, fun hsound => ?_⟩
    rw [Site.eval, hevent.resolve_right (not_not_intro hsound)]
    rfl

/-! ## What programs leave -/

/-- The record that a call leaves: its event, under the ledger's id and fields. -/
structure Made (v : FileVault) (s : Site) (record : Val) : Prop where
  permitted : s.call.client.mayRecord = .ok ()
  event : ∃ event, s.event = .ok event ∧ RecordOf event record
  kept : s.Kept v

/-- A record stays made in a vault that grows. -/
theorem Made.extends {v v' : FileVault} {s : Site} {record : Val} (h : Made v s record)
    (hv : v.Extends v') : Made v' s record :=
  ⟨h.permitted, h.event, fun x hx => (h.kept x hx).extends hv⟩

/-- A field of an event is read from what it is made of. -/
theorem read_of_construct {vs : List (Option Val)} {event : ComplianceEvent} {kvs : Items}
    (h : construct (Model.present complianceEvent vs) = .ok event) (hkvs : event.content = .ok kvs)
    {f : Model.Field} (hf : f ∈ complianceEvent) (hname : f.name ∉ [lit "event_id", lit "ledger"]) :
    f.read (Model.present complianceEvent vs) = some (kvs.lookup f.name) := by
  have hnames : (complianceEvent.map (·.name)).Nodup := by decide
  rw [construct] at h
  split at h
  · rename_i out hout
    rw [← Except.ok.inj h] at hkvs
    obtain ⟨input, own, hinput, hown, heq⟩ := Model.model_eq_some hout
    obtain rfl := Val.dict.inj hinput
    obtain rfl := Val.dict.inj heq
    -- the other entries are none of the fields
    have hextras : (Model.extras (complianceEvent.map (·.name))
        (Model.present complianceEvent vs)).lookup f.name = none := by
      refine List.lookup_eq_none_iff.mpr fun kv hkv => bne_iff_ne.mpr fun heq => ?_
      obtain ⟨lv, hlv, rfl⟩ := List.mem_map.mp hkv
      exact (of_decide_eq_true (List.mem_filter.mp hlv).2).1 (heq ▸ List.mem_map_of_mem hf)
    rw [← Except.ok.inj hkvs, lookup_filter_of (p := fun k => k ∉ [lit "event_id", lit "ledger"])
      (decide_eq_true hname), List.lookup_append, hextras, Option.or_none]
    exact Model.lookup_readFields hown hnames hf
  · cases h

/-- A field that is given a valid value is dumped as it. -/
theorem lookup_of_construct {vs : List (Option Val)} {event : ComplianceEvent} {kvs : Items}
    (h : construct (Model.present complianceEvent vs) = .ok event) (hkvs : event.content = .ok kvs)
    {f : Model.Field} {given dumped : Val} (hf : f ∈ complianceEvent)
    (hname : f.name ∉ [lit "event_id", lit "ledger"])
    (hgiven : (Model.present complianceEvent vs).lookup f.name = some given) (hnull : given ≠ .null)
    (hvalid : f.validate given = some dumped) : kvs.lookup f.name = some dumped := by
  have hread := read_of_construct h hkvs hf hname
  rw [Model.Field.read, hgiven] at hread
  cases given with
  | null => exact absurd rfl hnull
  | _ => simpa [hvalid, eq_comm] using hread

/-- What a client puts on each event that it makes. -/
structure Stamped (s : Site) (body : Body Captured) (overrides : Overrides) (record : Val) : Prop where
  kind : record.item? (lit "kind") = some (.str body.kind.value)
  actor : record.item? (lit "actor") = some (s.call.client.actor.val jsonMode)
  provenance : record.item? (lit "provenance") = some (provenanceIn s.scope overrides).val
  source : record.item? (lit "source") = some (.dict [(lit "format", .str (lit "sdk"))])

/-- Resolving the payloads keeps the kind. -/
theorem kind_of_resolve {ref : Captured → Except PyErr (Option Str)} {clock : Except PyErr Str}
    {b : Body Captured} {timestamp : Str} {b' : Body (Option Str)}
    (h : b.resolve ref clock = .ok (timestamp, b')) : b'.kind = b.kind := by
  -- the clock and the payloads are read off, and what is left is the same recorder
  cases b with
  | decision output input classification rationale approvalRef model control attributes =>
      obtain ⟨_, -, h⟩ := bind_eq_ok.mp h
      obtain ⟨_, -, h⟩ := bind_eq_ok.mp h
      obtain ⟨_, -, h⟩ := bind_eq_ok.mp h
      obtain ⟨_, -, h⟩ := bind_eq_ok.mp h
      obtain ⟨_, -, h⟩ := bind_eq_ok.mp h
      rw [← (Prod.mk.inj (pure_eq_ok.mp h)).2]
      rfl
  | approval reviewer approved rationale =>
      obtain ⟨_, -, h⟩ := bind_eq_ok.mp h
      obtain ⟨_, -, h⟩ := bind_eq_ok.mp h
      rw [← (Prod.mk.inj (pure_eq_ok.mp h)).2]
      rfl
  | risk classification rationale fria framework =>
      obtain ⟨_, -, h⟩ := bind_eq_ok.mp h
      obtain ⟨_, -, h⟩ := bind_eq_ok.mp h
      obtain ⟨_, -, h⟩ := bind_eq_ok.mp h
      rw [← (Prod.mk.inj (pure_eq_ok.mp h)).2]
      rfl
  | policy d p =>
      obtain ⟨_, -, h⟩ := bind_eq_ok.mp h
      rw [← (Prod.mk.inj (pure_eq_ok.mp h)).2]
      rfl
  | incident severity reportDeadlineDays description =>
      obtain ⟨_, -, h⟩ := bind_eq_ok.mp h
      obtain ⟨_, -, h⟩ := bind_eq_ok.mp h
      rw [← (Prod.mk.inj (pure_eq_ok.mp h)).2]
      rfl

/-- **The fields of the record of a recorder** are what the fields of its event are given, validated. -/
theorem Made.exists_parts {v : FileVault} {s : Site} {record : Val} (h : Made v s record)
    {body : Body Captured} {overrides : Overrides} {clock : Except PyErr Str}
    (hrequest : s.call.request = .make body overrides clock) :
    ∃ timestamp b io model oversight risk attributes,
      body.resolve Captured.hash clock = .ok (timestamp, b) ∧
      b.parts = .ok (io, model, oversight, risk, attributes) ∧
      ∀ {i : Nat} {f : Model.Field} {given dumped : Val}, complianceEvent[i]? = some f →
        f.name ∉ [lit "event_id", lit "ledger"] →
        [none, none, some (.str timestamp), some (.str body.kind.value),
          some (s.call.client.actor.val id), some (provenanceIn s.scope overrides).val, io, model, none,
          oversight, risk, attributes, none, some (.dict [(lit "format", .str (lit "sdk"))]),
          none][i]? = some (some given) →
        given ≠ .null → f.validate given = some dumped → record.item? f.name = some dumped := by
  obtain ⟨event, hevent, kvs, hkvs, hitems⟩ := h.event
  rw [Site.event, hrequest] at hevent
  obtain ⟨⟨timestamp, b⟩, hresolve, hevent⟩ := bind_eq_ok.mp hevent
  change makeEvent s.call.client (provenanceIn s.scope overrides) timestamp b = .ok event at hevent
  rw [makeEvent, kind_of_resolve hresolve] at hevent
  obtain ⟨⟨io, model, oversight, risk, attributes⟩, hparts, hevent⟩ := bind_eq_ok.mp hevent
  refine ⟨timestamp, b, io, model, oversight, risk, attributes, hresolve, hparts, ?_⟩
  intro i f given dumped hf hname hgiven hnull hvalid
  have hid : f.name ≠ lit "event_id" := fun heq => hname (heq ▸ List.mem_cons_self)
  have hledger : f.name ≠ lit "ledger" := fun heq =>
    hname (heq ▸ List.mem_cons_of_mem _ List.mem_cons_self)
  rw [hitems _ hid hledger]
  exact lookup_of_construct hevent hkvs (List.mem_of_getElem? hf) hname
    (Model.lookup_present (by decide) hf hgiven) hnull hvalid

/-- **The record of a recorder states its kind, its client and the tasks around it.** -/
theorem Made.stamped {v : FileVault} {s : Site} {record : Val} (h : Made v s record)
    {body : Body Captured} {overrides : Overrides} {clock : Except PyErr Str}
    (hrequest : s.call.request = .make body overrides clock) : Stamped s body overrides record := by
  obtain ⟨timestamp, b, io, model, oversight, risk, attributes, -, -, hfield⟩ := h.exists_parts hrequest
  have hvalue : Model.enum eventKinds (.str body.kind.value) = some (.str body.kind.value) :=
    if_pos body.kind.value_mem
  have hdict : ∀ kvs : Items, Val.dict kvs ≠ .null := fun kvs hnull => by cases hnull
  exact {
    kind := @hfield 3 _ _ _ rfl (by decide) rfl (by simp) hvalue
    actor := @hfield 4 _ _ _ rfl (by decide) rfl (hdict _) (Actor.model_val _)
    provenance := @hfield 5 _ _ _ rfl (by decide) rfl (hdict _) (Provenance.model_val _)
    source := @hfield 13 _ _ _ rfl (by decide) rfl (hdict _) rfl }

/-! ### References -/

/-- Where a record refers to something. -/
def RefersAt (record : Val) (place : Place) (ref : Str) : Prop :=
  ∃ kvs, record.item? place.field = some (.dict kvs) ∧ kvs.lookup place.key = some (.str ref)

/-- Where the fields of an event refer to something. -/
def Place.In (io risk attributes : Option Val) (ref : Str) : Place → Prop
  | inputRef => ∃ x : IORef, io = some x.val ∧ x.inputRef = some ref
  | outputRef => ∃ x : IORef, io = some x.val ∧ x.outputRef = some ref
  | rationaleRef => ∃ classification framework, risk = some (riskVal classification (some ref) framework)
  | friaRef => attributes = some (.dict [(lit "fria_ref", .str ref)])

/-- The places are kept when the payloads are resolved. -/
theorem places_of_resolve {ref : Captured → Except PyErr (Option Str)} {clock : Except PyErr Str}
    {b : Body Captured} {timestamp : Str} {b' : Body (Option Str)}
    (h : b.resolve ref clock = .ok (timestamp, b')) :
    ∀ x ∈ b.places, ∃ r, ref x.1 = .ok r ∧ (r, x.2) ∈ b'.places := by
  cases b with
  | decision output input classification rationale approvalRef model control attributes =>
      -- the results are named where a payload is resolved
      obtain ⟨_, -, h⟩ := bind_eq_ok.mp h
      obtain ⟨inputRef, hinput, h⟩ := bind_eq_ok.mp h
      obtain ⟨outputRef, houtput, h⟩ := bind_eq_ok.mp h
      obtain ⟨_, -, h⟩ := bind_eq_ok.mp h
      obtain ⟨rationaleRef, hrationale, h⟩ := bind_eq_ok.mp h
      rw [← (Prod.mk.inj (pure_eq_ok.mp h)).2]
      simp [Body.places, hinput, houtput, hrationale]
  | approval reviewer approved rationale =>
      obtain ⟨_, -, h⟩ := bind_eq_ok.mp h
      obtain ⟨rationaleRef, hrationale, h⟩ := bind_eq_ok.mp h
      rw [← (Prod.mk.inj (pure_eq_ok.mp h)).2]
      simp [Body.places, hrationale]
  | risk classification rationale fria framework =>
      obtain ⟨friaRef, hfria, h⟩ := bind_eq_ok.mp h
      obtain ⟨_, -, h⟩ := bind_eq_ok.mp h
      obtain ⟨rationaleRef, hrationale, h⟩ := bind_eq_ok.mp h
      rw [← (Prod.mk.inj (pure_eq_ok.mp h)).2]
      simp [Body.places, hfria, hrationale]
  | policy d p =>
      intro x hx
      exact absurd hx List.not_mem_nil
  | incident severity reportDeadlineDays description =>
      obtain ⟨_, -, h⟩ := bind_eq_ok.mp h
      obtain ⟨descriptionRef, hdescription, h⟩ := bind_eq_ok.mp h
      rw [← (Prod.mk.inj (pure_eq_ok.mp h)).2]
      simp [Body.places, hdescription]

/-- **The fields of an event refer to what its body refers to**, at the places of the body. -/
theorem in_of_parts {b : Body (Option Str)} {io model oversight risk attributes : Option Val}
    (h : b.parts = .ok (io, model, oversight, risk, attributes)) {ref : Str} {place : Place}
    (hx : (some ref, place) ∈ b.places) : place.In io risk attributes ref := by
  cases b with
  | decision outputRef inputRef classification rationaleRef approvalRef model' control attributes' =>
      obtain ⟨_, -, h⟩ := bind_eq_ok.mp h
      obtain ⟨rfl, -, -, rfl, -⟩ : _ ∧ _ ∧ _ ∧ _ ∧ _ := by simpa using pure_eq_ok.mp h
      simp only [Body.places, List.mem_cons, Prod.mk.injEq, List.not_mem_nil, or_false] at hx
      rcases hx with ⟨rfl, rfl⟩ | ⟨rfl, rfl⟩ | ⟨rfl, rfl⟩
      · exact ⟨_, rfl, rfl⟩
      · exact ⟨_, rfl, rfl⟩
      · refine ⟨classification, (ifTrue classification).map fun _ => lit "eu-ai-act", ?_⟩
        exact if_pos (Or.inr rfl)
  | approval reviewer approved rationaleRef =>
      obtain ⟨rfl, -, -, -, -⟩ : _ ∧ _ ∧ _ ∧ _ ∧ _ := by simpa [Body.parts] using h
      obtain ⟨rfl, rfl⟩ : _ ∧ _ := by simpa [Body.places] using hx
      exact ⟨_, rfl, rfl⟩
  | risk classification rationaleRef friaRef framework =>
      obtain ⟨-, -, -, rfl, rfl⟩ : _ ∧ _ ∧ _ ∧ _ ∧ _ := by simpa [Body.parts] using h
      simp only [Body.places, List.mem_cons, Prod.mk.injEq, List.not_mem_nil, or_false] at hx
      rcases hx with ⟨rfl, rfl⟩ | ⟨rfl, rfl⟩
      · rfl
      · exact ⟨_, _, rfl⟩
  | policy d p => exact absurd hx List.not_mem_nil
  | incident severity reportDeadlineDays descriptionRef =>
      obtain ⟨rfl, -, -, -, -⟩ : _ ∧ _ ∧ _ ∧ _ ∧ _ := by simpa [Body.parts] using h
      obtain ⟨rfl, rfl⟩ : _ ∧ _ := by simpa [Body.places] using hx
      exact ⟨_, rfl, rfl⟩

/-- A risk is dumped as it is. -/
theorem model_riskVal (classification rationaleRef framework : Option Str) :
    Model.model EventModel.risk (riskVal classification rationaleRef framework)
      = some (riskVal classification rationaleRef framework) :=
  model_present_nil (by decide) ⟨dumps_str rfl rfl _, dumps_str rfl rfl _, dumps_str rfl rfl _, trivial⟩

/-- **The record of a recorder holds the hash of each of its payloads**, at the place of the payload. -/
theorem Made.refersAt {v : FileVault} {s : Site} {record : Val} (h : Made v s record)
    {body : Body Captured} {overrides : Overrides} {clock : Except PyErr Str}
    (hrequest : s.call.request = .make body overrides clock) {x : Captured × Place} (hx : x ∈ body.places)
    {ref : Str} (href : x.1.hash = .ok (some ref)) : RefersAt record x.2 ref := by
  obtain ⟨timestamp, b, io, model, oversight, risk, attributes, hresolve, hparts, hfield⟩ :=
    h.exists_parts hrequest
  -- the reference is at the place of its payload in what the event is made of
  obtain ⟨r, hr, hmem⟩ := places_of_resolve hresolve x hx
  rw [← Except.ok.inj (href.symm.trans hr)] at hmem
  have hin := in_of_parts hparts hmem
  have hdict : ∀ kvs : Items, Val.dict kvs ≠ .null := fun kvs hnull => by cases hnull
  -- where each place is in the record
  cases hplace : x.2 with
  | inputRef =>
      rw [hplace] at hin
      obtain ⟨y, rfl, hy⟩ := hin
      refine ⟨_, @hfield 6 _ _ _ rfl (by decide) rfl (hdict _) (IORef.model_val _), ?_⟩
      exact (@Model.lookup_present EventModel.ioRef _ _ (by decide) 0 _ rfl rfl).trans (by rw [hy]; rfl)
  | outputRef =>
      rw [hplace] at hin
      obtain ⟨y, rfl, hy⟩ := hin
      refine ⟨_, @hfield 6 _ _ _ rfl (by decide) rfl (hdict _) (IORef.model_val _), ?_⟩
      exact (@Model.lookup_present EventModel.ioRef _ _ (by decide) 1 _ rfl rfl).trans (by rw [hy]; rfl)
  | rationaleRef =>
      rw [hplace] at hin
      obtain ⟨classification, framework, rfl⟩ := hin
      refine ⟨_, @hfield 10 _ _ _ rfl (by decide) rfl (hdict _) (model_riskVal _ _ _), ?_⟩
      exact @Model.lookup_present EventModel.risk _ _ (by decide) 1 _ rfl rfl
  | friaRef =>
      rw [hplace] at hin
      obtain rfl := hin
      exact ⟨_, @hfield 11 _ _ _ rfl (by decide) rfl (hdict _) rfl, List.lookup_cons_self⟩

/-- What some of the calls leave, in their order, when a desk `d` becomes `d'`. -/
structure Leaves (B : LedgerBackend σ) (sites : List Site) (d d' : Desk σ) : Prop where
  made : ∃ made : List (Site × Val), (made.map Prod.fst).Sublist sites ∧
    B.records d'.ledger.store = B.records d.ledger.store ++ made.map Prod.snd ∧
    ∀ m ∈ made, Made d'.vault m.1 m.2
  vault : d.vault.Extends d'.vault
  addressed : (∀ s ∈ sites, s.Untorn) → d.vault.Addressed → d'.vault.Addressed
  inv : Ledger.Inv B d.ledger → Ledger.Inv B d'.ledger

namespace Leaves

variable {sites sites' : List Site} {d d' d'' : Desk σ}

/-- Nothing is left of no calls. -/
theorem refl (B : LedgerBackend σ) (d : Desk σ) : Leaves B [] d d where
  made := ⟨[], List.Sublist.refl _, (List.append_nil _).symm, fun _ hm => absurd hm List.not_mem_nil⟩
  vault := .refl d.vault
  addressed _ h := h
  inv := id

/-- What is left by fewer calls is left by more. -/
theorem mono (h : Leaves B sites d d') (hsub : sites.Sublist sites') : Leaves B sites' d d' where
  made := by
    obtain ⟨made, hmade, hrecords, hall⟩ := h.made
    exact ⟨made, hmade.trans hsub, hrecords, hall⟩
  vault := h.vault
  addressed hu := h.addressed fun s hs => hu s (hsub.subset hs)
  inv := h.inv

/-- **What is left first stays, and what comes next comes after it.** -/
theorem trans (h : Leaves B sites d d') (h' : Leaves B sites' d' d'') :
    Leaves B (sites ++ sites') d d'' where
  made := by
    obtain ⟨made, hmade, hrecords, hall⟩ := h.made
    obtain ⟨made', hmade', hrecords', hall'⟩ := h'.made
    refine ⟨made ++ made', ?_, ?_, fun m hm => ?_⟩
    · rw [List.map_append]
      exact hmade.append hmade'
    · rw [hrecords', hrecords, List.map_append, List.append_assoc]
    · rcases List.mem_append.mp hm with hm | hm
      · exact (hall m hm).extends h'.vault
      · exact hall' m hm
  vault := h.vault.trans h'.vault
  addressed hu ha := by
    apply h'.addressed fun s hs => hu s (List.mem_append_right _ hs)
    exact h.addressed (fun s hs => hu s (List.mem_append_left _ hs)) ha
  inv hinv := h'.inv (h.inv hinv)

end Leaves

/-- **A commit leaves the record of its event, or nothing.** -/
theorem commitEvent_leaves {s : Site} {event : ComplianceEvent} {d : Desk σ}
    (hevent : s.event = .ok event) (hmay : s.call.client.mayRecord = .ok ()) (hkept : s.Kept d.vault) :
    Leaves B [s] d (stateOf (commitEvent B event s.call.commitClock d)) := by
  have hinv : Ledger.Inv B d.ledger →
      Ledger.Inv B (Ledger.commit B d.ledger event s.call.commitClock).2 := fun h => h.commit event _
  rcases commitEvent_cases event s.call.commitClock d with
    ⟨event', ledger, hcommit, hrun⟩ | ⟨err, ledger, hcommit, hrun⟩
  · obtain ⟨record, hrecord, hrecords⟩ := Ledger.records_of_commit hcommit
    rw [hcommit] at hinv
    rw [hrun]
    refine ⟨⟨[(s, record)], List.Sublist.refl _, hrecords, fun m hm => ?_⟩, .refl d.vault,
      fun _ h => h, hinv⟩
    rw [List.mem_singleton] at hm
    rw [hm]
    exact ⟨hmay, ⟨event, hevent, hrecord⟩, hkept⟩
  · rw [hcommit] at hinv
    rw [hrun]
    refine ⟨⟨[], List.nil_sublist _, ?_, fun m hm => absurd hm List.not_mem_nil⟩, .refl d.vault,
      fun _ h => h, hinv⟩
    rw [List.map_nil, List.append_nil]
    exact Ledger.records_of_commit_error hcommit

/-- What moving a desk leaves. -/
theorem Moves.leaves {s : Site} {d d' : Desk σ} (h : Moves s.Untorn d d') : Leaves B [s] d d' where
  made := by
    refine ⟨[], List.nil_sublist _, ?_, fun m hm => absurd hm List.not_mem_nil⟩
    rw [h.ledger, List.map_nil, List.append_nil]
  vault := h.vault
  addressed hu := h.addressed (hu s (List.mem_singleton_self s))
  inv hinv := by rwa [h.ledger]

/-! ## Runs -/

/-- What a call of a program leaves. -/
theorem call_leaves (s : Site) (d : Desk σ) : Leaves B [s] d (stateOf (s.call.runIn B s.scope d)) := by
  rcases @runIn_cases σ B s d with
    ⟨err, d', hrun, hmoves, -⟩ | ⟨event, d', hevent, hmay, hmoves, hkept, hrun⟩
  · rw [hrun]
    exact hmoves.leaves
  · -- first the vault, then the ledger
    have hmoved := @Moves.leaves σ B s d d' hmoves
    have hcommit := @commitEvent_leaves σ B s event d' hevent hmay hkept
    rw [hrun]
    obtain ⟨made, hmade, hrecords, hall⟩ := hcommit.made
    refine ⟨⟨made, hmade, ?_, hall⟩, hmoved.vault.trans hcommit.vault, fun hu ha => ?_,
      fun hinv => ?_⟩
    · rw [hrecords, hmoves.ledger]
    · exact hcommit.addressed hu (hmoved.addressed hu ha)
    · exact hcommit.inv (hmoved.inv hinv)

/-- **A program leaves the records of some of its calls**, and the context variable as it was. -/
theorem run_leaves (p : Prog) (w : World σ) :
    (stateOf (p.run B w)).scope = w.scope ∧
      Leaves B (p.sites w.scope) w.desk (stateOf (p.run B w)).desk := by
  -- induction on the program: what is left grows, and each task puts the variable back
  induction p generalizing w with
  | skip => exact ⟨rfl, Leaves.refl B w.desk⟩
  | call rc =>
      have hcall := @call_leaves σ B ⟨w.scope, rc⟩ w.desk
      rw [Prog.run, onDesk]
      cases hrun : rc.runIn B w.scope w.desk with
      | ok u d' =>
          rw [hrun] at hcall
          exact ⟨rfl, hcall⟩
      | error err d' =>
          rw [hrun] at hcall
          exact ⟨rfl, hcall⟩
  | seq p q ihp ihq =>
      have ihp := ihp w
      rw [Prog.run]
      cases hp : p.run B w with
      -- the first part raised, and the second is not run
      | error err w' =>
          rw [bind_error hp]
          rw [hp] at ihp
          exact ⟨ihp.1, ihp.2.mono (List.sublist_append_left _ _)⟩
      | ok u w' =>
          rw [bind_ok hp]
          rw [hp] at ihp
          have ihq := ihq w'
          -- the second part starts under the scope of the first
          rw [show w'.scope = w.scope from ihp.1] at ihq
          exact ⟨ihq.1, ihp.2.trans ihq.2⟩
  | task t body ih =>
      have ih := ih { w with scope := t.scope }
      rw [Prog.run, withScope]
      cases hbody : body.run B { w with scope := t.scope } with
      | ok u w' =>
          rw [hbody] at ih
          exact ⟨rfl, ih.2⟩
      | error err w' =>
          rw [hbody] at ih
          exact ⟨rfl, ih.2⟩
  | raise err => exact ⟨rfl, Leaves.refl B w.desk⟩
  | attempt body handler ihbody ihhandler =>
      have ihbody := ihbody w
      rw [Prog.run, orHandle]
      cases hbody : body.run B w with
      | ok u w' =>
          rw [hbody] at ihbody
          exact ⟨ihbody.1, ihbody.2.mono (List.sublist_append_left _ _)⟩
      -- the handler goes on where the body stopped
      | error err w' =>
          rw [hbody] at ihbody
          have ihhandler := ihhandler w'
          rw [show w'.scope = w.scope from ihbody.1] at ihhandler
          exact ⟨ihhandler.1, ihbody.2.trans ihhandler.2⟩

/-- There is no `try`. -/
def Prog.Plain : Prog → Prop
  | .seq p q => p.Plain ∧ q.Plain
  | .task _ body => body.Plain
  | .attempt _ _ => False
  | _ => True

/-- A call that returns leaves one record. -/
theorem length_call {s : Site} {d d' : Desk σ} {u : Unit} (h : s.call.runIn B s.scope d = .ok u d') :
    (B.records d'.ledger.store).length = (B.records d.ledger.store).length + 1 := by
  rcases @runIn_cases σ B s d with ⟨err, d'', hrun, -⟩ | ⟨event, d'', -, -, hmoves, -, hrun⟩
  · rw [hrun] at h
    cases h
  · rw [hrun] at h
    rcases @commitEvent_cases σ B event s.call.commitClock d'' with
      ⟨event', ledger, hcommit, hrun⟩ | ⟨err, ledger, -, hrun⟩
    · rw [hrun] at h
      cases h
      obtain ⟨record, -, hrecords⟩ := Ledger.records_of_commit hcommit
      rw [← hmoves.ledger, hrecords, List.length_append]
      rfl
    · rw [hrun] at h
      cases h

/-- A program without `try` that returns leaves a record of each of its calls. -/
theorem length_run {p : Prog} (hp : p.Plain) {w w' : World σ} {u : Unit} (h : p.run B w = .ok u w') :
    (B.records w'.desk.ledger.store).length
      = (B.records w.desk.ledger.store).length + (p.sites w.scope).length := by
  induction p generalizing w w' u with
  | skip =>
      cases h
      rfl
  | call rc =>
      rw [Prog.run, onDesk] at h
      cases hrun : rc.runIn B w.scope w.desk with
      | ok u d' =>
          rw [hrun] at h
          cases h
          exact @length_call σ B ⟨w.scope, rc⟩ _ _ _ hrun
      | error err d' =>
          rw [hrun] at h
          cases h
  | seq p q ihp ihq =>
      rw [Prog.run] at h
      cases hrun : p.run B w with
      | error err w'' =>
          rw [bind_error hrun] at h
          cases h
      | ok u w'' =>
          rw [bind_ok hrun] at h
          have hscope := (@run_leaves σ B p w).1
          rw [hrun] at hscope
          -- the first part leaves the scope, so the calls of the second are those that were to come
          have hscope : w''.scope = w.scope := hscope
          rw [ihq hp.2 h, ihp hp.1 hrun, Prog.sites, List.length_append, hscope, Nat.add_assoc]
  | task t body ih =>
      rw [Prog.run, withScope] at h
      cases hbody : body.run B { w with scope := t.scope } with
      | ok u w'' =>
          rw [hbody] at h
          cases h
          exact ih hp hbody
      | error err w'' =>
          rw [hbody] at h
          cases h
  | raise err => cases h
  | attempt body handler => exact hp.elim

/-- **The records of a program.** Whatever is raised and caught, and however writing to the vault fails: a
program leaves the context variable as it was, the copies of the log in agreement, and, after the records
that were there, records of some of its calls, in their order: of all of them, where nothing is caught and
nothing is raised. Each is permitted to its client, and is the event that its client makes of the call in
the innermost task that is written around it, with the provenance of that task. -/
theorem records_of_run (p : Prog) (w : World σ) :
    let w' := stateOf (p.run B w)
    w'.scope = w.scope ∧ (Ledger.Inv B w.desk.ledger → Ledger.Inv B w'.desk.ledger) ∧
      ∃ made : List (Site × Val), (made.map Prod.fst).Sublist (p.sites w.scope) ∧
        (p.Plain → p.run B w = .ok () w' → made.map Prod.fst = p.sites w.scope) ∧
        B.records w'.desk.ledger.store = B.records w.desk.ledger.store ++ made.map Prod.snd ∧
        ∀ m ∈ made, Made w'.desk.vault m.1 m.2 ∧ ∀ body overrides clock,
          m.1.call.request = .make body overrides clock → Stamped m.1 body overrides m.2 := by
  intro w'
  obtain ⟨hscope, hleaves⟩ := @run_leaves σ B p w
  obtain ⟨made, hmade, hrecords, hall⟩ := hleaves.made
  refine ⟨hscope, hleaves.inv, made, hmade, fun hp hrun => ?_, hrecords, fun m hm => ?_⟩
  · have hlength := length_run hp hrun
    rw [hrecords, List.length_append, List.length_map] at hlength
    apply hmade.eq_of_length
    rw [List.length_map]
    omega
  · exact ⟨hall m hm, fun body overrides clock hrequest => (hall m hm).stamped hrequest⟩

/-- A program: in a task, a classification, a subtask in which a decision is made and then something is
raised, and, where that is caught, an incident. -/
def sampleProg : Prog :=
  let client : EvidenceClient := { agentId := lit "agent", vaulted := true }
  let clock : Except PyErr Str := .ok (lit "2025-06-15T12:30:00Z")
  let call := fun body => Prog.call ⟨client, .make body {} clock, clock⟩
  let payload := fun s => Captured.mk (.value (.str (lit s))) none
  .task { taskId := lit "outer" } <|
    .seq (call (.risk (lit "high") (payload "rationale") (payload "fria") (lit "eu-ai-act"))) <|
      .attempt
        (.task { taskId := lit "inner", parentTaskId := some (lit "outer") } <|
          .seq (call (.decision (payload "output") (payload "input") none (payload "why")
            none none none none))
            (.raise { kind := .valueError }))
        (call (.incident (lit "low") 15 (payload "description")))

/-- An empty ledger and an empty vault. -/
def sampleWorld : World (List Val) :=
  { desk := { ledger :=
    { store := [], origin := lit "openwright", retention := none, leaves := [], tree := .new } } }

/-- Nothing fails in it. -/
theorem sound_sampleProg : ∀ s ∈ sampleProg.sites sampleWorld.scope, s.Sound := by
  intro s hs x hx
  simp only [sampleProg, Prog.sites, List.cons_append, List.nil_append, List.mem_cons, List.not_mem_nil,
    or_false] at hs
  rcases hs with rfl | rfl | rfl
  all_goals
    simp only [Site.payloads, Body.payloads, List.mem_cons, List.not_mem_nil, or_false] at hx
    rcases hx with rfl | rfl | rfl <;> rfl

/-- Its clients have a vault, and every payload is given. -/
theorem given_sampleProg : ∀ s ∈ sampleProg.sites sampleWorld.scope,
    s.call.client.vaulted = true ∧ ∀ x ∈ s.payloads, x.payload.isNone = false := by
  intro s hs
  simp only [sampleProg, Prog.sites, List.cons_append, List.nil_append, List.mem_cons, List.not_mem_nil,
    or_false] at hs
  rcases hs with rfl | rfl | rfl
  all_goals
    refine ⟨rfl, fun x hx => ?_⟩
    simp only [Site.payloads, Body.payloads, List.mem_cons, List.not_mem_nil, or_false] at hx
    rcases hx with rfl | rfl | rfl <;> rfl

/-- **What a record refers to is in the vault**: if no file is cut off, then in a vault whose files are
named by what they hold, each record that a program leaves is the record of one of its calls, and holds,
for each payload of the call, the hash of its bytes, at the place of the payload; where the client has a
vault, the payload is found there under this hash, by bytes that have it. -/
theorem run_fetches (p : Prog) (w : World σ) (hvault : w.desk.vault.Addressed)
    (huntorn : ∀ s ∈ p.sites w.scope, s.Untorn) :
    let w' := stateOf (p.run B w)
    w'.desk.vault.Addressed ∧ ∃ made : List (Site × Val),
      (made.map Prod.fst).Sublist (p.sites w.scope) ∧
      B.records w'.desk.ledger.store = B.records w.desk.ledger.store ++ made.map Prod.snd ∧
      ∀ m ∈ made, Made w'.desk.vault m.1 m.2 ∧ ∀ body overrides clock,
        m.1.call.request = .make body overrides clock →
        ∀ x ∈ body.places, x.1.payload.isNone = false →
          ∃ data, x.1.payload.toBytes = .ok data ∧ RefersAt m.2 x.2 (Payload.refOf data) ∧
            (m.1.call.client.vaulted → ∃ data', w'.desk.vault.fetch (Payload.refOf data) = some data' ∧
              Payload.refOf data' = Payload.refOf data) := by
  intro w'
  obtain ⟨-, hleaves⟩ := @run_leaves σ B p w
  obtain ⟨made, hmade, hrecords, hall⟩ := hleaves.made
  have haddressed := hleaves.addressed huntorn hvault
  refine ⟨haddressed, made, hmade, hrecords, fun m hm => ⟨hall m hm, ?_⟩⟩
  intro body overrides clock hrequest x hx hsome
  obtain ⟨r, hr, hfetch⟩ := (hall m hm).kept x.1 (Site.mem_payloads hrequest hx)
  -- the hash of a given payload is that of its bytes
  have hhash : x.1.hash = x.1.payload.toBytes.map (fun data => some (Payload.refOf data)) := by
    rw [Captured.hash, hsome, if_neg Bool.false_ne_true, Payload.hashPayload_eq]
    cases x.1.payload.toBytes with
    | error err => rfl
    | ok data => rfl
  cases hdata : x.1.payload.toBytes with
  | error err =>
      rw [hhash, hdata] at hr
      cases hr
  | ok data =>
      rw [hdata] at hhash
      obtain rfl := Except.ok.inj (hhash.symm.trans hr)
      -- its bytes are at its place, and a client with a vault has put them there
      refine ⟨data, rfl, (hall m hm).refersAt hrequest hx hhash, fun hvaulted => ?_⟩
      obtain ⟨data', hdata'⟩ := Option.isSome_iff_exists.mp (hfetch hvaulted _ rfl)
      exact ⟨data', hdata', haddressed.fetch_eq hdata'⟩

/-- What the sample program leaves: a record of each of its calls, with the payloads in the vault. -/
theorem run_fetches_sample :
    let w' := stateOf (sampleProg.run inMemoryLedgerBackend sampleWorld)
    sampleWorld.desk.vault.Addressed ∧ (∀ s ∈ sampleProg.sites sampleWorld.scope, s.Untorn) ∧
      w'.desk.vault.Addressed ∧ ∃ made : List (Site × Val),
        made.map Prod.fst = sampleProg.sites sampleWorld.scope ∧
        inMemoryLedgerBackend.records w'.desk.ledger.store = made.map Prod.snd ∧
        ∀ m ∈ made, ∀ body overrides clock, m.1.call.request = .make body overrides clock →
          ∀ x ∈ body.places, ∃ data data', x.1.payload.toBytes = .ok data ∧
            RefersAt m.2 x.2 (Payload.refOf data) ∧
            w'.desk.vault.fetch (Payload.refOf data) = some data' ∧
            Payload.refOf data' = Payload.refOf data := by
  have hvault : sampleWorld.desk.vault.Addressed := fun name data h => by cases h
  have huntorn : ∀ s ∈ sampleProg.sites sampleWorld.scope, s.Untorn := fun s hs x hx n err htorn => by
    rw [sound_sampleProg s hs x hx] at htorn
    cases htorn
  obtain ⟨haddressed, made, hmade, hrecords, hall⟩ :=
    run_fetches (B := inMemoryLedgerBackend) sampleProg sampleWorld hvault huntorn
  -- each of the three calls leaves a record
  have hlength : (inMemoryLedgerBackend.records
      (stateOf (sampleProg.run inMemoryLedgerBackend sampleWorld)).desk.ledger.store).length = 3 := by
    decide +kernel
  have hsites : made.map Prod.fst = sampleProg.sites sampleWorld.scope := by
    apply hmade.eq_of_length
    rw [hrecords, List.length_append, List.length_map] at hlength
    rw [List.length_map]
    exact (Nat.zero_add _).symm.trans hlength
  refine ⟨hvault, huntorn, haddressed, made, hsites, hrecords, ?_⟩
  intro m hm body overrides clock hrequest x hx
  have hsite : m.1 ∈ sampleProg.sites sampleWorld.scope := hsites ▸ List.mem_map_of_mem hm
  obtain ⟨hvaulted, hgiven⟩ := given_sampleProg m.1 hsite
  obtain ⟨data, hdata, hrefers, hfetch⟩ :=
    (hall m hm).2 body overrides clock hrequest x hx (hgiven x.1 (Site.mem_payloads hrequest hx))
  obtain ⟨data', hdata', heq⟩ := hfetch hvaulted
  exact ⟨data, data', hdata, hrefers, hdata', heq⟩

/-! ## The ledger does not depend on the vault -/

/-- The ledger alone. -/
def ledgerOf : EStateM.Result PyErr (World σ) Unit → EStateM.Result PyErr (Ledger σ) Unit
  | .ok a w => .ok a w.desk.ledger
  | .error err w => .error err w.desk.ledger

/-- A call does to the ledger what its event does. -/
theorem call_eq_eval {s : Site} (hsound : s.Sound) (w : World σ) (hscope : w.scope = s.scope) :
    ledgerOf (onDesk (s.call.runIn B) w) = s.eval B w.desk.ledger := by
  rw [onDesk, hscope]
  rcases @runIn_cases σ B s w.desk with
    ⟨err, d', hrun, hmoves, heval⟩ | ⟨event, d', hevent, hmay, hmoves, -, hrun⟩
  · rw [hrun, heval hsound]
    exact congrArg (EStateM.Result.error err) hmoves.ledger
  · rw [hrun, Site.eval, ofExcept_bind hevent]
    refine Eq.trans ?_ (ofExcept_bind hmay w.desk.ledger).symm
    rcases @commitEvent_cases σ B event s.call.commitClock d' with
      ⟨event', ledger, hcommit, hrun⟩ | ⟨err, ledger, hcommit, hrun⟩
    · rw [hmoves.ledger] at hcommit
      rw [hrun]
      simp only [hcommit]
      rfl
    · rw [hmoves.ledger] at hcommit
      rw [hrun]
      simp only [hcommit]
      rfl

/-- **The ledger does not depend on the vault, nor on the context variable.** Where no file fails, a
program returns or raises, and leaves the ledger, as it does without a vault and with the tasks as what
is written around its calls. -/
theorem run_eq_eval {p : Prog} {w : World σ} (hsound : ∀ s ∈ p.sites w.scope, s.Sound) :
    ledgerOf (p.run B w) = p.eval B w.scope w.desk.ledger := by
  induction p generalizing w with
  | skip => rfl
  | call rc => exact call_eq_eval (hsound ⟨w.scope, rc⟩ (List.mem_singleton_self _)) w rfl
  | seq p q ihp ihq =>
      have ihp := ihp fun s hs => hsound s (List.mem_append_left _ hs)
      -- a program that returns or raises leaves the context variable as it was
      have hscope := (@run_leaves σ B p w).1
      rw [Prog.run, Prog.eval]
      cases hp : p.run B w with
      | error err w' =>
          rw [hp] at ihp
          rw [bind_error hp, bind_error ihp.symm]
          rfl
      | ok u w' =>
          rw [hp] at ihp hscope
          have hscope : w'.scope = w.scope := hscope
          have ihq := @ihq w' fun s hs => hsound s (List.mem_append_right _ (hscope ▸ hs))
          rw [bind_ok hp, bind_ok ihp.symm, ihq, hscope]
  | task t body ih =>
      have ih := @ih { w with scope := t.scope } hsound
      rw [Prog.run, Prog.eval, withScope, ← ih]
      cases body.run B { w with scope := t.scope } with
      | ok u w' => rfl
      | error err w' => rfl
  | raise err => rfl
  | attempt body handler ihbody ihhandler =>
      have ihbody := ihbody fun s hs => hsound s (List.mem_append_left _ hs)
      have hscope := (@run_leaves σ B body w).1
      rw [Prog.run, Prog.eval, orHandle, orHandle, ← ihbody]
      cases hbody : body.run B w with
      | ok u w' => rfl
      | error err w' =>
          rw [hbody] at hscope
          have hscope : w'.scope = w.scope := hscope
          have ihhandler := @ihhandler w' fun s hs => hsound s (List.mem_append_right _ (hscope ▸ hs))
          rw [hscope] at ihhandler
          exact ihhandler

/-- The sample program leaves the ledger that its calls determine. -/
theorem run_eq_eval_sample :
    (∀ s ∈ sampleProg.sites sampleWorld.scope, s.Sound) ∧
      ledgerOf (sampleProg.run inMemoryLedgerBackend sampleWorld)
        = sampleProg.eval inMemoryLedgerBackend sampleWorld.scope sampleWorld.desk.ledger :=
  ⟨sound_sampleProg, run_eq_eval sound_sampleProg⟩

end OpenWright.Sdk
