import OpenWright.Report
import OpenWright.Rfc3339

/-! # The period of a report

A report names as its period the least and the greatest of the timestamps of its events, as texts. An
event keeps the timestamp an adapter gives it, so that texts of several spellings meet in one ledger.

* **`period_covers_iff`** — the periods of the reports over timestamps of some spellings cover their
  events exactly where the spellings agree. -/

namespace OpenWright

open Python Python.Val Canonical Signing Rfc3339

/-! ## Covering -/

/-- The timestamps of the events in a report. -/
def eventTimestamps (report : Items) : List Val :=
  match report.lookup (lit "events") with
  | some (.list items) => items.map fun item => entry (lit "timestamp") (entry (lit "event") item)
  | _ => []

/-- The period of a report is one of instants, and each of the given timestamps is in it. -/
def Covers (report : Items) (ts : List Rfc3339) : Prop :=
  ∀ t ∈ ts, ∃ first last : Rfc3339, report.lookup (lit "period")
      = some (.dict [(lit "start", .str first.text), (lit "end", .str last.text)]) ∧
    first.instant ≤ t.instant ∧ t.instant ≤ last.instant

/-- A report without a given period, on a ledger. -/
def BuiltReport (report : Items) : Prop :=
  ∃ (σ : Type) (B : LedgerBackend σ) (reload : Reload) (l : Ledger σ) (cr : CrosswalkResult)
    (key : Signing.KeySource) (options : ReportOptions) (env : ReportEnv), options.period = none ∧
    buildReport B reload l cr key options env = .ok report

/-- The period of timestamps is the least and the greatest text. -/
theorem reportPeriod_eq {timestamps : List Str} (h : timestamps ≠ []) :
    ∃ first ∈ timestamps, ∃ last ∈ timestamps,
      reportPeriod none timestamps = [(lit "start", .str first), (lit "end", .str last)] ∧
      ∀ t ∈ timestamps, first ≤ t ∧ t ≤ last := by
  obtain ⟨first, hfirst⟩ := Option.isSome_iff_exists.mp (List.isSome_min?_of_ne_nil h)
  obtain ⟨last, hlast⟩ := Option.isSome_iff_exists.mp (List.isSome_max?_of_ne_nil h)
  have hperiod : reportPeriod none timestamps = [(lit "start", .str first), (lit "end", .str last)] := by
    rw [reportPeriod, hfirst, hlast]
  rw [List.min?_eq_some_iff] at hfirst
  rw [List.max?_eq_some_iff] at hlast
  exact ⟨first, hfirst.1, last, hlast.1, hperiod, fun t ht => ⟨hfirst.2 t ht, hlast.2 t ht⟩⟩

/-- **The period of a report** is that of the timestamps of its events. -/
theorem lookup_period {report : Items} (h : BuiltReport report) :
    ∃ timestamps : List Str, eventTimestamps report = timestamps.map .str ∧
      report.lookup (lit "period") = some (.dict (reportPeriod none timestamps)) := by
  obtain ⟨σ, B, reload, l, cr, key, options, env, hperiod, h⟩ := h
  rw [buildReport] at h
  obtain ⟨_, -, h⟩ := bind_eq_ok.mp h
  obtain ⟨c, -, h⟩ := bind_eq_ok.mp h
  obtain ⟨entries, hentries, h⟩ := bind_eq_ok.mp h
  obtain ⟨gaps, reportId, generatedAt, pemText, payload, signature, -, -, -, -, rfl⟩ :=
    assembleReport_eq_ok h
  -- the time of an entry is that of its event
  have htimestamp : ∀ e ∈ entries, entry (lit "timestamp") e.event = .str e.timestamp := by
    intro e he
    obtain ⟨i, -, hi⟩ := exists_of_mem_mapM hentries he
    rw [Ledger.reportEntry] at hi
    obtain ⟨event, -, hi⟩ := bind_eq_ok.mp hi
    obtain ⟨timestamp, htimestamp, hi⟩ := bind_eq_ok.mp hi
    obtain ⟨agentId, -, hi⟩ := bind_eq_ok.mp hi
    obtain ⟨proof, -, hi⟩ := bind_eq_ok.mp hi
    rw [← pure_eq_ok.mp hi]
    dsimp only
    generalize entry (lit "timestamp") event = v at htimestamp ⊢
    cases v with
    | str s => rw [Except.ok.inj htimestamp]
    | _ => cases htimestamp
  refine ⟨entries.map (·.timestamp), ?_, by rw [← hperiod]; rfl⟩
  change (entries.map ReportEntry.dump).map
    (fun item => entry (lit "timestamp") (entry (lit "event") item)) = _
  rw [List.map_map, List.map_map]
  exact List.map_congr_left fun e he => htimestamp e he

/-! ## Spellings that agree -/

/-- **Where spellings agree the period covers the events.** -/
theorem covers_of_agrees {S : Set Spelling} (hS : ∀ a ∈ S, ∀ b ∈ S, a.Agrees b) {ts : List Rfc3339}
    (hts : ∀ t ∈ ts, t.spelling ∈ S) {report : Items} (h : BuiltReport report)
    (hevents : eventTimestamps report = ts.map fun t => .str t.text) : Covers report ts := by
  intro t ht
  obtain ⟨timestamps, htimestamps, hperiod⟩ := lookup_period h
  obtain rfl : timestamps = ts.map text := by
    have hstr : (timestamps.map Val.str) = (ts.map text).map Val.str := by
      rw [← htimestamps, hevents, List.map_map]
      rfl
    exact List.map_injective_iff.mpr (fun s s' hs => Val.str.inj hs) hstr
  have hne : ts.map text ≠ [] := List.ne_nil_of_mem (List.mem_map_of_mem ht)
  obtain ⟨_, hleast, _, hgreatest, heq, hbounds⟩ := reportPeriod_eq hne
  obtain ⟨first, hfirst, rfl⟩ := List.mem_map.mp hleast
  obtain ⟨last, hlast, rfl⟩ := List.mem_map.mp hgreatest
  obtain ⟨hle, hle'⟩ := hbounds t.text (List.mem_map_of_mem ht)
  refine ⟨first, last, by rw [hperiod, heq], ?_, ?_⟩
  · by_contra hlt
    exact absurd (text_lt (hS _ (hts t ht) _ (hts first hfirst)) (not_le.mp hlt)) (not_lt.mpr hle)
  · by_contra hlt
    exact absurd (text_lt (hS _ (hts last hlast) _ (hts t ht)) (not_le.mp hlt)) (not_lt.mpr hle')

/-! ## Spellings that do not agree -/

/-- An earlier text that denotes a later instant. -/
def Inverted (t u : Rfc3339) : Prop := t.text < u.text ∧ u.instant < t.instant

/-- A report over two such timestamps starts after the one of the later text. -/
theorem not_covers {t u : Rfc3339} (h : Inverted t u) {report : Items} (hbuilt : BuiltReport report)
    (hevents : eventTimestamps report = [.str t.text, .str u.text]) : ¬Covers report [t, u] := by
  intro hcovers
  obtain ⟨timestamps, htimestamps, hperiod⟩ := lookup_period hbuilt
  obtain rfl : timestamps = [t.text, u.text] :=
    List.map_injective_iff.mpr (fun s s' hs => Val.str.inj hs) (htimestamps.symm.trans hevents)
  obtain ⟨first, last, hlookup, hle, -⟩ := hcovers u (List.mem_cons_of_mem _ List.mem_cons_self)
  rw [hperiod, Option.some.injEq, Val.dict.injEq] at hlookup
  obtain ⟨least, hleast, _, -, heq, hbounds⟩ :=
    @reportPeriod_eq [t.text, u.text] (List.cons_ne_nil _ _)
  rw [heq, List.cons.injEq, Prod.mk.injEq, Val.str.injEq] at hlookup
  have hfirst : first.text = t.text := by
    rw [← hlookup.1.2]
    refine le_antisymm (hbounds _ List.mem_cons_self).1 ?_
    rcases List.mem_cons.mp hleast with rfl | hmem
    · exact le_refl _
    · rw [List.mem_singleton.mp hmem]
      exact h.1.le
  rw [text_injective hfirst] at hle
  exact absurd h.2 (not_lt.mpr hle)

/-- A time in the first days of 2026, in a spelling with the given digits. -/
def timeAt (day : Fin 2) (hour : Fin 24) (minute : Fin 60) (second : Fin 60) (lower : Bool)
    (zone : Zone) (fraction : { f : Str // ∀ c ∈ f, Json.isDigit c = true }) : Rfc3339 where
  date := { year := 2026, month := 1, day := day + 1 }
  hour
  minute
  second
  fraction := fraction.1
  lower
  zone
  date_valid := by
    revert day
    decide
  year_range := (by decide : (0 : Int) ≤ 2026 ∧ (2026 : Int) < 10000)
  hour_lt := hour.isLt
  minute_lt := minute.isLt
  second_le := second.isLt.le
  fraction_digits := fraction.2

/-- A fraction of zeros. -/
def zeros (n : Nat) : { f : Str // ∀ c ∈ f, Json.isDigit c = true } :=
  ⟨List.replicate n (cp 48), Json.isDigit_zeros⟩

/-- A fraction of zeros before a one. -/
def zerosOne (n : Nat) : { f : Str // ∀ c ∈ f, Json.isDigit c = true } :=
  ⟨List.replicate n (cp 48) ++ [cp 49], fun c hc => by
    rcases List.mem_append.mp hc with hmem | hmem
    · exact Json.isDigit_zeros c hmem
    · rw [List.mem_singleton.mp hmem]
      decide⟩

/-- Zeros after the point denote zero. -/
theorem fracValue_zeros (n : Nat) : fracValue (zeros n).1 = 0 := by
  induction n with
  | zero => rfl
  | succ n ih =>
      change ((0 : Nat) + fracValue (zeros n).1) / 10 = 0
      rw [ih]
      norm_num

/-- A one after zeros denotes more. -/
theorem fracValue_zerosOne_pos (n : Nat) : 0 < fracValue (zerosOne n).1 := by
  induction n with
  | zero => exact (by norm_num : (0 : ℚ) < ((1 : Nat) + 0) / 10)
  | succ n ih =>
      change 0 < ((0 : Nat) + fracValue (zerosOne n).1) / 10
      rw [Nat.cast_zero, zero_add]
      linarith

/-- **Different offsets**: an earlier local time is a later instant. -/
theorem inverted_of_minutes {a b : Spelling} (h : a.zone.minutes < b.zone.minutes) :
    Inverted (timeAt 0 23 59 59 a.lower a.zone (zeros a.digits))
      (timeAt 1 0 0 0 b.lower b.zone (zeros b.digits)) := by
  have hday : Date.ordinal { year := 2026, month := 1, day := 1 } = 739617 ∧
      Date.ordinal { year := 2026, month := 1, day := 2 } = 739618 := by decide
  constructor
  · exact text_lt_of_date (Or.inr ⟨rfl, Or.inr ⟨rfl, (by decide : 0 + 1 < 1 + 1)⟩⟩)
  · rw [instant, instant, Prod.Lex.toLex_lt_toLex]
    change (739618 : ℤ) * 1440 + 0 * 60 + 0 - b.zone.minutes
        < 739617 * 1440 + 23 * 60 + 59 - a.zone.minutes ∨
      (739618 : ℤ) * 1440 + 0 * 60 + 0 - b.zone.minutes
        = 739617 * 1440 + 23 * 60 + 59 - a.zone.minutes ∧
      ((0 : Nat) : ℚ) + fracValue (zeros b.digits).1 < (59 : Nat) + fracValue (zeros a.digits).1
    rw [fracValue_zeros, fracValue_zeros]
    rcases Int.lt_or_eq_of_le (Int.add_one_le_iff.mpr h) with hlt | heq
    · exact Or.inl (by omega)
    · exact Or.inr ⟨by omega, by norm_num⟩

/-- **Different letters between date and time**: the letter decides before the time does. -/
theorem inverted_of_lower {a b : Spelling} (hminutes : a.zone.minutes = b.zone.minutes)
    (ha : a.lower = false) (hb : b.lower = true) :
    Inverted (timeAt 0 23 0 0 a.lower a.zone (zeros a.digits))
      (timeAt 0 0 0 0 b.lower b.zone (zeros b.digits)) := by
  constructor
  · rw [text, text, separator, separator]
    refine List.append_left_lt (List.cons_lt_cons_iff.mpr (Or.inl ?_))
    change (if a.lower then cp 116 else cp 84) < if b.lower then cp 116 else cp 84
    rw [ha, hb]
    decide
  · rw [instant, instant, Prod.Lex.toLex_lt_toLex]
    refine Or.inl ?_
    change (739617 : ℤ) * 1440 + 0 * 60 + 0 - b.zone.minutes
      < 739617 * 1440 + 23 * 60 + 0 - a.zone.minutes
    omega

/-- Digits and a point sort before a letter. -/
theorem lt_of_letter {z : Zone} (hz : z.IsLetter) {c : CodePoint} (hc : c.val < 58) (s : Str) :
    c :: s < z.text := by
  cases z with
  | utc lower =>
      refine List.cons_lt_cons_iff.mpr (Or.inl (show c.val < _ from ?_))
      exact hc.trans (by cases lower <;> decide)
  | offset negative hour minute => exact absurd hz id

/-- What follows the seconds, where the longer fraction has only one digit that is not zero. -/
theorem fraction_letter_lt {z : Zone} (hz : z.IsLetter) (n k : Nat) (z' : Zone) :
    fractionText (zerosOne (n + k)).1 ++ z'.text < fractionText (zeros n).1 ++ z.text := by
  have hone : ∀ m, ∃ d rest, (zerosOne m).1 = d :: rest ∧ d.val < 58 := by
    intro m
    cases m with
    | zero => exact ⟨_, _, rfl, by decide⟩
    | succ m => exact ⟨_, _, rfl, by decide⟩
  cases n with
  | zero =>
      obtain ⟨d, rest, hd, -⟩ := hone (0 + k)
      rw [hd]
      exact lt_of_letter hz (by decide) _
  | succ n =>
      -- the zeros of the shorter fraction are common to both
      have hsplit : (zerosOne (n + 1 + k)).1 = (zeros (n + 1)).1 ++ (zerosOne k).1 := by
        change List.replicate (n + 1 + k) (cp 48) ++ [cp 49]
          = List.replicate (n + 1) (cp 48) ++ (List.replicate k (cp 48) ++ [cp 49])
        rw [← List.append_assoc, List.replicate_append_replicate]
      obtain ⟨d, rest, hd, hsmall⟩ := hone k
      have hrest : (zeros (n + 1)).1 ++ ((zerosOne k).1 ++ z'.text) < (zeros (n + 1)).1 ++ z.text := by
        rw [hd]
        exact List.append_left_lt (lt_of_letter hz hsmall _)
      rw [← List.append_assoc, ← hsplit] at hrest
      obtain ⟨e, rest', he, -⟩ := hone (n + 1 + k)
      rw [he] at hrest ⊢
      exact List.cons_lt_cons_iff.mpr (Or.inr ⟨rfl, hrest⟩)

/-- **A letter after the shorter fraction** sorts after the digits of the longer one. -/
theorem inverted_of_digits {a b : Spelling} (hminutes : a.zone.minutes = b.zone.minutes)
    (hlower : a.lower = b.lower) (hletter : a.zone.IsLetter) (h : a.digits < b.digits) :
    Inverted (timeAt 0 0 0 0 b.lower b.zone (zerosOne (b.digits - 1)))
      (timeAt 0 0 0 0 a.lower a.zone (zeros a.digits)) := by
  constructor
  · rw [text, text, separator, separator]
    change triple _ _ _ _ _ ++ (if b.lower then cp 116 else cp 84) :: (triple _ _ _ _ _ ++ _)
      < triple _ _ _ _ _ ++ (if a.lower then cp 116 else cp 84) :: (triple _ _ _ _ _ ++ _)
    rw [hlower]
    refine List.append_left_lt (List.cons_lt_cons_iff.mpr (Or.inr ⟨rfl, List.append_left_lt ?_⟩))
    change fractionText (zerosOne (b.digits - 1)).1 ++ b.zone.text
      < fractionText (zeros a.digits).1 ++ a.zone.text
    rw [show b.digits - 1 = a.digits + (b.digits - 1 - a.digits) by omega]
    exact fraction_letter_lt hletter _ _ _
  · rw [instant, instant, Prod.Lex.toLex_lt_toLex]
    refine Or.inr ⟨congrArg (_ - ·) hminutes, ?_⟩
    change ((0 : Nat) : ℚ) + fracValue (zeros a.digits).1
      < (0 : Nat) + fracValue (zerosOne (b.digits - 1)).1
    rw [fracValue_zeros, Nat.cast_zero, zero_add, zero_add]
    exact fracValue_zerosOne_pos _

/-- The spelling of such a time. -/
theorem spelling_timeAt {day : Fin 2} {hour : Fin 24} {minute second : Fin 60} {a : Spelling}
    {f : { f : Str // ∀ c ∈ f, Json.isDigit c = true }} (h : f.1.length = a.digits) :
    (timeAt day hour minute second a.lower a.zone f).spelling = a := by
  rw [spelling]
  change Spelling.mk a.lower a.zone f.1.length = a
  rw [h]

/-- **Two spellings that do not agree** have an earlier text for a later instant. -/
theorem exists_inverted {S : Set Spelling} {a b : Spelling} (ha : a ∈ S) (hb : b ∈ S)
    (h : ¬a.Agrees b) : ∃ t u : Rfc3339, t.spelling ∈ S ∧ u.spelling ∈ S ∧ Inverted t u := by
  -- as many digits as the spelling has, all zeros or with a one at the end
  have hzeros : ∀ n, (zeros n).1.length = n := fun n => List.length_replicate
  have hone : ∀ n, 0 < n → (zerosOne (n - 1)).1.length = n := by
    intro n hn
    change (List.replicate (n - 1) (cp 48) ++ [cp 49]).length = n
    rw [List.length_append, List.length_replicate, List.length_singleton]
    omega
  have hmem : ∀ {day hour minute second} {c : Spelling} {f}, c ∈ S → f.1.length = c.digits →
      (timeAt day hour minute second c.lower c.zone f).spelling ∈ S := fun hc hf => by
    rwa [spelling_timeAt hf]
  rcases lt_trichotomy a.zone.minutes b.zone.minutes with hlt | heq | hgt
  -- other offsets: the clock that is ahead shows the later text for the earlier instant
  · exact ⟨_, _, hmem ha (hzeros _), hmem hb (hzeros _), inverted_of_minutes hlt⟩
  · by_cases hlower : a.lower = b.lower
    -- one offset and one case, so the letter comes after a shorter fraction
    · by_cases hleft : a.zone.IsLetter ∧ a.digits < b.digits
      · exact ⟨_, _, hmem hb (hone _ (by omega)), hmem ha (hzeros _),
          inverted_of_digits heq hlower hleft.1 hleft.2⟩
      · have hright : b.zone.IsLetter ∧ b.digits < a.digits := by
          by_contra hright
          rw [not_and, not_lt] at hleft hright
          exact h ⟨hlower, heq, hleft, hright⟩
        exact ⟨_, _, hmem ha (hone _ (by omega)), hmem hb (hzeros _),
          inverted_of_digits heq.symm (Eq.symm hlower) hright.1 hright.2⟩
    -- one offset, but capital and small letters
    · cases hal : a.lower
      · have hbl : b.lower = true := by simpa [hal] using hlower
        exact ⟨_, _, hmem ha (hzeros _), hmem hb (hzeros _), inverted_of_lower heq hal hbl⟩
      · have hbl : b.lower = false := by simpa [hal] using hlower
        exact ⟨_, _, hmem hb (hzeros _), hmem ha (hzeros _), inverted_of_lower heq.symm hbl hal⟩
  · exact ⟨_, _, hmem hb (hzeros _), hmem ha (hzeros _), inverted_of_minutes hgt⟩

/-! ## Reports over two timestamps -/

/-- A decision of policy at a time. -/
def policyDecision (timestamp : Str) : ComplianceEvent where
  content := .ok [(lit "schema_version", .str (lit "1.0.0")),
    (lit "timestamp", .str timestamp), (lit "kind", .str (lit "policy_decision")),
    (lit "actor", .dict [(lit "agent_id", .str (lit "agent-1"))]), (lit "provenance", .dict []),
    (lit "attributes", .dict []), (lit "labels", .dict []),
    (lit "source", .dict [(lit "format", .str (lit "policy-opa"))])]
  content_keys := by
    intro kvs hkvs kv hkv
    rw [← Except.ok.inj hkvs] at hkv
    simp only [List.mem_cons, List.not_mem_nil, or_false] at hkv
    rcases hkv with rfl | rfl | rfl | rfl | rfl | rfl | rfl | rfl <;>
      exact ⟨by simp only; decide, by simp only; decide⟩

/-- The entries of a decision of policy. -/
def policyItems (timestamp : Str) : Items :=
  (policyDecision timestamp).content.toOption.getD []

/-- A decision of policy has no surrogates. -/
theorem encodable_policyItems {timestamp : Str} (h : Scalar timestamp) :
    EncodableItems (policyItems timestamp) := by
  simp [policyItems, policyDecision, Except.toOption, EncodableItems, Canonical.Encodable, h]

/-- The record of a decision of policy. -/
def policyRecord (timestamp : Str) (p : Ledger.Prepared) (i : Nat) : Val :=
  .dict ((lit "event_id", .str p.event.eventId) :: policyItems timestamp
    ++ [(lit "ledger", (Ledger.ledgerFields p i).dump)])

/-- A decision of policy is committed. -/
theorem commit_policyDecision {l : Ledger (List Val)} (hretention : l.retention = none)
    {timestamp committedAt : Str} (htimestamp : Scalar timestamp) (hcommitted : Scalar committedAt) :
    ∃ p : Ledger.Prepared, p.Encodable ∧
      Ledger.step inMemoryLedgerBackend l (.commit (policyDecision timestamp) (.ok committedAt))
        = { l with
            store := l.store ++ [policyRecord timestamp p l.store.length]
            leaves := l.leaves ++ [p.leaf]
            tree := l.tree.append p.leaf } := by
  have hcontent : (policyDecision timestamp).content = .ok (policyItems timestamp) := rfl
  obtain ⟨p, hp, hcontent', hcommit⟩ := Ledger.exists_commit hretention hcontent
    (encodable_policyItems htimestamp) hcommitted
  refine ⟨p, hp, ?_⟩
  rw [Ledger.step, hcommit, Ledger.commitLocked_inMemory hcontent']
  rfl

/-- The entry of a decision of policy is read. -/
theorem exists_policyEntry {l : Ledger (List Val)} {timestamp : Str} {p : Ledger.Prepared}
    {i n : Nat} (htimestamp : Scalar timestamp)
    (hstore : l.store[i]? = some (policyRecord timestamp p i)) (hi : i < n)
    (hn : n ≤ l.leaves.length) (hp : p.Encodable) :
    ∃ e, l.reportEntry inMemoryLedgerBackend sampleReload n i = .ok e ∧ e.Encodable ∧
      e.event = policyRecord timestamp p i := by
  have hevent : l.getEvent inMemoryLedgerBackend sampleReload i = .ok (policyRecord timestamp p i) := by
    rw [Ledger.getEvent]
    dsimp only [inMemoryLedgerBackend, id]
    rw [hstore]
    dsimp only
    rw [sampleReload, policyRecord, Ledger.ledgerFields]
    cases p.retentionUntil with
    | none => rfl
    | some t => rfl
  obtain ⟨proof, hentry⟩ := @Ledger.exists_reportEntry _ _ _ _ _ _ _ timestamp (lit "agent-1")
    hevent rfl rfl hi hn
  refine ⟨_, hentry, ⟨?_, fun s hs => ?_, htimestamp, scalar_lit _⟩, rfl⟩
  -- the record with its ledger block is text and numbers
  · refine encodableItems_iff.mpr (List.forall_mem_append.mpr ⟨?_, ?_⟩)
    · exact List.forall_mem_cons.mpr ⟨⟨scalar_lit _, hp.eventId⟩,
        encodableItems_iff.mp (encodable_policyItems htimestamp)⟩
    · exact List.forall_mem_singleton.mpr ⟨scalar_lit _, hp.ledgerFields i⟩
  · obtain ⟨b, -, rfl⟩ := List.mem_map.mp hs
    exact scalar_hex b

/-- The result of a crosswalk without controls. -/
def noControls : CrosswalkResult where
  crosswalkId := lit "demo"
  crosswalkTitle := lit "Demo"
  crosswalkVersion := lit "1.0.0"
  source := lit "internal policy"
  reviewedAsOf := lit "2026-01-01"
  controls := []

/-- A report on two decisions of policy is built. -/
theorem exists_policyReport {l : Ledger (List Val)} {t u : Str} {p q : Ledger.Prepared}
    (ht : Scalar t) (hu : Scalar u) (hstore : l.store = [policyRecord t p 0, policyRecord u q 1])
    (hleaves : l.leaves.length = 2) (horigin : Scalar l.origin) (hp : p.Encodable) (hq : q.Encodable)
    {key : KeySource} (hkey : key.publicKeyRaw = Signing.sampleKey)
    (hsign : ∀ data, ∃ signature, key.sign data = .ok signature) :
    ∃ report, buildReport inMemoryLedgerBackend sampleReload l noControls key sampleOptions sampleEnv
        = .ok report ∧ eventTimestamps report = [.str t, .str u] := by
  obtain ⟨c, hc, hsize, hcheckpoint⟩ := Ledger.exists_checkpoint horigin
    (scalar_lit "2026-01-01T00:00:00Z") hsign
  obtain ⟨e, he, hencodable, hevent⟩ := @exists_policyEntry l t p 0 2 ht (by rw [hstore]; rfl)
    (by decide) hleaves.ge hp
  obtain ⟨f, hf, hencodable', hevent'⟩ := @exists_policyEntry l u q 1 2 hu (by rw [hstore]; rfl)
    (by decide) hleaves.ge hq
  -- the two decisions are the entries of the report
  have hentries : (List.range c.treeSize.toNat).mapM
      (l.reportEntry inMemoryLedgerBackend sampleReload c.treeSize) = .ok [e, f] := by
    rw [hsize, hleaves]
    exact mapM_eq_ok.mpr (.cons he (.cons hf .nil))
  -- neither is a gap marker
  have hgaps : select (fun e : ReportEntry => isGapMarker e.event) [e, f] = .ok [] := by
    rw [select, hevent, select, hevent']
    rfl
  have hboth : ∀ e' ∈ [e, f], e'.Encodable :=
    List.forall_mem_cons.mpr ⟨hencodable, List.forall_mem_singleton.mpr hencodable'⟩
  obtain ⟨payload, hpayload⟩ : ∃ payload, signingPayload (unsignedReport noControls sampleOptions
      (lit "rpt_1") (lit "2026-01-01T00:00:00Z") samplePem c [e, f] []) = .ok payload := by
    refine exists_signingPayload ?_ (fun r hr => absurd hr List.not_mem_nil) ?_ (scalar_lit _)
      (scalar_lit _) ?_ hcheckpoint hboth fun g hg => absurd hg List.not_mem_nil
    · simp [CrosswalkResult.block, noControls, Canonical.Encodable, EncodableItems, optStr]
    · refine ⟨scalar_lit _, fun ids hids => ?_, fun kvs hkvs => ?_⟩
      · cases hids
      · cases hkvs
    · simp [samplePem]
  obtain ⟨signature, hsignature⟩ := hsign payload
  refine ⟨_, buildReport_of rfl hc hentries (assembleReport_of hgaps rfl ?_ hpayload hsignature), ?_⟩
  -- what the report lists as timestamps are theirs
  · rw [hkey]
    exact publicKeyPem_sampleKey
  · change [entry (lit "timestamp") e.event, entry (lit "timestamp") f.event] = _
    rw [hevent, hevent']
    rfl

/-- A ledger with two decisions of policy. -/
def twoDecisions (t u : Rfc3339) : Ledger (List Val) :=
  Ledger.run inMemoryLedgerBackend sampleNew
    [.commit (policyDecision t.text) (.ok (lit "2026-01-01T02:00:00Z")),
      .commit (policyDecision u.text) (.ok (lit "2026-01-01T02:00:00Z"))]

/-- Both decisions are committed. -/
theorem exists_twoDecisions (t u : Rfc3339) : ∃ p q : Ledger.Prepared, p.Encodable ∧ q.Encodable ∧
    twoDecisions t u = { sampleNew with
      store := [policyRecord t.text p 0, policyRecord u.text q 1]
      leaves := [p.leaf, q.leaf]
      tree := (sampleNew.tree.append p.leaf).append q.leaf } := by
  obtain ⟨p, hp, hfirst⟩ := commit_policyDecision (rfl : sampleNew.retention = none)
    (scalar_of_ascii t.ascii_text) (scalar_lit "2026-01-01T02:00:00Z")
  obtain ⟨q, hq, hsecond⟩ := @commit_policyDecision { sampleNew with
      store := [policyRecord t.text p 0]
      leaves := [p.leaf]
      tree := sampleNew.tree.append p.leaf } rfl _ _ (scalar_of_ascii u.ascii_text)
    (scalar_lit "2026-01-01T02:00:00Z")
  refine ⟨p, q, hp, hq, ?_⟩
  rw [twoDecisions, Ledger.run, List.foldl_cons, hfirst, List.foldl_cons, List.foldl_nil]
  exact hsecond

/-- **A report over any two timestamps is built.** -/
theorem exists_builtReport (t u : Rfc3339) : ∃ report, BuiltReport report ∧
    eventTimestamps report = [.str t.text, .str u.text] := by
  obtain ⟨p, q, hp, hq, htwo⟩ := exists_twoDecisions t u
  obtain ⟨report, hreport, hevents⟩ := @exists_policyReport (twoDecisions t u) t.text u.text p q
    (scalar_of_ascii t.ascii_text) (scalar_of_ascii u.ascii_text) (by rw [htwo]) (by rw [htwo]; rfl)
    (by rw [htwo]; exact scalar_lit "openwright") hp hq
    { sign := fun _ => .ok (List.replicate 64 0), publicKeyRaw := Signing.sampleKey } rfl
    fun data => ⟨_, rfl⟩
  exact ⟨report, ⟨_, _, _, _, _, _, sampleOptions, _, rfl, hreport⟩, hevents⟩

/-! ## The condition -/

/-- **When the period covers the events.** Let the timestamps of the events have some spellings. If any
two of these agree, the period of every report over such events covers them; and if two do not agree
there are two such timestamps that a report is built over, and the period of no report over events with
them covers. -/
theorem period_covers_iff (S : Set Spelling) :
    ((∀ a ∈ S, ∀ b ∈ S, a.Agrees b) → ∀ ts : List Rfc3339, (∀ t ∈ ts, t.spelling ∈ S) →
      ∀ report, BuiltReport report → eventTimestamps report = ts.map (fun t => .str t.text) →
        Covers report ts) ∧
    (¬(∀ a ∈ S, ∀ b ∈ S, a.Agrees b) → ∃ ts : List Rfc3339, (∀ t ∈ ts, t.spelling ∈ S) ∧
      (∃ report, BuiltReport report ∧ eventTimestamps report = ts.map (fun t => .str t.text)) ∧
      ∀ report, BuiltReport report → eventTimestamps report = ts.map (fun t => .str t.text) →
        ¬Covers report ts) := by
  refine ⟨fun hS ts hts report h hevents => covers_of_agrees hS hts h hevents, fun hS => ?_⟩
  push Not at hS
  obtain ⟨a, ha, b, hb, hab⟩ := hS
  obtain ⟨t, u, ht, hu, hinverted⟩ := exists_inverted ha hb hab
  refine ⟨[t, u], ?_, exists_builtReport t u, fun report h hevents => not_covers hinverted h hevents⟩
  exact List.forall_mem_cons.mpr ⟨ht, List.forall_mem_singleton.mpr hu⟩

/-- A quarter of a second after midnight, with a letter for UTC. -/
def utcQuarter : Rfc3339 :=
  timeAt 0 0 0 0 false (.utc false)
    ⟨[cp 50, cp 53], List.forall_mem_cons.mpr ⟨rfl, List.forall_mem_singleton.mpr rfl⟩⟩

/-- An hour later, with a numeric offset. -/
def offsetHour : Rfc3339 := timeAt 0 1 0 0 false (.offset false 0 0) (zeros 0)

/-- Two spellings that agree: of the two timestamps the one with a letter has the longer fraction. -/
theorem period_covers_offsets : ∃ report, BuiltReport report ∧
    eventTimestamps report
      = [.str (lit "2026-01-01T00:00:00.25Z"), .str (lit "2026-01-01T01:00:00+00:00")] ∧
    Covers report [utcQuarter, offsetHour] := by
  obtain ⟨report, hbuilt, hevents⟩ := exists_builtReport utcQuarter offsetHour
  have htexts : [Val.str utcQuarter.text, .str offsetHour.text]
      = [.str (lit "2026-01-01T00:00:00.25Z"), .str (lit "2026-01-01T01:00:00+00:00")] := by
    decide +kernel
  refine ⟨report, hbuilt, hevents.trans htexts, ?_⟩
  have hself : ∀ a : Spelling, a.Agrees a := fun a => ⟨rfl, rfl, fun _ => le_refl _, fun _ => le_refl _⟩
  have hagree : utcQuarter.spelling.Agrees offsetHour.spelling :=
    ⟨rfl, rfl, fun _ => Nat.zero_le 2, fun h => absurd h id⟩
  have hagree' : offsetHour.spelling.Agrees utcQuarter.spelling :=
    ⟨rfl, rfl, fun h => absurd h id, fun _ => Nat.zero_le 2⟩
  refine (period_covers_iff {utcQuarter.spelling, offsetHour.spelling}).1 ?_ _ ?_ report hbuilt hevents
  · rintro a (rfl | rfl) b (rfl | rfl)
    · exact hself _
    · exact hagree
    · exact hagree'
    · exact hself _
  · exact List.forall_mem_cons.mpr ⟨Or.inl rfl, List.forall_mem_singleton.mpr (Or.inr rfl)⟩

/-! ## A report that does not cover an event -/

/-- Midnight UTC. -/
def utcMidnight : Rfc3339 := timeAt 0 0 0 0 false (.utc false) (zeros 0)

/-- A local time of an hour later that is two hours ahead of UTC. -/
def easternHour : Rfc3339 := timeAt 0 1 0 0 false (.offset false 2 0) (zeros 0)

example : utcMidnight.text = lit "2026-01-01T00:00:00Z" ∧
    easternHour.text = lit "2026-01-01T01:00:00+02:00" := by decide +kernel

/-- **The period starts an hour after an event of the report.** -/
theorem period_not_covers : ∃ report, BuiltReport report ∧
    eventTimestamps report = [.str utcMidnight.text, .str easternHour.text] ∧
    ¬Covers report [utcMidnight, easternHour] := by
  obtain ⟨report, hbuilt, hevents⟩ := exists_builtReport utcMidnight easternHour
  refine ⟨report, hbuilt, hevents, not_covers ⟨?_, ?_⟩ hbuilt hevents⟩
  · decide +kernel
  · rw [instant, instant, Prod.Lex.toLex_lt_toLex]
    exact Or.inl (by decide +kernel)

end OpenWright
