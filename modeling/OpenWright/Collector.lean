import OpenWright.Committed
import OpenWright.Normalize
import OpenWright.PipelineFlush

/-! # The log of a collector

A collector runs an evidence pipeline against a ledger: what normalization and the ledger answer is not
open any more, as it is to the pipeline alone.

* **`run_logged`** — in every run the ledger holds, after what it held, the event of each processed span,
  made with what the spans before it had shown, and the marker of each gap that is declared, in the
  order in which they were committed, and nothing else. -/

namespace OpenWright

open Python Python.Val Adapters EvidencePipeline

namespace EvidencePipeline

variable {T : Type}

/-- The span that is being committed. -/
def Worker.committing? : Worker → Option SpanData
  | .committing span _ => some span
  | _ => none

/-- A refill changes nothing that is being committed. -/
@[simp] theorem Worker.committing?_setRefill (r : Refill) (w : Worker) :
    (w.setRefill r).committing? = w.committing? := by
  cases w <;> rfl

/-- Nor does the end of it, -/
@[simp] theorem Worker.committing?_refilled (w : Worker) : w.refilled.committing? = w.committing? := by
  cases w with
  | finalRefill exiting refill => cases exiting <;> rfl
  | _ => rfl

/-- nor an exception, -/
@[simp] theorem Worker.committing?_raised (e : PyErr) (w : Worker) :
    (w.raised e).committing? = w.committing? := by
  cases w <;> rfl

/-- nor the end of an emission. -/
@[simp] theorem Worker.committing?_emitted (w : Worker) : w.emitted.committing? = w.committing? := by
  cases w <;> rfl

/-- A step in which nothing is normalized and nothing is committed. -/
def Op.Apart : Op T → Prop
  | .normalize _ | .commit _ | .emitCommit _ => False
  | _ => True

/-- What such a step leaves as it is. -/
structure SameLog (s t : EvidencePipeline T) : Prop where
  processed : t.processed = s.processed
  unnormalized : t.unnormalized = s.unnormalized
  uncommitted : t.uncommitted = s.uncommitted
  markers : t.drops.markers = s.drops.markers
  committing : t.worker.committing? = s.worker.committing?

/-- A state has the log that it has. -/
theorem SameLog.refl (s : EvidencePipeline T) : SameLog s s := ⟨rfl, rfl, rfl, rfl, rfl⟩

/-- Moving a thread on, which is not committing. -/
theorem onThread_sameLog (s : EvidencePipeline T) (o : Thread) {f : Worker → Worker}
    (hf : ∀ w, (f w).committing? = w.committing?) (g : Flusher → Flusher) :
    SameLog s (s.onThread o f g) := by
  cases o with
  | worker => exact ⟨rfl, rfl, rfl, rfl, hf s.worker⟩
  | flusher k => exact ⟨rfl, rfl, rfl, rfl, rfl⟩

/-- A step that makes no marker. -/
def Unmarked : Drops.Step T → Prop
  | .commit _ | .restart => False
  | _ => True

/-- Only committing a marker makes one. -/
theorem markers_step (s : Drops T) {op : Drops.Step T} (hop : Unmarked op) :
    (s.step op).markers = s.markers := by
  cases op with
  | commit | restart => exact hop.elim
  | clock | drop | snapshot | settle =>
      simp only [Drops.step]
      repeat' split
      all_goals rfl

/-- **A step that is apart leaves the log as it is.** -/
theorem step_sameLog (s : EvidencePipeline T) {op : Op T} (hop : op.Apart) : SameLog s (s.step op) := by
  cases op with
  -- these three write the log
  | normalize | commit | emitCommit => exact hop.elim
  | refill o fault =>
      have hstep := refillFromSpill_step s o fault
      simp only [step]
      -- a step of a refill moves spans between the spill file and the queue, and the thread that
      -- drains
      generalize s.refillFromSpill o fault = t at hstep ⊢
      cases hstep with
      | stay => exact .refl s
      | absent => exact onThread_sameLog s o Worker.committing?_refilled _
      | @raised _ _ e =>
          have hthread := onThread_sameLog s o (Worker.committing?_raised e) (Flusher.failed e)
          exact ⟨hthread.processed, hthread.unnormalized, hthread.uncommitted, hthread.markers,
            hthread.committing⟩
      | opened =>
          have hthread := onThread_sameLog s o (Worker.committing?_setRefill .draining)
            (Flusher.setRefill .draining)
          exact ⟨hthread.processed, hthread.unnormalized, hthread.uncommitted, hthread.markers,
            hthread.committing⟩
      | ended => exact onThread_sameLog s o (Worker.committing?_setRefill .truncating) _
      | truncated =>
          have hthread := onThread_sameLog s o (Worker.committing?_setRefill .saving)
            (Flusher.setRefill .saving)
          exact ⟨hthread.processed, hthread.unnormalized, hthread.uncommitted, hthread.markers,
            hthread.committing⟩
      | skipped | accepted => exact ⟨rfl, rfl, rfl, rfl, rfl⟩
      | saved =>
          have hthread := onThread_sameLog s o Worker.committing?_refilled Flusher.refilled
          exact ⟨hthread.processed, hthread.unnormalized, hthread.uncommitted, hthread.markers,
            hthread.committing⟩
  | emitStart o =>
      simp only [step, emitStart]
      split_ifs with hemits hnone
      · exact onThread_sameLog s o Worker.committing?_emitted _
      -- a marker is on its way, but not committed yet
      · exact ⟨rfl, rfl, rfl, markers_step s.drops trivial, rfl⟩
      · exact .refl s
  | emitSettle saved =>
      simp only [step, emitSettle]
      split
      · rename_i o _ _ _ _ _
        have hthread := onThread_sameLog s o Worker.committing?_emitted Flusher.emitted
        exact ⟨hthread.processed, hthread.unnormalized, hthread.uncommitted,
          markers_step s.drops trivial, hthread.committing⟩
      · exact .refl s
  | drop k saved =>
      simp only [step, drop]
      split
      -- reading the clock and recording the drop, neither of which is a marker
      · refine ⟨rfl, rfl, rfl, ?_, rfl⟩
        simp only [Drops.run, List.foldl_cons, List.foldl_nil]
        refine (markers_step _ ?_).trans (markers_step _ ?_)
        all_goals trivial
      · exact .refl s
  -- the other steps change the queue, the locks and the threads only
  | _ =>
      simp only [step, submit, put, spillOver, clock, get, timeout, taskDone, flush, join, check, stop]
      repeat' split
      all_goals first
        | exact .refl s
        | exact ⟨rfl, rfl, rfl, rfl, rfl⟩
        | exact ⟨rfl, rfl, rfl, rfl, by simp only [*, Worker.committing?]⟩

end EvidencePipeline

/-! ## Collectors -/

/-- `EvidencePipeline` with `_known`, with the `event` of its worker, and with its ledger. -/
structure Collector (σ : Type) where
  pipeline : EvidencePipeline Str
  known : Known := []
  event : Option Event := none
  ledger : Ledger σ

/-- The attributes of a marker. -/
def gapAttributes (marker : GapMarker Str) : Attributes where
  items := [(lit "marker", .str (lit "evidence_gap")), (lit "dropped_events", .int marker.droppedEvents),
    (lit "window_start", (marker.window.first.map Val.str).getD .null),
    (lit "window_end", (marker.window.last.map Val.str).getD .null)]
  noFloats := by
    obtain ⟨n, ⟨first, last⟩, times⟩ := marker
    cases first <;> cases last <;> rfl

/-- The marker that `_emit_drop_marker_if_pending` makes. -/
def Adapters.Normalizer.gapEvent (N : Normalizer) (marker : GapMarker Str) (timestamp : Str) : Event where
  timestamp
  kind := .generic
  actor := { agentId := (N.agentId.filter (· ≠ [])).getD (lit "openwright-collector") }
  attributes := gapAttributes marker
  source := { format := lit "openwright" }

namespace Collector

variable {σ : Type} (B : LedgerBackend σ) (N : Normalizer)

/-- What a thread does next, with what its environment shows it; normalization and the ledger answer for
themselves. -/
inductive Op
  | other (op : EvidencePipeline.Op Str) (apart : op.Apart)
  | normalize (clock : Except PyErr Str)
  | commit (clock : Except PyErr Str)
  | emitCommit (timestamp : Str) (clock : Except PyErr Str)

/-- One step; a step that no thread can take changes nothing. -/
def step (c : Collector σ) : Op → Collector σ
  | .other op _ => { c with pipeline := c.pipeline.step op }
  | .normalize clock =>
    match c.pipeline.worker with
    | .normalizing span =>
      match N.normalize c.known span clock with
      -- the table of tasks is the worker's own, so it is written here
      | .ok (event, known) => { c with pipeline := c.pipeline.normalize true, known, event := some event }
      | .error _ => { c with pipeline := c.pipeline.normalize false }
    | _ => c
  | .commit clock =>
    match c.pipeline.worker, c.event with
    | .committing _ _, some event =>
      -- the ledger is the same object before and after, whatever the call gives
      match Ledger.commit B c.ledger event.toEvent clock with
      | (.ok _, ledger) => { c with pipeline := c.pipeline.commit true, ledger }
      | (.error _, ledger) => { c with pipeline := c.pipeline.commit false, ledger }
    | _, _ => c
  | .emitCommit timestamp clock =>
    match c.pipeline.emitLock, c.pipeline.drops.emission with
    -- only the thread that holds the lock commits the marker it has read
    | some _, some { n, window, times, committed := false } =>
      match Ledger.commit B c.ledger (N.gapEvent ⟨n, window, times⟩ timestamp).toEvent clock with
      | (.ok _, ledger) => { c with pipeline := c.pipeline.emitCommit true, ledger }
      | (.error _, ledger) => { c with pipeline := c.pipeline.emitCommit false, ledger }
    | _, _ => c

/-- The steps in order. -/
def run (c : Collector σ) (ops : List Op) : Collector σ := ops.foldl (step B N) c

/-! ## The log -/

/-- What is committed to the log. -/
inductive Entry
  | span (span : SpanData) (event : Event)
  | gap (marker : GapMarker Str) (timestamp : Str)

/-- Its event. -/
def Entry.event : Entry → Event
  | .span _ event => event
  | .gap marker timestamp => N.gapEvent marker timestamp

/-- The span and its event. -/
def Entry.item? : Entry → Option (SpanData × Event)
  | .span s event => some (s, event)
  | .gap _ _ => none

/-- The marker. -/
def Entry.marker? : Entry → Option (GapMarker Str)
  | .span _ _ => none
  | .gap marker _ => some marker

/-- The spans of a log and their events. -/
def itemsOf (log : List (Entry × Val)) : List (SpanData × Event) := log.filterMap fun e => e.1.item?

/-- The markers of a log. -/
def markersOf (log : List (Entry × Val)) : List (GapMarker Str) := log.filterMap fun e => e.1.marker?

/-- The event on its way to the ledger, with its span. -/
def making (c : Collector σ) : List (SpanData × Event) :=
  match c.pipeline.worker.committing?, c.event with
  | some span, some event => [(span, event)]
  | _, _ => []

/-- What the ledger `l₀` has come to hold: `spans` are those that were normalized, or could not be, with
what the clock showed, and `log` are the entries, each with its record. -/
structure Logged (l₀ : Ledger σ) (markers₀ : List (GapMarker Str)) (c : Collector σ)
    (spans : List (SpanData × Except PyErr Str)) (log : List (Entry × Val)) : Prop where
  /-- The ledger has the records of the entries, and nothing else. -/
  records : B.records c.ledger.store = B.records l₀.store ++ log.map Prod.snd
  /-- Each record is that of its event. -/
  recorded : ∀ e ∈ log, RecordOf (e.1.event N).toEvent e.2
  /-- The events are those that normalizing the spans in their order gives. -/
  events : (itemsOf log ++ c.making).Sublist (N.normalizeAll [] spans)
  /-- They are those of the processed spans. -/
  processed : c.pipeline.processed = (itemsOf log).map Prod.fst
  /-- The markers are those that were emitted. -/
  markers : c.pipeline.drops.markers = markers₀ ++ markersOf log
  /-- Each span is normalized or counted. -/
  taken : (spans.map Prod.fst).Perm ((N.normalizeAll [] spans).map Prod.fst ++ c.pipeline.unnormalized)
  /-- Each event is in the log, on its way there, or counted. -/
  made : ((N.normalizeAll [] spans).map Prod.fst).Perm
    ((itemsOf log ++ c.making).map Prod.fst ++ c.pipeline.uncommitted)
  /-- What is known is what the events say. -/
  known : c.known = (N.normalizeAll [] spans).foldl (noteItem N.interpreter) []
  /-- A span that is being committed has its event. -/
  event : ∀ span, c.pipeline.worker.committing? = some span → c.event.isSome
  inv : Ledger.Inv B l₀ → Ledger.Inv B c.ledger

/-! ## What a step adds -/

section Steps

variable {B N} {l₀ : Ledger σ} {markers₀ : List (GapMarker Str)} {c : Collector σ}
  {spans : List (SpanData × Except PyErr Str)} {log : List (Entry × Val)}

/-- Two lists behind a third one may change places. -/
theorem perm_append_swap {α : Type} (xs ys zs : List α) : (xs ++ ys ++ zs).Perm (xs ++ zs ++ ys) := by
  rw [List.append_assoc, List.append_assoc]
  exact List.perm_append_comm.append_left xs

/-- One more span is normalized with what the events before it say. -/
theorem normalizeAll_concat (known : Known) (spans : List (SpanData × Except PyErr Str)) (span : SpanData)
    (clock : Except PyErr Str) :
    N.normalizeAll known (spans ++ [(span, clock)]) = N.normalizeAll known spans ++
      match N.normalize
        ((N.normalizeAll known spans).foldl (noteItem N.interpreter) known) span clock with
      | .ok (event, _) => [(span, event)]
      | .error _ => [] := by
  induction spans generalizing known with
  | nil =>
      rw [List.nil_append, Normalizer.normalizeAll, Normalizer.normalizeAll, List.foldl_nil,
        List.nil_append]
      cases N.normalize known span clock with
      | error err => rfl
      | ok result => rfl
  | cons input spans ih =>
      rw [List.cons_append, Normalizer.normalizeAll, Normalizer.normalizeAll]
      cases hnormalize : N.normalize known input.1 input.2 with
      | error err => exact ih known
      | ok result =>
          obtain ⟨event, known'⟩ := result
          obtain ⟨rfl, -⟩ := @normalize_signals N known known' (input.1, event) input.2 hnormalize
          simp only [List.foldl_cons, List.cons_append]
          rw [ih]

/-- **A step of the pipeline alone adds nothing.** -/
theorem Logged.sameLog (h : Logged B N l₀ markers₀ c spans log) {p : EvidencePipeline Str}
    (hp : SameLog c.pipeline p) : Logged B N l₀ markers₀ { c with pipeline := p } spans log := by
  have hmaking : Collector.making { c with pipeline := p } = c.making := by
    rw [making, making, hp.committing]
  refine ⟨h.records, h.recorded, ?_, ?_, ?_, ?_, ?_, h.known, ?_, h.inv⟩
  · rw [hmaking]
    exact h.events
  · exact hp.processed.trans h.processed
  · exact hp.markers.trans h.markers
  · dsimp only
    rw [hp.unnormalized]
    exact h.taken
  · dsimp only
    rw [hmaking, hp.uncommitted]
    exact h.made
  · intro span hspan
    exact h.event span (hp.committing ▸ hspan)

/-- Nothing is being made while a span is normalized. -/
theorem making_of_normalizing {span : SpanData} (hworker : c.pipeline.worker = .normalizing span) :
    c.making = [] := by
  rw [making, hworker]
  rfl

/-- What is made of a span that is being committed. -/
theorem making_of_committing {span : SpanData} {attempt : Nat} {event : Event}
    (hworker : c.pipeline.worker = .committing span attempt) (hevent : c.event = some event) :
    c.making = [(span, event)] := by
  rw [making, hworker, hevent]
  rfl

/-- A span is normalized: its event is on its way to the ledger. -/
theorem Logged.normalized (h : Logged B N l₀ markers₀ c spans log) {span : SpanData} {event : Event}
    {known : Known} {clock : Except PyErr Str} (hworker : c.pipeline.worker = .normalizing span)
    (hnormalize : N.normalize c.known span clock = .ok (event, known)) :
    Logged B N l₀ markers₀ { c with
      pipeline := c.pipeline.normalize true, known, event := some event } (spans ++ [(span, clock)])
      log := by
  -- nothing was on its way, and now the event is
  have hall := @normalizeAll_concat N [] spans span clock
  rw [← h.known, hnormalize] at hall
  have hmade := h.made
  have hevents := h.events
  rw [making_of_normalizing hworker, List.append_nil] at hevents hmade
  have hp : c.pipeline.normalize true = { c.pipeline with worker := .committing span 0 } := by
    rw [EvidencePipeline.normalize, hworker]
    rfl
  have hmaking : Collector.making { c with
      pipeline := c.pipeline.normalize true, known, event := some event } = [(span, event)] := by
    rw [hp]
    rfl
  refine ⟨h.records, h.recorded, ?_, ?_, ?_, ?_, ?_, ?_, fun _ _ => rfl, h.inv⟩
  · rw [hmaking, hall]
    exact hevents.append (List.Sublist.refl _)
  · dsimp only
    rw [hp]
    exact h.processed
  · dsimp only
    rw [hp]
    exact h.markers
  -- the span goes from the normalizing worker to the normalized ones
  · dsimp only
    rw [hp, hall, List.map_append, List.map_append]
    exact (h.taken.append_right _).trans (perm_append_swap _ _ _)
  · dsimp only
    rw [hmaking, hp, hall, List.map_append, List.map_append]
    exact (hmade.append_right _).trans (perm_append_swap _ _ _)
  · rw [hall, List.foldl_append, ← h.known]
    exact (@normalize_signals N c.known known (span, event) clock hnormalize).1

/-- A span cannot be normalized: it is counted. -/
theorem Logged.notNormalized (h : Logged B N l₀ markers₀ c spans log) {span : SpanData} {err : PyErr}
    {clock : Except PyErr Str} (hworker : c.pipeline.worker = .normalizing span)
    (hnormalize : N.normalize c.known span clock = .error err) :
    Logged B N l₀ markers₀ { c with pipeline := c.pipeline.normalize false } (spans ++ [(span, clock)])
      log := by
  -- the span gives no event, so neither the events nor what is on its way grow
  have hall := @normalizeAll_concat N [] spans span clock
  rw [← h.known, hnormalize, List.append_nil] at hall
  have hmade := h.made
  have hevents := h.events
  rw [making_of_normalizing hworker, List.append_nil] at hevents hmade
  have hp : c.pipeline.normalize false = { c.pipeline with
      unnormalized := c.pipeline.unnormalized ++ [span], worker := .taskDone false } := by
    rw [EvidencePipeline.normalize, hworker]
    rfl
  have hmaking : Collector.making { c with pipeline := c.pipeline.normalize false } = [] := by
    rw [hp]
    rfl
  refine ⟨h.records, h.recorded, ?_, ?_, ?_, ?_, ?_, ?_, ?_, h.inv⟩
  · rw [hmaking, hall, List.append_nil]
    exact hevents
  · dsimp only
    rw [hp]
    exact h.processed
  · dsimp only
    rw [hp]
    exact h.markers
  -- it is counted with those that could not be normalized
  · dsimp only
    rw [hp, hall, List.map_append, ← List.append_assoc]
    exact h.taken.append_right _
  · dsimp only
    rw [hmaking, hp, hall, List.append_nil]
    exact hmade
  · rw [hall]
    exact h.known
  · intro s hs
    dsimp only at hs
    rw [hp] at hs
    cases hs

/-- **Normalizing adds a span**, and its event or a count. -/
theorem Logged.normalize (h : Logged B N l₀ markers₀ c spans log) (clock : Except PyErr Str) :
    ∃ spans, Logged B N l₀ markers₀ (step B N c (.normalize clock)) spans log := by
  rw [step]
  split
  · rename_i span hworker
    split
    · rename_i event known hnormalize
      exact ⟨_, h.normalized hworker hnormalize⟩
    · rename_i err hnormalize
      exact ⟨_, h.notNormalized hworker hnormalize⟩
  · exact ⟨spans, h⟩

/-- The items of a longer log. -/
theorem itemsOf_append (log log' : List (Entry × Val)) :
    itemsOf (log ++ log') = itemsOf log ++ itemsOf log' :=
  List.filterMap_append

/-- The markers of a longer log. -/
theorem markersOf_append (log log' : List (Entry × Val)) :
    markersOf (log ++ log') = markersOf log ++ markersOf log' :=
  List.filterMap_append

/-- **An entry is committed**: the ledger has its record, and its record is that of its event. -/
theorem Logged.append (h : Logged B N l₀ markers₀ c spans log) {entry : Entry} {event : ComplianceEvent}
    {clock : Except PyErr Str} {ledger : Ledger σ}
    (hcommit : Ledger.commit B c.ledger (entry.event N).toEvent clock = (.ok event, ledger)) :
    ∃ record, B.records ledger.store = B.records l₀.store ++ (log ++ [(entry, record)]).map Prod.snd ∧
      ∀ e ∈ log ++ [(entry, record)], RecordOf (e.1.event N).toEvent e.2 := by
  obtain ⟨record, hrecord, hrecords⟩ := Ledger.records_of_commit hcommit
  refine ⟨record, ?_, fun e he => ?_⟩
  · rw [hrecords, h.records, List.map_append, List.append_assoc]
    rfl
  · rcases List.mem_append.mp he with he | he
    · exact h.recorded e he
    · rw [List.mem_singleton.mp he]
      exact hrecord

/-- A span is committed: it is processed, and its event is in the log. -/
theorem Logged.committed (h : Logged B N l₀ markers₀ c spans log) {span : SpanData} {attempt : Nat}
    {event : Event} {event' : ComplianceEvent} {clock : Except PyErr Str} {ledger : Ledger σ}
    (hworker : c.pipeline.worker = .committing span attempt) (hevent : c.event = some event)
    (hcommit : Ledger.commit B c.ledger event.toEvent clock = (.ok event', ledger)) :
    ∃ log, Logged B N l₀ markers₀ { c with pipeline := c.pipeline.commit true, ledger } spans log := by
  -- what was on its way is the last event of the log now
  have hevents := h.events
  have hmade := h.made
  rw [making_of_committing hworker hevent] at hevents hmade
  have hinv := fun hl => (h.inv hl).commit event.toEvent clock
  rw [hcommit] at hinv
  obtain ⟨record, hrecords, hrecorded⟩ :=
    @Logged.append σ B N l₀ markers₀ c spans log h (.span span event) event' clock ledger hcommit
  have hp : c.pipeline.commit true = { c.pipeline with
      processed := c.pipeline.processed ++ [span], worker := .taskDone false } := by
    rw [EvidencePipeline.commit, hworker]
    rfl
  have hmaking : Collector.making { c with pipeline := c.pipeline.commit true, ledger } = [] := by
    rw [hp]
    rfl
  -- the log grows by a span's entry, so its markers stay
  have hitems : itemsOf (log ++ [(.span span event, record)]) = itemsOf log ++ [(span, event)] :=
    itemsOf_append log _
  refine ⟨log ++ [(.span span event, record)], hrecords, hrecorded, ?_, ?_, ?_, ?_, ?_, h.known, ?_,
    hinv⟩
  · rw [hmaking, hitems, List.append_nil]
    exact hevents
  · dsimp only
    rw [hp, hitems, List.map_append, ← h.processed]
    rfl
  · dsimp only
    rw [hp, markersOf_append]
    exact h.markers.trans (congrArg _ (List.append_nil _).symm)
  · dsimp only
    rw [hp]
    exact h.taken
  · dsimp only
    rw [hmaking, hp, hitems, List.append_nil]
    exact hmade
  · intro s hs
    dsimp only at hs
    rw [hp] at hs
    cases hs

/-- A commit fails, and the span is tried again with its event. -/
theorem Logged.retried (h : Logged B N l₀ markers₀ c spans log) {span : SpanData} {attempt : Nat}
    {event : Event} {err : PyErr} {clock : Except PyErr Str} {ledger : Ledger σ}
    (hworker : c.pipeline.worker = .committing span attempt)
    (hcommit : Ledger.commit B c.ledger event.toEvent clock = (.error err, ledger))
    (hretry : attempt < c.pipeline.commitRetries) :
    Logged B N l₀ markers₀ { c with pipeline := c.pipeline.commit false, ledger } spans log := by
  have hinv := fun hl => (h.inv hl).commit event.toEvent clock
  rw [hcommit] at hinv
  have hp : c.pipeline.commit false = { c.pipeline with worker := .committing span (attempt + 1) } := by
    rw [EvidencePipeline.commit, hworker]
    exact if_pos hretry
  have hsame : SameLog c.pipeline (c.pipeline.commit false) := by
    rw [hp]
    refine ⟨rfl, rfl, rfl, rfl, ?_⟩
    rw [hworker]
    rfl
  exact { h.sameLog hsame with
    records := (Ledger.records_of_commit_error hcommit).trans h.records, inv := hinv }

/-- A commit fails for the last time, and the span is counted. -/
theorem Logged.notCommitted (h : Logged B N l₀ markers₀ c spans log) {span : SpanData} {attempt : Nat}
    {event : Event} {err : PyErr} {clock : Except PyErr Str} {ledger : Ledger σ}
    (hworker : c.pipeline.worker = .committing span attempt) (hevent : c.event = some event)
    (hcommit : Ledger.commit B c.ledger event.toEvent clock = (.error err, ledger))
    (hretry : ¬attempt < c.pipeline.commitRetries) :
    Logged B N l₀ markers₀ { c with pipeline := c.pipeline.commit false, ledger } spans log := by
  -- the ledger raised: it holds the records it held, and the event is dropped
  have hevents := h.events
  have hmade := h.made
  rw [making_of_committing hworker hevent] at hevents hmade
  have hinv := fun hl => (h.inv hl).commit event.toEvent clock
  rw [hcommit] at hinv
  have hp : c.pipeline.commit false = { c.pipeline with
      uncommitted := c.pipeline.uncommitted ++ [span], worker := .taskDone false } := by
    rw [EvidencePipeline.commit, hworker]
    exact if_neg hretry
  have hmaking : Collector.making { c with pipeline := c.pipeline.commit false, ledger } = [] := by
    rw [hp]
    rfl
  refine ⟨(Ledger.records_of_commit_error hcommit).trans h.records, h.recorded, ?_, ?_, ?_, ?_, ?_,
    h.known, ?_, hinv⟩
  · rw [hmaking, List.append_nil]
    exact (List.sublist_append_left _ _).trans hevents
  · dsimp only
    rw [hp]
    exact h.processed
  · dsimp only
    rw [hp]
    exact h.markers
  · dsimp only
    rw [hp]
    exact h.taken
  · dsimp only
    -- the span goes from those on their way to the uncommitted ones
    rw [hmaking, hp, List.append_nil]
    rw [List.map_append] at hmade
    refine hmade.trans ((perm_append_swap _ _ _).trans ?_)
    rw [List.append_assoc]
    exact List.Perm.refl _
  · intro s hs
    dsimp only at hs
    rw [hp] at hs
    cases hs

/-- **Committing adds the record of the event**, or the span is tried again, or counted. -/
theorem Logged.commit (h : Logged B N l₀ markers₀ c spans log) (clock : Except PyErr Str) :
    ∃ log, Logged B N l₀ markers₀ (step B N c (.commit clock)) spans log := by
  rw [step]
  split
  · rename_i span attempt event hworker hevent
    split
    · rename_i event' ledger hcommit
      exact h.committed hworker hevent hcommit
    · rename_i err ledger hcommit
      by_cases hretry : attempt < c.pipeline.commitRetries
      · exact ⟨log, h.retried hworker hcommit hretry⟩
      · exact ⟨log, h.notCommitted hworker hevent hcommit hretry⟩
  · exact ⟨log, h⟩

/-- A marker is committed: it is in the log. -/
theorem Logged.declared (h : Logged B N l₀ markers₀ c spans log) {o : Thread} {n : Nat}
    {window : DropWindow Str} {times : List Str} {timestamp : Str} {event : ComplianceEvent}
    {clock : Except PyErr Str} {ledger : Ledger σ} (hlock : c.pipeline.emitLock = some o)
    (hemission : c.pipeline.drops.emission = some ⟨n, window, times, false⟩)
    (hcommit : Ledger.commit B c.ledger (N.gapEvent ⟨n, window, times⟩ timestamp).toEvent clock
      = (.ok event, ledger)) :
    ∃ log, Logged B N l₀ markers₀ { c with pipeline := c.pipeline.emitCommit true, ledger } spans
      log := by
  -- the log grows by a marker's entry, so its spans stay
  have hinv := fun hl => (h.inv hl).commit (N.gapEvent ⟨n, window, times⟩ timestamp).toEvent clock
  rw [hcommit] at hinv
  obtain ⟨record, hrecords, hrecorded⟩ :=
    @Logged.append σ B N l₀ markers₀ c spans log h (.gap ⟨n, window, times⟩ timestamp) event clock
      ledger hcommit
  have hp : c.pipeline.emitCommit true = { c.pipeline with
      drops := c.pipeline.drops.step (.commit true) } := by
    simp [EvidencePipeline.emitCommit, hlock, hemission]
  -- the emission holds the marker that the drops count as attested now
  have hmarkers : (c.pipeline.drops.step (.commit true)).markers
      = c.pipeline.drops.markers ++ [⟨n, window, times⟩] := by
    rw [Drops.step, hemission]
    rfl
  have hmaking : Collector.making { c with pipeline := c.pipeline.emitCommit true, ledger }
      = c.making := by
    rw [hp]
    rfl
  have hitems : itemsOf (log ++ [(.gap ⟨n, window, times⟩ timestamp, record)]) = itemsOf log :=
    (itemsOf_append log _).trans (List.append_nil _)
  refine ⟨log ++ [(.gap ⟨n, window, times⟩ timestamp, record)], hrecords, hrecorded, ?_, ?_, ?_, ?_, ?_,
    h.known, ?_, hinv⟩
  · rw [hmaking, hitems]
    exact h.events
  · dsimp only
    rw [hp, hitems]
    exact h.processed
  · dsimp only
    rw [hp, hmarkers, h.markers, markersOf_append, List.append_assoc]
    rfl
  · dsimp only
    rw [hp]
    exact h.taken
  · dsimp only
    rw [hmaking, hp, hitems]
    exact h.made
  · intro s hs
    dsimp only at hs
    rw [hp] at hs
    exact h.event s hs

/-- A marker is refused: the emission ends. -/
theorem Logged.refused (h : Logged B N l₀ markers₀ c spans log) {o : Thread} {n : Nat}
    {window : DropWindow Str} {times : List Str} {timestamp : Str} {err : PyErr}
    {clock : Except PyErr Str} {ledger : Ledger σ} (hlock : c.pipeline.emitLock = some o)
    (hemission : c.pipeline.drops.emission = some ⟨n, window, times, false⟩)
    (hcommit : Ledger.commit B c.ledger (N.gapEvent ⟨n, window, times⟩ timestamp).toEvent clock
      = (.error err, ledger)) :
    Logged B N l₀ markers₀ { c with pipeline := c.pipeline.emitCommit false, ledger } spans log := by
  have hinv := fun hl => (h.inv hl).commit (N.gapEvent ⟨n, window, times⟩ timestamp).toEvent clock
  rw [hcommit] at hinv
  have hp : c.pipeline.emitCommit false = { c.pipeline.emitted o with
      drops := c.pipeline.drops.step (.commit false), emitLock := none } := by
    rw [EvidencePipeline.emitCommit, hlock, hemission]
    rfl
  have hthread := onThread_sameLog c.pipeline o Worker.committing?_emitted Flusher.emitted
  have hsame : SameLog c.pipeline (c.pipeline.emitCommit false) := by
    rw [hp]
    refine ⟨hthread.processed, hthread.unnormalized, hthread.uncommitted, ?_, hthread.committing⟩
    dsimp only
    rw [Drops.step, hemission]
    rfl
  exact { h.sameLog hsame with
    records := (Ledger.records_of_commit_error hcommit).trans h.records, inv := hinv }

/-- **A marker that is emitted is added.** -/
theorem Logged.emitCommit (h : Logged B N l₀ markers₀ c spans log) (timestamp : Str)
    (clock : Except PyErr Str) :
    ∃ log, Logged B N l₀ markers₀ (step B N c (.emitCommit timestamp clock)) spans log := by
  rw [step]
  split
  · rename_i o n window times hlock hemission
    split
    · rename_i event ledger hcommit
      exact h.declared hlock hemission hcommit
    · rename_i err ledger hcommit
      exact ⟨log, h.refused hlock hemission hcommit⟩
  · exact ⟨log, h⟩

/-- **Every step keeps the log.** -/
theorem Logged.step (h : Logged B N l₀ markers₀ c spans log) (op : Op) :
    ∃ spans log, Logged B N l₀ markers₀ (step B N c op) spans log := by
  cases op with
  | other op hop => exact ⟨spans, log, h.sameLog (step_sameLog c.pipeline hop)⟩
  | normalize clock =>
      obtain ⟨spans, h⟩ := h.normalize clock
      exact ⟨spans, log, h⟩
  | commit clock =>
      obtain ⟨log, h⟩ := h.commit clock
      exact ⟨spans, log, h⟩
  | emitCommit timestamp clock =>
      obtain ⟨log, h⟩ := h.emitCommit timestamp clock
      exact ⟨spans, log, h⟩

/-- **Every run keeps the log.** -/
theorem Logged.run (h : Logged B N l₀ markers₀ c spans log) (ops : List Op) :
    ∃ spans log, Logged B N l₀ markers₀ (run B N c ops) spans log := by
  induction ops generalizing c spans log with
  | nil => exact ⟨spans, log, h⟩
  | cons op ops ih =>
      obtain ⟨spans', log', hstep⟩ := h.step op
      exact ih hstep

end Steps

/-! ## The pipeline of a collector -/

section Simulation

variable {B N}

/-- The spans that a step submits are JSON values, and an append that fails leaves nothing in the
file. -/
def Op.Whole : Op → Prop
  | .other op _ => op.Whole
  | _ => True

/-- Whether a step is none of a new call of `submit`. -/
def Op.NoSubmit : Op → Prop
  | .other op _ => op.NoSubmit
  | _ => True

/-- A step of a collector is a step of its pipeline, if anything. -/
theorem step_pipeline (c : Collector σ) (op : Op) : (step B N c op).pipeline = c.pipeline ∨
    ∃ p : EvidencePipeline.Op Str, (op.Whole → p.Whole) ∧ (op.NoSubmit → p.NoSubmit) ∧
      (step B N c op).pipeline = c.pipeline.step p := by
  cases op with
  | other op hop => exact Or.inr ⟨op, id, id, rfl⟩
  | normalize clock =>
      rw [step]
      split
      · split
        · exact Or.inr ⟨.normalize true, fun _ => trivial, fun _ => trivial, rfl⟩
        · exact Or.inr ⟨.normalize false, fun _ => trivial, fun _ => trivial, rfl⟩
      · exact Or.inl rfl
  | commit clock =>
      rw [step]
      split
      · split
        · exact Or.inr ⟨.commit true, fun _ => trivial, fun _ => trivial, rfl⟩
        · exact Or.inr ⟨.commit false, fun _ => trivial, fun _ => trivial, rfl⟩
      · exact Or.inl rfl
  | emitCommit timestamp clock =>
      rw [step]
      split
      · split
        · exact Or.inr ⟨.emitCommit true, fun _ => trivial, fun _ => trivial, rfl⟩
        · exact Or.inr ⟨.emitCommit false, fun _ => trivial, fun _ => trivial, rfl⟩
      · exact Or.inl rfl

/-- **A run of a collector is a run of its pipeline.** -/
theorem run_pipeline (c : Collector σ) (ops : List Op) : ∃ ps : List (EvidencePipeline.Op Str),
    ((∀ op ∈ ops, op.Whole) → ∀ p ∈ ps, p.Whole) ∧
      (run B N c ops).pipeline = c.pipeline.run ps := by
  induction ops generalizing c with
  | nil => exact ⟨[], fun _ p hp => absurd hp List.not_mem_nil, rfl⟩
  | cons op ops ih =>
      obtain ⟨ps, hwhole, hrun⟩ := ih (step B N c op)
      rcases step_pipeline c op with hstep | ⟨p, hp, -, hstep⟩
      · refine ⟨ps, fun hops => hwhole fun o ho => hops o (List.mem_cons_of_mem op ho), ?_⟩
        rw [hstep] at hrun
        exact hrun
      · refine ⟨p :: ps, fun hops q hq => ?_, ?_⟩
        · rcases List.mem_cons.mp hq with rfl | hq
          · exact hp (hops op List.mem_cons_self)
          · exact hwhole (fun o ho => hops o (List.mem_cons_of_mem op ho)) q hq
        · rw [hstep] at hrun
          exact hrun

end Simulation

/-- Nothing is logged at first. -/
theorem init_logged (maxQueue : Int) (commitRetries : Nat) (spill : Option SpillBuffer)
    (drops : Drops Str) (l₀ : Ledger σ) : Logged B N l₀ drops.markers
      { pipeline := .init maxQueue commitRetries spill drops, ledger := l₀ } [] [] :=
  ⟨(List.append_nil _).symm, fun e he => absurd he List.not_mem_nil, List.Sublist.refl _, rfl,
    (List.append_nil _).symm, List.Perm.refl _, List.Perm.refl _, rfl, fun s hs => (by cases hs), id⟩

/-- The spans are conserved. -/
theorem run_conserved (maxQueue : Int) (commitRetries : Nat) {spill : Option SpillBuffer}
    (drops : Drops Str) (l₀ : Ledger σ) {ops : List Op} (hspill : ∀ b, spill = some b → ∃ q, b.Holds q)
    (hops : ∀ op ∈ ops, op.Whole) :
    (run B N { pipeline := .init maxQueue commitRetries spill drops, ledger := l₀ }
      ops).pipeline.Conserved := by
  obtain ⟨ps, hwhole, hrun⟩ := @run_pipeline σ B N
    { pipeline := .init maxQueue commitRetries spill drops, ledger := l₀ } ops
  obtain ⟨hreadable, hconserved⟩ := @init_flow _ maxQueue commitRetries _ drops hspill
  rw [hrun]
  exact (run_flow hreadable hconserved (hwhole hops)).2

/-- **The log of a collector.** In every run the ledger holds, after what it held, the records of some
entries, and nothing else: the events of the processed spans, in the order in which they were
processed, as normalizing the spans in that order makes them, and the markers of the declared gaps.
Where the spans are JSON values and the spill file is intact, each span that was given to the collector
is in that log once, or in one of the places that the pipeline keeps or counts spans in. -/
theorem run_logged (maxQueue : Int) (commitRetries : Nat) (spill : Option SpillBuffer) (drops : Drops Str)
    (l₀ : Ledger σ) (ops : List Op) :
    let c := run B N { pipeline := .init maxQueue commitRetries spill drops, ledger := l₀ } ops
    ∃ spans log, Logged B N l₀ drops.markers c spans log ∧
      ((∀ b, spill = some b → ∃ q, b.Holds q) → (∀ op ∈ ops, op.Whole) →
        c.pipeline.given.Perm (c.pipeline.inHand ++ c.pipeline.pending ++ c.pipeline.queued
          ++ c.pipeline.worker.held ++ (itemsOf log).map Prod.fst ++ c.pipeline.errors
          ++ c.pipeline.dropped)) := by
  intro c
  obtain ⟨spans, log, hlogged⟩ :=
    (@init_logged σ B N maxQueue commitRetries spill drops l₀).run ops
  refine ⟨spans, log, hlogged, fun hspill hops => ?_⟩
  rw [← hlogged.processed]
  exact (run_conserved B N maxQueue commitRetries drops l₀ hspill hops).perm

/-! ## A run with a spilled span, a dropped one and a failing append -/

/-- A backend in memory whose appends fail as listed. -/
def faultyBackend : LedgerBackend (List Bool × List Val) where
  records s := s.2
  appendRecord s r :=
    if s.1.head? = some true then (.error osError, s.1.tail, s.2) else (.ok (), s.1.tail, s.2 ++ [r])
  records_append s r h := by
    split at h
    · cases h
    · rename_i hnext
      rw [if_neg hnext]
  records_refuse s r err h := by
    split at h
    · rename_i hnext
      rw [if_pos hnext]
    · cases h

/-- A new ledger on it, whose second append fails. -/
def faultyLedger : Ledger (List Bool × List Val) where
  store := ([false, true], [])
  origin := lit "openwright"
  retention := none
  leaves := []
  tree := .new

/-- A span of a task. -/
def firstSpan : SpanData := sampleSpan [(lit "a2a.task.id", .str (lit "t1"))]

/-- A span of a task that refers to it. -/
def spilledSpan : SpanData := sampleSpan [(lit "a2a.task.id", .str (lit "t2")),
  (lit "a2a.reference_task_ids", .list [.str (lit "t1")])]

/-- A span of a third task. -/
def droppedSpan : SpanData := sampleSpan [(lit "a2a.task.id", .str (lit "t3"))]

/-- The first of three spans is queued, the second spilled, and the third dropped, as the spill file
cannot be written. -/
def threePuts : List Op :=
  [.other (.put 0) trivial, .other (.put 0) trivial, .other (.spillOver 0 none) trivial,
    .other (.put 0) trivial, .other (.spillOver 0 (some 0)) trivial,
    .other (.clock 0 (lit "2026-01-01T00:00:00Z")) trivial, .other (.drop 0 true) trivial]

/-- The spans are submitted. -/
def threeSubmits : List Op :=
  .other (.submit [firstSpan, spilledSpan, droppedSpan]) trivial :: threePuts

/-- The worker declares the gap, commits the first span on the second try, refills the queue from the
spill file, and commits the second span. -/
def threeWork : List Op :=
  [.other .get trivial, .other (.emitStart .worker) trivial,
    .emitCommit (lit "2026-01-01T00:00:01Z") (.ok (lit "2026-01-01T00:00:01Z")),
    .other (.emitSettle true) trivial, .normalize sampleClock,
    .commit (.ok (lit "2026-01-01T00:00:02Z")), .commit (.ok (lit "2026-01-01T00:00:03Z")),
    .other .taskDone trivial]
  ++ List.replicate 5 (.other (.refill .worker false) trivial)
  ++ [.other .get trivial, .other (.emitStart .worker) trivial, .normalize sampleClock,
    .commit (.ok (lit "2026-01-01T00:00:04Z")), .other .taskDone trivial]

/-- A collector with room for one span in its queue. -/
def smallCollector : Collector (List Bool × List Val) where
  pipeline := .init 1 1 (some (SpillBuffer.init none none)) (Drops.init true none [] 0)
  ledger := faultyLedger

/-- What is read of the run. -/
theorem reads_threeWork :
    let s := run faultyBackend sampleNormalizer smallCollector threeSubmits
    let c := run faultyBackend sampleNormalizer smallCollector (threeSubmits ++ threeWork)
    s.pipeline.queued = [firstSpan] ∧ s.pipeline.pending = [spilledSpan] ∧
      c.pipeline.processed = [firstSpan, spilledSpan] ∧ c.pipeline.dropped = [droppedSpan] ∧
      c.pipeline.drops.markers.map GapMarker.droppedEvents = [1] ∧ c.ledger.store.2.length = 3 ∧
      c.ledger.store.1 = [] := by
  decide +kernel

/-- The spans are JSON values, and the append that fails leaves nothing. -/
theorem whole_threeWork : ∀ op ∈ threeSubmits ++ threeWork, op.Whole := by
  have hspans : ∀ span ∈ [firstSpan, spilledSpan, droppedSpan], span.IsJson := by
    simp [SpanData.IsJson, SpanData.asdict, firstSpan, spilledSpan, droppedSpan, sampleSpan, Json.IsJson,
      Json.IsJsonItems, Json.IsJsonList]
  simp only [threeSubmits, threePuts, threeWork, List.forall_mem_append, List.forall_mem_cons]
  simp [Op.Whole, EvidencePipeline.Op.Whole] at hspans ⊢
  exact hspans

/-- The log of that run: the gap and the two spans, of which the second was spilled. -/
theorem run_logged_three :
    let c := run faultyBackend sampleNormalizer smallCollector (threeSubmits ++ threeWork)
    ∃ spans log, Logged faultyBackend sampleNormalizer faultyLedger [] c spans log ∧ log.length = 3 ∧
      (itemsOf log).map Prod.fst = [firstSpan, spilledSpan] ∧
      (markersOf log).map GapMarker.droppedEvents = [1] ∧
      c.pipeline.given.Perm (c.pipeline.inHand ++ c.pipeline.pending ++ c.pipeline.queued
        ++ c.pipeline.worker.held ++ [firstSpan, spilledSpan] ++ c.pipeline.errors ++ [droppedSpan]) := by
  have hreads := reads_threeWork
  have hrun := run_logged faultyBackend sampleNormalizer 1 1 (some (SpillBuffer.init none none))
    (Drops.init true none [] 0) faultyLedger (threeSubmits ++ threeWork)
  rw [← smallCollector] at hrun
  dsimp only at hreads hrun ⊢
  generalize run faultyBackend sampleNormalizer smallCollector (threeSubmits ++ threeWork) = c
    at hreads hrun ⊢
  obtain ⟨-, -, hprocessed, hdropped, hmarkers, hlength, -⟩ := hreads
  obtain ⟨spans, log, hlogged, hperm⟩ := hrun
  have hholds : ∀ b, some (SpillBuffer.init none none) = some b → ∃ q, b.Holds q := by
    intro b hb
    obtain rfl := Option.some.inj hb
    exact ⟨[], SpillBuffer.init_holds⟩
  -- what the run reads back, through what the log says of it
  have hitems : (itemsOf log).map Prod.fst = [firstSpan, spilledSpan] :=
    hlogged.processed.symm.trans hprocessed
  have hplaces := hperm hholds whole_threeWork
  rw [hitems, hdropped] at hplaces
  refine ⟨spans, log, hlogged, ?_, hitems, ?_, hplaces⟩
  · have hrecords : c.ledger.store.2 = log.map Prod.snd := hlogged.records
    rw [← hlength, hrecords, List.length_map]
  · have hdeclared : c.pipeline.drops.markers = markersOf log := hlogged.markers
    rw [← hdeclared, hmarkers]

end Collector

end OpenWright
