import OpenWright.PipelineFlow

/-! # The locks of a pipeline

* **`run_refill`** — the steps of a refill, taken one after another, are a drain of the spill buffer
  into the queue.
* **`step_locked`** — a thread holds the lock of the buffer exactly while it is in a drain, and
  `_emit_lock` while it emits a marker. -/

namespace OpenWright.EvidencePipeline

open Python

variable {T : Type}

/-! ## A refill is a drain -/

/-- The callback of `_refill_from_spill`. -/
def accept (maxQueue : Int) : SpanData → List Item → Bool × List Item :=
  Fifo.put (fun queue => ¬(0 < maxQueue ∧ maxQueue ≤ queue.length)) .span

/-- The pipeline when a refill has drained the buffer to `b` and the queue is `queue`. -/
def drained (s : EvidencePipeline T) (o : Thread) (b : SpillBuffer) (queue : List Item)
    (accepted : Nat) : EvidencePipeline T :=
  { s.refilled o with
    spill := some b, queue, unfinished := s.unfinished + accepted, spillLock := none }

section Refill

variable {s : EvidencePipeline T} {o : Thread}

/-- A thread in a refill goes on in it. -/
theorem refill?_setRefill {r : Refill} (h : s.refill? o = some r) (r' : Refill) :
    (s.setRefill o r').refill? o = some r' := by
  cases o with
  | worker =>
      show (s.worker.setRefill r').refill? = some r'
      have hworker : s.worker.refill? = some r := h
      cases hw : s.worker <;> rw [hw] at hworker <;> first | rfl | cases hworker
  | flusher k =>
      have hflusher : s.flushers[k]?.bind Flusher.refill? = some r := h
      obtain ⟨f, hf, hr⟩ := Option.bind_eq_some_iff.mp hflusher
      show (s.flushers.modify k (Flusher.setRefill r'))[k]?.bind Flusher.refill? = some r'
      rw [List.getElem?_modify_eq, hf]
      cases f <;> first | rfl | cases hr

/-- Returning from a refill does not depend on where it was. -/
theorem Worker.refilled_setRefill (r : Refill) (w : Worker) : (w.setRefill r).refilled = w.refilled := by
  cases w with
  | finalRefill exiting _ => cases exiting <;> rfl
  | _ => rfl

/-- The end of a refill does not depend on where it was. -/
theorem Flusher.refilled_setRefill (r : Refill) :
    Flusher.refilled ∘ Flusher.setRefill r = Flusher.refilled := by
  funext f
  cases f <;> rfl

/-- The callback takes a span where the queue has room. -/
theorem accept_eq (s : EvidencePipeline T) (span : SpanData) : accept s.maxQueue span s.queue
    = if s.Full then (false, s.queue) else (true, s.queue ++ [.span span]) := by
  by_cases hfull : s.Full
  · rw [if_pos hfull, accept, Fifo.put, if_neg]
    rw [decide_eq_true_iff]
    exact not_not_intro hfull
  · rw [if_neg hfull, accept, Fifo.put]
    exact if_pos (decide_eq_true hfull)

/-- Behind the loop of a drain the file is truncated and the cursor saved. -/
theorem run_truncating {b : SpillBuffer} (hrefill : s.refill? o = some .truncating)
    (hspill : s.spill = some b) :
    s.run [.refill o false, .refill o false] = s.drained o b.compact.saveCursor s.queue 0 := by
  have hfirst : s.refillFromSpill o false = { s.setRefill o .saving with spill := some b.compact } := by
    simp [refillFromSpill, hrefill, hspill]
  have hsaving : ({ s.setRefill o .saving with spill := some b.compact } :
      EvidencePipeline T).refill? o = some .saving := by
    have hset := refill?_setRefill hrefill .saving
    cases o <;> exact hset
  have hlast {t : EvidencePipeline T} {c : SpillBuffer} (ht : t.refill? o = some .saving)
      (hc : t.spill = some c) : t.refillFromSpill o false
        = { t.refilled o with spill := some c.saveCursor, spillLock := none } := by
    simp [refillFromSpill, ht, hc]
  simp only [run, List.foldl_cons, List.foldl_nil, step, hfirst]
  rw [hlast hsaving rfl]
  cases o <;> simp [drained, refilled, setRefill, onThread, Worker.refilled_setRefill,
    List.modify_modify_eq, Flusher.refilled_setRefill]

/-- The loop of a drain ends. -/
theorem run_ended {b : SpillBuffer} (hrefill : s.refill? o = some .draining)
    (hspill : s.spill = some b) (hend : s.refillFromSpill o false = s.setRefill o .truncating) :
    s.run (List.replicate 3 (.refill o false)) = s.drained o b.compact.saveCursor s.queue 0 := by
  have hrest := run_truncating (refill?_setRefill hrefill .truncating)
    ((onThread_spill s o _ _).trans hspill)
  show (s.refillFromSpill o false).run [.refill o false, .refill o false] = _
  rw [hend, hrest]
  cases o <;> simp [drained, refilled, setRefill, onThread, Worker.refilled_setRefill,
    List.modify_modify_eq, Flusher.refilled_setRefill]

/-- **The loop of a drain**, with what follows it. -/
theorem run_draining {b : SpillBuffer} {q : List SpanData} (hq : b.Holds q)
    (hrefill : s.refill? o = some .draining) (hspill : s.spill = some b) :
    let d := SpillBuffer.drainLines (accept s.maxQueue) none (q.map SpanData.bytes) b.consumed s.queue
    ∃ n, s.run (List.replicate n (.refill o false))
      = s.drained o { b with consumed := d.consumed }.compact.saveCursor d.state d.accepted := by
  induction q generalizing s b with
  | nil =>
      refine ⟨3, run_ended hrefill hspill ?_⟩
      simp [refillFromSpill, hrefill, hspill, hq.next_eq]
  | cons span rest ih =>
      obtain ⟨hjson, hline⟩ := hq.readable span List.mem_cons_self
      have hblank : nonblankBytes span.bytes = true := nonblankBytes_utf8 hline
      have hread : SpanData.ofLine span.bytes = .ok span := SpanData.ofLine_line hjson hline
      simp only [List.map_cons, SpillBuffer.drainLines, hblank, hread, if_true, accept_eq]
      by_cases hfull : s.Full
      · -- the span stays, and all behind it
        refine ⟨3, ?_⟩
        rw [if_pos hfull]
        refine run_ended hrefill hspill ?_
        simp [refillFromSpill, hrefill, hspill, hq.next_eq, hfull]
      · rw [if_neg hfull]
        have hstep : s.refillFromSpill o false
            = { s.enqueue (.span span) with spill := some (b.advance span.bytes.length) } := by
          simp [refillFromSpill, hrefill, hspill, hq.next_eq, hfull]
        have hrefill' : ({ s.enqueue (.span span) with spill := some (b.advance span.bytes.length) } :
            EvidencePipeline T).refill? o = some .draining := by
          cases o <;> exact hrefill
        obtain ⟨n, hn⟩ := ih hq.advance hrefill' rfl
        refine ⟨n + 1, ?_⟩
        show (s.refillFromSpill o false).run (List.replicate n (.refill o false)) = _
        rw [hstep, hn]
        cases o <;> simp [drained, refilled, onThread, enqueue, SpillBuffer.advance, Nat.add_assoc,
          Nat.add_comm]

/-- A drain of a readable buffer that the file system does not fail. -/
theorem drain_eq {b : SpillBuffer} {q : List SpanData} (hq : b.Holds q) {σ : Type}
    (f : SpanData → σ → Bool × σ) (state : σ) :
    let d := SpillBuffer.drainLines f none (q.map SpanData.bytes) b.consumed state
    b.drain f none state
      = (.ok d.accepted, { b with consumed := d.consumed }.compact.saveCursor, d.state) := by
  have hraised := SpillBuffer.drainLines_raised f hq.readable b.consumed state
  rw [SpillBuffer.drain, hq.seek_eq, hq.remaining_eq]
  simp only [DrainFault.lines, hraised]
  rfl

/-- **The steps of a refill, taken one after another, are a drain** of the buffer into the queue. -/
theorem run_refill {b : SpillBuffer} {q : List SpanData} (hq : b.Holds q)
    (hrefill : s.refill? o = some .start) (hspill : s.spill = some b) (hlock : s.spillLock = none) :
    ∃ n accepted, (b.drain (accept s.maxQueue) none s.queue).1 = .ok accepted ∧
      s.run (List.replicate n (.refill o false))
        = s.drained o (b.drain (accept s.maxQueue) none s.queue).2.1
          (b.drain (accept s.maxQueue) none s.queue).2.2 accepted := by
  have hfirst : s.refillFromSpill o false = { s.setRefill o .draining with spillLock := some o } := by
    simp [refillFromSpill, hrefill, hspill, hlock, hq.seek_eq]
  have hdraining : ({ s.setRefill o .draining with spillLock := some o } :
      EvidencePipeline T).refill? o = some .draining := by
    have hset := refill?_setRefill hrefill .draining
    cases o <;> exact hset
  obtain ⟨n, hn⟩ := run_draining hq hdraining ((onThread_spill s o _ _).trans hspill)
  rw [drain_eq hq]
  refine ⟨n + 1, _, rfl, ?_⟩
  show (s.refillFromSpill o false).run (List.replicate n (.refill o false)) = _
  rw [hfirst, hn]
  cases o <;> simp [drained, refilled, setRefill, onThread, Worker.refilled_setRefill,
    List.modify_modify_eq, Flusher.refilled_setRefill]

/-- What a drain leaves in the buffer, and where the spans go that it takes. -/
theorem drain_queue {b : SpillBuffer} {q : List SpanData} (hq : b.Holds q) (maxQueue : Int)
    (queue : List Item) :
    (∃ q', (b.drain (accept maxQueue) none queue).2.1.Holds q') ∧
      ∃ more : List SpanData, (b.drain (accept maxQueue) none queue).2.2 = queue ++ more.map .span := by
  obtain ⟨hholds, hstate⟩ := SpillBuffer.drain_holds (accept maxQueue) hq none queue
  refine ⟨⟨_, hholds⟩, (Fifo.offer (accept maxQueue) q queue).taken, ?_⟩
  exact hstate.trans (Fifo.offer_put_state _ _ _ _)

/-- **A thread in a drain can finish it.** -/
theorem run_inside {b : SpillBuffer} {q : List SpanData} {r : Refill} (hq : b.Holds q)
    (hrefill : s.refill? o = some r) (hr : r ≠ .start) (hspill : s.spill = some b) :
    ∃ n b' accepted, ∃ more : List SpanData, (∃ q', b'.Holds q') ∧
      s.run (List.replicate n (.refill o false))
        = s.drained o b' (s.queue ++ more.map .span) accepted := by
  cases r with
  | start => exact absurd rfl hr
  -- drain to the end, rewrite the file, save the cursor
  | draining =>
      obtain ⟨n, hn⟩ := run_draining hq hrefill hspill
      obtain ⟨hholds, more, hmore⟩ := drain_queue hq s.maxQueue s.queue
      rw [drain_eq hq] at hholds hmore
      dsimp only at hholds hmore
      rw [hmore] at hn
      exact ⟨n, _, _, more, hholds, hn⟩
  -- rewrite the file, save the cursor
  | truncating =>
      refine ⟨2, b.compact.saveCursor, 0, [], ⟨q, hq.compact.saveCursor⟩, ?_⟩
      rw [List.map_nil, List.append_nil]
      exact run_truncating hrefill hspill
  -- save the cursor
  | saving =>
      refine ⟨1, b.saveCursor, 0, [], ⟨q, hq.saveCursor⟩, ?_⟩
      rw [List.map_nil, List.append_nil]
      show s.refillFromSpill o false = _
      rw [refillFromSpill, hrefill, hspill]
      cases o <;> rfl

end Refill

/-! ## Who holds the locks -/

/-- A thread holds the lock of the buffer while it is in a drain, and `_emit_lock` while it emits a
marker. -/
structure Locked (s : EvidencePipeline T) : Prop where
  unspilled : s.spill = none → s.spillLock = none
  inside : ∀ o r, s.refill? o = some r → r ≠ .start → s.spillLock = some o
  holder : ∀ o, s.spillLock = some o → ∃ r, s.refill? o = some r ∧ r ≠ .start
  emits : ∀ o, s.emitLock = some o → s.Emits o
  emission : s.emitLock = none ↔ s.drops.emission = none

section OnThread

variable (s : EvidencePipeline T) {o o' : Thread} (onWorker : Worker → Worker)
  (onFlusher : Flusher → Flusher)

/-- Where another thread is does not matter for a thread's refill. -/
theorem onThread_refill?_other (h : o' ≠ o) :
    (s.onThread o onWorker onFlusher).refill? o' = s.refill? o' := by
  cases o with
  | worker =>
      cases o' with
      | worker => exact absurd rfl h
      | flusher j => rfl
  | flusher k =>
      cases o' with
      | worker => rfl
      | flusher j =>
          have hne : k ≠ j := fun heq => h (congrArg Thread.flusher heq.symm)
          simp only [onThread, EvidencePipeline.refill?, List.getElem?_modify_ne onFlusher _ hne]

/-- Nor for its emission. -/
theorem onThread_emits_other (h : o' ≠ o) :
    (s.onThread o onWorker onFlusher).Emits o' ↔ s.Emits o' := by
  cases o with
  | worker =>
      cases o' with
      | worker => exact absurd rfl h
      | flusher j => exact Iff.rfl
  | flusher k =>
      cases o' with
      | worker => exact Iff.rfl
      | flusher j =>
          have hne : k ≠ j := fun heq => h (congrArg Thread.flusher heq.symm)
          simp only [onThread, Emits, List.getElem?_modify_ne onFlusher _ hne]

/-- A thread that leaves its refill is in none. -/
theorem onThread_refill?_none (hworker : ∀ w, (onWorker w).refill? = none)
    (hflusher : ∀ f, (onFlusher f).refill? = none) :
    (s.onThread o onWorker onFlusher).refill? o = none := by
  cases o with
  | worker => exact hworker _
  | flusher k =>
      simp only [onThread, EvidencePipeline.refill?, List.getElem?_modify_eq]
      cases s.flushers[k]? with
      | none => rfl
      | some f => exact hflusher f

/-- A change that keeps what emits. -/
theorem onThread_emits (hworker : s.worker.Emits → (onWorker s.worker).Emits)
    (hflusher : ∀ f : Flusher, f.Emits → (onFlusher f).Emits) (h : s.Emits o') :
    (s.onThread o onWorker onFlusher).Emits o' := by
  by_cases ho : o' = o
  · subst ho
    cases o' with
    | worker => exact hworker h
    | flusher k =>
        obtain ⟨f, hf, hemits⟩ := h
        refine ⟨onFlusher f, ?_, hflusher f hemits⟩
        rw [onThread, List.getElem?_modify_eq, Option.mem_def.mp hf]
        rfl
  · exact (onThread_emits_other s onWorker onFlusher ho).mpr h

end OnThread

/-- An emission is no refill. -/
theorem emitted_refill? (s : EvidencePipeline T) (o o' : Thread) :
    (s.emitted o).refill? o' = s.refill? o' := by
  by_cases ho : o' = o
  · subst ho
    cases o' with
    | worker =>
        show s.worker.emitted.refill? = s.worker.refill?
        cases s.worker <;> rfl
    | flusher k =>
        simp only [emitted, onThread, EvidencePipeline.refill?, List.getElem?_modify_eq]
        cases s.flushers[k]? with
        | none => rfl
        | some f => cases f <;> rfl
  · exact onThread_refill?_other s _ _ ho

namespace Locked

variable {s t : EvidencePipeline T} (h : s.Locked)
include h

/-- A step that takes no thread into a drain or out of one, or out of an emission. -/
theorem keep (hnone : t.spill = none → s.spill = none)
    (hspill : t.spillLock = s.spillLock) (hemit : t.emitLock = s.emitLock)
    (hdrops : t.drops.emission = none ↔ s.drops.emission = none)
    (hrefill : ∀ o, t.refill? o = s.refill? o ∨
      s.refill? o = none ∧ ∀ r, t.refill? o = some r → r = .start)
    (hemits : ∀ o, s.Emits o → t.Emits o) : t.Locked := by
  refine ⟨?_, ?_, ?_, ?_, ?_⟩
  · intro ht
    rw [hspill]
    exact h.unspilled (hnone ht)
  · intro o r hr hne
    rw [hspill]
    rcases hrefill o with heq | ⟨-, hstart⟩
    · exact h.inside o r (heq.symm.trans hr) hne
    · exact absurd (hstart r hr) hne
  -- who holds the lock is still inside
  · intro o hlock
    rw [hspill] at hlock
    obtain ⟨r, hr, hne⟩ := h.holder o hlock
    rcases hrefill o with heq | ⟨hnot, -⟩
    · exact ⟨r, heq.trans hr, hne⟩
    · rw [hnot] at hr
      cases hr
  · intro o hlock
    rw [hemit] at hlock
    exact hemits o (h.emits o hlock)
  · rw [hemit, hdrops]
    exact h.emission

/-- A thread leaves its drain, or is not let into one. -/
theorem left {o : Thread} (hothers : ∀ o', o' ≠ o → ∀ r, s.refill? o' = some r → r = .start)
    (hlock : t.spillLock = none) (hself : t.refill? o = none)
    (hother : ∀ o', o' ≠ o → t.refill? o' = s.refill? o') (hemit : t.emitLock = s.emitLock)
    (hdrops : t.drops = s.drops) (hemits : ∀ o', s.Emits o' → t.Emits o') : t.Locked := by
  refine ⟨fun _ => hlock, ?_, ?_, ?_, ?_⟩
  · intro o' r hr hne
    by_cases ho : o' = o
    · rw [ho, hself] at hr
      cases hr
    · rw [hother o' ho] at hr
      exact absurd (hothers o' ho r hr) hne
  · intro o' hheld
    rw [hlock] at hheld
    cases hheld
  · intro o' hheld
    rw [hemit] at hheld
    exact hemits o' (h.emits o' hheld)
  · rw [hemit, hdrops]
    exact h.emission

/-- A thread goes into a drain, or on in it. -/
theorem within {o : Thread} {r : Refill}
    (hothers : ∀ o', o' ≠ o → ∀ r, s.refill? o' = some r → r = .start)
    (hspill : t.spill ≠ none) (hlock : t.spillLock = some o) (hself : t.refill? o = some r)
    (hr : r ≠ .start) (hother : ∀ o', o' ≠ o → t.refill? o' = s.refill? o')
    (hemit : t.emitLock = s.emitLock) (hdrops : t.drops = s.drops)
    (hemits : ∀ o', s.Emits o' → t.Emits o') : t.Locked := by
  refine ⟨fun hnone => absurd hnone hspill, ?_, ?_, ?_, ?_⟩
  · intro o' r' hr' hne
    by_cases ho : o' = o
    · rw [ho]
      exact hlock
    · rw [hother o' ho] at hr'
      exact absurd (hothers o' ho r' hr') hne
  · intro o' hheld
    rw [hlock] at hheld
    obtain rfl := Option.some.inj hheld
    exact ⟨r, hself, hr⟩
  · intro o' hheld
    rw [hemit] at hheld
    exact hemits o' (h.emits o' hheld)
  · rw [hemit, hdrops]
    exact h.emission

end Locked

/-- A thread that goes on in its refill does not change what it emits. -/
theorem setRefill_emits {s : EvidencePipeline T} {o o' : Thread} (r : Refill) (hemits : s.Emits o') :
    (s.setRefill o r).Emits o' := by
  refine onThread_emits s _ _ ?_ ?_ hemits
  · cases s.worker <;> exact id
  · intro f hf
    cases f <;> first | exact hf | cases hf

/-- A thread that returns from a refill, or is left by an exception of it, is in none. -/
theorem refilled_refill? (s : EvidencePipeline T) (o : Thread) : (s.refilled o).refill? o = none := by
  refine onThread_refill?_none s _ _ ?_ ?_
  · intro w
    cases w with
    | finalRefill exiting _ => cases exiting <;> rfl
    | _ => rfl
  · intro f
    cases f <;> rfl

/-- The end of a refill leaves the emissions. -/
theorem refilled_emits {s : EvidencePipeline T} (o : Thread) {o' : Thread} (hemits : s.Emits o') :
    (s.refilled o).Emits o' := by
  refine onThread_emits s _ _ ?_ ?_ hemits
  · cases s.worker <;> first | exact False.elim | exact id
  · intro f hf
    cases f <;> first | exact hf | cases hf

/-- So does an exception. -/
theorem raise_emits {s : EvidencePipeline T} (o : Thread) (e : PyErr) {o' : Thread}
    (hemits : s.Emits o') : (s.raise o e).Emits o' := by
  have hthread : (s.onThread o (Worker.raised e) (Flusher.failed e)).Emits o' := by
    refine onThread_emits s _ _ ?_ ?_ hemits
    · cases s.worker <;> exact id
    · intro f hf
      cases f <;> first | exact hf | cases hf
  cases o' <;> exact hthread

/-- After an exception there is no refill. -/
theorem raise_refill? (s : EvidencePipeline T) (o : Thread) (e : PyErr) :
    (s.raise o e).refill? o = none := by
  have hnone := @onThread_refill?_none _ s o (Worker.raised e) (Flusher.failed e)
    (fun w => by cases w <;> rfl) (fun f => by cases f <;> rfl)
  cases o <;> exact hnone

/-- A refill takes the lock and gives it back. -/
theorem refill_locked {s : EvidencePipeline T} (h : s.Locked) (o : Thread) (fault : Bool) :
    (s.refillFromSpill o fault).Locked := by
  have hstep := refillFromSpill_step s o fault
  generalize s.refillFromSpill o fault = t at hstep ⊢
  -- no other thread is in a drain
  have halone {r : Refill} (hr : s.refill? o = some r) (hlock : r = .start → s.spillLock = none)
      {o' : Thread} (ho : o' ≠ o) {r' : Refill} (hr' : s.refill? o' = some r') : r' = .start := by
    by_contra hne
    have hheld := h.inside o' r' hr' hne
    by_cases hstart : r = .start
    · rw [hlock hstart] at hheld
      cases hheld
    · rw [h.inside o r hr hstart] at hheld
      exact ho (Option.some.inj hheld).symm
  cases hstep with
  | stay => exact h
  | skipped hrefill hspill =>
      refine h.keep nofun rfl rfl Iff.rfl (fun o' => Or.inl ?_) (fun o' => ?_) <;> cases o'
      · rfl
      · rfl
      · exact id
      · exact id
  | accepted hrefill hspill =>
      refine h.keep nofun rfl rfl Iff.rfl (fun o' => Or.inl ?_) (fun o' => ?_) <;> cases o'
      · rfl
      · rfl
      · exact id
      · exact id
  | absent hrefill hspill =>
      have hfree := h.unspilled hspill
      have hothers : ∀ o', o' ≠ o → ∀ r, s.refill? o' = some r → r = .start :=
        fun o' ho r hr => halone hrefill (fun _ => hfree) ho hr
      refine h.left hothers ?_ (refilled_refill? s o)
        (fun o' ho => onThread_refill?_other s _ _ ho) ?_ ?_ (fun o' => refilled_emits o)
      · cases o <;> exact hfree
      · cases o <;> rfl
      · cases o <;> rfl
  | raised hrefill hspill hlock =>
      have hothers : ∀ o', o' ≠ o → ∀ r, s.refill? o' = some r → r = .start :=
        fun o' ho r hr => halone hrefill hlock ho hr
      refine h.left hothers rfl (raise_refill? s o _) ?_ ?_ ?_ (fun o' => raise_emits o _)
      · exact fun o' ho => onThread_refill?_other s _ _ ho
      · cases o <;> rfl
      · cases o <;> rfl
  | opened hrefill hspill hlock =>
      have hothers : ∀ o', o' ≠ o → ∀ r, s.refill? o' = some r → r = .start :=
        fun o' ho r hr => halone hrefill (fun _ => hlock) ho hr
      refine h.within hothers ?_ rfl (refill?_setRefill hrefill .draining) nofun ?_ ?_ ?_
        (fun o' => setRefill_emits .draining)
      · show (s.setRefill o .draining).spill ≠ none
        rw [setRefill, onThread_spill, hspill]
        exact nofun
      · exact fun o' ho => onThread_refill?_other s _ _ ho
      · cases o <;> rfl
      · cases o <;> rfl
  | ended hrefill hspill =>
      have hothers : ∀ o', o' ≠ o → ∀ r, s.refill? o' = some r → r = .start :=
        fun o' ho r hr => halone hrefill nofun ho hr
      refine h.within hothers ?_ ?_ (refill?_setRefill hrefill .truncating) nofun ?_ ?_ ?_
        (fun o' => setRefill_emits .truncating)
      · rw [setRefill, onThread_spill, hspill]
        exact nofun
      · have hheld := h.inside o _ hrefill nofun
        cases o <;> exact hheld
      · exact fun o' ho => onThread_refill?_other s _ _ ho
      · cases o <;> rfl
      · cases o <;> rfl
  | truncated hrefill hspill =>
      have hothers : ∀ o', o' ≠ o → ∀ r, s.refill? o' = some r → r = .start :=
        fun o' ho r hr => halone hrefill nofun ho hr
      refine h.within hothers nofun ?_ (refill?_setRefill hrefill .saving) nofun ?_ ?_ ?_
        (fun o' => setRefill_emits .saving)
      · have hheld := h.inside o _ hrefill nofun
        cases o <;> exact hheld
      · exact fun o' ho => onThread_refill?_other s _ _ ho
      · cases o <;> rfl
      · cases o <;> rfl
  | saved hrefill hspill =>
      have hothers : ∀ o', o' ≠ o → ∀ r, s.refill? o' = some r → r = .start :=
        fun o' ho r hr => halone hrefill nofun ho hr
      refine h.left hothers rfl (refilled_refill? s o) ?_ ?_ ?_ (fun o' => refilled_emits o)
      · exact fun o' ho => onThread_refill?_other s _ _ ho
      · cases o <;> rfl
      · cases o <;> rfl

section Threads

variable {s : EvidencePipeline T} (h : s.Locked)
include h

/-- The worker goes on outside of refills and emissions, or starts a refill. -/
theorem worker_locked {t : EvidencePipeline T} {w : Worker} (hw : s.worker = w)
    (hnone : w.refill? = none) (hemit : ¬w.Emits)
    (hstart : ∀ r, t.worker.refill? = some r → r = .start) (hflushers : t.flushers = s.flushers)
    (hspill : t.spill = s.spill) (hlock : t.spillLock = s.spillLock)
    (hemitLock : t.emitLock = s.emitLock) (hdrops : t.drops = s.drops) : t.Locked := by
  refine h.keep (fun ht => hspill.symm.trans ht) hlock hemitLock (by rw [hdrops]) ?_ ?_
  -- of all threads only the worker changes, and it was in no refill
  · intro o
    cases o with
    | worker =>
        right
        refine ⟨?_, hstart⟩
        show s.worker.refill? = none
        rw [hw, hnone]
    | flusher k =>
        left
        show t.flushers[k]?.bind _ = s.flushers[k]?.bind _
        rw [hflushers]
  · intro o hemits
    cases o with
    | worker =>
        have hworker : s.worker.Emits := hemits
        rw [hw] at hworker
        exact absurd hworker hemit
    | flusher k =>
        obtain ⟨f, hf, hemits⟩ := hemits
        exact ⟨f, by rw [hflushers]; exact hf, hemits⟩

/-- A call of `flush` goes on outside of refills and emissions, or starts one. -/
theorem flusher_locked {k : Nat} {f g : Flusher} (hf : s.flushers[k]? = some f)
    (hnone : f.refill? = none) (hemit : ¬f.Emits) (hstart : ∀ r, g.refill? = some r → r = .start) :
    ({ s with flushers := s.flushers.set k g } : EvidencePipeline T).Locked := by
  obtain ⟨hlt, -⟩ := List.getElem?_eq_some_iff.mp hf
  refine h.keep id rfl rfl Iff.rfl ?_ ?_
  -- of all threads only this call changes, and it was in no refill
  · intro o
    cases o with
    | worker => exact Or.inl rfl
    | flusher j =>
        by_cases hj : k = j
        · subst hj
          right
          refine ⟨?_, ?_⟩
          · show s.flushers[k]?.bind Flusher.refill? = none
            rw [hf]
            exact hnone
          · intro r hr
            have hset : (s.flushers.set k g)[k]?.bind Flusher.refill? = some r := hr
            rw [List.getElem?_set_self hlt] at hset
            exact hstart r hset
        · left
          show (s.flushers.set k g)[j]?.bind Flusher.refill? = s.flushers[j]?.bind Flusher.refill?
          rw [List.getElem?_set_ne hj]
  -- nor was it in the emission
  · intro o hemits
    cases o with
    | worker => exact hemits
    | flusher j =>
        obtain ⟨x, hx, hx'⟩ := hemits
        by_cases hj : k = j
        · subst hj
          obtain rfl := Option.some.inj (hf.symm.trans hx)
          exact absurd hx' hemit
        · exact ⟨x, (List.getElem?_set_ne hj).trans hx, hx'⟩

/-- A new call of `flush` starts a refill. -/
theorem flush_locked : s.flush.Locked := by
  refine h.keep id rfl rfl Iff.rfl ?_ ?_
  · intro o
    cases o with
    | worker => exact Or.inl rfl
    | flusher k =>
        by_cases hk : k < s.flushers.length
        -- a call that was there goes on where it was
        · left
          show (s.flushers ++ [_])[k]?.bind Flusher.refill? = s.flushers[k]?.bind Flusher.refill?
          rw [List.getElem?_append_left hk]
        -- the new call is at the start of its refill
        · right
          have hnone : s.flushers[k]? = none := List.getElem?_eq_none (Nat.le_of_not_lt hk)
          refine ⟨?_, ?_⟩
          · show s.flushers[k]?.bind Flusher.refill? = none
            rw [hnone]
            rfl
          · intro r hr
            obtain ⟨f, hf, hrefill⟩ := Option.bind_eq_some_iff.mp hr
            have hnew : [Flusher.refilling .start][k - s.flushers.length]? = some f :=
              (List.getElem?_append_right (Nat.le_of_not_lt hk)).symm.trans hf
            obtain rfl := List.mem_singleton.mp (List.mem_of_getElem? hnew)
            exact (Option.some.inj hrefill).symm
  · intro o hemits
    cases o with
    | worker => exact hemits
    | flusher k =>
        obtain ⟨f, hf, hf'⟩ := hemits
        obtain ⟨hlt, -⟩ := List.getElem?_eq_some_iff.mp (Option.mem_def.mp hf)
        exact ⟨f, (List.getElem?_append_left hlt).trans hf, hf'⟩

/-- An emission ends. -/
theorem emitted_locked (o : Thread) (dop : Drops.Step T) (hdrops : (s.drops.step dop).emission = none) :
    ({ s.emitted o with drops := s.drops.step dop, emitLock := none } : EvidencePipeline T).Locked := by
  have hspill : (s.emitted o).spill = s.spill := onThread_spill s o _ _
  have hlock : (s.emitted o).spillLock = s.spillLock := by cases o <;> rfl
  refine ⟨?_, ?_, ?_, nofun, ?_⟩
  · intro hnone
    exact hlock.trans (h.unspilled (hspill.symm.trans hnone))
  · intro o' r hr hne
    exact hlock.trans (h.inside o' r ((emitted_refill? s o o').symm.trans hr) hne)
  · intro o' hheld
    obtain ⟨r, hr, hne⟩ := h.holder o' (hlock.symm.trans hheld)
    exact ⟨r, (emitted_refill? s o o').trans hr, hne⟩
  · exact iff_of_true rfl hdrops

/-- A step of no thread. -/
theorem same_locked {t : EvidencePipeline T} (hworker : t.worker = s.worker)
    (hflushers : t.flushers = s.flushers) (hnone : t.spill = none → s.spill = none)
    (hlock : t.spillLock = s.spillLock) (hemitLock : t.emitLock = s.emitLock)
    (hdrops : t.drops.emission = none ↔ s.drops.emission = none) : t.Locked := by
  refine h.keep hnone hlock hemitLock hdrops (fun o => Or.inl ?_) (fun o hemits => ?_)
  · cases o with
    | worker => exact congrArg Worker.refill? hworker
    | flusher k => exact congrArg (fun l : List Flusher => l[k]?.bind Flusher.refill?) hflushers
  · cases o with
    | worker =>
        show t.worker.Emits
        rw [hworker]
        exact hemits
    | flusher k =>
        obtain ⟨f, hf, hf'⟩ := hemits
        exact ⟨f, by rw [hflushers]; exact hf, hf'⟩

end Threads

section Steps

variable {s : EvidencePipeline T} (h : s.Locked)
include h

/-- A span is counted as dropped. -/
theorem drop_locked (k : Nat) (saved : Bool) : (s.drop k saved).Locked := by
  rw [drop]
  split
  · rename_i span rest now hk
    refine same_locked h rfl rfl id rfl rfl ?_
    rw [(s.drops.run_clock_drop now saved).2]
  · exact h

/-- A span is handed to the spill file. -/
theorem spillOver_locked (k : Nat) (fault : Option Nat) : (s.spillOver k fault).Locked := by
  rw [spillOver]
  split
  · rename_i span rest b hk hb hlock
    have hspilled (b' : SpillBuffer) : some b' = none → s.spill = none := by
      intro hnone
      cases hnone
    split <;> exact same_locked h rfl rfl (hspilled _) rfl rfl Iff.rfl
  · exact h

/-- A call of `flush` waits for the queue. -/
theorem join_locked (k : Nat) : (s.join k).Locked := by
  rw [join]
  split
  · rename_i hf hdone
    refine flusher_locked h hf rfl (by decide) fun r hr => ?_
    split at hr <;> cases hr
  · rename_i hf hdone
    refine flusher_locked h hf rfl (by decide) fun r hr => ?_
    cases hr
  · exact h

/-- A call of `flush` counts what is left in the spill file. -/
theorem check_locked (k : Nat) (fault : Bool) : (s.check k fault).Locked := by
  rw [check]
  split
  · rename_i f b hf hb hlock
    have hchecked (g : Flusher) (hg : g.refill? = none) (r : Refill)
        (result : Except PyErr Nat) (hr : (checked g result).refill? = some r) : r = .start := by
      rcases result with e | _ | n
      · cases hr
      · rw [checked, hg] at hr
        cases hr
      · exact (Option.some.inj hr).symm
    by_cases hchecking : f = .checking
    · rw [if_pos hchecking]
      subst hchecking
      exact flusher_locked h hf rfl (by decide) fun r hr => hchecked _ rfl r _ hr
    · rw [if_neg hchecking]
      by_cases hagain : f = .checkingAgain
      · rw [if_pos hagain]
        subst hagain
        exact flusher_locked h hf rfl (by decide) fun r hr => hchecked _ rfl r _ hr
      · rw [if_neg hagain]
        exact h
  · exact h

/-- A thread turns to the pending drops: it takes the lock, or nothing is pending. -/
theorem emitStart_locked (o : Thread) : (s.emitStart o).Locked := by
  rw [emitStart]
  split_ifs with hemits hzero
  · -- nothing to emit, and no marker is on its way
    have hfree : s.emitLock = none := Option.isNone_iff_eq_none.mp hemits.2
    refine ⟨?_, ?_, ?_, ?_, ?_⟩
    · intro hnone
      rw [emitted, onThread_spill] at hnone
      have hlock := h.unspilled hnone
      cases o <;> exact hlock
    · intro o' r hr hne
      have hlock := h.inside o' r ((emitted_refill? s o o').symm.trans hr) hne
      cases o <;> exact hlock
    · intro o' hheld
      have hheld' : s.spillLock = some o' := by cases o <;> exact hheld
      obtain ⟨r, hr, hne⟩ := h.holder o' hheld'
      exact ⟨r, (emitted_refill? s o o').trans hr, hne⟩
    · intro o' hheld
      have hheld' : s.emitLock = some o' := by cases o <;> exact hheld
      rw [hfree] at hheld'
      cases hheld'
    · have hiff := h.emission
      cases o <;> exact hiff
  · have hfree : s.emitLock = none := Option.isNone_iff_eq_none.mp hemits.2
    have hnone : s.drops.emission = none := h.emission.mp hfree
    refine ⟨h.unspilled, h.inside, h.holder, ?_, ?_⟩
    · intro o' hheld
      obtain rfl := Option.some.inj hheld
      exact hemits.1
    · rw [Drops.step, if_pos ⟨Option.isNone_iff_eq_none.mpr hnone, hzero⟩]
      exact iff_of_false (Option.some_ne_none _) (Option.some_ne_none _)
  · exact h

/-- The marker is committed, or the append fails and the emission ends. -/
theorem emitCommit_locked (ok : Bool) : (s.emitCommit ok).Locked := by
  rw [emitCommit]
  split
  · rename_i o n window times hlock hemission
    split
    · refine ⟨h.unspilled, h.inside, h.holder, h.emits, ?_⟩
      rw [Drops.step_commit hemission rfl, if_pos rfl, hlock]
      exact iff_of_false (Option.some_ne_none _) (Option.some_ne_none _)
    · refine emitted_locked h o (.commit false) ?_
      rw [Drops.step_commit hemission rfl]
      rfl
  · exact h

/-- The committed drops are settled, and the emission ends. -/
theorem emitSettle_locked (saved : Bool) : (s.emitSettle saved).Locked := by
  rw [emitSettle]
  split
  · rename_i o n window times hlock hemission
    refine emitted_locked h o (.settle saved) ?_
    rw [Drops.step_settle hemission rfl]
  · exact h

end Steps

/-- **Each step keeps the locks with the threads that hold them.** -/
theorem step_locked {s : EvidencePipeline T} (h : s.Locked) (op : Op T) : (s.step op).Locked := by
  cases op with
  | refill o fault => exact refill_locked h o fault
  | flush => exact flush_locked h
  | drop k saved => exact drop_locked h k saved
  | spillOver k fault => exact spillOver_locked h k fault
  | submit | put | clock | stop =>
      simp only [step, submit, put, clock, stop]
      repeat' split
      all_goals first | exact h | exact same_locked h rfl rfl id rfl rfl Iff.rfl
  | get | timeout | normalize | commit | taskDone =>
      simp only [step, get, timeout, normalize, commit, taskDone]
      repeat' split
      all_goals first
        | exact h
        | refine worker_locked h ‹s.worker = _› rfl id ?_ rfl rfl rfl rfl rfl
          intro r hr
          first | exact (Option.some.inj hr).symm | cases hr
  | join k => exact join_locked h k
  | check k fault => exact check_locked h k fault
  | emitStart o => exact emitStart_locked h o
  | emitCommit ok => exact emitCommit_locked h ok
  | emitSettle saved => exact emitSettle_locked h saved

/-- A new pipeline holds no lock. -/
theorem init_locked {maxQueue : Int} {commitRetries : Nat} {spill : Option SpillBuffer} {drops : Drops T}
    (hdrops : drops.emission = none) : (init maxQueue commitRetries spill drops).Locked := by
  refine ⟨fun _ => rfl, ?_, nofun, nofun, iff_of_true rfl hdrops⟩
  intro o r hr
  cases o <;> cases hr

/-- Every run keeps the locks with the threads that hold them. -/
theorem run_locked {s : EvidencePipeline T} (h : s.Locked) (ops : List (Op T)) : (s.run ops).Locked := by
  induction ops generalizing s with
  | nil => exact h
  | cons op ops ih => exact ih (step_locked h op)

end OpenWright.EvidencePipeline
