import OpenWright.PipelineLocks
import OpenWright.PipelineStop

/-! # The worker of a pipeline

* **`run_alive`** — the worker dies exactly of a drain that meets a failing file system, a cursor that is
  no position, or a line that is no span; otherwise every span in the queue before a sentinel comes to
  be processed, whatever has been raised before. -/

namespace OpenWright.EvidencePipeline

open Python

variable {T : Type}

/-! ## What the worker dies of -/

/-- The next step of the worker's refill fails; where `fault`, the file system fails it. -/
def DrainFails (s : EvidencePipeline T) (fault : Bool) : Prop :=
  match s.worker.refill?, s.spill with
  | some .start, some b => s.spillLock = none ∧ (fault = true ∨ ∃ e, b.seek = .error e)
  | some .draining, some b => fault = true ∨ ∃ e, b.next = .unreadable e
  | some .truncating, some b => fault = true ∧ (b.file.length : Int) ≤ b.consumed
  | some .saving, some _ => fault = true
  | _, _ => False

/-- A step in which no refill of the worker fails. -/
def DrainReads (s : EvidencePipeline T) : Op T → Prop
  | .refill .worker fault => ¬s.DrainFails fault
  | _ => True

/-- The worker has not died. -/
def Alive (s : EvidencePipeline T) : Prop := ∀ e, s.worker ≠ .dead e

/-- A worker that goes on in a refill or an emission is alive. -/
theorem Worker.emitted_ne_dead {w : Worker} (h : ∀ e, w ≠ .dead e) (e : PyErr) : w.emitted ≠ .dead e := by
  cases w with
  | dead => exact h e
  | _ => exact nofun

/-- A refill does not end a worker. -/
theorem Worker.setRefill_ne_dead {w : Worker} (h : ∀ e, w ≠ .dead e) (r : Refill) (e : PyErr) :
    w.setRefill r ≠ .dead e := by
  cases w with
  | dead => exact h e
  | _ => exact nofun

/-- Nor does the end of it. -/
theorem Worker.refilled_ne_dead {w : Worker} (h : ∀ e, w ≠ .dead e) (e : PyErr) :
    w.refilled ≠ .dead e := by
  cases w with
  | finalRefill exiting _ => cases exiting <;> exact nofun
  | dead => exact h e
  | _ => exact nofun

/-- An exception of a refill kills the worker. -/
theorem Worker.raised_dead {w : Worker} {refill : Refill} (h : w.refill? = some refill) (e : PyErr) :
    w.raised e = .dead e := by
  rcases Worker.refill?_eq h with rfl | ⟨exiting, rfl⟩ <;> rfl

/-- **A refill kills the worker exactly where it fails.** -/
theorem refill_alive_iff {s : EvidencePipeline T} (h : s.Alive) (fault : Bool) :
    (s.refillFromSpill .worker fault).Alive ↔ ¬s.DrainFails fault := by
  -- a step that does not fail leaves the worker alive, and one that fails does not
  have hlive {t : EvidencePipeline T} (ht : t.Alive) (hfails : ¬s.DrainFails fault) :
      t.Alive ↔ ¬s.DrainFails fault := iff_of_true ht hfails
  have hdead {r : Refill} (hr : s.worker.refill? = some r) (e : PyErr) (hfails : s.DrainFails fault) :
      (s.raise .worker e).Alive ↔ ¬s.DrainFails fault := by
    refine iff_of_false ?_ (not_not_intro hfails)
    intro halive
    exact halive e (Worker.raised_dead hr e)
  have hset (r : Refill) : (s.setRefill .worker r).Alive := Worker.setRefill_ne_dead h r
  have hrefilled : (s.refilled .worker).Alive := Worker.refilled_ne_dead h
  -- the four parts of a refill, with the fault that each can have
  unfold refillFromSpill
  split
  · rename_i hr
    have hr' : s.worker.refill? = none := hr
    exact hlive h (by simp [DrainFails, hr'])
  · rename_i r hr hspill
    exact hlive hrefilled (by simp [DrainFails, hspill])
  · rename_i b hr hspill
    have hr' : s.worker.refill? = some .start := hr
    split_ifs with hlock hfault
    · have hne : s.spillLock ≠ none := Option.isSome_iff_ne_none.mp hlock
      exact hlive h (by simp [DrainFails, hr', hspill, hne])
    · have hnone : s.spillLock = none := Option.not_isSome_iff_eq_none.mp hlock
      exact hdead hr' _ (by simp [DrainFails, hr', hspill, hnone, hfault])
    · have hnone : s.spillLock = none := Option.not_isSome_iff_eq_none.mp hlock
      split
      · rename_i e hseek
        exact hdead hr' _ (by simp [DrainFails, hr', hspill, hnone, hseek])
      · rename_i hseek
        exact hlive (hset .draining) (by simp [DrainFails, hr', hspill, hseek, hfault])
  · rename_i b hr hspill
    have hr' : s.worker.refill? = some .draining := hr
    split
    · rename_i hfault
      exact hdead hr' _ (by simp [DrainFails, hr', hspill, hfault])
    · rename_i hfault
      split
      · rename_i hnext
        exact hlive (hset .truncating) (by simp [DrainFails, hr', hspill, hnext, hfault])
      · rename_i length hnext
        exact hlive h (by simp [DrainFails, hr', hspill, hnext, hfault])
      · rename_i e hnext
        exact hdead hr' _ (by simp [DrainFails, hr', hspill, hnext])
      · rename_i span length hnext
        split
        · exact hlive (hset .truncating) (by simp [DrainFails, hr', hspill, hnext, hfault])
        · exact hlive h (by simp [DrainFails, hr', hspill, hnext, hfault])
  · rename_i b hr hspill
    have hr' : s.worker.refill? = some .truncating := hr
    split
    · rename_i hfault
      exact hdead hr' _ (by simpa [DrainFails, hr', hspill] using hfault)
    · rename_i hfault
      exact hlive (hset .saving) (by simpa [DrainFails, hr', hspill] using hfault)
  · rename_i b hr hspill
    have hr' : s.worker.refill? = some .saving := hr
    split
    · rename_i hfault
      exact hdead hr' _ (by simp [DrainFails, hr', hspill, hfault])
    · rename_i hfault
      exact hlive hrefilled (by simp [DrainFails, hr', hspill, hfault])

/-- **A step kills the worker exactly where it is a step of its refill that fails.** -/
theorem step_alive_iff {s : EvidencePipeline T} (h : s.Alive) (op : Op T) :
    (s.step op).Alive ↔ s.DrainReads op := by
  have hthread (o : Thread) {f : Worker → Worker} (hf : ∀ e, f s.worker ≠ .dead e)
      (g : Flusher → Flusher) : (s.onThread o f g).Alive := by
    cases o with
    | worker => exact hf
    | flusher k => exact h
  -- an emission never kills its thread: what the ledger raises is caught
  have hemitted := Worker.emitted_ne_dead h
  have hlive {t : EvidencePipeline T} (ht : t.Alive) : t.Alive ↔ True := iff_true_intro ht
  have hfrom {t : EvidencePipeline T} {w : Worker} (ht : t.worker = w) (hw : ∀ e, w ≠ .dead e) :
      t.Alive ↔ True := iff_true_intro fun e he => hw e (ht.symm.trans he)
  cases op with
  | refill o fault =>
      cases o with
      | worker => exact refill_alive_iff h fault
      -- the refill of a call of `flush` kills the call, not the worker
      | flusher k =>
          have hstep := refillFromSpill_step s (.flusher k) fault
          show (s.refillFromSpill (.flusher k) fault).Alive ↔ True
          generalize s.refillFromSpill (.flusher k) fault = t at hstep ⊢
          cases hstep <;> exact hlive h
  | emitStart o =>
      simp only [step, emitStart]
      split_ifs <;> first | exact hlive h | exact hlive (hthread o hemitted _)
  | emitCommit ok =>
      simp only [step, emitCommit]
      repeat' split
      all_goals first | exact hlive h | exact hlive (hthread _ hemitted _)
  | emitSettle saved =>
      simp only [step, emitSettle]
      split <;> first | exact hlive h | exact hlive (hthread _ hemitted _)
  | get | timeout | normalize | commit | taskDone =>
      simp only [step, get, timeout, normalize, commit, taskDone]
      repeat' split
      all_goals first
        | exact hlive h
        | refine hfrom rfl fun e he => ?_
          cases he
  | _ =>
      simp only [step, submit, put, spillOver, clock, drop, flush, join, check, stop]
      repeat' split
      all_goals exact hlive h

/-- A dead worker does nothing more. -/
theorem step_dead {s : EvidencePipeline T} {e : PyErr} (h : s.worker = .dead e) (op : Op T) :
    (s.step op).worker = .dead e := by
  -- the steps of other threads leave it where it is
  have hthread (o : Thread) {f : Worker → Worker} (hf : f (.dead e) = .dead e)
      (g : Flusher → Flusher) : (s.onThread o f g).worker = .dead e := by
    cases o with
    | worker => rw [onThread, h, hf]
    | flusher k => exact h
  cases op with
  | refill o fault =>
      have hstep := refillFromSpill_step s o fault
      show (s.refillFromSpill o fault).worker = .dead e
      generalize s.refillFromSpill o fault = t at hstep ⊢
      cases hstep <;> first | exact h | exact hthread o rfl _
  | emitStart o =>
      simp only [step, emitStart]
      split_ifs <;> first | exact h | exact hthread o rfl _
  | emitCommit ok =>
      simp only [step, emitCommit]
      repeat' split
      all_goals first | exact h | exact hthread _ rfl _
  | emitSettle saved =>
      simp only [step, emitSettle]
      split <;> first | exact h | exact hthread _ rfl _
  | get => simp [step, get, h]
  | timeout => simp [step, timeout, h]
  | normalize => simp [step, normalize, h]
  | commit => simp [step, commit, h]
  | taskDone => simp [step, taskDone, h]
  | _ =>
      simp only [step, submit, put, spillOver, clock, drop, flush, join, check, stop]
      repeat' split
      all_goals exact h

/-- A dead worker stays dead. -/
theorem run_dead {s : EvidencePipeline T} {e : PyErr} (h : s.worker = .dead e) (ops : List (Op T)) :
    (s.run ops).worker = .dead e := by
  induction ops generalizing s with
  | nil => exact h
  | cons op ops ih => exact ih (step_dead h op)

/-- **The worker is alive after a run exactly where no step of the run was one of its refill that
fails.** -/
theorem run_alive_iff {s : EvidencePipeline T} (h : s.Alive) (ops : List (Op T)) :
    (s.run ops).Alive ↔ Along DrainReads s ops := by
  induction ops generalizing s with
  | nil => exact iff_of_true h trivial
  | cons op ops ih =>
      have hstep := step_alive_iff h op
      by_cases hop : s.DrainReads op
      · rw [Along, and_iff_right hop]
        exact ih (hstep.mpr hop)
      · have hdead : ¬(s.step op).Alive := fun halive => hop (hstep.mp halive)
        refine iff_of_false ?_ fun halong => hop halong.1
        intro halive
        apply hdead
        intro e he
        exact halive e (run_dead he ops)

/-! ## What the worker can go on to -/

/-- A step of the worker, or of a thread that holds a lock, in which nothing fails. -/
def Op.Calm : Op T → Prop
  | .get | .timeout | .emitStart _ | .emitSettle _ | .taskDone => True
  | .refill _ fault => fault = false
  | .emitCommit ok | .normalize ok | .commit ok => ok = true
  | _ => False

/-- The lines that are pending are read, and the locks are with the threads that hold them. -/
structure Sound (s : EvidencePipeline T) : Prop where
  spill : ∀ b, s.spill = some b → ∃ q, b.Holds q
  locked : s.Locked

/-- Steps in which nothing fails take the pipeline to another state, with spans behind those in the
queue, and commit the spans `done`. -/
structure Resumes (s t : EvidencePipeline T) (done : List SpanData) : Prop where
  run : ∃ ops, (∀ op ∈ ops, op.Calm) ∧ t = s.run ops
  sound : t.Sound
  queue : ∃ more : List SpanData, t.queue = s.queue ++ more.map .span
  processed : t.processed = s.processed ++ done

namespace Resumes

/-- No step. -/
theorem refl {s : EvidencePipeline T} (h : s.Sound) : Resumes s s [] := by
  refine ⟨⟨[], fun op hop => absurd hop List.not_mem_nil, rfl⟩, h, ⟨[], ?_⟩, ?_⟩
  · rw [List.map_nil, List.append_nil]
  · rw [List.append_nil]

/-- Steps after steps. -/
theorem trans {s t u : EvidencePipeline T} {done done' : List SpanData} (h : Resumes s t done)
    (h' : Resumes t u done') : Resumes s u (done ++ done') := by
  obtain ⟨⟨ops, hops, rfl⟩, -, ⟨more, hmore⟩, hdone⟩ := h
  obtain ⟨⟨ops', hops', rfl⟩, hsound, ⟨more', hmore'⟩, hdone'⟩ := h'
  refine ⟨⟨ops ++ ops', ?_, ?_⟩, hsound, ⟨more ++ more', ?_⟩, ?_⟩
  · intro op hop
    rcases List.mem_append.mp hop with hmem | hmem
    · exact hops op hmem
    · exact hops' op hmem
  · exact List.foldl_append.symm
  · rw [hmore', hmore, List.map_append, List.append_assoc]
  · rw [hdone', hdone, List.append_assoc]

/-- One step that leaves the queue and the buffer. -/
theorem step {s : EvidencePipeline T} (h : s.Sound) (op : Op T) (hop : op.Calm)
    (hspill : (s.step op).spill = s.spill) (hqueue : (s.step op).queue = s.queue)
    {done : List SpanData} (hdone : (s.step op).processed = s.processed ++ done) :
    Resumes s (s.step op) done := by
  refine ⟨⟨[op], ?_, rfl⟩, ⟨?_, step_locked h.locked op⟩, ⟨[], ?_⟩, hdone⟩
  · intro o ho
    rw [List.mem_singleton.mp ho]
    exact hop
  · rw [hspill]
    exact h.spill
  · rw [hqueue, List.map_nil, List.append_nil]

/-- The rest of a refill. -/
theorem drained {s : EvidencePipeline T} (h : s.Sound) {o : Thread} {n accepted : Nat} {b : SpillBuffer}
    {more : List SpanData} (hb : ∃ q, b.Holds q)
    (hrun : s.run (List.replicate n (.refill o false))
      = s.drained o b (s.queue ++ more.map .span) accepted) :
    Resumes s (s.drained o b (s.queue ++ more.map .span) accepted) [] := by
  refine ⟨⟨List.replicate n (.refill o false), ?_, hrun.symm⟩, ⟨?_, ?_⟩, ⟨more, rfl⟩, ?_⟩
  · intro op hop
    rw [List.eq_of_mem_replicate hop]
    rfl
  · intro c hc
    obtain rfl := Option.some.inj hc
    exact hb
  · rw [← hrun]
    exact run_locked h.locked _
  · rw [List.append_nil]
    cases o <;> rfl

end Resumes

/-- **A thread that holds the lock of the buffer can give it back.** -/
theorem resumes_unlocked {s : EvidencePipeline T} (h : s.Sound) {o : Thread}
    (hlock : s.spillLock = some o) : ∃ t, Resumes s t [] ∧ t.spillLock = none ∧
      t.worker = (s.refilled o).worker ∧ t.emitLock = s.emitLock ∧ t.drops = s.drops := by
  obtain ⟨r, hr, hne⟩ := h.locked.holder o hlock
  cases hspill : s.spill with
  | none =>
      rw [h.locked.unspilled hspill] at hlock
      cases hlock
  | some b =>
      obtain ⟨q, hq⟩ := h.spill b hspill
      obtain ⟨n, b', accepted, more, hb', hrun⟩ := run_inside hq hr hne hspill
      refine ⟨_, .drained h hb' hrun, rfl, rfl, ?_, ?_⟩ <;> cases o <;> rfl

/-- A marker that is committed can be settled. -/
theorem resumes_settled {s : EvidencePipeline T} (h : s.Sound) {o : Thread} {e : Emission T}
    (hlock : s.emitLock = some o) (he : s.drops.emission = some e) (hcommitted : e.committed = true) :
    ∃ t, Resumes s t [] ∧ t.emitLock = none ∧ t.worker = (s.emitted o).worker := by
  obtain ⟨n, window, times, committed⟩ := e
  subst hcommitted
  have hstep : s.step (.emitSettle true)
      = { s.emitted o with drops := s.drops.step (.settle true), emitLock := none } := by
    simp [EvidencePipeline.step, emitSettle, hlock, he]
  refine ⟨s.step (.emitSettle true), .step h (.emitSettle true) trivial ?_ ?_ ?_, ?_, ?_⟩ <;>
    rw [hstep] <;> cases o <;>
    simp [emitted, onThread]

/-- **A thread that holds `_emit_lock` can give it back.** -/
theorem resumes_emitted {s : EvidencePipeline T} (h : s.Sound) {o : Thread}
    (hlock : s.emitLock = some o) : ∃ t, Resumes s t [] ∧ t.emitLock = none ∧
      t.worker = (s.emitted o).worker := by
  cases he : s.drops.emission with
  | none =>
      rw [h.locked.emission.mpr he] at hlock
      cases hlock
  | some e =>
      cases hcommitted : e.committed with
      | true => exact resumes_settled h hlock he hcommitted
      | false =>
          -- the marker is committed first
          have hstep : s.step (.emitCommit true) = { s with drops := s.drops.step (.commit true) } := by
            obtain ⟨n, window, times, committed⟩ := e
            subst hcommitted
            simp [EvidencePipeline.step, emitCommit, hlock, he]
          have hcommit : Resumes s (s.step (.emitCommit true)) [] := by
            refine .step h (.emitCommit true) rfl ?_ ?_ ?_ <;> rw [hstep]
            exact (List.append_nil _).symm
          have hemission : (s.step (.emitCommit true)).drops.emission
              = some { e with committed := true } := by
            rw [hstep, Drops.step_commit he hcommitted]
            rfl
          have hheld : (s.step (.emitCommit true)).emitLock = some o := by rw [hstep, hlock]
          obtain ⟨t, ht, hfree, hworker⟩ := resumes_settled hcommit.sound hheld hemission rfl
          refine ⟨t, hcommit.trans ht, hfree, hworker.trans ?_⟩
          rw [hstep]
          cases o <;> rfl

section Worker

variable {s : EvidencePipeline T} (h : s.Sound)
include h

/-- **The worker can finish its refill.** -/
theorem resumes_refilled {r : Refill} (hr : s.worker.refill? = some r) :
    ∃ t, Resumes s t [] ∧ t.worker = s.worker.refilled := by
  by_cases hstart : r = .start
  · subst hstart
    -- another thread that is in a drain finishes it first
    have hfree : ∃ t, Resumes s t [] ∧ t.spillLock = none ∧ t.worker = s.worker := by
      cases hlock : s.spillLock with
      | none => exact ⟨s, .refl h, hlock, rfl⟩
      | some o =>
          obtain ⟨t, ht, hnone, hworker, -, -⟩ := resumes_unlocked h hlock
          refine ⟨t, ht, hnone, hworker.trans ?_⟩
          cases o with
          | flusher k => rfl
          | worker =>
              obtain ⟨r', hr', hne⟩ := h.locked.holder .worker hlock
              exact absurd (Option.some.inj (hr'.symm.trans hr)) hne
    obtain ⟨t, ht, hlock, hworker⟩ := hfree
    have hrefill : t.refill? .worker = some .start := by
      show t.worker.refill? = some .start
      rw [hworker, hr]
    cases hspill : t.spill with
    | none =>
        have hstep : t.step (.refill .worker false) = t.refilled .worker := by
          simp [EvidencePipeline.step, refillFromSpill, hrefill, hspill]
        have hlast : Resumes t (t.step (.refill .worker false)) [] := by
          refine .step ht.sound (.refill .worker false) rfl ?_ ?_ ?_ <;> rw [hstep]
          · rfl
          · rfl
          · exact (List.append_nil _).symm
        refine ⟨_, ht.trans hlast, ?_⟩
        rw [hstep, ← hworker]
        rfl
    | some b =>
        obtain ⟨q, hq⟩ := ht.sound.spill b hspill
        obtain ⟨n, accepted, -, hrun⟩ := run_refill hq hrefill hspill hlock
        obtain ⟨hholds, more, hmore⟩ := drain_queue hq t.maxQueue t.queue
        rw [hmore] at hrun
        refine ⟨_, ht.trans (.drained ht.sound hholds hrun), ?_⟩
        rw [← hworker]
        rfl
  · have hlock := h.locked.inside .worker r hr hstart
    obtain ⟨t, ht, -, hworker, -, -⟩ := resumes_unlocked h hlock
    exact ⟨t, ht, hworker⟩

/-- **The worker can finish its emission.** -/
theorem resumes_declared (hemits : s.worker.Emits) :
    ∃ t, Resumes s t [] ∧ t.worker = s.worker.emitted := by
  -- from a state in which no thread holds the lock
  have hfree {t : EvidencePipeline T} (ht : t.Sound) (hlock : t.emitLock = none)
      (hworker : t.worker = s.worker) : ∃ u, Resumes t u [] ∧ u.worker = s.worker.emitted := by
    have hemits' : t.Emits .worker := by
      show t.worker.Emits
      rw [hworker]
      exact hemits
    by_cases hzero : t.drops.undeclaredDrops = 0
    · have hstep : t.step (.emitStart .worker) = t.emitted .worker := by
        simp [EvidencePipeline.step, emitStart, hemits', hlock, hzero]
      refine ⟨t.step (.emitStart .worker), .step ht (.emitStart .worker) trivial ?_ ?_ ?_, ?_⟩ <;>
        rw [hstep]
      · rfl
      · rfl
      · exact (List.append_nil _).symm
      · rw [← hworker]
        rfl
    · have hstep : t.step (.emitStart .worker)
          = { t with drops := t.drops.step .snapshot, emitLock := some .worker } := by
        simp [EvidencePipeline.step, emitStart, hemits', hlock, hzero]
      have hsnapshot : Resumes t (t.step (.emitStart .worker)) [] := by
        refine .step ht (.emitStart .worker) trivial ?_ ?_ ?_ <;> rw [hstep]
        exact (List.append_nil _).symm
      have hheld : (t.step (.emitStart .worker)).emitLock = some .worker := by rw [hstep]
      obtain ⟨u, hu, -, hworker'⟩ := resumes_emitted hsnapshot.sound hheld
      refine ⟨u, hsnapshot.trans hu, hworker'.trans ?_⟩
      rw [hstep, ← hworker]
      rfl
  cases hlock : s.emitLock with
  | none => exact hfree h hlock rfl
  | some o =>
      obtain ⟨t, ht, hnone, hworker⟩ := resumes_emitted h hlock
      cases o with
      | worker => exact ⟨t, ht, hworker⟩
      | flusher k =>
          obtain ⟨u, hu, hdone⟩ := hfree ht.sound hnone hworker
          exact ⟨u, ht.trans hu, hdone⟩

end Worker

/-! ## Rounds -/

/-- The worker can come back to the top of its loop with the spans `done` committed. -/
def ComesBack (s : EvidencePipeline T) (done : List SpanData) : Prop :=
  ∃ t, Resumes s t done ∧ t.worker = .top

namespace ComesBack

variable {s : EvidencePipeline T} (h : s.Sound)
include h

omit h in
/-- From where some steps lead. -/
theorem after {t : EvidencePipeline T} {done done' : List SpanData} (ht : Resumes s t done)
    (hback : t.ComesBack done') : s.ComesBack (done ++ done') := by
  obtain ⟨u, hu, htop⟩ := hback
  exact ⟨u, ht.trans hu, htop⟩

/-- From the refill in the `finally` block. -/
theorem finalRefill {r : Refill} (hw : s.worker = .finalRefill false r) : s.ComesBack [] := by
  obtain ⟨t, ht, hworker⟩ := resumes_refilled h (congrArg Worker.refill? hw)
  exact ⟨t, ht, by rw [hworker, hw]; rfl⟩

/-- From `task_done`. -/
theorem taskDone (hw : s.worker = .taskDone false) : s.ComesBack [] := by
  have hstep : s.step .taskDone
      = { s with unfinished := s.unfinished - 1, worker := .finalRefill false .start } := by
    simp [step, EvidencePipeline.taskDone, hw]
  have ht : Resumes s (s.step .taskDone) [] := by
    refine .step h .taskDone trivial ?_ ?_ ?_ <;> rw [hstep]
    exact (List.append_nil _).symm
  exact after ht (finalRefill ht.sound (by rw [hstep]))

/-- From an attempt to commit a span. -/
theorem committing {span : SpanData} {attempt : Nat} (hw : s.worker = .committing span attempt) :
    s.ComesBack [span] := by
  have hstep : s.step (.commit true)
      = { s with processed := s.processed ++ [span], worker := .taskDone false } := by
    simp [step, commit, hw]
  have ht : Resumes s (s.step (.commit true)) [span] := by
    refine .step h (.commit true) rfl ?_ ?_ ?_ <;> rw [hstep]
  exact after ht (taskDone ht.sound (by rw [hstep]))

/-- From normalizing a span. -/
theorem normalizing {span : SpanData} (hw : s.worker = .normalizing span) : s.ComesBack [span] := by
  have hstep : s.step (.normalize true) = { s with worker := .committing span 0 } := by
    simp [step, normalize, hw]
  have ht : Resumes s (s.step (.normalize true)) [] := by
    refine .step h (.normalize true) rfl ?_ ?_ ?_ <;> rw [hstep]
    exact (List.append_nil _).symm
  exact after ht (committing ht.sound (by rw [hstep]))

/-- From the emission before a span. -/
theorem spanEmit {span : SpanData} (hw : s.worker = .spanEmit span) : s.ComesBack [span] := by
  obtain ⟨t, ht, hworker⟩ := resumes_declared h (by rw [hw]; trivial)
  exact after ht (normalizing ht.sound (by rw [hworker, hw]; rfl))

/-- From the emission of an idle worker. -/
theorem idleEmit (hw : s.worker = .idleEmit) : s.ComesBack [] := by
  obtain ⟨t, ht, hworker⟩ := resumes_declared h (by rw [hw]; trivial)
  exact ⟨t, ht, by rw [hworker, hw]; rfl⟩

/-- From the refill of an idle worker. -/
theorem idleRefill {r : Refill} (hw : s.worker = .idleRefill r) : s.ComesBack [] := by
  obtain ⟨t, ht, hworker⟩ := resumes_refilled h (congrArg Worker.refill? hw)
  exact after ht (idleEmit ht.sound (by rw [hworker, hw]; rfl))

end ComesBack

/-- **A worker that lives and has no sentinel comes back to the top of its loop**, with the span that it
holds committed. -/
theorem comesBack {s : EvidencePipeline T} (h : s.Sound) (halive : s.Alive) (hloops : s.worker.Loops) :
    s.ComesBack s.worker.held := by
  cases hw : s.worker with
  | top => exact ⟨s, .refl h, hw⟩
  | idleRefill r => exact .idleRefill h hw
  | idleEmit => exact .idleEmit h hw
  | spanEmit span => exact .spanEmit h hw
  | normalizing span => exact .normalizing h hw
  | committing span attempt => exact .committing h hw
  | taskDone exiting =>
      rw [hw] at hloops
      cases exiting with
      | false => exact .taskDone h hw
      | true => exact hloops.elim
  | finalRefill exiting r =>
      rw [hw] at hloops
      cases exiting with
      | false => exact .finalRefill h hw
      | true => exact hloops.elim
  | sentinelEmit | exited =>
      rw [hw] at hloops
      exact hloops.elim
  | dead e => exact absurd hw (halive e)

/-- The worker comes back and takes the next span. -/
theorem takes_next {s : EvidencePipeline T} (h : s.Sound) (halive : s.Alive) (hloops : s.worker.Loops)
    {span : SpanData} {rest : List Item} (hqueue : s.queue = .span span :: rest) :
    ∃ ops, (∀ op ∈ ops, op.Calm) ∧ (s.run ops).Sound ∧ (s.run ops).worker = .spanEmit span ∧
      (∃ more : List SpanData, (s.run ops).queue = rest ++ more.map .span) ∧
      (s.run ops).processed = s.processed ++ s.worker.held := by
  obtain ⟨t, ⟨⟨ops, hops, rfl⟩, hsound, ⟨more, hmore⟩, hdone⟩, htop⟩ := comesBack h halive hloops
  -- back at the top, the span is still the first of the queue
  rw [hqueue, List.cons_append] at hmore
  have hget : (s.run ops).step .get
      = { s.run ops with queue := rest ++ more.map .span, worker := .spanEmit span } := by
    simp [step, get, htop, hmore]
  have hrun : s.run (ops ++ [.get]) = (s.run ops).step .get := run_append s ops [.get]
  refine ⟨ops ++ [.get], ?_, ?_⟩
  · intro op hop
    rcases List.mem_append.mp hop with hmem | hmem
    · exact hops op hmem
    · rw [List.mem_singleton.mp hmem]
      trivial
  · rw [hrun]
    refine ⟨⟨?_, step_locked hsound.locked .get⟩, ?_, ⟨more, ?_⟩, ?_⟩
    · rw [hget]
      exact hsound.spill
    · rw [hget]
    · rw [hget]
    · rw [hget]
      exact hdone

/-- **The spans in the queue before a sentinel come to be committed**, in order. -/
theorem comes_to_be_processed {s : EvidencePipeline T} (h : s.Sound) (halive : s.Alive)
    (hloops : s.worker.Loops) {front back : List Item} {span : SpanData}
    (hqueue : s.queue = front ++ .span span :: back) (hfront : Item.sentinel ∉ front) :
    ∃ ops, (∀ op ∈ ops, op.Calm) ∧ (s.run ops).processed
      = s.processed ++ s.worker.held ++ front.filterMap Item.span? ++ [span] := by
  have hcalm {ops ops' : List (Op T)} (hops : ∀ op ∈ ops, op.Calm) (hops' : ∀ op ∈ ops', op.Calm) :
      ∀ op ∈ ops ++ ops', op.Calm := by
    intro op hop
    rcases List.mem_append.mp hop with hmem | hmem
    · exact hops op hmem
    · exact hops' op hmem
  have hspan {t : EvidencePipeline T} {x : SpanData} (ht : t.worker = .spanEmit x) : t.Alive ∧
      t.worker.Loops ∧ t.worker.held = [x] := by
    refine ⟨?_, ?_, ?_⟩
    · intro e he
      rw [ht] at he
      cases he
    · rw [ht]
      trivial
    · rw [ht]
      rfl
  -- induction on what is in front of the span
  induction front generalizing s back with
  | nil =>
      obtain ⟨ops, hops, hsound, hworker, -, hdone⟩ := takes_next h halive hloops hqueue
      obtain ⟨halive', hloops', hheld⟩ := hspan hworker
      -- the worker takes the span and comes back when it is processed
      obtain ⟨t, ⟨⟨ops', hops', rfl⟩, -, -, hdone'⟩, -⟩ := comesBack hsound halive' hloops'
      refine ⟨ops ++ ops', hcalm hops hops', ?_⟩
      rw [run_append, hdone', hdone, hheld, List.filterMap_nil, List.append_nil]
  | cons item front ih =>
      cases item with
      | sentinel => exact absurd List.mem_cons_self hfront
      | span x =>
          obtain ⟨ops, hops, hsound, hworker, ⟨more, hmore⟩, hdone⟩ := takes_next h halive hloops hqueue
          obtain ⟨halive', hloops', hheld⟩ := hspan hworker
          -- what the worker has put in the queue meanwhile is behind it
          have hqueue' : (s.run ops).queue = front ++ .span span :: (back ++ more.map .span) :=
            hmore.trans (List.append_assoc front (.span span :: back) _)
          obtain ⟨ops', hops', hdone'⟩ := ih hsound halive' hloops' hqueue'
            fun hmem => hfront (List.mem_cons_of_mem _ hmem)
          refine ⟨ops ++ ops', hcalm hops hops', ?_⟩
          rw [run_append, hdone', hdone, hheld]
          simp [Item.span?]

/-! ## The worker never dies, unless of a drain -/

/-- **The worker is alive after a run exactly where no step of its refills has failed**, whatever
normalization, commits and the journal have raised; and then the spans in the queue before a sentinel
come to be committed, if the pending lines can be read. -/
theorem run_alive {maxQueue : Int} {commitRetries : Nat} {spill : Option SpillBuffer} {durable : Bool}
    {journal : Option (DropIntent T)} {markers : List (GapMarker T)} {recorded : Nat}
    {ops : List (Op T)} :
    let s₀ := init maxQueue commitRetries spill (Drops.init durable journal markers recorded)
    ((s₀.run ops).Alive ↔ Along DrainReads s₀ ops) ∧
      (Along DrainReads s₀ ops → (∀ b, (s₀.run ops).spill = some b → ∃ q, b.Holds q) →
        (s₀.run ops).worker.Loops → ∀ front span back,
          (s₀.run ops).queue = front ++ .span span :: back → Item.sentinel ∉ front →
          ∃ more, (∀ op ∈ more, op.Calm) ∧ ((s₀.run ops).run more).processed
            = (s₀.run ops).processed ++ (s₀.run ops).worker.held ++ front.filterMap Item.span?
              ++ [span]) := by
  intro s₀
  have halive : s₀.Alive := nofun
  have hiff := run_alive_iff halive ops
  refine ⟨hiff, ?_⟩
  intro hreads hspill hloops front span back hqueue hfront
  have hlocked : (s₀.run ops).Locked := run_locked (init_locked rfl) ops
  exact comes_to_be_processed ⟨hspill, hlocked⟩ (hiff.mpr hreads) hloops hqueue hfront

/-- Three spans, of which the first cannot be normalized. -/
def sampleRaise : List (Op Nat) :=
  [.submit [SpillBuffer.sampleSpan, SpillBuffer.sampleSpan, SpillBuffer.sampleSpan], .put 0, .put 0,
    .put 0, .get, .emitStart .worker, .normalize false]

/-- The worker outlives a span that does not normalize, and processes the two behind it. -/
theorem run_alive_sample :
    let s := (init 10 3 (some (SpillBuffer.init none none)) (Drops.init true none [] 0)).run sampleRaise
    s.unnormalized.length = 1 ∧ s.Alive ∧ ∃ more, (∀ op ∈ more, op.Calm) ∧ (s.run more).processed
      = [SpillBuffer.sampleSpan, SpillBuffer.sampleSpan] := by
  obtain ⟨hiff, hprocessed⟩ := @run_alive Nat 10 3 (some (SpillBuffer.init none none)) true none [] 0
    sampleRaise
  have hreads : Along DrainReads (init 10 3 (some (SpillBuffer.init none none))
      (Drops.init true none [] 0))
      sampleRaise :=
    ⟨trivial, trivial, trivial, trivial, trivial, trivial, trivial, trivial⟩
  have hspill : ∀ b, some (SpillBuffer.init none none) = some b → ∃ q, b.Holds q := by
    intro b hb
    obtain rfl := Option.some.inj hb
    exact ⟨[], SpillBuffer.init_holds⟩
  exact ⟨rfl, hiff.mpr hreads, hprocessed hreads hspill trivial [.span SpillBuffer.sampleSpan]
    SpillBuffer.sampleSpan [] rfl (by simp)⟩

/-- **A torn line kills the worker**, and so does a cursor that is no position; a span submitted then is
never taken. -/
theorem run_dies :
    let torn := (init 10 3 (some (SpillBuffer.init (some [123]) none)) (Drops.init true none [] 0)).run
      [.timeout, .refill .worker false, .refill .worker false]
    let lost := (init 10 3 (some (SpillBuffer.init (some []) (some (-1))))
      (Drops.init true none [] 0)).run [.timeout, .refill .worker false]
    ∀ ops : List (Op Nat), ¬(torn.run ops).Alive ∧ ¬(lost.run ops).Alive := by
  intro torn lost
  have htorn : torn.worker = .dead { kind := .jsonDecodeError } := by decide +kernel
  have hlost : lost.worker = .dead osError := by decide +kernel
  intro ops
  constructor
  · intro halive
    exact halive _ (run_dead htorn ops)
  · intro halive
    exact halive _ (run_dead hlost ops)

end OpenWright.EvidencePipeline
