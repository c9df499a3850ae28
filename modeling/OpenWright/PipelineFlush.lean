import OpenWright.PipelineFlow

/-! # Flushing the pipeline -/

namespace OpenWright.EvidencePipeline

open Python

variable {T : Type}

/-! ## What a call of `flush` does -/

/-- A step of the pipeline, and what it makes of the call of `flush` number `k`. -/
inductive FlushStep (s : EvidencePipeline T) (k : Nat) : Op T → Flusher → Flusher → Prop
  | stay (op : Op T) (f : Flusher) : FlushStep s k op f f
  | refill (fault : Bool) (r r' : Refill) :
      FlushStep s k (.refill (.flusher k) fault) (.refilling r) (.refilling r')
  | refilled (fault : Bool) (r : Refill) :
      FlushStep s k (.refill (.flusher k) fault) (.refilling r) .joining
  | failed (fault : Bool) (r : Refill) (e : PyErr) :
      FlushStep s k (.refill (.flusher k) fault) (.refilling r) (.raised e)
  | joined (hdone : s.unfinished = 0) (hspill : s.spill = none) :
      FlushStep s k (.join k) .joining .emitting
  | joinedSpill (hdone : s.unfinished = 0) : FlushStep s k (.join k) .joining .checking
  | joinedAgain (hdone : s.unfinished = 0) : FlushStep s k (.join k) .joiningAgain .checkingAgain
  | checked {b : SpillBuffer} (hspill : s.spill = some b) (hpending : b.pending = .ok 0) (fault : Bool) :
      FlushStep s k (.check k fault) .checking .joiningAgain
  | checkedAgain {b : SpillBuffer} (hspill : s.spill = some b) (hpending : b.pending = .ok 0)
      (fault : Bool) : FlushStep s k (.check k fault) .checkingAgain .emitting
  | again (fault : Bool) (f : Flusher) : FlushStep s k (.check k fault) f (.refilling .start)
  | checkFailed (fault : Bool) (f : Flusher) (e : PyErr) : FlushStep s k (.check k fault) f (.raised e)
  | declared (hnone : s.drops.undeclaredDrops = 0) :
      FlushStep s k (.emitStart (.flusher k)) .emitting .returned
  | refused (hlock : s.emitLock = some (.flusher k)) :
      FlushStep s k (.emitCommit false) .emitting .returned
  | settled (hlock : s.emitLock = some (.flusher k)) {e : Emission T}
      (hemission : s.drops.emission = some e) (hcommitted : e.committed = true) (saved : Bool) :
      FlushStep s k (.emitSettle saved) .emitting .returned

section OnThread

variable (s : EvidencePipeline T) {k : Nat} {f : Flusher} (hf : s.flushers[k]? = some f)
  (onWorker : Worker → Worker) (onFlusher : Flusher → Flusher)
include hf

/-- A thread changes where it is itself. -/
theorem onThread_flusher : (s.onThread (.flusher k) onWorker onFlusher).flushers[k]?
    = some (onFlusher f) := by
  simp [onThread, hf]

/-- No thread changes where another is. -/
theorem onThread_other {o : Thread} (ho : o ≠ .flusher k) :
    (s.onThread o onWorker onFlusher).flushers[k]? = some f := by
  cases o with
  | worker => exact hf
  | flusher j =>
      have hj : j ≠ k := fun heq => ho (congrArg Thread.flusher heq)
      simp [onThread, hf, hj]

/-- Where a thread leaves the call of `flush`: elsewhere if it is this one. -/
theorem onThread_cases (o : Thread) :
    (o = .flusher k ∧ (s.onThread o onWorker onFlusher).flushers[k]? = some (onFlusher f)) ∨
      (s.onThread o onWorker onFlusher).flushers[k]? = some f := by
  by_cases ho : o = .flusher k
  · subst ho
    exact Or.inl ⟨rfl, onThread_flusher s hf onWorker onFlusher⟩
  · exact Or.inr (onThread_other s hf onWorker onFlusher ho)

end OnThread

section Steps

variable (s : EvidencePipeline T) {k : Nat} {f : Flusher} (hf : s.flushers[k]? = some f)
include hf

/-- A step that no call of `flush` takes. -/
theorem stay_flusher {t : EvidencePipeline T} (ht : t.flushers = s.flushers) (op : Op T) :
    ∃ f', t.flushers[k]? = some f' ∧ FlushStep s k op f f' :=
  ⟨f, by rw [ht, hf], .stay op f⟩

/-- The step of another call. -/
theorem set_flusher_other {j : Nat} (hj : j ≠ k) (g : Flusher) :
    (s.flushers.set j g)[k]? = some f := by
  rw [List.getElem?_set_ne hj, hf]

/-- The step of the call itself. -/
theorem set_flusher_self (g : Flusher) : (s.flushers.set k g)[k]? = some g := by
  obtain ⟨hlt, -⟩ := List.getElem?_eq_some_iff.mp hf
  exact List.getElem?_set_self hlt

/-- The thread of a refill goes on in it, returns from it, or raises. -/
theorem refill_flusher (o : Thread) (fault : Bool) :
    ∃ f', (s.refillFromSpill o fault).flushers[k]? = some f' ∧ FlushStep s k (.refill o fault) f f' := by
  -- the refill may be that of this call or of another thread, which this one does not notice
  have hset (r : Refill) : ∃ f', (s.setRefill o r).flushers[k]? = some f' ∧
      FlushStep s k (.refill o fault) f f' := by
    rcases onThread_cases s hf (Worker.setRefill r) (Flusher.setRefill r) o with ⟨rfl, hk⟩ | hk
    · refine ⟨_, hk, ?_⟩
      cases f <;> first | exact .refill fault _ r | exact .stay _ _
    · exact ⟨f, hk, .stay _ f⟩
  have hrefilled : ∃ f', (s.refilled o).flushers[k]? = some f' ∧
      FlushStep s k (.refill o fault) f f' := by
    rcases onThread_cases s hf Worker.refilled Flusher.refilled o with ⟨rfl, hk⟩ | hk
    · refine ⟨_, hk, ?_⟩
      cases f <;> first | exact .refilled fault _ | exact .stay _ _
    · exact ⟨f, hk, .stay _ f⟩
  have hraise (e : PyErr) : ∃ f', (s.raise o e).flushers[k]? = some f' ∧
      FlushStep s k (.refill o fault) f f' := by
    rcases onThread_cases s hf (Worker.raised e) (Flusher.failed e) o with ⟨rfl, hk⟩ | hk
    · refine ⟨_, hk, ?_⟩
      cases f <;> first | exact .failed fault _ e | exact .stay _ _
    · exact ⟨f, hk, .stay _ f⟩
  have hstep := refillFromSpill_step s o fault
  generalize s.refillFromSpill o fault = t at hstep ⊢
  cases hstep with
  | stay | skipped | accepted => exact stay_flusher s hf rfl _
  | absent | saved => exact hrefilled
  | opened | ended | truncated => exact hset _
  | raised => exact hraise _

/-- A call that finds no pending drops is done with them. -/
theorem emitStart_flusher (o : Thread) :
    ∃ f', (s.emitStart o).flushers[k]? = some f' ∧ FlushStep s k (.emitStart o) f f' := by
  rw [emitStart]
  split_ifs with hemits hnone
  · rcases onThread_cases s hf Worker.emitted Flusher.emitted o with ⟨rfl, hk⟩ | hk
    · refine ⟨_, hk, ?_⟩
      cases f <;> first | exact .declared hnone | exact .stay _ _
    · exact ⟨f, hk, .stay _ f⟩
  · exact stay_flusher s hf rfl _
  · exact stay_flusher s hf rfl _

/-- A call whose marker is refused gives up on it. -/
theorem emitCommit_flusher (ok : Bool) :
    ∃ f', (s.emitCommit ok).flushers[k]? = some f' ∧ FlushStep s k (.emitCommit ok) f f' := by
  rw [emitCommit]
  split
  · rename_i o n window times hlock hemission
    split
    · exact stay_flusher s hf rfl _
    · rename_i hok
      obtain rfl := Bool.eq_false_iff.mpr hok
      rcases onThread_cases s hf Worker.emitted Flusher.emitted o with ⟨rfl, hk⟩ | hk
      · refine ⟨_, hk, ?_⟩
        cases f <;> first | exact .refused hlock | exact .stay _ _
      · exact ⟨f, hk, .stay _ f⟩
  · exact stay_flusher s hf rfl _

/-- A call settles the drops of its marker. -/
theorem emitSettle_flusher (saved : Bool) :
    ∃ f', (s.emitSettle saved).flushers[k]? = some f' ∧ FlushStep s k (.emitSettle saved) f f' := by
  rw [emitSettle]
  split
  · rename_i o n window times hlock hemission
    rcases onThread_cases s hf Worker.emitted Flusher.emitted o with ⟨rfl, hk⟩ | hk
    · refine ⟨_, hk, ?_⟩
      cases f <;> first | exact .settled hlock hemission rfl saved | exact .stay _ _
    · exact ⟨f, hk, .stay _ f⟩
  · exact stay_flusher s hf rfl _

/-- A call finds the queue done. -/
theorem join_flusher (j : Nat) :
    ∃ f', (s.join j).flushers[k]? = some f' ∧ FlushStep s k (.join j) f f' := by
  by_cases hj : j = k
  · subst hj
    rw [join, hf]
    split
    · rename_i hjoining hdone
      obtain rfl := Option.some.inj hjoining
      refine ⟨_, set_flusher_self s hf _, ?_⟩
      split
      · rename_i hspill
        exact .joined hdone (Option.isNone_iff_eq_none.mp hspill)
      · exact .joinedSpill hdone
    · rename_i hjoining hdone
      obtain rfl := Option.some.inj hjoining
      exact ⟨_, set_flusher_self s hf _, .joinedAgain hdone⟩
    · exact stay_flusher s hf rfl _
  · rw [join]
    split
    · exact ⟨f, set_flusher_other s hf hj _, .stay _ f⟩
    · exact ⟨f, set_flusher_other s hf hj _, .stay _ f⟩
    · exact stay_flusher s hf rfl _

/-- A call counts what is left in the spill file: the number of spans, or an exception. -/
theorem check_flusher (j : Nat) (fault : Bool) :
    ∃ f', (s.check j fault).flushers[k]? = some f' ∧ FlushStep s k (.check j fault) f f' := by
  -- the call itself looks at the file, once in each of its two checks
  by_cases hj : j = k
  · subst hj
    rw [check, hf]
    split
    · rename_i g b hg hspill hlock
      obtain rfl := Option.some.inj hg
      rcases hpending : (if fault then .error osError else b.pending : Except PyErr Nat)
        with e | _ | n
      · split_ifs
        · exact ⟨_, set_flusher_self s hf _, .checkFailed fault f e⟩
        · exact ⟨_, set_flusher_self s hf _, .checkFailed fault f e⟩
        · exact stay_flusher s hf rfl _
      -- nothing is pending: the first check leads to another join, the second one out of the loop
      · have hzero : b.pending = .ok 0 := by
          split at hpending
          · cases hpending
          · exact hpending
        split_ifs with hchecking hagain
        · subst hchecking
          exact ⟨_, set_flusher_self s hf _, .checked hspill hzero fault⟩
        · subst hagain
          exact ⟨_, set_flusher_self s hf _, .checkedAgain hspill hzero fault⟩
        · exact stay_flusher s hf rfl _
      · split_ifs
        · exact ⟨_, set_flusher_self s hf _, .again fault f⟩
        · exact ⟨_, set_flusher_self s hf _, .again fault f⟩
        · exact stay_flusher s hf rfl _
    · exact stay_flusher s hf rfl _
  -- another call looks at the file, which this one does not notice
  · rw [check]
    split
    · rename_i g b hg hspill hlock
      by_cases hchecking : g = .checking
      · rw [if_pos hchecking]
        exact ⟨f, set_flusher_other s hf hj _, .stay _ f⟩
      · rw [if_neg hchecking]
        by_cases hagain : g = .checkingAgain
        · rw [if_pos hagain]
          exact ⟨f, set_flusher_other s hf hj _, .stay _ f⟩
        · rw [if_neg hagain]
          exact stay_flusher s hf rfl _
    · exact stay_flusher s hf rfl _

end Steps

/-- **What a step makes of a call of `flush`.** -/
theorem step_flusher (s : EvidencePipeline T) (op : Op T) {k : Nat} {f : Flusher}
    (hf : s.flushers[k]? = some f) :
    ∃ f', (s.step op).flushers[k]? = some f' ∧ FlushStep s k op f f' := by
  cases op with
  | refill o fault => exact refill_flusher s hf o fault
  | emitStart o => exact emitStart_flusher s hf o
  | emitCommit ok => exact emitCommit_flusher s hf ok
  | emitSettle saved => exact emitSettle_flusher s hf saved
  | join j => exact join_flusher s hf j
  | check j fault => exact check_flusher s hf j fault
  | flush =>
      refine ⟨f, ?_, .stay _ f⟩
      obtain ⟨hlt, -⟩ := List.getElem?_eq_some_iff.mp hf
      exact (List.getElem?_append_left hlt).trans hf
  | _ =>
      simp only [step, submit, put, spillOver, clock, drop, get, timeout, normalize, commit, taskDone,
        stop]
      repeat' split
      all_goals exact stay_flusher s hf rfl _

/-! ## Empty places -/

/-- How far along the places are empty where a call of `flush` has come to, when no thread submits
spans: after `_spill.pending` the hands and the buffer, after the second `_q.join` the queue and the
worker too. -/
def Flusher.reached : Flusher → Nat
  | .joiningAgain => 1
  | .checkingAgain | .emitting | .returned => 3
  | _ => 0

/-- The first places up to the one with that rank are empty. -/
abbrev EmptyUpTo (s : EvidencePipeline T) (n : Nat) : Prop := Places.EmptyUpTo Place.rank s.flow n

section Empty

variable {s : EvidencePipeline T}

/-- No span is in hand. -/
theorem emptyUpTo_zero (hhand : s.inHand = []) : s.EmptyUpTo 0 := by
  intro p hp
  cases p with
  | hand => exact congrArg Multiset.ofList hhand
  | _ => exact absurd hp (by decide)

/-- No span is in hand or pending. -/
theorem emptyUpTo_one (hhand : s.EmptyUpTo 0) (hpending : s.pending = []) : s.EmptyUpTo 1 := by
  intro p hp
  cases p with
  | hand => exact hhand .hand (Nat.le_refl 0)
  | spill => exact congrArg Multiset.ofList hpending
  | _ => exact absurd hp (by decide)

/-- Where no task is unfinished, nothing is in the queue or with the worker. -/
theorem Counted.empty (h : s.Counted) (hdone : s.unfinished = 0) :
    s.queue = [] ∧ s.worker.held = [] := by
  rw [Counted, hdone] at h
  refine ⟨List.length_eq_zero_iff.mp (by omega), ?_⟩
  have htaken : s.worker.taken = 0 := by omega
  cases hworker : s.worker <;> rw [hworker] at htaken <;> first | rfl | cases htaken

/-- Then the places up to the worker are empty, if those up to the spill buffer are. -/
theorem Counted.emptyUpTo (h : s.Counted) (hdone : s.unfinished = 0) (hspill : s.EmptyUpTo 1) :
    s.EmptyUpTo 3 := by
  obtain ⟨hqueue, hheld⟩ := h.empty hdone
  intro p hp
  cases p with
  | hand => exact hspill .hand (by decide)
  | spill => exact hspill .spill (by decide)
  | queue =>
      show ((s.queue.filterMap Item.span? : List SpanData) : Multiset SpanData) = 0
      rw [hqueue]
      rfl
  | worker => exact congrArg Multiset.ofList hheld
  | _ => exact absurd hp (by decide)

/-- A buffer in which nothing is pending. -/
theorem pending_eq_nil {b : SpillBuffer} (hspill : s.spill = some b) (h : s.Readable)
    (hpending : b.pending = .ok 0) : s.pending = [] := by
  obtain ⟨q, hq⟩ := h.spill b hspill
  rw [hq.pending_eq] at hpending
  rw [pending_of_holds hspill hq]
  exact List.length_eq_zero_iff.mp (Except.ok.inj hpending)

end Empty

/-- **What `flush` has waited for stays done** while no thread submits spans. -/
theorem step_reached {s : EvidencePipeline T} (h : s.Readable) (hcounted : s.Counted) {op : Op T}
    (hop : op.Whole) (hsubmit : op.NoSubmit) {k : Nat} {f f' : Flusher}
    (hstep : FlushStep s k op f f') (hempty : s.EmptyUpTo f.reached) :
    (s.step op).EmptyUpTo f'.reached := by
  have hmoves := (step_flows h hop hsubmit).moves
  have hhand : s.EmptyUpTo 0 := fun p hp => hempty p (Nat.le_trans hp (Nat.zero_le _))
  cases hstep with
  | stay => exact hmoves.empty_upTo hempty
  | refill | refilled | failed | joinedSpill | again | checkFailed => exact hmoves.empty_upTo hhand
  | joined hdone hspill =>
      -- without a spill buffer the queue and the worker are all there is
      have hnone : s.pending = [] := by rw [pending, hspill]; rfl
      exact hmoves.empty_upTo (hcounted.emptyUpTo hdone (emptyUpTo_one hhand hnone))
  | joinedAgain hdone => exact hmoves.empty_upTo (hcounted.emptyUpTo hdone hempty)
  | checked hspill hpending =>
      exact hmoves.empty_upTo (emptyUpTo_one hhand (pending_eq_nil hspill h hpending))
  | checkedAgain | declared | refused | settled => exact hmoves.empty_upTo hempty

/-- A call of `flush` in a pipeline to which no thread submits spans. -/
structure Flushing (s : EvidencePipeline T) (k : Nat) : Prop where
  readable : s.Readable
  counted : s.Counted
  flusher : ∃ f, s.flushers[k]? = some f ∧ s.EmptyUpTo f.reached

/-- Each step keeps it. -/
theorem step_flushing {s : EvidencePipeline T} {k : Nat} (h : s.Flushing k) {op : Op T}
    (hop : op.Whole) (hsubmit : op.NoSubmit) : (s.step op).Flushing k := by
  obtain ⟨f, hf, hempty⟩ := h.flusher
  obtain ⟨f', hf', hstep⟩ := step_flusher s op hf
  exact ⟨(step_flows h.readable hop hsubmit).readable, step_counted h.counted op, f', hf',
    step_reached h.readable h.counted hop hsubmit hstep hempty⟩

/-- `flush` is called when no span is in hand. -/
theorem flush_flushing {s : EvidencePipeline T} (h : s.Readable) (hcounted : s.Counted)
    (hhand : s.inHand = []) : s.flush.Flushing s.flushers.length := by
  refine ⟨⟨h.hand, h.spill⟩, hcounted, .refilling .start, ?_, emptyUpTo_zero hhand⟩
  simp [flush]

/-- When `flush` has returned, nothing is left on the way. -/
theorem Flushing.returned {s : EvidencePipeline T} {k : Nat} (h : s.Flushing k)
    (hreturned : s.flushers[k]? = some .returned) :
    s.inHand = [] ∧ s.pending = [] ∧ s.queued = [] ∧ s.worker.held = [] := by
  obtain ⟨f, hf, hempty⟩ := h.flusher
  obtain rfl := Option.some.inj (hf.symm.trans hreturned)
  have hnil {l : List SpanData} (hl : (l : Multiset SpanData) = 0) : l = [] :=
    (Multiset.coe_eq_zero l).mp hl
  exact ⟨hnil (hempty .hand (by decide)), hnil (hempty .spill (by decide)),
    hnil (hempty .queue (by decide)), hnil (hempty .worker (by decide))⟩

/-! ## Conservation -/

/-- Whether a step is none of `stop`. -/
def Op.NoStop : Op T → Prop
  | .stop => False
  | _ => True

/-- Without `stop` the queue holds spans only. -/
theorem step_unstopped {s : EvidencePipeline T} (h : Item.sentinel ∉ s.queue) {op : Op T}
    (hstop : op.NoStop) : Item.sentinel ∉ (s.step op).queue := by
  -- only `stop` puts the sentinel there
  have hthread (o : Thread) (f : Worker → Worker) (g : Flusher → Flusher) :
      Item.sentinel ∉ (s.onThread o f g).queue := by
    cases o <;> exact h
  have henqueue (span : SpanData) : Item.sentinel ∉ (s.enqueue (.span span)).queue := by
    simp [enqueue, h]
  cases op with
  | stop => exact hstop.elim
  | get =>
      simp only [step, get]
      split
      · rename_i span queue hworker hqueue
        rw [hqueue] at h
        exact fun hmem => h (List.mem_cons_of_mem _ hmem)
      -- a sentinel that the worker takes would have been there before
      · rename_i queue hworker hqueue
        exact absurd (hqueue ▸ List.mem_cons_self) h
      · exact h
  | refill o fault =>
      have hstep := refillFromSpill_step s o fault
      show Item.sentinel ∉ (s.refillFromSpill o fault).queue
      generalize s.refillFromSpill o fault = t at hstep ⊢
      cases hstep <;> first | exact h | exact hthread o _ _ | exact henqueue _
  | emitStart o =>
      simp only [step, emitStart]
      split_ifs <;> first | exact h | exact hthread o _ _
  | emitCommit ok =>
      simp only [step, emitCommit]
      repeat' split
      all_goals first | exact h | exact hthread _ _ _
  | emitSettle saved =>
      simp only [step, emitSettle]
      split <;> first | exact h | exact hthread _ _ _
  | _ =>
      simp only [step, submit, put, spillOver, clock, drop, timeout, normalize, commit, taskDone, flush,
        join, check]
      repeat' split
      all_goals first | exact h | exact henqueue _

/-- A queue of spans only is empty when there is no span in it. -/
theorem queue_eq_nil {s : EvidencePipeline T} (h : Item.sentinel ∉ s.queue) (hqueued : s.queued = []) :
    s.queue = [] := by
  cases hqueue : s.queue with
  | nil => rfl
  | cons item queue =>
      rw [queued, hqueue] at hqueued
      cases item with
      | span span => cases hqueued
      | sentinel => exact absurd (hqueue ▸ List.mem_cons_self) h

/-- The spans counted in `errors`. -/
def errors (s : EvidencePipeline T) : List SpanData := s.unnormalized ++ s.uncommitted

/-- The spans are where they can be, each in one place. -/
theorem Conserved.perm {s : EvidencePipeline T} (h : s.Conserved) :
    s.given.Perm (s.inHand ++ s.pending ++ s.queued ++ s.worker.held ++ s.processed ++ s.errors
      ++ s.dropped) := by
  have heq := h.trans (total_flow s)
  rw [List.append_assoc _ s.unnormalized] at heq
  exact Multiset.coe_eq_coe.mp heq

/-- Every run keeps the count of the unfinished tasks. -/
theorem run_counted {s : EvidencePipeline T} (h : s.Counted) (ops : List (Op T)) :
    (s.run ops).Counted := by
  induction ops generalizing s with
  | nil => exact h
  | cons op ops ih => exact ih (step_counted h op)

/-- In a run without `stop` the queue holds spans only. -/
theorem run_unstopped {s : EvidencePipeline T} (h : Item.sentinel ∉ s.queue) {ops : List (Op T)}
    (hops : ∀ op ∈ ops, op.NoStop) : Item.sentinel ∉ (s.run ops).queue := by
  induction ops generalizing s with
  | nil => exact h
  | cons op ops ih =>
      exact ih (step_unstopped h (hops op List.mem_cons_self))
        fun o ho => hops o (List.mem_cons_of_mem op ho)

/-- A run in which no thread submits spans or stops the pipeline, with a call of `flush`. -/
theorem run_flushing {s : EvidencePipeline T} {k : Nat} (h : s.Flushing k)
    (hunstopped : Item.sentinel ∉ s.queue) {ops : List (Op T)}
    (hops : ∀ op ∈ ops, op.Whole ∧ op.NoSubmit ∧ op.NoStop) :
    (s.run ops).Flushing k ∧ Item.sentinel ∉ (s.run ops).queue := by
  induction ops generalizing s with
  | nil => exact ⟨h, hunstopped⟩
  | cons op ops ih =>
      obtain ⟨hwhole, hsubmit, hstop⟩ := hops op List.mem_cons_self
      exact ih (step_flushing h hwhole hsubmit) (step_unstopped hunstopped hstop)
        fun o ho => hops o (List.mem_cons_of_mem op ho)

/-- When `flush` has returned, every span is processed, counted, or dropped. -/
theorem flush_conserves {s : EvidencePipeline T} (h : s.Readable) (hconserved : s.Conserved)
    (hcounted : s.Counted) (hunstopped : Item.sentinel ∉ s.queue) (hhand : s.inHand = [])
    {more : List (Op T)} (hmore : ∀ op ∈ more, op.Whole ∧ op.NoSubmit ∧ op.NoStop)
    (hreturned : (s.flush.run more).flushers[s.flushers.length]? = some .returned) :
    (s.flush.run more).queue = [] ∧ (s.flush.run more).worker.held = [] ∧
      (s.flush.run more).pending = [] ∧ (s.flush.run more).given.Perm
        ((s.flush.run more).processed ++ (s.flush.run more).errors ++ (s.flush.run more).dropped) := by
  -- from the call on, what `flush` has waited for stays done
  obtain ⟨hflushing, hspans⟩ := run_flushing (flush_flushing h hcounted hhand) hunstopped hmore
  obtain ⟨hnohand, hpending, hqueued, hheld⟩ := hflushing.returned hreturned
  obtain ⟨hstep, hkept⟩ := @step_conserves _ s h hconserved .flush trivial
  obtain ⟨-, hall⟩ := run_flow hstep hkept fun op hop => (hmore op hop).1
  have hperm := hall.perm
  simp only [step, hnohand, hpending, hqueued, hheld, List.nil_append] at hperm
  exact ⟨queue_eq_nil hspans hqueued, hheld, hpending, hperm⟩

section Init

variable {maxQueue : Int} {commitRetries : Nat} {spill : Option SpillBuffer} {drops : Drops T}
  (hspill : ∀ b, spill = some b → ∃ q, b.Holds q)
include hspill

/-- A new pipeline has the spans that are pending. -/
theorem init_flow : (init maxQueue commitRetries spill drops).Readable ∧
    (init maxQueue commitRetries spill drops).Conserved := by
  refine ⟨⟨fun span hspan => absurd hspan List.not_mem_nil, hspill⟩, ?_⟩
  rw [Conserved, total_flow]
  simp [init, inHand, pending, queued, Worker.held]

/-- **The pipeline conserves the spans**: at each step of each run they are with a submitting thread,
pending, queued, with the worker, processed, counted in `errors`, or dropped; and when a `flush` during
which no thread submits has returned, they are processed, counted, or dropped. -/
theorem run_conserves {ops : List (Op T)} (hops : ∀ op ∈ ops, op.Whole ∧ op.NoStop) :
    let s := (init maxQueue commitRetries spill drops).run ops
    s.given.Perm (s.inHand ++ s.pending ++ s.queued ++ s.worker.held ++ s.processed ++ s.errors
        ++ s.dropped) ∧
      ∀ more, s.inHand = [] → (∀ op ∈ more, op.Whole ∧ op.NoSubmit ∧ op.NoStop) →
        let t := s.run (.flush :: more)
        t.flushers[s.flushers.length]? = some .returned →
          t.queue = [] ∧ t.worker.held = [] ∧ t.pending = [] ∧
            t.given.Perm (t.processed ++ t.errors ++ t.dropped) := by
  intro s
  obtain ⟨hreadable, hconserved⟩ := init_flow (T := T) hspill
  obtain ⟨hs, hkept⟩ := run_flow hreadable hconserved fun op hop => (hops op hop).1
  refine ⟨hkept.perm, ?_⟩
  intro more hhand hmore t hreturned
  have hcounted : s.Counted := @run_counted _ (init maxQueue commitRetries spill drops) rfl ops
  have hunstopped : Item.sentinel ∉ s.queue :=
    run_unstopped List.not_mem_nil fun op hop => (hops op hop).2
  exact flush_conserves hs hkept hcounted hunstopped hhand hmore hreturned

end Init

/-- Two spans for a queue with room for one: the second is spilled. -/
def sampleSubmits : List (Op Nat) :=
  [.submit [SpillBuffer.sampleSpan, SpillBuffer.sampleSpan], .put 0, .put 0, .spillOver 0 none]

/-- The worker takes a span, commits it, and refills the queue in `n` steps. -/
def sampleWork (n : Nat) : List (Op Nat) :=
  [.get, .emitStart .worker, .normalize true, .commit true, .taskDone]
    ++ List.replicate n (.refill .worker false)

/-- A call of `flush` beside the worker. -/
def sampleFlush : List (Op Nat) :=
  List.replicate 4 (.refill (.flusher 0) false) ++ sampleWork 5 ++ sampleWork 4
    ++ [.join 0, .check 0 false, .join 0, .check 0 false, .emitStart (.flusher 0)]

/-- Nothing is submitted meanwhile, and the pipeline is not stopped. -/
theorem sampleFlush_quiet : ∀ op ∈ sampleFlush, op.Whole ∧ op.NoSubmit ∧ op.NoStop := by
  have hwork (n : Nat) : ∀ op ∈ sampleWork n, op.Whole ∧ op.NoSubmit ∧ op.NoStop := by
    intro op hop
    rcases List.mem_append.mp hop with hmem | hmem
    · simp only [List.mem_cons, List.not_mem_nil, or_false] at hmem
      rcases hmem with rfl | rfl | rfl | rfl | rfl <;> exact ⟨trivial, trivial, trivial⟩
    · rw [List.eq_of_mem_replicate hmem]
      exact ⟨trivial, trivial, trivial⟩
  intro op hop
  simp only [sampleFlush, List.mem_append, List.mem_cons, List.not_mem_nil, or_false] at hop
  rcases hop with ((hmem | hmem) | hmem) | rfl | rfl | rfl | rfl | rfl
  · rw [List.eq_of_mem_replicate hmem]
    exact ⟨trivial, trivial, trivial⟩
  · exact hwork 5 op hmem
  · exact hwork 4 op hmem
  all_goals exact ⟨trivial, trivial, trivial⟩

/-- With one span in the queue and one in the spill file, the flush accounts for both. -/
theorem run_conserves_sample :
    let s := (init 1 3 (some (SpillBuffer.init none none)) (Drops.init true none [] 0)).run sampleSubmits
    let t := s.run (.flush :: sampleFlush)
    s.queued.length = 1 ∧ s.pending.length = 1 ∧ t.given.Perm (t.processed ++ t.errors ++ t.dropped) := by
  have hspill : ∀ b, some (SpillBuffer.init none none) = some b → ∃ q, b.Holds q := by
    intro b hb
    obtain rfl := Option.some.inj hb
    exact ⟨[], SpillBuffer.init_holds⟩
  have hops : ∀ op ∈ sampleSubmits, op.Whole ∧ op.NoStop := by
    simp [sampleSubmits, Op.Whole, Op.NoStop, SpillBuffer.sampleSpan_isJson]
  obtain ⟨-, hflush⟩ := @run_conserves Nat 1 3 _ (Drops.init true none [] 0) hspill _ hops
  exact ⟨by decide +kernel, by decide +kernel,
    (hflush sampleFlush (by decide +kernel) sampleFlush_quiet (by decide +kernel)).2.2.2⟩

end OpenWright.EvidencePipeline
