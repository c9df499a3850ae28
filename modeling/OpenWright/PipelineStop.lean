import OpenWright.PipelineFlush

/-! # Stopping the pipeline

* **`run_stop_iff`** — a pipeline that is stopped without a flush loses no span exactly where nothing is
  pending in the spill buffer when the sentinel comes into the queue: a pending span is put behind the
  sentinel, and out of the buffer. -/

namespace OpenWright.EvidencePipeline

open Python

variable {T : Type}

namespace Worker

/-- The worker has no sentinel. -/
def Loops : Worker → Prop
  | .sentinelEmit | .taskDone true | .finalRefill true _ | .exited => False
  | _ => True

/-- The worker has the sentinel, or it is dead. -/
def Leaves : Worker → Prop
  | .sentinelEmit | .taskDone true | .finalRefill true _ | .exited | .dead _ => True
  | _ => False

/-- The worker is through with the loop of the refill that follows the sentinel. -/
def Ended : Worker → Prop
  | .finalRefill true .truncating | .finalRefill true .saving | .exited => True
  | _ => False

/-- The worker is not in a drain, and none of its drains has failed. -/
def Outside : Worker → Prop
  | .idleRefill refill | .finalRefill _ refill => refill = .start
  | .dead _ => False
  | _ => True

/-- Where a refill is. -/
theorem refill?_eq {w : Worker} {refill : Refill} (h : w.refill? = some refill) :
    w = .idleRefill refill ∨ ∃ exiting, w = .finalRefill exiting refill := by
  cases w <;> first
    | exact Or.inl (congrArg Worker.idleRefill (Option.some.inj h))
    | exact Or.inr ⟨_, congrArg (Worker.finalRefill _) (Option.some.inj h)⟩
    | cases h

end Worker

/-- Whether a step is none of `flush`. -/
def Op.NoFlush : Op T → Prop
  | .flush => False
  | _ => True

/-! ## Threads that do nothing -/

section Idle

variable {s : EvidencePipeline T}

/-- Where no span is in hand, the calls of `submit` do nothing more. -/
theorem submitters_idle (hhand : s.inHand = []) {op : Op T} (hop : match op with
    | .put _ | .spillOver .. | .clock .. | .drop .. => True
    | _ => False) : s.step op = s := by
  cases op with
  | put k =>
      simp only [step, put]
      split
      · rename_i span rest hk
        exact (not_todo hhand hk).elim
      · rfl
  | spillOver k fault =>
      simp only [step, spillOver]
      split
      · rename_i span rest b hk hb hlock
        exact (not_todo hhand hk).elim
      · rfl
  | clock k now =>
      simp only [step, clock]
      split
      · rename_i span rest hk
        exact (not_todo hhand hk).elim
      · rfl
  | drop k saved =>
      simp only [step, drop]
      split
      · rename_i span rest now hk
        exact (not_todo hhand hk).elim
      · rfl
  | _ => exact hop.elim

/-- Without a call of `flush` none goes on. -/
theorem flushers_idle (hflushers : s.flushers = []) {op : Op T} (hop : match op with
    | .join _ | .check .. => True
    | _ => False) : s.step op = s := by
  cases op with
  | join k => simp [step, join, hflushers]
  | check k fault => simp [step, check, hflushers]
  | _ => exact hop.elim

/-- Then only the worker refills the queue. -/
theorem refill?_worker (hflushers : s.flushers = []) {o : Thread} {refill : Refill}
    (h : s.refill? o = some refill) : o = .worker ∧ s.worker.refill? = some refill := by
  cases o with
  | worker => exact ⟨rfl, h⟩
  | flusher k =>
      rw [EvidencePipeline.refill?, hflushers] at h
      cases h

end Idle

/-! ## Before the sentinel -/

/-- A pipeline that is not stopped, and not flushed. -/
structure Running (s : EvidencePipeline T) : Prop where
  flushers : s.flushers = []
  queue : Item.sentinel ∉ s.queue
  worker : s.worker.Loops

/-- What a step of the worker does without a sentinel. -/
theorem step_loops {s : EvidencePipeline T} (h : s.worker.Loops) (hqueue : Item.sentinel ∉ s.queue)
    (op : Op T) : (s.step op).worker.Loops := by
  -- a refill and an emission leave the worker in its loop
  have hthread (o : Thread) {f : Worker → Worker} (hf : ∀ w : Worker, w.Loops → (f w).Loops)
      (g : Flusher → Flusher) : (s.onThread o f g).worker.Loops := by
    cases o with
    | worker => exact hf _ h
    | flusher k => exact h
  have hset (r : Refill) (w : Worker) (hw : w.Loops) : (w.setRefill r).Loops := by
    cases w with
    | finalRefill exiting _ => cases exiting <;> exact hw
    | _ => exact hw
  have hrefilled (w : Worker) (hw : w.Loops) : w.refilled.Loops := by
    cases w with
    | finalRefill exiting _ => cases exiting <;> trivial
    | _ => trivial
  have hraised (e : PyErr) (w : Worker) (hw : w.Loops) : (w.raised e).Loops := by
    cases w <;> trivial
  have hemitted (w : Worker) (hw : w.Loops) : w.emitted.Loops := by
    cases w <;> trivial
  cases op with
  | get =>
      simp only [step, get]
      split
      · trivial
      · rename_i queue hworker hsentinel
        -- the queue holds no sentinel that it could take
        exact absurd (hsentinel ▸ List.mem_cons_self) hqueue
      · exact h
  | refill o fault =>
      have hstep := refillFromSpill_step s o fault
      show (s.refillFromSpill o fault).worker.Loops
      generalize s.refillFromSpill o fault = t at hstep ⊢
      cases hstep with
      | stay | skipped | accepted => exact h
      | absent | saved => exact hthread o hrefilled _
      | opened | ended | truncated => exact hthread o (hset _) _
      | raised => exact hthread o (hraised _) _
  | emitStart o =>
      simp only [step, emitStart]
      split_ifs <;> first | exact h | exact hthread o hemitted _
  | emitCommit ok =>
      simp only [step, emitCommit]
      repeat' split
      all_goals first | exact h | exact hthread _ hemitted _
  | emitSettle saved =>
      simp only [step, emitSettle]
      split <;> first | exact h | exact hthread _ hemitted _
  | taskDone =>
      simp only [step, taskDone]
      split
      · rename_i exiting hworker
        rw [hworker] at h
        cases exiting <;> trivial
      · exact h
  | _ =>
      simp only [step, submit, put, spillOver, clock, drop, timeout, normalize, commit, flush, join,
        check, stop]
      repeat' split
      all_goals trivial

/-- Without a call of `flush` there is none. -/
theorem step_flushers {s : EvidencePipeline T} (h : s.flushers = []) {op : Op T} (hop : op.NoFlush) :
    (s.step op).flushers = [] := by
  have hthread (o : Thread) (f : Worker → Worker) (g : Flusher → Flusher) :
      (s.onThread o f g).flushers = [] := by
    cases o <;> simp [onThread, h]
  cases op with
  | flush => exact hop.elim
  | join | check => rwa [flushers_idle h trivial]
  | refill o fault =>
      have hstep := refillFromSpill_step s o fault
      show (s.refillFromSpill o fault).flushers = []
      generalize s.refillFromSpill o fault = t at hstep ⊢
      cases hstep <;> first | exact h | exact hthread o _ _
  | emitStart o =>
      simp only [step, emitStart]
      split_ifs <;> first | exact h | exact hthread o _ _
  | emitCommit ok =>
      simp only [step, emitCommit]
      repeat' split
      all_goals first | exact h | exact hthread _ _ _
  | emitSettle saved =>
      simp only [step, emitSettle]
      split <;> first | exact h | exact hthread _ _ _
  | _ =>
      simp only [step, submit, put, spillOver, clock, drop, get, timeout, normalize, commit, taskDone,
        stop]
      repeat' split
      all_goals exact h

/-- Each step keeps the pipeline running. -/
theorem step_running {s : EvidencePipeline T} (h : s.Running) {op : Op T} (hstop : op.NoStop)
    (hflush : op.NoFlush) : (s.step op).Running :=
  ⟨step_flushers h.flushers hflush, step_unstopped h.queue hstop, step_loops h.worker h.queue op⟩

/-- The cursor is saved when the worker is not in a drain. -/
def CursorSaved (s : EvidencePipeline T) : Prop :=
  ∀ b, s.spill = some b → s.worker.Outside → b.Saved

/-- An append leaves the cursor where it is. -/
theorem append_cursor {b b' : SpillBuffer} {span : SpanData} {fault : Option Nat}
    {r : Except PyErr Unit} (h : b.append span fault = (r, b')) :
    b'.consumed = b.consumed ∧ b'.cursorFile = b.cursorFile := by
  unfold SpillBuffer.append at h
  repeat' split at h
  all_goals
    obtain rfl := (Prod.mk.inj h).2
    exact ⟨rfl, rfl⟩

section Cursor

variable {s : EvidencePipeline T} (h : s.CursorSaved)
include h

/-- A span is appended to the spill file. -/
theorem spillOver_cursorSaved (k : Nat) (fault : Option Nat) : (s.spillOver k fault).CursorSaved := by
  rw [spillOver]
  split
  · rename_i span rest b hk hb hlock
    split
    · rename_i u b' hr
      intro c hc hout
      obtain rfl := Option.some.inj hc
      obtain ⟨hconsumed, hcursor⟩ := append_cursor hr
      rw [SpillBuffer.Saved, hconsumed, hcursor]
      exact h b hb hout
    · rename_i e b' hr
      intro c hc hout
      obtain rfl := Option.some.inj hc
      obtain ⟨hconsumed, hcursor⟩ := append_cursor hr
      rw [SpillBuffer.Saved, hconsumed, hcursor]
      exact h b hb hout
  · exact h

/-- A thread moves, and does not leave a drain. -/
theorem onThread_cursorSaved {o : Thread} {f : Worker → Worker}
    (hf : ∀ w : Worker, (f w).Outside → w.Outside) (g : Flusher → Flusher) :
    (s.onThread o f g).CursorSaved := by
  intro b hb hout
  cases o with
  | worker => exact h b hb (hf _ hout)
  | flusher k => exact h b hb hout

omit h in
/-- Without calls of `flush` a thread in a drain is the worker, which is not outside then. -/
theorem inside_cursorSaved (hflushers : s.flushers = []) {o : Thread} {refill : Refill}
    (hrefill : s.refill? o = some refill) {t : EvidencePipeline T} (f : Worker → Worker)
    (ht : o = .worker → t.worker = f s.worker)
    (hf : ∀ exiting, ¬(f (.idleRefill refill)).Outside ∧ ¬(f (.finalRefill exiting refill)).Outside) :
    t.CursorSaved := by
  obtain ⟨ho, hw⟩ := refill?_worker hflushers hrefill
  intro b hb hout
  rw [ht ho] at hout
  rcases Worker.refill?_eq hw with heq | ⟨exiting, heq⟩ <;> rw [heq] at hout
  · exact absurd hout (hf true).1
  · exact absurd hout (hf exiting).2

/-- A refill saves its cursor before its thread is outside again. -/
theorem refill_cursorSaved (hflushers : s.flushers = []) (o : Thread) (fault : Bool) :
    (s.refillFromSpill o fault).CursorSaved := by
  have hstep := refillFromSpill_step s o fault
  generalize s.refillFromSpill o fault = t at hstep ⊢
  -- past the start of a refill the worker is inside
  have hwithin {refill : Refill} (hne : refill ≠ .start) (exiting : Bool) :
      ¬(Worker.idleRefill refill).Outside ∧ ¬(Worker.finalRefill exiting refill).Outside :=
    ⟨hne, hne⟩
  cases hstep with
  | stay => exact h
  | absent hrefill hspill =>
      -- without a spill file there is no cursor
      intro b hb
      rw [refilled, onThread_spill, hspill] at hb
      cases hb
  | raised hrefill =>
      exact inside_cursorSaved hflushers hrefill (Worker.raised _) (fun ho => by subst ho; rfl)
        fun exiting => ⟨id, id⟩
  | opened hrefill =>
      exact inside_cursorSaved hflushers hrefill (Worker.setRefill .draining)
        (fun ho => by subst ho; rfl) (@hwithin .draining (by decide))
  | ended hrefill =>
      exact inside_cursorSaved hflushers hrefill (Worker.setRefill .truncating)
        (fun ho => by subst ho; rfl) (@hwithin .truncating (by decide))
  | truncated hrefill =>
      exact inside_cursorSaved hflushers hrefill (Worker.setRefill .saving)
        (fun ho => by subst ho; rfl) (@hwithin .saving (by decide))
  | skipped hrefill =>
      exact inside_cursorSaved hflushers hrefill id (fun _ => rfl) (@hwithin .draining (by decide))
  | accepted hrefill =>
      exact inside_cursorSaved hflushers hrefill id (fun _ => rfl) (@hwithin .draining (by decide))
  | saved hrefill hspill =>
      intro b hb hout
      obtain rfl := Option.some.inj hb
      -- the refill ends with the cursor saved
      rfl

end Cursor

/-- Each step keeps the cursor saved. -/
theorem step_cursorSaved {s : EvidencePipeline T} (hflushers : s.flushers = []) (h : s.CursorSaved)
    (op : Op T) : (s.step op).CursorSaved := by
  have hemitted (w : Worker) (hw : w.emitted.Outside) : w.Outside := by
    cases w <;> trivial
  -- the worker was outside before, where the cursor is saved
  have hfrom {w : Worker} (hworker : s.worker = w) (hw : w.Outside) {t : EvidencePipeline T}
      (hspill : t.spill = s.spill) : t.CursorSaved :=
    fun b hb _ => h b (hspill.symm.trans hb) (hworker ▸ hw)
  cases op with
  | spillOver k fault => exact spillOver_cursorSaved h k fault
  | refill o fault => exact refill_cursorSaved h hflushers o fault
  | emitStart o =>
      simp only [step, emitStart]
      split_ifs <;> first | exact h | exact onThread_cursorSaved h hemitted _
  | emitCommit ok =>
      simp only [step, emitCommit]
      repeat' split
      all_goals first | exact h | exact onThread_cursorSaved h hemitted _
  | emitSettle saved =>
      simp only [step, emitSettle]
      split <;> first | exact h | exact onThread_cursorSaved h hemitted _
  | get | timeout | normalize | commit | taskDone =>
      simp only [step, get, timeout, normalize, commit, taskDone]
      repeat' split
      all_goals first | exact h | exact hfrom ‹s.worker = _› (by trivial) rfl
  | _ =>
      simp only [step, submit, put, clock, drop, flush, join, check, stop]
      repeat' split
      all_goals exact h

/-! ## Behind the sentinel -/

/-- The spans behind the sentinel, with those still pending, are the spans that were pending when it
came into the queue. -/
inductive Stopping (s : EvidencePipeline T) (left : List SpanData) : Prop
  | waiting (front : List Item) (back : List SpanData)
      (hqueue : s.queue = front ++ .sentinel :: back.map .span) (hfront : Item.sentinel ∉ front)
      (hleft : back ++ s.pending = left) (hloops : s.worker.Loops)
  | leaving (back : List SpanData) (hqueue : s.queue = back.map .span)
      (hleft : back ++ s.pending = left) (hleaves : s.worker.Leaves)
      (hended : s.worker.Ended → s.pending = [] ∨ back ≠ [])

/-- A step that moves no span, and takes the worker to no end of its loop. -/
theorem Stopping.control {s t : EvidencePipeline T} {left : List SpanData} (h : s.Stopping left)
    (hqueue : t.queue = s.queue) (hpending : t.pending = s.pending)
    (hloops : s.worker.Loops → t.worker.Loops) (hleaves : s.worker.Leaves → t.worker.Leaves)
    (hended : s.worker.Leaves → t.worker.Ended → s.pending = [] ∨ s.worker.Ended) :
    t.Stopping left := by
  cases h with
  | waiting front back hq hfront hleft hw =>
      exact .waiting front back (hqueue.trans hq) hfront (by rw [hpending, hleft]) (hloops hw)
  | leaving back hq hleft hw hend =>
      refine .leaving back (hqueue.trans hq) (by rw [hpending, hleft]) (hleaves hw) ?_
      intro hended'
      rw [hpending]
      rcases hended hw hended' with hnil | hold
      · exact Or.inl hnil
      · exact hend hold

/-- A span is put behind the sentinel. -/
theorem Stopping.accepted {s : EvidencePipeline T} {left : List SpanData} (h : s.Stopping left)
    {b b' : SpillBuffer} {span : SpanData} {rest : List SpanData} (hspill : s.spill = some b)
    (hb : b.Holds (span :: rest)) (hb' : b'.Holds rest) :
    ({ s.enqueue (.span span) with spill := some b' } : EvidencePipeline T).Stopping left := by
  have hpending : s.pending = span :: rest := pending_of_holds hspill hb
  have hrest : pending { s.enqueue (.span span) with spill := some b' } = rest :=
    pending_of_holds rfl hb'
  cases h with
  | waiting front back hqueue hfront hleft hloops =>
      refine .waiting front (back ++ [span]) ?_ hfront ?_ hloops
      · show s.queue ++ [.span span] = _
        rw [hqueue, List.map_append, List.append_assoc]
        rfl
      · rw [hrest, List.append_assoc, List.singleton_append, ← hpending, hleft]
  | leaving back hqueue hleft hleaves hended =>
      refine .leaving (back ++ [span]) ?_ ?_ hleaves ?_
      · show s.queue ++ [.span span] = _
        rw [hqueue, List.map_append]
        rfl
      · rw [hrest, List.append_assoc, List.singleton_append, ← hpending, hleft]
      · intro _
        right
        simp

/-- The loop of a drain that meets a full queue, or the end of the file, leaves a span behind the
sentinel or none in the buffer. -/
theorem Stopping.ended {s : EvidencePipeline T} {left : List SpanData} (h : s.Stopping left)
    {t : EvidencePipeline T} (hqueue : t.queue = s.queue) (hpending : t.pending = s.pending)
    (hloops : s.worker.Loops → t.worker.Loops) (hleaves : s.worker.Leaves → t.worker.Leaves)
    (hend : s.pending = [] ∨ s.Full) : t.Stopping left := by
  cases h with
  | waiting front back hq hfront hleft hw =>
      exact .waiting front back (hqueue.trans hq) hfront (by rw [hpending, hleft]) (hloops hw)
  | leaving back hq hleft hw hended =>
      refine .leaving back (hqueue.trans hq) (by rw [hpending, hleft]) (hleaves hw) ?_
      intro _
      rw [hpending]
      rcases hend with hnil | ⟨hpos, hfull⟩
      · exact Or.inl hnil
      · right
        rintro rfl
        -- an empty queue is not full
        rw [hq, List.map_nil, List.length_nil] at hfull
        omega

/-- A refill keeps what is behind the sentinel. -/
theorem refill_stopping {s : EvidencePipeline T} {left : List SpanData} (hreadable : s.Readable)
    (hflushers : s.flushers = []) (h : s.Stopping left) (o : Thread) (fault : Bool) :
    (s.refillFromSpill o fault).Stopping left := by
  have hstep := refillFromSpill_step s o fault
  generalize s.refillFromSpill o fault = t at hstep ⊢
  -- how the worker goes on in its refill
  have hset (r : Refill) : (s.worker.Loops → (s.worker.setRefill r).Loops) ∧
      (s.worker.Leaves → (s.worker.setRefill r).Leaves) := by
    cases s.worker with
    | finalRefill exiting _ => cases exiting <;> exact ⟨id, id⟩
    | _ => exact ⟨id, id⟩
  have hrefilled : (s.worker.Loops → s.worker.refilled.Loops) ∧
      (s.worker.Leaves → s.worker.refilled.Leaves) := by
    cases s.worker with
    | finalRefill exiting _ => cases exiting <;> exact ⟨fun hw => by trivial, fun hw => by trivial⟩
    | _ => exact ⟨fun hw => by trivial, fun hw => by trivial⟩
  have hholds {b : SpillBuffer} (hspill : s.spill = some b) {b' : SpillBuffer}
      (hkeep : ∀ q, b.Holds q → b'.Holds q) {t : EvidencePipeline T} (ht : t.spill = some b') :
      t.pending = s.pending := by
    obtain ⟨q, hq⟩ := hreadable.spill b hspill
    rw [pending_of_holds ht (hkeep q hq), pending_of_holds hspill hq]
  cases hstep with
  | stay => exact h
  | absent hrefill hspill =>
      obtain ⟨rfl, hw⟩ := refill?_worker hflushers hrefill
      have hnone : s.pending = [] := by rw [pending, hspill]; rfl
      exact h.ended rfl rfl hrefilled.1 hrefilled.2 (Or.inl hnone)
  | @raised refill b e hrefill =>
      obtain ⟨rfl, hw⟩ := refill?_worker hflushers hrefill
      have hdead : (s.raise .worker e).worker = .dead e := by
        show s.worker.raised e = .dead e
        rcases Worker.refill?_eq hw with heq | ⟨exiting, heq⟩ <;> rw [heq] <;> rfl
      refine h.control rfl rfl ?_ ?_ ?_ <;> rw [hdead]
      · exact fun _ => trivial
      · exact fun _ => trivial
      · exact fun _ hended => hended.elim
  | opened hrefill =>
      obtain ⟨rfl, hw⟩ := refill?_worker hflushers hrefill
      refine h.control rfl rfl (hset .draining).1 (hset .draining).2 ?_
      intro _ hended
      show s.pending = [] ∨ s.worker.Ended
      rcases Worker.refill?_eq hw with heq | ⟨exiting, heq⟩
      · exact absurd hended (by simp [setRefill, onThread, heq, Worker.setRefill, Worker.Ended])
      · cases exiting <;>
          exact absurd hended (by simp [setRefill, onThread, heq, Worker.setRefill, Worker.Ended])
  | skipped hrefill hspill hnext =>
      obtain ⟨q, hq⟩ := hreadable.spill _ hspill
      exact absurd hnext (hq.next_ne_blank _)
  | accepted hrefill hspill hnext hroom =>
      obtain ⟨q, hq⟩ := hreadable.spill _ hspill
      obtain ⟨rest, rfl, rfl⟩ := hq.eq_cons_of_next hnext
      exact h.accepted hspill hq hq.advance
  | ended hrefill hspill hend =>
      obtain ⟨rfl, hw⟩ := refill?_worker hflushers hrefill
      refine h.ended rfl rfl (hset .truncating).1 (hset .truncating).2 ?_
      rcases hend with hdone | hfull
      · left
        obtain ⟨q, hq⟩ := hreadable.spill _ hspill
        rw [pending_of_holds hspill hq, hq.eq_nil_of_next hdone]
      · exact Or.inr hfull
  | truncated hrefill hspill =>
      obtain ⟨rfl, hw⟩ := refill?_worker hflushers hrefill
      refine h.control rfl (hholds hspill (fun q hq => hq.compact) rfl) (hset .saving).1
        (hset .saving).2 ?_
      intro hleaves _
      right
      rcases Worker.refill?_eq hw with heq | ⟨exiting, heq⟩ <;> rw [heq] at hleaves ⊢
      · exact hleaves.elim
      · cases exiting <;> trivial
  | saved hrefill hspill =>
      obtain ⟨rfl, hw⟩ := refill?_worker hflushers hrefill
      refine h.control rfl (hholds hspill (fun q hq => hq.saveCursor) rfl) hrefilled.1 hrefilled.2 ?_
      intro hleaves _
      right
      rcases Worker.refill?_eq hw with heq | ⟨exiting, heq⟩ <;> rw [heq] at hleaves ⊢
      · exact hleaves.elim
      · cases exiting <;> trivial

section Stopping

variable {s : EvidencePipeline T} {left : List SpanData} (h : s.Stopping left)
include h

/-- The worker takes what is before the sentinel, or the sentinel. -/
theorem get_stopping : s.get.Stopping left := by
  rw [get]
  split
  · rename_i span queue hworker hqueue
    cases h with
    | waiting front back hq hfront hleft hloops =>
        -- a span before the sentinel
        cases front with
        | nil =>
            rw [hq] at hqueue
            cases hqueue
        | cons item front =>
            rw [hq] at hqueue
            obtain ⟨rfl, rfl⟩ := List.cons.inj hqueue
            exact .waiting front back rfl (fun hmem => hfront (List.mem_cons_of_mem _ hmem)) hleft
              trivial
    | leaving back hq hleft hleaves => exact absurd hleaves (by rw [hworker]; exact id)
  · rename_i queue hworker hqueue
    cases h with
    | waiting front back hq hfront hleft hloops =>
        cases front with
        | nil =>
            rw [hq] at hqueue
            obtain ⟨-, rfl⟩ := List.cons.inj hqueue
            exact .leaving back rfl hleft trivial (fun hended => hended.elim)
        | cons item front =>
            rw [hq] at hqueue
            obtain ⟨rfl, -⟩ := List.cons.inj hqueue
            exact absurd List.mem_cons_self hfront
    | leaving back hq hleft hleaves => exact absurd hleaves (by rw [hworker]; exact id)
  · exact h

/-- The queue is not empty before the sentinel is taken. -/
theorem timeout_stopping : s.timeout.Stopping left := by
  rw [timeout]
  split
  · rename_i hworker hqueue
    cases h with
    | waiting front back hq hfront hleft hloops =>
        rw [hq] at hqueue
        exact absurd hqueue (by simp)
    | leaving back hq hleft hleaves => exact absurd hleaves (by rw [hworker]; exact id)
  · exact h

/-- A thread is done with its emission. -/
theorem emitted_stopping (o : Thread) {drops : Drops T} {emitLock : Option Thread} :
    ({ s.emitted o with drops, emitLock } : EvidencePipeline T).Stopping left := by
  cases o with
  | worker =>
      have hemitted : (s.worker.Loops → s.worker.emitted.Loops) ∧
          (s.worker.Leaves → s.worker.emitted.Leaves) ∧
          (s.worker.Leaves → s.worker.emitted.Ended → s.pending = [] ∨ s.worker.Ended) := by
        cases s.worker <;> exact ⟨fun hw => by trivial, fun hw => by trivial, fun _ hw => Or.inr hw⟩
      exact h.control rfl rfl hemitted.1 hemitted.2.1 hemitted.2.2
  | flusher k => exact h.control rfl rfl id id fun _ => Or.inr

/-- A thread turns to the pending drops. -/
theorem emitStart_stopping (o : Thread) : (s.emitStart o).Stopping left := by
  rw [emitStart]
  split_ifs
  · exact emitted_stopping h o
  · exact h.control rfl rfl id id fun _ => Or.inr
  · exact h

/-- The marker is committed, or refused. -/
theorem emitCommit_stopping (ok : Bool) : (s.emitCommit ok).Stopping left := by
  rw [emitCommit]
  split
  · rename_i o n window times hlock hemission
    split
    · exact h.control rfl rfl id id fun _ => Or.inr
    · exact emitted_stopping h o
  · exact h

/-- The committed drops are settled. -/
theorem emitSettle_stopping (saved : Bool) : (s.emitSettle saved).Stopping left := by
  rw [emitSettle]
  split
  · rename_i o n window times hlock hemission
    exact emitted_stopping h o
  · exact h

end Stopping

/-- **Each step keeps what is behind the sentinel**, or still pending. -/
theorem step_stopping {s : EvidencePipeline T} {left : List SpanData} (hreadable : s.Readable)
    (hhand : s.inHand = []) (hflushers : s.flushers = []) (h : s.Stopping left) {op : Op T}
    (hsubmit : op.NoSubmit) (hstop : op.NoStop) (hflush : op.NoFlush) : (s.step op).Stopping left := by
  cases op with
  | submit => exact hsubmit.elim
  | stop => exact hstop.elim
  | flush => exact hflush.elim
  -- no span is in hand, and no call of `flush` is under way: these steps do nothing
  | put | spillOver | clock | drop => rwa [submitters_idle hhand trivial]
  | join | check => rwa [flushers_idle hflushers trivial]
  | refill o fault => exact refill_stopping hreadable hflushers h o fault
  | get => exact get_stopping h
  | timeout => exact timeout_stopping h
  | emitStart o => exact emitStart_stopping h o
  | emitCommit ok => exact emitCommit_stopping h ok
  | emitSettle saved => exact emitSettle_stopping h saved
  | normalize ok =>
      simp only [step, normalize]
      split
      · rename_i span hworker
        -- normalizing or not, the worker goes on with the same item
        split <;> refine h.control rfl rfl (fun _ => trivial) ?_ ?_ <;> rw [hworker] <;> exact False.elim
      · exact h
  | commit ok =>
      simp only [step, commit]
      split
      · rename_i span attempt hworker
        split_ifs <;> refine h.control rfl rfl (fun _ => trivial) ?_ ?_ <;> rw [hworker] <;>
          exact False.elim
      · exact h
  | taskDone =>
      simp only [step, taskDone]
      split
      · rename_i exiting hworker
        -- the item it is done with is a span or the sentinel, and only the second ends the loop
        refine h.control rfl rfl ?_ ?_ ?_ <;> rw [hworker] <;> cases exiting <;> first
          | exact id
          | exact fun _ => False.elim
      · exact h

/-! ## Runs that end with the sentinel -/

/-- A run to the sentinel. -/
theorem run_running {s : EvidencePipeline T} (h : s.Running) (hsaved : s.CursorSaved)
    {ops : List (Op T)} (hops : ∀ op ∈ ops, op.Whole ∧ op.NoStop ∧ op.NoFlush) :
    (s.run ops).Running ∧ (s.run ops).CursorSaved := by
  induction ops generalizing s with
  | nil => exact ⟨h, hsaved⟩
  | cons op ops ih =>
      obtain ⟨-, hstop, hflush⟩ := hops op List.mem_cons_self
      exact ih (step_running h hstop hflush) (step_cursorSaved h.flushers hsaved op)
        fun o ho => hops o (List.mem_cons_of_mem op ho)

/-- A stopped pipeline. -/
structure Stopped (s : EvidencePipeline T) (left : List SpanData) : Prop where
  readable : s.Readable
  conserved : s.Conserved
  hand : s.inHand = []
  flushers : s.flushers = []
  saved : s.CursorSaved
  stopping : s.Stopping left

/-- A run from the sentinel on. -/
theorem run_stopped {s : EvidencePipeline T} {left : List SpanData} (h : s.Stopped left)
    {ops : List (Op T)} (hops : ∀ op ∈ ops, op.Whole ∧ op.NoSubmit ∧ op.NoStop ∧ op.NoFlush) :
    (s.run ops).Stopped left := by
  induction ops generalizing s with
  | nil => exact h
  | cons op ops ih =>
      obtain ⟨hwhole, hsubmit, hstop, hflush⟩ := hops op List.mem_cons_self
      obtain ⟨hreadable, hconserved⟩ := step_conserves h.readable h.conserved hwhole
      have hempty := (step_flows h.readable hwhole hsubmit).moves.empty_upTo (emptyUpTo_zero h.hand)
      have hhand : (s.step op).inHand = [] :=
        (Multiset.coe_eq_zero _).mp (hempty .hand (Nat.le_refl 0))
      exact ih ⟨hreadable, hconserved, hhand, step_flushers h.flushers hflush,
        step_cursorSaved h.flushers h.saved op,
        step_stopping h.readable h.hand h.flushers h.stopping hsubmit hstop hflush⟩
        fun o ho => hops o (List.mem_cons_of_mem op ho)

/-- A new pipeline on the same directory. -/
def restart (s : EvidencePipeline T) : EvidencePipeline T :=
  init s.maxQueue s.commitRetries (s.spill.map SpillBuffer.restart) (s.drops.step .restart)

/-- A new pipeline has the pending spans, if the cursor is saved. -/
theorem restart_pending {s : EvidencePipeline T} (h : s.Readable) (hsaved : s.CursorSaved)
    (houtside : s.worker.Outside) : s.restart.pending = s.pending := by
  cases hspill : s.spill with
  | none => simp [restart, init, pending, hspill]
  | some b =>
      obtain ⟨q, hq⟩ := h.spill b hspill
      have hnew : s.restart.spill = some b.restart := by simp [restart, init, hspill]
      rw [pending_of_holds hspill hq,
        pending_of_holds hnew (SpillBuffer.restart_holds hq (hsaved b hspill houtside))]

/-- When the worker has left the loop, a new pipeline has every span that is not done exactly where
none was left behind the sentinel. -/
theorem exited_perm_iff {s : EvidencePipeline T} {left : List SpanData} (h : s.Stopped left)
    (hexited : s.worker = .exited) :
    s.given.Perm (s.processed ++ s.errors ++ s.dropped ++ s.restart.pending) ↔ left = [] := by
  have hperm := h.conserved.perm
  rw [restart_pending h.readable h.saved (by rw [hexited]; trivial)]
  rw [h.hand, hexited] at hperm
  cases h.stopping with
  | waiting _ _ _ _ _ hloops =>
      rw [hexited] at hloops
      exact hloops.elim
  | leaving back hqueue hleft hleaves hended =>
      have hqueued : s.queued = back := by
        simp [queued, hqueue, List.filterMap_map, Function.comp_def, Item.span?]
      rw [hqueued] at hperm
      have hend := hended (by rw [hexited]; trivial)
      constructor
      · intro hkept
        -- as many spans are behind the sentinel as are missing
        have hlength := (hperm.symm.trans hkept).length_eq
        simp only [List.length_append, Worker.held, List.length_nil] at hlength
        have hback : back = [] := List.length_eq_zero_iff.mp (by omega)
        subst hback
        rcases hend with hnil | hne
        · rw [← hleft, hnil]
          rfl
        · exact absurd rfl hne
      · intro hnone
        rw [hnone] at hleft
        obtain ⟨hback, hpending⟩ := List.append_eq_nil_iff.mp hleft
        rw [hback, hpending] at hperm
        rw [hpending]
        simpa [Worker.held] using hperm

/-- **A pipeline that is stopped without a flush keeps every span exactly where none is pending in the
spill buffer when the sentinel comes into the queue.** -/
theorem run_stop_iff {maxQueue : Int} {commitRetries : Nat} {spill : Option SpillBuffer} {drops : Drops T}
    (hspill : ∀ b, spill = some b → b.Saved ∧ ∃ q, b.Holds q) {ops : List (Op T)}
    (hops : ∀ op ∈ ops, op.Whole ∧ op.NoStop ∧ op.NoFlush) :
    let s := (init maxQueue commitRetries spill drops).run ops
    s.inHand = [] → ¬s.Full → ∀ more, (∀ op ∈ more, op.Whole ∧ op.NoSubmit ∧ op.NoStop ∧ op.NoFlush) →
      let t := s.run (.stop :: more)
      t.worker = .exited →
        (t.given.Perm (t.processed ++ t.errors ++ t.dropped ++ t.restart.pending) ↔ s.pending = []) := by
  intro s hhand hroom more hmore t hexited
  obtain ⟨hreadable, hconserved⟩ := init_flow (T := T) fun b hb => (hspill b hb).2
  obtain ⟨hs, hkept⟩ := run_flow hreadable hconserved fun op hop => (hops op hop).1
  have hstart : (init maxQueue commitRetries spill drops).Running :=
    ⟨rfl, List.not_mem_nil, trivial⟩
  obtain ⟨hrunning, hsaved⟩ := run_running hstart (fun b hb _ => (hspill b hb).1) hops
  -- the sentinel comes behind all spans that are queued
  have hstop : s.stop = s.enqueue .sentinel := if_neg hroom
  have hstopping : s.stop.Stopping s.pending := by
    rw [hstop]
    exact .waiting s.queue [] rfl hrunning.queue rfl hrunning.worker
  obtain ⟨hreadable', hconserved'⟩ := @step_conserves _ s hs hkept .stop trivial
  have hstopped : s.stop.Stopped s.pending := by
    refine ⟨hreadable', hconserved', ?_, ?_, step_cursorSaved hrunning.flushers hsaved .stop, hstopping⟩
    · rw [hstop]
      exact hhand
    · rw [hstop]
      exact hrunning.flushers
  exact exited_perm_iff (run_stopped hstopped hmore) hexited

/-- Two spans, of which the second is spilled, and a worker that has processed both. -/
def sampleDone : List (Op Nat) := sampleSubmits ++ sampleWork 5 ++ sampleWork 4

/-- The worker takes the sentinel and leaves its loop; its last refill has `n` steps. -/
def sampleExit (n : Nat) : List (Op Nat) :=
  [.get, .emitStart .worker, .taskDone] ++ List.replicate n (.refill .worker false)

/-- A worker that is stopped when all is done exits, and every span is accounted for. -/
theorem run_stop_iff_sample :
    let s := (init 1 3 (some (SpillBuffer.init none none)) (Drops.init true none [] 0)).run sampleDone
    let t := s.run (.stop :: sampleExit 4)
    t.worker = .exited ∧
      t.given.Perm (t.processed ++ t.errors ++ t.dropped ++ t.restart.pending) := by
  have hspill : ∀ b, some (SpillBuffer.init none none) = some b → b.Saved ∧ ∃ q, b.Holds q := by
    intro b hb
    obtain rfl := Option.some.inj hb
    exact ⟨rfl, [], SpillBuffer.init_holds⟩
  -- no step of the work stops, flushes or hands in what is no JSON
  have hwork (n : Nat) : ∀ op ∈ sampleWork n, op.Whole ∧ op.NoStop ∧ op.NoFlush := by
    intro op hop
    rcases List.mem_append.mp hop with hmem | hmem
    · simp only [List.mem_cons, List.not_mem_nil, or_false] at hmem
      rcases hmem with rfl | rfl | rfl | rfl | rfl <;> exact ⟨trivial, trivial, trivial⟩
    · rw [List.eq_of_mem_replicate hmem]
      exact ⟨trivial, trivial, trivial⟩
  have hops : ∀ op ∈ sampleDone, op.Whole ∧ op.NoStop ∧ op.NoFlush := by
    intro op hop
    rcases List.mem_append.mp hop with hmem | hmem
    · rcases List.mem_append.mp hmem with hmem | hmem
      · simp only [sampleSubmits, List.mem_cons, List.not_mem_nil, or_false] at hmem
        rcases hmem with rfl | rfl | rfl | rfl
        · refine ⟨?_, trivial, trivial⟩
          simp [Op.Whole, SpillBuffer.sampleSpan_isJson]
        · exact ⟨trivial, trivial, trivial⟩
        · exact ⟨trivial, trivial, trivial⟩
        · exact ⟨Or.inl rfl, trivial, trivial⟩
      · exact hwork 5 op hmem
    · exact hwork 4 op hmem
  have hmore : ∀ op ∈ sampleExit 4, op.Whole ∧ op.NoSubmit ∧ op.NoStop ∧ op.NoFlush := by
    simp [sampleExit, Op.Whole, Op.NoSubmit, Op.NoStop, Op.NoFlush]
  have hiff := @run_stop_iff Nat 1 3 _ (Drops.init true none [] 0) hspill sampleDone hops
    (by decide +kernel) (by decide +kernel) (sampleExit 4) hmore (by decide +kernel)
  exact ⟨by decide +kernel, hiff.mpr (by decide +kernel)⟩

/-- **A spilled span is lost**: the pipeline is stopped while the worker has the first span, the worker
puts the second behind the sentinel when it has taken that, and truncates the file. -/
theorem run_stop_loses :
    let s := (init 1 3 (some (SpillBuffer.init none none)) (Drops.init true none [] 0)).run
      (sampleSubmits ++ [.get])
    let t := s.run (.stop :: [.emitStart .worker, .normalize true, .commit true, .taskDone,
      .refill .worker false, .refill .worker false, .refill .worker false, .refill .worker false]
      ++ sampleExit 5)
    s.inHand = [] ∧ ¬s.Full ∧ t.worker = .exited ∧ t.given.length = 2 ∧ t.processed.length = 1 ∧
      t.errors = [] ∧ t.dropped = [] ∧ t.restart.pending = [] := by
  decide +kernel

end OpenWright.EvidencePipeline
