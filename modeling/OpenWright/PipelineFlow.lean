import OpenWright.Pipeline
import OpenWright.Places

/-! # The flow of spans through the pipeline

The spans that the pipeline is given lie in eight places, and its steps move them on from one to the
next.

* **`step_moves`** — a step of the pipeline moves one span on, or none. -/

namespace OpenWright.EvidencePipeline

open Python

variable {T : Type}

/-! ## Where the spans are -/

/-- Where a span can be. -/
inductive Place
  | hand
  | spill
  | queue
  | worker
  | processed
  | unnormalized
  | uncommitted
  | dropped
deriving DecidableEq

/-- The places in the order in which spans come to them. -/
def Place.all : List Place :=
  [.hand, .spill, .queue, .worker, .processed, .unnormalized, .uncommitted, .dropped]

instance : Fintype Place where
  elems := ⟨Place.all, by decide⟩
  complete p := by cases p <;> decide

/-- Spans go from the hands of the submitting threads through the spill buffer, the queue and the
worker, and stay where they come then. -/
def Place.rank : Place → Nat
  | .hand => 0
  | .spill => 1
  | .queue => 2
  | .worker => 3
  | .processed | .unnormalized | .uncommitted | .dropped => 4

/-- The spans that submitting threads still hold. -/
def inHand (s : EvidencePipeline T) : List SpanData := (s.submitters.map Submitter.todo).flatten

/-- The spans in the queue. -/
def queued (s : EvidencePipeline T) : List SpanData := s.queue.filterMap Item.span?

/-- The spans pending in the spill buffer. -/
def pending (s : EvidencePipeline T) : List SpanData := (s.spill.map SpillBuffer.pendingSpans).getD []

/-- The spans in each place. -/
def flow (s : EvidencePipeline T) : Place → Multiset SpanData
  | .hand => s.inHand
  | .spill => s.pending
  | .queue => s.queued
  | .worker => s.worker.held
  | .processed => s.processed
  | .unnormalized => s.unnormalized
  | .uncommitted => s.uncommitted
  | .dropped => s.dropped

/-- What a step does with the spans. -/
abbrev Moves (s t : EvidencePipeline T) : Prop := Places.Moves Place.rank s.flow t.flow

/-- All spans, place by place. -/
theorem total_flow (s : EvidencePipeline T) : Places.total s.flow
    = ↑(s.inHand ++ s.pending ++ s.queued ++ s.worker.held ++ s.processed ++ s.unnormalized
      ++ s.uncommitted ++ s.dropped) := by
  have htotal : Places.total s.flow = s.flow .hand + (s.flow .spill + (s.flow .queue
      + (s.flow .worker + (s.flow .processed + (s.flow .unnormalized + (s.flow .uncommitted
      + (s.flow .dropped + 0))))))) := rfl
  rw [htotal, add_zero]
  simp only [flow, Multiset.coe_add, List.append_assoc]

/-- The spans in hand, and those that the spill buffer holds, can be written and are read back. -/
structure Readable (s : EvidencePipeline T) : Prop where
  hand : ∀ span ∈ s.inHand, span.IsJson
  spill : ∀ b, s.spill = some b → ∃ q, b.Holds q

/-- The pending spans are those that the buffer holds. -/
theorem pending_of_holds {s : EvidencePipeline T} {b : SpillBuffer} (hspill : s.spill = some b)
    {q : List SpanData} (h : b.Holds q) : s.pending = q := by
  rw [pending, hspill]
  exact h.pendingSpans_eq

/-! ## What the steps move -/

section Control

variable {s t : EvidencePipeline T}

/-- States with the same spans everywhere. -/
theorem flow_congr (hhand : t.inHand = s.inHand) (hspill : t.pending = s.pending)
    (hqueue : t.queued = s.queued) (hheld : t.worker.held = s.worker.held)
    (hprocessed : t.processed = s.processed) (hunnormalized : t.unnormalized = s.unnormalized)
    (huncommitted : t.uncommitted = s.uncommitted) (hdropped : t.dropped = s.dropped) :
    t.flow = s.flow := by
  funext p
  cases p <;> simp only [flow, hhand, hspill, hqueue, hheld, hprocessed, hunnormalized, huncommitted,
    hdropped]

/-- What a thread does in a refill or an emission moves no span. -/
theorem onThread_flow (s : EvidencePipeline T) (o : Thread) {onWorker : Worker → Worker}
    (hheld : ∀ w, (onWorker w).held = w.held) (onFlusher : Flusher → Flusher) :
    (s.onThread o onWorker onFlusher).flow = s.flow := by
  cases o with
  | worker => exact flow_congr rfl rfl rfl (hheld s.worker) rfl rfl rfl rfl
  | flusher k => rfl

end Control

section Hand

/-- A list of lists of which one loses its first element. -/
theorem flatten_set_tail {α : Type} {ls : List (List α)} {k : Nat} {x : α} {rest : List α}
    (h : ls[k]? = some (x :: rest)) : ls.flatten.Perm (x :: (ls.set k rest).flatten) := by
  induction ls generalizing k with
  | nil => cases h
  | cons l ls ih =>
      cases k with
      | zero =>
          obtain rfl := Option.some.inj h
          exact List.Perm.refl _
      | succ k =>
          have hrest := (ih h).append_left l
          rw [List.set_cons_succ, List.flatten_cons, List.flatten_cons]
          exact hrest.trans List.perm_middle

variable {s : EvidencePipeline T} {k : Nat} {todo : List SpanData} {stage : Stage T}
  (h : s.submitters[k]? = some { todo, stage })
include h

/-- The spans of a submitter are in hand. -/
theorem todo_getElem? : (s.submitters.map Submitter.todo)[k]? = some todo := by
  rw [List.getElem?_map, h]
  rfl

/-- A submitter that changes only its stage keeps its spans. -/
theorem inHand_stage (stage' : Stage T) :
    ((s.submitters.set k { todo, stage := stage' }).map Submitter.todo).flatten = s.inHand := by
  have hsame : (s.submitters.map Submitter.todo).set k todo = s.submitters.map Submitter.todo := by
    obtain ⟨hlt, heq⟩ := List.getElem?_eq_some_iff.mp (todo_getElem? h)
    rw [← heq, List.set_getElem_self]
  rw [List.map_set, hsame]
  rfl

end Hand

/-- Where no span is in hand, no call of `submit` has one left. -/
theorem not_todo {s : EvidencePipeline T} (hhand : s.inHand = []) {k : Nat} {span : SpanData}
    {rest : List SpanData}
    {stage : Stage T} (hk : s.submitters[k]? = some { todo := span :: rest, stage }) : False := by
  have hmem : span :: rest ∈ s.submitters.map Submitter.todo := List.mem_of_getElem? (todo_getElem? hk)
  have hspan : span ∈ s.inHand := List.mem_flatten.mpr ⟨_, hmem, List.mem_cons_self⟩
  rw [hhand] at hspan
  cases hspan

/-- A submitter that is done with its first span has the others in hand. -/
theorem inHand_next {s : EvidencePipeline T} {k : Nat} {span : SpanData} {rest : List SpanData}
    {stage : Stage T} (h : s.submitters[k]? = some { todo := span :: rest, stage })
    (stage' : Stage T) : s.inHand.Perm
      (span :: ((s.submitters.set k { todo := rest, stage := stage' }).map Submitter.todo).flatten) := by
  rw [List.map_set]
  exact flatten_set_tail (todo_getElem? h)

/-- An element behind a list. -/
theorem coe_concat {α : Type} (l : List α) (x : α) : ((l ++ [x] : List α) : Multiset α) = x ::ₘ ↑l :=
  Multiset.coe_eq_coe.mpr (List.perm_append_singleton x l)

/-- What a step keeps, and what it moves. -/
structure Flows (s t : EvidencePipeline T) : Prop where
  readable : t.Readable
  moves : Moves s t

section Steps

variable {s : EvidencePipeline T} (h : s.Readable)
include h

/-- A step that moves no span. -/
theorem Readable.stay {t : EvidencePipeline T} (hflow : t.flow = s.flow) (hspill : t.spill = s.spill) :
    Flows s t := by
  refine ⟨⟨?_, ?_⟩, .stay hflow⟩
  · intro span hspan
    have hhand : (t.inHand : Multiset SpanData) = s.inHand := congrFun hflow .hand
    exact h.hand span ((Multiset.coe_eq_coe.mp hhand).mem_iff.mp hspan)
  · rw [hspill]
    exact h.spill

/-- The spans that a submitter has left can be written. -/
theorem Readable.next {k : Nat} {span : SpanData} {rest : List SpanData} {stage : Stage T}
    (hk : s.submitters[k]? = some { todo := span :: rest, stage }) (stage' : Stage T) :
    span.IsJson ∧ ∀ x ∈ ((s.submitters.set k { todo := rest, stage := stage' }).map
      Submitter.todo).flatten, x.IsJson := by
  have hperm := inHand_next hk stage'
  refine ⟨h.hand span (hperm.mem_iff.mpr List.mem_cons_self), ?_⟩
  intro x hx
  exact h.hand x (hperm.mem_iff.mpr (List.mem_cons_of_mem span hx))

/-- `put_nowait` takes a span from a hand to the queue. -/
theorem put_flows (k : Nat) : Flows s (s.put k) := by
  unfold put
  split
  · rename_i span rest hk
    split
    · exact h.stay (flow_congr (inHand_stage hk _) rfl rfl rfl rfl rfl rfl rfl) rfl
    · refine ⟨⟨(h.next hk .putting).2, h.spill⟩, ?_⟩
      apply Places.Moves.transfer (i := .hand) (j := .queue) (x := span)
      refine ⟨by decide, Multiset.coe_eq_coe.mpr (inHand_next hk .putting), ?_, ?_⟩
      · simp only [flow, queued, enqueue, List.filterMap_append]
        exact coe_concat _ span
      · intro p hhand hqueue
        cases p <;> first | rfl | contradiction
  · exact h.stay rfl rfl

/-- An append takes a span from a hand to the spill buffer, or leaves it where it is. -/
theorem spillOver_flows (k : Nat) {fault : Option Nat} (hfault : fault = none ∨ fault = some 0) :
    Flows s (s.spillOver k fault) := by
  unfold spillOver
  split
  · rename_i span rest b hk hb hlock
    obtain ⟨q, hq⟩ := h.spill b hb
    split
    · rename_i u b' happend
      -- an append that returns has written the whole line
      have hnone : fault = none := SpillBuffer.append_ok happend
      subst hnone
      have hholds : b'.Holds (q ++ [span]) := hq.append_holds (h.next hk .putting).1 happend
      refine ⟨⟨(h.next hk .putting).2, ?_⟩, ?_⟩
      · intro c hc
        obtain rfl := Option.some.inj hc
        exact ⟨q ++ [span], hholds⟩
      · apply Places.Moves.transfer (i := .hand) (j := .spill) (x := span)
        refine ⟨by decide, Multiset.coe_eq_coe.mpr (inHand_next hk .putting), ?_, ?_⟩
        · show (↑(pending _) : Multiset SpanData) = span ::ₘ ↑s.pending
          rw [pending_of_holds hb hq, pending_of_holds rfl hholds]
          exact coe_concat q span
        · intro p hhand hspill
          cases p <;> first | rfl | contradiction
    · rename_i e b' happend
      have hholds : b'.Holds q := hq.append_error hfault happend
      refine ⟨⟨?_, ?_⟩, .stay (flow_congr (inHand_stage hk _) ?_ rfl rfl rfl rfl rfl rfl)⟩
      · intro x hx
        exact h.hand x ((inHand_stage hk .timing) ▸ hx)
      · intro c hc
        obtain rfl := Option.some.inj hc
        exact ⟨q, hholds⟩
      · rw [pending_of_holds hb hq, pending_of_holds rfl hholds]
  · exact h.stay rfl rfl

/-- A drop takes a span from a hand. -/
theorem drop_flows (k : Nat) (saved : Bool) : Flows s (s.drop k saved) := by
  unfold drop
  split
  · rename_i span rest now hk
    refine ⟨⟨(h.next hk .putting).2, h.spill⟩, ?_⟩
    apply Places.Moves.transfer (i := .hand) (j := .dropped) (x := span)
    refine ⟨by decide, Multiset.coe_eq_coe.mpr (inHand_next hk .putting), ?_, ?_⟩
    · exact coe_concat s.dropped span
    · intro p hhand hdropped
      cases p <;> first | rfl | contradiction
  · exact h.stay rfl rfl

/-- A step that leaves the buffer with what it holds. -/
theorem Readable.keep {t : EvidencePipeline T} {b b' : SpillBuffer} {q : List SpanData}
    (hb : s.spill = some b) (hq : b.Holds q) (hq' : b'.Holds q) (hflow : t.flow = s.flow)
    (hspill : t.spill = s.spill) (lock : Option Thread) :
    Flows s { t with spill := some b', spillLock := lock } := by
  refine ⟨⟨?_, ?_⟩, .stay ?_⟩
  · intro span hspan
    have hhand : (t.inHand : Multiset SpanData) = s.inHand := congrFun hflow .hand
    exact h.hand span ((Multiset.coe_eq_coe.mp hhand).mem_iff.mp hspan)
  · intro c hc
    obtain rfl := Option.some.inj hc
    exact ⟨q, hq'⟩
  · rw [← hflow]
    refine flow_congr rfl ?_ rfl rfl rfl rfl rfl rfl
    rw [pending_of_holds rfl hq', pending_of_holds (hspill.trans hb) hq]

/-- A refill takes a span from the spill buffer to the queue, or none. -/
theorem refill_flows (o : Thread) (fault : Bool) : Flows s (s.refillFromSpill o fault) := by
  -- the state of the refilling thread holds no span
  have hset (refill : Refill) : (s.setRefill o refill).flow = s.flow :=
    onThread_flow s o (Worker.held_setRefill refill) _
  have hrefilled : (s.refilled o).flow = s.flow := onThread_flow s o Worker.held_refilled _
  have hstep := refillFromSpill_step s o fault
  generalize s.refillFromSpill o fault = t at hstep
  cases hstep with
  | stay => exact h.stay rfl rfl
  | absent => exact h.stay hrefilled (onThread_spill s o _ _)
  | raised =>
      exact h.stay (onThread_flow s o (Worker.held_raised _) _) (onThread_spill s o _ _)
  | opened => exact h.stay (hset .draining) (onThread_spill s o _ _)
  | ended => exact h.stay (hset .truncating) (onThread_spill s o _ _)
  | skipped hrefill hb hnext =>
      -- a buffer that holds spans has no blank line
      obtain ⟨q, hq⟩ := h.spill _ hb
      exact absurd hnext (hq.next_ne_blank _)
  | @accepted b span length hrefill hb hnext hroom =>
      obtain ⟨q, hq⟩ := h.spill _ hb
      obtain ⟨rest, rfl, rfl⟩ := hq.eq_cons_of_next hnext
      -- the span leaves the spill file when the cursor passes it, and is in the queue
      have hadvance := hq.advance
      refine ⟨⟨h.hand, ?_⟩, ?_⟩
      · intro c hc
        obtain rfl := Option.some.inj hc
        exact ⟨rest, hadvance⟩
      · apply Places.Moves.transfer (i := .spill) (j := .queue) (x := span)
        refine ⟨by decide, ?_, ?_, ?_⟩
        · show (↑s.pending : Multiset SpanData) = span ::ₘ ↑(pending _)
          rw [pending_of_holds hb hq, pending_of_holds rfl hadvance]
          rfl
        · simp only [flow, queued, enqueue, List.filterMap_append]
          exact coe_concat _ span
        · intro p hspill hqueue
          cases p <;> first | rfl | contradiction
  | truncated hrefill hb =>
      -- rewriting the file and saving the cursor keep what is pending
      obtain ⟨q, hq⟩ := h.spill _ hb
      exact h.keep hb hq hq.compact (hset .saving) (onThread_spill s o _ _)
        (s.setRefill o .saving).spillLock
  | saved hrefill hb =>
      obtain ⟨q, hq⟩ := h.spill _ hb
      exact h.keep hb hq hq.saveCursor hrefilled (onThread_spill s o _ _) none

/-- The worker takes a span from the queue. -/
theorem get_flows : Flows s s.get := by
  unfold get
  split
  · rename_i span queue hworker hqueue
    refine ⟨⟨h.hand, h.spill⟩, ?_⟩
    apply Places.Moves.transfer (i := .queue) (j := .worker) (x := span)
    refine ⟨by decide, ?_, ?_, ?_⟩
    · simp only [flow, queued, hqueue]
      rfl
    · simp only [flow, hworker]
      rfl
    · intro p hqueue hworker
      cases p <;> first | rfl | contradiction
  · rename_i queue hworker hqueue
    refine h.stay (flow_congr rfl rfl ?_ ?_ rfl rfl rfl rfl) rfl
    · rw [queued, queued, hqueue]
      rfl
    · rw [hworker]
      rfl
  · exact h.stay rfl rfl

/-- A span that cannot be normalized is counted. -/
theorem normalize_flows (ok : Bool) : Flows s (s.normalize ok) := by
  unfold normalize
  split
  · rename_i span hworker
    split
    · refine h.stay (flow_congr rfl rfl rfl ?_ rfl rfl rfl rfl) rfl
      rw [hworker]
      rfl
    · refine ⟨⟨h.hand, h.spill⟩, ?_⟩
      apply Places.Moves.transfer (i := .worker) (j := .unnormalized) (x := span)
      refine ⟨by decide, ?_, coe_concat s.unnormalized span, ?_⟩
      · simp only [flow, hworker]
        rfl
      · intro p hworker hdone
        cases p <;> first | rfl | contradiction
  · exact h.stay rfl rfl

/-- A span is committed, tried again, or counted. -/
theorem commit_flows (ok : Bool) : Flows s (s.commit ok) := by
  unfold commit
  split
  · rename_i span attempt hworker
    split_ifs
    · refine ⟨⟨h.hand, h.spill⟩, ?_⟩
      apply Places.Moves.transfer (i := .worker) (j := .processed) (x := span)
      refine ⟨by decide, ?_, coe_concat s.processed span, ?_⟩
      · simp only [flow, hworker]
        rfl
      · intro p hworker hdone
        cases p <;> first | rfl | contradiction
    · refine h.stay (flow_congr rfl rfl rfl ?_ rfl rfl rfl rfl) rfl
      rw [hworker]
      rfl
    · refine ⟨⟨h.hand, h.spill⟩, ?_⟩
      apply Places.Moves.transfer (i := .worker) (j := .uncommitted) (x := span)
      refine ⟨by decide, ?_, coe_concat s.uncommitted span, ?_⟩
      · simp only [flow, hworker]
        rfl
      · intro p hworker hdone
        cases p <;> first | rfl | contradiction
  · exact h.stay rfl rfl

/-- No other step moves a span. -/
theorem control_flows {op : Op T} (hop : match op with
    | .clock .. | .timeout | .emitStart _ | .emitCommit _ | .emitSettle _ | .taskDone | .flush
    | .join _ | .check .. | .stop => True
    | _ => False) : Flows s (s.step op) := by
  cases op with
  | submit | put | spillOver | drop | get | refill | normalize | commit => exact hop.elim
  | clock k now =>
      simp only [step, clock]
      -- the thread keeps the span in its hand
      split
      · rename_i span rest hk
        exact h.stay (flow_congr (inHand_stage hk _) rfl rfl rfl rfl rfl rfl rfl) rfl
      · exact h.stay rfl rfl
  | timeout =>
      simp only [step, timeout]
      split
      · rename_i hworker hqueue
        refine h.stay (flow_congr rfl rfl rfl ?_ rfl rfl rfl rfl) rfl
        rw [hworker]
        rfl
      · exact h.stay rfl rfl
  | emitStart o =>
      simp only [step, emitStart]
      split_ifs
      · exact h.stay (onThread_flow s o Worker.held_emitted _) (onThread_spill s o _ _)
      · exact h.stay rfl rfl
      · exact h.stay rfl rfl
  | emitCommit ok =>
      simp only [step, emitCommit]
      split
      · rename_i o _ _ _ _ _
        split_ifs
        · exact h.stay rfl rfl
        · exact h.stay (onThread_flow s o Worker.held_emitted _) (onThread_spill s o _ _)
      · exact h.stay rfl rfl
  | emitSettle saved =>
      simp only [step, emitSettle]
      split
      · rename_i o _ _ _ _ _
        exact h.stay (onThread_flow s o Worker.held_emitted _) (onThread_spill s o _ _)
      · exact h.stay rfl rfl
  | taskDone =>
      simp only [step, taskDone]
      split
      -- the span of the finished task has been counted before
      · rename_i exiting hworker
        refine h.stay (flow_congr rfl rfl rfl ?_ rfl rfl rfl rfl) rfl
        rw [hworker]
        rfl
      · exact h.stay rfl rfl
  | flush => exact h.stay rfl rfl
  | join k =>
      simp only [step, join]
      split <;> exact h.stay rfl rfl
  | check k fault =>
      simp only [step, check]
      split
      · split_ifs <;> exact h.stay rfl rfl
      · exact h.stay rfl rfl
  | stop =>
      simp only [step, stop]
      split
      · exact h.stay rfl rfl
      -- the sentinel is no span
      · refine h.stay (flow_congr rfl rfl ?_ rfl rfl rfl rfl rfl) rfl
        simp [queued, enqueue, Item.span?]

end Steps

/-! ## Conservation -/

/-- The spans that a step submits are JSON values, and an append that fails leaves nothing in the
file. -/
def Op.Whole : Op T → Prop
  | .submit spans => ∀ span ∈ spans, span.IsJson
  | .spillOver _ fault => fault = none ∨ fault = some 0
  | _ => True

/-- Whether a step is none of a new call of `submit`. -/
def Op.NoSubmit : Op T → Prop
  | .submit _ => False
  | _ => True

/-- **A step that submits no spans moves one span on, or none.** -/
theorem step_flows {s : EvidencePipeline T} (h : s.Readable) {op : Op T} (hop : op.Whole)
    (hsubmit : op.NoSubmit) : Flows s (s.step op) := by
  cases op with
  | submit => exact hsubmit.elim
  | put k => exact put_flows h k
  | spillOver k fault => exact spillOver_flows h k hop
  | drop k saved => exact drop_flows h k saved
  | get => exact get_flows h
  | refill o fault => exact refill_flows h o fault
  | normalize ok => exact normalize_flows h ok
  | commit ok => exact commit_flows h ok
  | clock | timeout | emitStart | emitCommit | emitSettle | taskDone | flush | join | check | stop =>
      exact control_flows h trivial

/-- Only `submit` gives spans to the pipeline. -/
theorem step_given (s : EvidencePipeline T) {op : Op T} (hsubmit : op.NoSubmit) :
    (s.step op).given = s.given := by
  have hthread (o : Thread) (f : Worker → Worker) (g : Flusher → Flusher) :
      (s.onThread o f g).given = s.given := by
    cases o <;> rfl
  cases op with
  | submit => exact hsubmit.elim
  | refill o fault =>
      have hstep := refillFromSpill_step s o fault
      show (s.refillFromSpill o fault).given = s.given
      generalize s.refillFromSpill o fault = t at hstep ⊢
      cases hstep <;> first | rfl | exact hthread o _ _
  | emitStart o =>
      simp only [step, emitStart]
      split_ifs <;> first | rfl | exact hthread o _ _
  | emitCommit ok =>
      simp only [step, emitCommit]
      repeat' split
      all_goals first | rfl | exact hthread _ _ _
  | emitSettle saved =>
      simp only [step, emitSettle]
      split <;> first | rfl | exact hthread _ _ _
  | _ =>
      simp only [step, put, spillOver, clock, drop, get, timeout, normalize, commit, taskDone, flush,
        join, check, stop]
      repeat' split
      all_goals rfl

/-- The spans given to the pipeline are those in the places. -/
def Conserved (s : EvidencePipeline T) : Prop := (s.given : Multiset SpanData) = Places.total s.flow

/-- **Each step conserves the spans.** -/
theorem step_conserves {s : EvidencePipeline T} (h : s.Readable) (hconserved : s.Conserved) {op : Op T}
    (hop : op.Whole) : (s.step op).Readable ∧ (s.step op).Conserved := by
  -- no span arrives, and each that moves leaves the place it was in
  by_cases hsubmit : op.NoSubmit
  · have hflows := step_flows h hop hsubmit
    refine ⟨hflows.readable, ?_⟩
    rw [Conserved, step_given s hsubmit, hflows.moves.total_eq]
    exact hconserved
  · cases op with
    | submit spans =>
        have hhand : (s.submit spans).inHand = s.inHand ++ spans := by
          simp [inHand, submit]
        refine ⟨⟨?_, h.spill⟩, ?_⟩
        -- the spans arrive in hand, and nowhere else
        · intro span hspan
          rw [step, hhand] at hspan
          rcases List.mem_append.mp hspan with hold | hnew
          · exact h.hand span hold
          · exact hop span hnew
        · have htotal : Places.total (s.submit spans).flow
              = Places.total s.flow + (spans : Multiset SpanData) := by
            apply Places.total_arrive (i := .hand)
            · show ((s.submit spans).inHand : Multiset SpanData) = ↑s.inHand + ↑spans
              rw [hhand, Multiset.coe_add]
            · intro p hp
              cases p <;> first | rfl | contradiction
          rw [Conserved, step, htotal, ← hconserved]
          exact (Multiset.coe_add s.given spans).symm
    | _ => exact absurd trivial hsubmit

/-- Every run conserves the spans. -/
theorem run_flow {s : EvidencePipeline T} (h : s.Readable) (hconserved : s.Conserved)
    {ops : List (Op T)} (hops : ∀ op ∈ ops, op.Whole) :
    (s.run ops).Readable ∧ (s.run ops).Conserved := by
  induction ops generalizing s with
  | nil => exact ⟨h, hconserved⟩
  | cons op ops ih =>
      obtain ⟨hstep, hkept⟩ := step_conserves h hconserved (hops op List.mem_cons_self)
      exact ih hstep hkept fun o ho => hops o (List.mem_cons_of_mem op ho)

/-! ## The unfinished tasks -/

/-- The unfinished tasks are those in the queue and the one that the worker has taken. -/
def Counted (s : EvidencePipeline T) : Prop := s.unfinished = s.queue.length + s.worker.taken

/-- Each step keeps the count. -/
theorem step_counted {s : EvidencePipeline T} (h : s.Counted) (op : Op T) : (s.step op).Counted := by
  -- what the threads do outside the queue takes no task
  have hthread (o : Thread) {f : Worker → Worker} (hf : ∀ w, (f w).taken = w.taken)
      (g : Flusher → Flusher) : (s.onThread o f g).Counted := by
    cases o with
    | worker => exact h.trans (congrArg (s.queue.length + ·) (hf s.worker).symm)
    | flusher k => exact h
  have henqueue (item : Item) : (s.enqueue item).Counted := by
    show s.unfinished + 1 = (s.queue ++ [item]).length + s.worker.taken
    rw [Counted] at h
    rw [List.length_append, List.length_singleton]
    omega
  cases op with
  | refill o fault =>
      have hstep := refillFromSpill_step s o fault
      show (s.refillFromSpill o fault).Counted
      generalize s.refillFromSpill o fault = t at hstep ⊢
      cases hstep with
      | stay | skipped => exact h
      | accepted => exact henqueue _
      | absent | saved => exact hthread o Worker.taken_refilled _
      | opened | ended | truncated => exact hthread o (Worker.taken_setRefill _) _
      | raised => exact hthread o (Worker.taken_raised _) _
  | emitStart o =>
      simp only [step, emitStart]
      split_ifs <;> first | exact h | exact hthread o Worker.taken_emitted _
  | emitCommit ok =>
      simp only [step, emitCommit]
      repeat' split
      all_goals first | exact h | exact hthread _ Worker.taken_emitted _
  | emitSettle saved =>
      simp only [step, emitSettle]
      split <;> first | exact h | exact hthread _ Worker.taken_emitted _
  | get =>
      simp only [step, get]
      split
      all_goals first
        | exact h
        | rename_i hworker hqueue
          -- the worker takes an item: one less in the queue, one more taken
          simp [Counted, hworker, hqueue, Worker.taken] at h ⊢
          exact h
  | timeout | normalize | commit | taskDone =>
      simp only [step, timeout, normalize, commit, taskDone]
      repeat' split
      all_goals first
        | exact h
        | simp_all [Counted, Worker.taken]
  -- only an enqueued item counts here
  | submit | put | spillOver | clock | drop | flush | join | check | stop =>
      simp only [step, submit, put, spillOver, clock, drop, flush, join, check, stop]
      repeat' split
      all_goals first | exact h | exact henqueue _

end OpenWright.EvidencePipeline
