import OpenWright.DropAccounting
import OpenWright.SpillBuffer

/-! # The evidence pipeline

Threads submit spans to a bounded queue; what does not fit is spilled to a file, and dropped where that
fails. One worker takes the spans from the queue, normalizes them and commits them to the ledger, and
refills the queue from the file. `flush` refills too, waits until all is done, and emits the marker of
the drops that are left; `stop` puts a sentinel into the queue.

`step` is what one thread does between two points at which another can act: each call of the queue, of
the spill buffer, of the ledger and of the drop accounting is a step of its own, and a drain has one for
each line. -/

namespace OpenWright

open Python

namespace EvidencePipeline

/-- What the queue holds: spans, and the `_SENTINEL` of `stop`. -/
inductive Item
  | span (span : SpanData)
  | sentinel
deriving DecidableEq

/-- The span, if it is one. -/
def Item.span? : Item → Option SpanData
  | .span s => some s
  | .sentinel => none

/-- Where a thread is in `_refill_from_spill`: before it has the lock of the buffer, in the loop of
`drain`, before the file is truncated, and before the cursor is saved. -/
inductive Refill
  | start
  | draining
  | truncating
  | saving
deriving DecidableEq

/-! ## The worker -/

/-- Where the worker is in `_run`. -/
inductive Worker
  /-- Waiting for an item. -/
  | top
  /-- In the branch of `queue.Empty`. -/
  | idleRefill (refill : Refill)
  | idleEmit
  /-- With an item. -/
  | sentinelEmit
  | spanEmit (span : SpanData)
  | normalizing (span : SpanData)
  | committing (span : SpanData) (attempt : Nat)
  /-- In the `finally` block; after a sentinel the loop is left. -/
  | taskDone (exiting : Bool)
  | finalRefill (exiting : Bool) (refill : Refill)
  | exited
  | dead (e : PyErr)
deriving DecidableEq

namespace Worker

/-- The refill that the worker is in. -/
def refill? : Worker → Option Refill
  | .idleRefill refill | .finalRefill _ refill => some refill
  | _ => none

/-- Go on in the refill. -/
def setRefill (refill : Refill) : Worker → Worker
  | .idleRefill _ => .idleRefill refill
  | .finalRefill exiting _ => .finalRefill exiting refill
  | w => w

/-- Return from the refill. -/
def refilled : Worker → Worker
  | .idleRefill _ => .idleEmit
  | .finalRefill true _ => .exited
  | .finalRefill false _ => .top
  | w => w

/-- An exception of the refill leaves the loop: nothing catches it. -/
def raised (e : PyErr) : Worker → Worker
  | .idleRefill _ | .finalRefill _ _ => .dead e
  | w => w

/-- Whether the worker is in `_emit_drop_marker_if_pending`. -/
def Emits : Worker → Prop
  | .idleEmit | .sentinelEmit | .spanEmit _ => True
  | _ => False

instance : DecidablePred Emits := fun w => by cases w <;> simp only [Emits] <;> infer_instance

/-- Return from the emission. -/
def emitted : Worker → Worker
  | .idleEmit => .top
  | .sentinelEmit => .taskDone true
  | .spanEmit span => .normalizing span
  | w => w

/-- The span that the worker holds. -/
def held : Worker → List SpanData
  | .spanEmit span | .normalizing span | .committing span _ => [span]
  | _ => []

/-- The number of items that are taken and not done. -/
def taken : Worker → Nat
  | .sentinelEmit | .spanEmit _ | .normalizing _ | .committing _ _ | .taskDone _ => 1
  | _ => 0

/-- In a refill and in an emission the worker takes no item and finishes none. -/
@[simp] theorem held_setRefill (refill : Refill) (w : Worker) : (w.setRefill refill).held = w.held := by
  cases w <;> rfl

/-- A refill takes nothing from the worker. -/
@[simp] theorem taken_setRefill (refill : Refill) (w : Worker) :
    (w.setRefill refill).taken = w.taken := by
  cases w <;> rfl

/-- Nor does the end of it, -/
@[simp] theorem held_refilled (w : Worker) : w.refilled.held = w.held := by
  cases w with
  | finalRefill exiting refill => cases exiting <;> rfl
  | _ => rfl

/-- which leaves what was taken. -/
@[simp] theorem taken_refilled (w : Worker) : w.refilled.taken = w.taken := by
  cases w with
  | finalRefill exiting refill => cases exiting <;> rfl
  | _ => rfl

/-- An exception in a refill leaves what the worker holds, -/
@[simp] theorem held_raised (e : PyErr) (w : Worker) : (w.raised e).held = w.held := by
  cases w <;> rfl

/-- and what it has taken. -/
@[simp] theorem taken_raised (e : PyErr) (w : Worker) : (w.raised e).taken = w.taken := by
  cases w <;> rfl

/-- The end of an emission leaves what the worker holds, -/
@[simp] theorem held_emitted (w : Worker) : w.emitted.held = w.held := by cases w <;> rfl

/-- and what it has taken. -/
@[simp] theorem taken_emitted (w : Worker) : w.emitted.taken = w.taken := by cases w <;> rfl

end Worker

/-! ## The other threads -/

/-- Where a call of `flush` is. -/
inductive Flusher
  | refilling (refill : Refill)
  | joining
  | checking
  | joiningAgain
  | checkingAgain
  | emitting
  | returned
  | raised (e : PyErr)
deriving DecidableEq

namespace Flusher

/-- The refill that `flush` is in. -/
def refill? : Flusher → Option Refill
  | .refilling refill => some refill
  | _ => none

/-- Go on in the refill. -/
def setRefill (refill : Refill) : Flusher → Flusher
  | .refilling _ => .refilling refill
  | f => f

/-- Return from the refill. -/
def refilled : Flusher → Flusher
  | .refilling _ => .joining
  | f => f

/-- The caller of `flush` gets the exception of the refill. -/
def failed (e : PyErr) : Flusher → Flusher
  | .refilling _ => .raised e
  | f => f

/-- Whether `flush` is in `_emit_drop_marker_if_pending`. -/
def Emits (f : Flusher) : Prop := f = .emitting

instance : DecidablePred Emits := fun f => inferInstanceAs (Decidable (f = .emitting))

/-- Return from the emission, and from `flush`. -/
def emitted : Flusher → Flusher
  | .emitting => .returned
  | f => f

end Flusher

/-- What a call of `submit` does next with its first span: put it into the queue, append it to the
spill buffer, read the clock, or record a drop at the time read. -/
inductive Stage (T : Type)
  | putting
  | spilling
  | timing
  | dropping (now : T)

/-- A call of `submit` with the spans that it has left. -/
structure Submitter (T : Type) where
  todo : List SpanData
  stage : Stage T

/-- A thread that refills the queue and emits markers. -/
inductive Thread
  | worker
  | flusher (k : Nat)
deriving DecidableEq

end EvidencePipeline

open EvidencePipeline in
/-- `EvidencePipeline`: the queue with the number of its unfinished tasks, the spill buffer, the threads
that hold the buffer's lock and `_emit_lock`, the threads, the drops, and where the spans have gone that
were given to the pipeline. -/
structure EvidencePipeline (T : Type) where
  maxQueue : Int
  commitRetries : Nat
  queue : List Item
  unfinished : Nat
  spill : Option SpillBuffer
  spillLock : Option Thread
  emitLock : Option Thread
  worker : Worker
  submitters : List (Submitter T)
  flushers : List Flusher
  drops : Drops T
  given : List SpanData
  processed : List SpanData
  unnormalized : List SpanData
  uncommitted : List SpanData
  dropped : List SpanData

namespace EvidencePipeline

variable {T : Type}

/-- `__init__`, on what the spill buffer and the drop journal recover. -/
def init (maxQueue : Int) (commitRetries : Nat) (spill : Option SpillBuffer) (drops : Drops T) :
    EvidencePipeline T where
  maxQueue
  commitRetries
  queue := []
  unfinished := 0
  spill
  spillLock := none
  emitLock := none
  worker := .top
  submitters := []
  flushers := []
  drops
  -- what an earlier process has left in the spill file was given before
  given := (spill.map SpillBuffer.pendingSpans).getD []
  processed := []
  unnormalized := []
  uncommitted := []
  dropped := []

/-! ## The queue -/

/-- The queue has no room; without a maximum it always has. -/
def Full (s : EvidencePipeline T) : Prop := 0 < s.maxQueue ∧ s.maxQueue ≤ s.queue.length

instance (s : EvidencePipeline T) : Decidable s.Full :=
  inferInstanceAs (Decidable (0 < s.maxQueue ∧ s.maxQueue ≤ s.queue.length))

/-- `put_nowait` where there is room. -/
def enqueue (s : EvidencePipeline T) (item : Item) : EvidencePipeline T :=
  { s with queue := s.queue ++ [item], unfinished := s.unfinished + 1 }

/-! ## `submit` -/

/-- A call of `submit`. -/
def submit (s : EvidencePipeline T) (spans : List SpanData) : EvidencePipeline T :=
  { s with
    given := s.given ++ spans
    submitters := s.submitters ++ [{ todo := spans, stage := .putting }] }

/-- `put_nowait` of the next span. -/
def put (s : EvidencePipeline T) (k : Nat) : EvidencePipeline T :=
  match s.submitters[k]? with
  | some { todo := span :: rest, stage := .putting } =>
    if s.Full then
      -- without a spill file a span that finds the queue full is dropped
      let stage := if s.spill.isSome then .spilling else .timing
      { s with submitters := s.submitters.set k { todo := span :: rest, stage } }
    else
      { s.enqueue (.span span) with
        submitters := s.submitters.set k { todo := rest, stage := .putting } }
  | _ => s

/-- `_spill.append` of the span that found the queue full. -/
def spillOver (s : EvidencePipeline T) (k : Nat) (fault : Option Nat) : EvidencePipeline T :=
  match s.submitters[k]?, s.spill, s.spillLock with
  | some { todo := span :: rest, stage := .spilling }, some b, none =>
    match b.append span fault with
    | (.ok _, b) =>
      { s with
        spill := some b
        submitters := s.submitters.set k { todo := rest, stage := .putting } }
    -- the file could not be written: the span is dropped after all
    | (.error _, b) =>
      { s with
        spill := some b
        submitters := s.submitters.set k { todo := span :: rest, stage := .timing } }
  | _, _, _ => s

/-- Read the clock for a drop. -/
def clock (s : EvidencePipeline T) (k : Nat) (now : T) : EvidencePipeline T :=
  match s.submitters[k]? with
  | some { todo := span :: rest, stage := .timing } =>
    { s with submitters := s.submitters.set k { todo := span :: rest, stage := .dropping now } }
  | _ => s

/-- Record the drop. -/
def drop (s : EvidencePipeline T) (k : Nat) (saved : Bool) : EvidencePipeline T :=
  match s.submitters[k]? with
  | some { todo := span :: rest, stage := .dropping now } =>
    { s with
      drops := s.drops.run [.clock now, .drop s.drops.clocks.length saved]
      dropped := s.dropped ++ [span]
      submitters := s.submitters.set k { todo := rest, stage := .putting } }
  | _ => s

/-! ## `_refill_from_spill` -/

/-- Change where a thread is. -/
def onThread (s : EvidencePipeline T) (o : Thread) (onWorker : Worker → Worker)
    (onFlusher : Flusher → Flusher) : EvidencePipeline T :=
  match o with
  | .worker => { s with worker := onWorker s.worker }
  | .flusher k => { s with flushers := s.flushers.modify k onFlusher }

/-- What a thread does to itself leaves the spill buffer. -/
@[simp] theorem onThread_spill (s : EvidencePipeline T) (o : Thread) (onWorker : Worker → Worker)
    (onFlusher : Flusher → Flusher) : (s.onThread o onWorker onFlusher).spill = s.spill := by
  cases o <;> rfl

/-- The refill that a thread is in. -/
def refill? (s : EvidencePipeline T) : Thread → Option Refill
  | .worker => s.worker.refill?
  | .flusher k => s.flushers[k]?.bind Flusher.refill?

/-- Go on in the refill. -/
def setRefill (s : EvidencePipeline T) (o : Thread) (refill : Refill) : EvidencePipeline T :=
  s.onThread o (Worker.setRefill refill) (Flusher.setRefill refill)

/-- Return from the refill. -/
def refilled (s : EvidencePipeline T) (o : Thread) : EvidencePipeline T :=
  s.onThread o Worker.refilled Flusher.refilled

/-- The refill raises; the lock is released. -/
def raise (s : EvidencePipeline T) (o : Thread) (e : PyErr) : EvidencePipeline T :=
  { s.onThread o (Worker.raised e) (Flusher.failed e) with spillLock := none }

/-- What the file system raises. -/
def osError : PyErr := { kind := .osError }

/-- One step of `_refill_from_spill`, and of `drain` in it; where `fault`, the file system fails it. -/
def refillFromSpill (s : EvidencePipeline T) (o : Thread) (fault : Bool) : EvidencePipeline T :=
  match s.refill? o, s.spill with
  | none, _ => s
  | some _, none => s.refilled o
  | some .start, some b =>
    if s.spillLock.isSome then s
    else if fault then s.raise o osError
    else
      match b.seek with
      | .error e => s.raise o e
      | .ok _ => { s.setRefill o .draining with spillLock := some o }
  | some .draining, some b =>
    if fault then s.raise o osError
    else
      match b.next with
      | .done => s.setRefill o .truncating
      | .blank length => { s with spill := some (b.advance length) }
      | .unreadable e => s.raise o e
      | .span span length =>
        if s.Full then s.setRefill o .truncating
        else { s.enqueue (.span span) with spill := some (b.advance length) }
  | some .truncating, some b =>
    -- nothing is truncated while a line is left
    if fault ∧ (b.file.length : Int) ≤ b.consumed then s.raise o osError
    else { s.setRefill o .saving with spill := some b.compact }
  | some .saving, some b =>
    if fault then s.raise o osError
    else { s.refilled o with spill := some b.saveCursor, spillLock := none }

/-- What a step of a refill can do. -/
inductive RefillStep (s : EvidencePipeline T) (o : Thread) (fault : Bool) : EvidencePipeline T → Prop
  | stay : RefillStep s o fault s
  | absent {r : Refill} (hrefill : s.refill? o = some r) (hspill : s.spill = none) :
      RefillStep s o fault (s.refilled o)
  | raised {r : Refill} {b : SpillBuffer} {e : PyErr} (hrefill : s.refill? o = some r)
      (hspill : s.spill = some b) (hlock : r = .start → s.spillLock = none)
      (hwhy : fault = true ∨ r = .start ∧ b.seek = .error e ∨ r = .draining ∧ b.next = .unreadable e) :
      RefillStep s o fault (s.raise o e)
  | opened {b : SpillBuffer} (hrefill : s.refill? o = some .start) (hspill : s.spill = some b)
      (hlock : s.spillLock = none) (hseek : b.seek = .ok ()) :
      RefillStep s o fault { s.setRefill o .draining with spillLock := some o }
  | skipped {b : SpillBuffer} {length : Nat} (hrefill : s.refill? o = some .draining)
      (hspill : s.spill = some b) (hnext : b.next = .blank length) :
      RefillStep s o fault { s with spill := some (b.advance length) }
  | accepted {b : SpillBuffer} {span : SpanData} {length : Nat}
      (hrefill : s.refill? o = some .draining) (hspill : s.spill = some b)
      (hnext : b.next = .span span length) (hroom : ¬s.Full) :
      RefillStep s o fault { s.enqueue (.span span) with spill := some (b.advance length) }
  | ended {b : SpillBuffer} (hrefill : s.refill? o = some .draining) (hspill : s.spill = some b)
      (hend : b.next = .done ∨ s.Full) : RefillStep s o fault (s.setRefill o .truncating)
  | truncated {b : SpillBuffer} (hrefill : s.refill? o = some .truncating) (hspill : s.spill = some b) :
      RefillStep s o fault { s.setRefill o .saving with spill := some b.compact }
  | saved {b : SpillBuffer} (hrefill : s.refill? o = some .saving) (hspill : s.spill = some b) :
      RefillStep s o fault { s.refilled o with spill := some b.saveCursor, spillLock := none }

/-- **A step of a refill is one of these.** -/
theorem refillFromSpill_step (s : EvidencePipeline T) (o : Thread) (fault : Bool) :
    RefillStep s o fault (s.refillFromSpill o fault) := by
  unfold refillFromSpill
  split
  -- this thread does not refill
  · exact .stay
  · rename_i hrefill hspill
    exact .absent hrefill hspill
  · rename_i b hrefill hspill
    -- it waits for the lock of the file, opens it and seeks to the cursor
    split_ifs with hlock hfault
    · exact .stay
    · exact .raised hrefill hspill (fun _ => Option.not_isSome_iff_eq_none.mp hlock) (Or.inl hfault)
    · have hfree : s.spillLock = none := Option.not_isSome_iff_eq_none.mp hlock
      split
      · rename_i e hseek
        exact .raised hrefill hspill (fun _ => hfree) (Or.inr (Or.inl ⟨rfl, hseek⟩))
      · rename_i hseek
        exact .opened hrefill hspill hfree hseek
  · rename_i b hrefill hspill
    split
    · rename_i hfault
      -- it drains: a record at a time, until the queue is full or the file ends
      exact .raised hrefill hspill nofun (Or.inl hfault)
    · split
      · rename_i hnext
        exact .ended hrefill hspill (Or.inl hnext)
      · rename_i length hnext
        exact .skipped hrefill hspill hnext
      · rename_i e hnext
        exact .raised hrefill hspill nofun (Or.inr (Or.inr ⟨rfl, hnext⟩))
      · rename_i span length hnext
        split
        · rename_i hfull
          exact .ended hrefill hspill (Or.inr hfull)
        · rename_i hroom
          exact .accepted hrefill hspill hnext hroom
  · rename_i b hrefill hspill
    -- it rewrites the file without what was drained
    split
    · rename_i hfault
      exact .raised hrefill hspill nofun (Or.inl hfault.1)
    · exact .truncated hrefill hspill
  · rename_i b hrefill hspill
    -- it saves the cursor, and is done
    split
    · rename_i hfault
      exact .raised hrefill hspill nofun (Or.inl hfault)
    · exact .saved hrefill hspill

/-! ## `_emit_drop_marker_if_pending` -/

/-- Whether a thread is in it. -/
def Emits (s : EvidencePipeline T) : Thread → Prop
  | .worker => s.worker.Emits
  | .flusher k => ∃ f ∈ s.flushers[k]?, f.Emits

instance (s : EvidencePipeline T) (o : Thread) : Decidable (s.Emits o) :=
  match o with
  | .worker => inferInstanceAs (Decidable s.worker.Emits)
  | .flusher k => inferInstanceAs (Decidable (∃ f ∈ s.flushers[k]?, f.Emits))

/-- Return from it. -/
def emitted (s : EvidencePipeline T) (o : Thread) : EvidencePipeline T :=
  s.onThread o Worker.emitted Flusher.emitted

/-- Take `_emit_lock` and read the drops; where there are none, return. -/
def emitStart (s : EvidencePipeline T) (o : Thread) : EvidencePipeline T :=
  if s.Emits o ∧ s.emitLock.isNone then
    if s.drops.undeclaredDrops = 0 then s.emitted o
    else { s with drops := s.drops.step .snapshot, emitLock := some o }
  else s

/-- Commit the marker; where that fails, return. -/
def emitCommit (s : EvidencePipeline T) (ok : Bool) : EvidencePipeline T :=
  match s.emitLock, s.drops.emission with
  | some o, some { committed := false, .. } =>
    if ok then { s with drops := s.drops.step (.commit true) }
    else { s.emitted o with drops := s.drops.step (.commit false), emitLock := none }
  | _, _ => s

/-- Take the drops of the marker off, and return. -/
def emitSettle (s : EvidencePipeline T) (saved : Bool) : EvidencePipeline T :=
  match s.emitLock, s.drops.emission with
  | some o, some { committed := true, .. } =>
    { s.emitted o with drops := s.drops.step (.settle saved), emitLock := none }
  | _, _ => s

/-! ## `_run` -/

/-- `_q.get` of an item. -/
def get (s : EvidencePipeline T) : EvidencePipeline T :=
  match s.worker, s.queue with
  | .top, .span span :: queue => { s with queue, worker := .spanEmit span }
  | .top, .sentinel :: queue => { s with queue, worker := .sentinelEmit }
  | _, _ => s

/-- `_q.get` raises `queue.Empty`. -/
def timeout (s : EvidencePipeline T) : EvidencePipeline T :=
  match s.worker, s.queue with
  | .top, [] => { s with worker := .idleRefill .start }
  | _, _ => s

/-- `_normalize` returns an event or raises. -/
def normalize (s : EvidencePipeline T) (ok : Bool) : EvidencePipeline T :=
  match s.worker with
  | .normalizing span =>
    if ok then { s with worker := .committing span 0 }
    else { s with unnormalized := s.unnormalized ++ [span], worker := .taskDone false }
  | _ => s

/-- `ledger.commit` returns or raises. -/
def commit (s : EvidencePipeline T) (ok : Bool) : EvidencePipeline T :=
  match s.worker with
  | .committing span attempt =>
    if ok then { s with processed := s.processed ++ [span], worker := .taskDone false }
    else if attempt < s.commitRetries then { s with worker := .committing span (attempt + 1) }
    else { s with uncommitted := s.uncommitted ++ [span], worker := .taskDone false }
  | _ => s

/-- `_q.task_done`. -/
def taskDone (s : EvidencePipeline T) : EvidencePipeline T :=
  match s.worker with
  | .taskDone exiting =>
    { s with unfinished := s.unfinished - 1, worker := .finalRefill exiting .start }
  | _ => s

/-! ## `flush` and `stop` -/

/-- A call of `flush`. -/
def flush (s : EvidencePipeline T) : EvidencePipeline T :=
  { s with flushers := s.flushers ++ [.refilling .start] }

/-- `_q.join` returns. -/
def join (s : EvidencePipeline T) (k : Nat) : EvidencePipeline T :=
  match s.flushers[k]?, s.unfinished with
  | some .joining, 0 =>
    { s with flushers := s.flushers.set k (if s.spill.isNone then .emitting else .checking) }
  | some .joiningAgain, 0 => { s with flushers := s.flushers.set k .checkingAgain }
  | _, _ => s

/-- Where `flush` goes on with the result of `_spill.pending`: `drained` where nothing is pending. -/
def checked (drained : Flusher) : Except PyErr Nat → Flusher
  | .error e => .raised e
  | .ok 0 => drained
  | .ok (_ + 1) => .refilling .start

/-- `_spill.pending`; where `fault`, the file system fails it. -/
def check (s : EvidencePipeline T) (k : Nat) (fault : Bool) : EvidencePipeline T :=
  match s.flushers[k]?, s.spill, s.spillLock with
  | some f, some b, none =>
    let pending := if fault then .error osError else b.pending
    if f = .checking then { s with flushers := s.flushers.set k (checked .joiningAgain pending) }
    else if f = .checkingAgain then { s with flushers := s.flushers.set k (checked .emitting pending) }
    else s
  | _, _, _ => s

/-- `_q.put(_SENTINEL)` where there is room. -/
def stop (s : EvidencePipeline T) : EvidencePipeline T :=
  if s.Full then s else s.enqueue .sentinel

/-! ## Runs -/

/-- What a thread does next, with what its environment answers. -/
inductive Op (T : Type)
  | submit (spans : List SpanData)
  | put (k : Nat)
  | spillOver (k : Nat) (fault : Option Nat)
  | clock (k : Nat) (now : T)
  | drop (k : Nat) (saved : Bool)
  | get
  | timeout
  | refill (o : Thread) (fault : Bool)
  | emitStart (o : Thread)
  | emitCommit (ok : Bool)
  | emitSettle (saved : Bool)
  | normalize (ok : Bool)
  | commit (ok : Bool)
  | taskDone
  | flush
  | join (k : Nat)
  | check (k : Nat) (fault : Bool)
  | stop

/-- One step; a step that no thread can take changes nothing. -/
def step (s : EvidencePipeline T) : Op T → EvidencePipeline T
  | .submit spans => s.submit spans
  | .put k => s.put k
  | .spillOver k fault => s.spillOver k fault
  | .clock k now => s.clock k now
  | .drop k saved => s.drop k saved
  | .get => s.get
  | .timeout => s.timeout
  | .refill o fault => s.refillFromSpill o fault
  | .emitStart o => s.emitStart o
  | .emitCommit ok => s.emitCommit ok
  | .emitSettle saved => s.emitSettle saved
  | .normalize ok => s.normalize ok
  | .commit ok => s.commit ok
  | .taskDone => s.taskDone
  | .flush => s.flush
  | .join k => s.join k
  | .check k fault => s.check k fault
  | .stop => s.stop

/-- The steps in order. -/
def run (s : EvidencePipeline T) (ops : List (Op T)) : EvidencePipeline T := ops.foldl step s

/-- A run after a run. -/
theorem run_append (s : EvidencePipeline T) (ops ops' : List (Op T)) :
    s.run (ops ++ ops') = (s.run ops).run ops' :=
  List.foldl_append

/-- Each step of a run meets a condition on the state before it. -/
def Along (P : EvidencePipeline T → Op T → Prop) : EvidencePipeline T → List (Op T) → Prop
  | _, [] => True
  | s, op :: ops => P s op ∧ Along P (s.step op) ops

end EvidencePipeline

end OpenWright
