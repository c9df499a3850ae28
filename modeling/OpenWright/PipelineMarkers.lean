import OpenWright.PipelineFlush

/-! # The markers of a pipeline

* **`run_declares`** — when `flush` has returned, every span given to the pipeline is committed, could
  not be normalized, or is counted by a marker, as long as no span runs out of retries. -/

namespace OpenWright.EvidencePipeline

open Python

variable {T : Type}

/-! ## The account of the drops -/

/-- Whether a step neither records a drop nor emits a marker nor commits a span. -/
def Op.Frames : Op T → Prop
  | .drop .. | .emitStart _ | .emitCommit _ | .emitSettle _ | .commit _ => False
  | _ => True

/-- Nothing changes about drops, markers and errors of the ledger. -/
structure SameDrops (s t : EvidencePipeline T) : Prop where
  drops : t.drops = s.drops
  dropped : t.dropped = s.dropped
  lock : t.emitLock = s.emitLock
  uncommitted : t.uncommitted = s.uncommitted

/-- Where a thread goes on changes nothing about them. -/
theorem onThread_same (s : EvidencePipeline T) (o : Thread) (f : Worker → Worker)
    (g : Flusher → Flusher) : SameDrops s (s.onThread o f g) := by
  cases o <;> exact ⟨rfl, rfl, rfl, rfl⟩

/-- The other steps change nothing about them. -/
theorem step_same (s : EvidencePipeline T) {op : Op T} (hop : op.Frames) : SameDrops s (s.step op) := by
  have hsame : SameDrops s s := ⟨rfl, rfl, rfl, rfl⟩
  cases op with
  | drop | emitStart | emitCommit | emitSettle | commit => exact hop.elim
  | refill o fault =>
      have hstep := refillFromSpill_step s o fault
      simp only [step]
      generalize s.refillFromSpill o fault = t at hstep ⊢
      have hthread := onThread_same s o
      cases hstep <;> first
        | exact hsame
        | exact ⟨rfl, rfl, rfl, rfl⟩
        | exact ⟨(hthread _ _).drops, (hthread _ _).dropped, (hthread _ _).lock,
            (hthread _ _).uncommitted⟩
  | _ =>
      simp only [step, submit, put, spillOver, clock, get, timeout, normalize, taskDone, flush, join,
        check, stop]
      repeat' split
      all_goals exact ⟨rfl, rfl, rfl, rfl⟩

/-- Committing a span changes nothing about the drops. -/
theorem commit_drops (s : EvidencePipeline T) (ok : Bool) : (s.commit ok).drops = s.drops ∧
    (s.commit ok).dropped = s.dropped ∧ (s.commit ok).emitLock = s.emitLock := by
  unfold commit
  repeat' split
  all_goals exact ⟨rfl, rfl, rfl⟩

/-- The drops are counted, and an emission holds `_emit_lock`. -/
structure Accounted (s : EvidencePipeline T) : Prop where
  counts : s.drops.Counts
  balanced : s.drops.Balanced
  dropped : s.dropped.length = s.drops.dropped
  lock : s.emitLock = none → s.drops.emission = none

namespace Accounted

variable {s t : EvidencePipeline T} (h : s.Accounted)
include h

/-- What changes nothing about the drops keeps the account. -/
theorem same (hsame : SameDrops s t) : t.Accounted := by
  obtain ⟨hdrops, hdropped, hlock, -⟩ := hsame
  refine ⟨?_, ?_, ?_, ?_⟩
  · rw [hdrops]
    exact h.counts
  · rw [hdrops]
    exact h.balanced
  · rw [hdrops, hdropped]
    exact h.dropped
  · rw [hdrops, hlock]
    exact h.lock

/-- An emission goes on, or ends. -/
theorem emission (dop : Drops.Step T) (hcrash : dop.NoCrash)
    (hdropped : (s.drops.step dop).dropped = s.drops.dropped) (hsame : t.dropped = s.dropped)
    (hdrops : t.drops = s.drops.step dop)
    (hlock : t.emitLock = none → (s.drops.step dop).emission = none) : t.Accounted := by
  refine ⟨?_, ?_, ?_, ?_⟩
  · rw [hdrops]
    exact Drops.step_counts h.counts hcrash
  · rw [hdrops]
    exact Drops.step_balanced h.counts h.balanced hcrash
  · rw [hdrops, hdropped, hsame]
    exact h.dropped
  · rw [hdrops]
    exact hlock

end Accounted

/-- Each step keeps the account. -/
theorem step_accounted {s : EvidencePipeline T} (h : s.Accounted) (op : Op T) :
    (s.step op).Accounted := by
  cases op with
  | drop k saved =>
      simp only [step, drop]
      split
      -- one drop more on both sides; an emission in progress has read the drops before it
      · rename_i span rest now hk
        obtain ⟨hdropped, hemission⟩ := s.drops.run_clock_drop now saved
        have hcrash : ∀ dop ∈ [.clock now, .drop s.drops.clocks.length saved],
            Drops.Step.NoCrash dop := by
          simp [Drops.Step.NoCrash]
        obtain ⟨hcounts, hbalanced⟩ := Drops.run_balanced h.counts h.balanced hcrash
        refine ⟨hcounts, hbalanced, ?_, ?_⟩
        · rw [hdropped, ← h.dropped, List.length_append, List.length_singleton]
        · rw [hemission]
          exact h.lock
      · exact h
  | emitStart o =>
      simp only [step, emitStart]
      split_ifs with hemits hnone
      · exact h.same (onThread_same s o _ _)
      -- the thread takes the lock and reads the undeclared drops
      · refine h.emission .snapshot trivial ?_ rfl rfl (fun hlock => by cases hlock)
        rcases (Drops.step_emission s.drops true true).1 with heq | ⟨-, -, heq⟩ <;> rw [heq]
      · exact h
  | emitCommit ok =>
      simp only [step, emitCommit]
      split
      · rename_i o n window times hlock hemission
        have hstep := Drops.step_commit hemission rfl
        -- committed, or refused by the ledger: then the emission is over and the lock is free
        split
        · refine h.emission (.commit true) trivial ?_ rfl rfl ?_
          · rw [hstep]
            rfl
          · intro hnone
            rw [hlock] at hnone
            cases hnone
        · refine h.emission (.commit false) trivial ?_ (onThread_same s o _ _).dropped rfl ?_
          · rw [hstep]
            rfl
          · intro hnone
            rw [hstep]
            rfl
      · exact h
  | emitSettle saved =>
      simp only [step, emitSettle]
      split
      · rename_i o n window times hlock hemission
        have hstep := Drops.step_settle hemission rfl saved
        refine h.emission (.settle saved) trivial ?_ (onThread_same s o _ _).dropped rfl ?_
        · rw [hstep]
        · intro hnone
          rw [hstep]
      · exact h
  | commit ok =>
      -- a retry of the worker commits an event, not a marker
      obtain ⟨hdrops, hdropped, hlock⟩ := commit_drops s ok
      refine ⟨?_, ?_, ?_, ?_⟩ <;> simp only [step, hdrops, hdropped, hlock]
      · exact h.counts
      · exact h.balanced
      · exact h.dropped
      · exact h.lock
  | submit | put | spillOver | clock | get | timeout | refill | normalize | taskDone | flush | join
    | check | stop => exact h.same (step_same s trivial)

/-- What a step makes of `_emit_lock`. -/
theorem step_lock (s : EvidencePipeline T) (op : Op T) : (s.step op).emitLock = s.emitLock ∨
    (s.step op).emitLock = none ∨ ∃ o, s.Emits o ∧ (s.step op).emitLock = some o := by
  have hframe (hframes : op.Frames) := (step_same s hframes).lock
  cases op with
  | drop k saved =>
      left
      simp only [step, drop]
      split <;> rfl
  | emitStart o =>
      simp only [step, emitStart]
      split_ifs with hemits
      · exact Or.inl (onThread_same s o _ _).lock
      · exact Or.inr (Or.inr ⟨o, hemits.1, rfl⟩)
      · exact Or.inl rfl
  | emitCommit ok =>
      simp only [step, emitCommit]
      split
      · split
        · exact Or.inl rfl
        · exact Or.inr (Or.inl rfl)
      · exact Or.inl rfl
  | emitSettle saved =>
      simp only [step, emitSettle]
      split
      · exact Or.inr (Or.inl rfl)
      · exact Or.inl rfl
  | commit ok => exact Or.inl (commit_drops s ok).2.2
  | submit | put | spillOver | clock | get | timeout | refill | normalize | taskDone | flush | join
    | check | stop => exact Or.inl (hframe trivial)

/-- A call of `flush` that holds `_emit_lock` has been made. -/
def Called (s : EvidencePipeline T) : Prop :=
  ∀ k, s.emitLock = some (.flusher k) → k < s.flushers.length

/-- Each step keeps that. -/
theorem step_called {s : EvidencePipeline T} (h : s.Called) (op : Op T) : (s.step op).Called := by
  intro k hlock
  have hcalled : k < s.flushers.length := by
    rcases step_lock s op with heq | heq | ⟨o, hemits, heq⟩
    · exact h k (heq.symm.trans hlock)
    · rw [heq] at hlock
      cases hlock
    · rw [heq] at hlock
      obtain rfl := Option.some.inj hlock
      obtain ⟨f, hf, -⟩ := hemits
      exact (List.getElem?_eq_some_iff.mp hf).1
  -- no call of `flush` is forgotten
  obtain ⟨f', hf', -⟩ := step_flusher s op (List.getElem?_eq_getElem hcalled)
  exact (List.getElem?_eq_some_iff.mp hf').1

/-! ## Commits that succeed in time -/

/-- No commit fails at a span's last attempt. -/
def CommitsInTime (s : EvidencePipeline T) : Op T → Prop
  | .commit false => ∀ span attempt, s.worker = .committing span attempt → attempt < s.commitRetries
  | _ => True

/-- Then no span is given up. -/
theorem step_uncommitted {s : EvidencePipeline T} {op : Op T} (hop : s.CommitsInTime op) :
    (s.step op).uncommitted = s.uncommitted := by
  have hframe (hframes : op.Frames) := (step_same s hframes).uncommitted
  cases op with
  | commit ok =>
      simp only [step, commit]
      split
      · rename_i span attempt hworker
        cases ok with
        | true => rfl
        | false =>
            -- the commit failed, but not for the last time
            rw [if_neg Bool.false_ne_true, if_pos (hop span attempt hworker)]
      · rfl
  | drop k saved =>
      simp only [step, drop]
      split <;> rfl
  | emitStart o =>
      simp only [step, emitStart]
      split_ifs <;> first | rfl | exact (onThread_same s o _ _).uncommitted
  | emitCommit ok =>
      simp only [step, emitCommit]
      repeat' split
      all_goals first | rfl | exact (onThread_same s _ _ _).uncommitted
  | emitSettle saved =>
      simp only [step, emitSettle]
      split <;> first | rfl | exact (onThread_same s _ _ _).uncommitted
  | submit | put | spillOver | clock | get | timeout | refill | normalize | taskDone | flush | join
    | check | stop => exact hframe trivial

/-! ## The last marker -/

/-- The marker that the call of `flush` number `k` emits is committed. -/
def Declares (k : Nat) (s : EvidencePipeline T) : Op T → Prop
  | .emitCommit false => s.emitLock ≠ some (.flusher k)
  | _ => True

/-- A marker that the call of `flush` emits counts all the drops, and when it has returned no drop is
undeclared. -/
structure Declared (s : EvidencePipeline T) (k : Nat) : Prop where
  emission : s.emitLock = some (.flusher k) →
    ∃ e, s.drops.emission = some e ∧ e.n = s.drops.undeclaredDrops
  returned : s.flushers[k]? = some .returned → s.drops.undeclaredDrops = 0

/-- Where no span is in hand, no drop is recorded. -/
theorem drop_eq_self {s : EvidencePipeline T} (hhand : s.inHand = []) (k : Nat) (saved : Bool) :
    s.drop k saved = s := by
  unfold drop
  split
  · rename_i span rest now hk
    exact (not_todo hhand hk).elim
  · rfl

/-- Without new drops there are never more undeclared ones. -/
theorem step_undeclared_le {s : EvidencePipeline T} (hhand : s.inHand = []) (op : Op T) :
    (s.step op).drops.undeclaredDrops ≤ s.drops.undeclaredDrops := by
  have hframe (hframes : op.Frames) := (step_same s hframes).drops
  cases op with
  | drop k saved =>
      show (s.drop k saved).drops.undeclaredDrops ≤ s.drops.undeclaredDrops
      -- no span is in hand, so none can be dropped
      rw [drop_eq_self hhand]
  | emitStart o =>
      simp only [step, emitStart]
      split_ifs
      · rw [emitted, (onThread_same s o _ _).drops]
      · rcases (Drops.step_emission s.drops true true).1 with heq | ⟨-, -, heq⟩ <;> rw [heq]
      · exact Nat.le_refl _
  | emitCommit ok =>
      simp only [step, emitCommit]
      split
      -- a commit settles nothing yet
      · rename_i o n window times hlock hemission
        split <;> rw [Drops.step_commit hemission rfl] <;> exact Nat.le_refl _
      · exact Nat.le_refl _
  | emitSettle saved =>
      simp only [step, emitSettle]
      split
      · rename_i o n window times hlock hemission
        rw [Drops.step_settle hemission rfl]
        exact Nat.sub_le _ _
      · exact Nat.le_refl _
  | commit ok =>
      simp only [step, (commit_drops s ok).1]
      exact Nat.le_refl _
  | submit | put | spillOver | clock | get | timeout | refill | normalize | taskDone | flush | join
    | check | stop => rw [hframe trivial]

/-- The marker that a call of `flush` is about to commit counts all the drops. -/
theorem step_emission_declared {s : EvidencePipeline T} (hhand : s.inHand = []) (haccounted : s.Accounted)
    {k : Nat} (h : s.Declared k) (op : Op T) (hlock : (s.step op).emitLock = some (.flusher k)) :
    ∃ e, (s.step op).drops.emission = some e ∧ e.n = (s.step op).drops.undeclaredDrops := by
  have hsame (hframes : op.Frames) : ∃ e, (s.step op).drops.emission = some e ∧
      e.n = (s.step op).drops.undeclaredDrops := by
    have hframe := step_same s hframes
    rw [hframe.drops]
    exact h.emission (hframe.lock.symm.trans hlock)
  cases op with
  | drop i saved =>
      simp only [step, drop_eq_self hhand] at hlock ⊢
      exact h.emission hlock
  | emitStart o =>
      simp only [step, emitStart] at hlock ⊢
      split_ifs at hlock ⊢ with hemits hnone
      · rw [emitted, (onThread_same s o _ _).lock] at hlock
        rw [emitted, (onThread_same s o _ _).drops]
        exact h.emission hlock
      · -- the lock was free, so the drops are read now
        have hfree : s.drops.emission = none := haccounted.lock (Option.isNone_iff_eq_none.mp hemits.2)
        rw [Drops.step, if_pos ⟨Option.isNone_iff_eq_none.mpr hfree, hnone⟩]
        exact ⟨_, rfl, rfl⟩
      · exact h.emission hlock
  | emitCommit ok =>
      simp only [step, emitCommit] at hlock ⊢
      split at hlock
      · rename_i o n window times hfree hemission
        cases ok with
        | false => cases hlock
        | true =>
            obtain ⟨e, he, hn⟩ := h.emission hlock
            obtain rfl := Option.some.inj (hemission.symm.trans he)
            simp only [if_true, Drops.step_commit hemission rfl]
            exact ⟨_, rfl, hn⟩
      · exact h.emission hlock
  | emitSettle saved =>
      simp only [step, emitSettle] at hlock ⊢
      split at hlock
      · cases hlock
      · exact h.emission hlock
  | commit ok =>
      obtain ⟨hdrops, -, hfree⟩ := commit_drops s ok
      simp only [step, hdrops, hfree] at hlock ⊢
      exact h.emission hlock
  | submit | put | spillOver | clock | get | timeout | refill | normalize | taskDone | flush | join
    | check | stop => exact hsame trivial

/-- **Each step keeps the drops declared** for a call of `flush` whose marker is committed. -/
theorem step_declared {s : EvidencePipeline T} {k : Nat} (hflushing : s.Flushing k)
    (haccounted : s.Accounted) (h : s.Declared k) {op : Op T} (hop : Declares k s op) :
    (s.step op).Declared k := by
  obtain ⟨f, hf, hempty⟩ := hflushing.flusher
  have hhand : s.inHand = [] :=
    (Multiset.coe_eq_zero _).mp (hempty .hand (Nat.zero_le _))
  have hle := step_undeclared_le hhand op
  refine ⟨step_emission_declared hhand haccounted h op, ?_⟩
  intro hreturned
  obtain ⟨f', hf', hstep⟩ := step_flusher s op hf
  obtain rfl := Option.some.inj (hf'.symm.trans hreturned)
  cases hstep with
  | stay =>
      rw [h.returned hf] at hle
      exact Nat.le_zero.mp hle
  | declared hnone =>
      rw [hnone] at hle
      exact Nat.le_zero.mp hle
  | refused hlock => exact absurd hlock hop
  | @settled hlock e hemission hcommitted saved =>
      -- the marker that is settled counts all of them
      obtain ⟨e', he', hn⟩ := h.emission hlock
      obtain rfl := Option.some.inj (hemission.symm.trans he')
      obtain ⟨n, window, times, committed⟩ := e
      subst hcommitted
      simp only [step, emitSettle, hlock, hemission, Drops.step_settle hemission rfl saved]
      exact Nat.sub_eq_zero_of_le (Nat.le_of_eq hn.symm)

/-- A call of `flush` in which every commit of a span comes in time and the last marker is committed. -/
theorem run_declared {s : EvidencePipeline T} {k : Nat} (hflushing : s.Flushing k)
    (haccounted : s.Accounted) (h : s.Declared k) {ops : List (Op T)}
    (hops : ∀ op ∈ ops, op.Whole ∧ op.NoSubmit ∧ op.NoStop) (hdeclares : Along (Declares k) s ops) :
    (s.run ops).Accounted ∧ (s.run ops).Declared k := by
  induction ops generalizing s with
  | nil => exact ⟨haccounted, h⟩
  | cons op ops ih =>
      obtain ⟨hwhole, hsubmit, -⟩ := hops op List.mem_cons_self
      exact ih (step_flushing hflushing hwhole hsubmit) (step_accounted haccounted op)
        (step_declared hflushing haccounted h hdeclares.1)
        (fun o ho => hops o (List.mem_cons_of_mem op ho)) hdeclares.2

/-- In a run whose commits come in time no span is given up. -/
theorem run_uncommitted {s : EvidencePipeline T} {ops : List (Op T)}
    (hcommits : Along CommitsInTime s ops) : (s.run ops).uncommitted = s.uncommitted := by
  induction ops generalizing s with
  | nil => rfl
  | cons op ops ih => exact (ih hcommits.2).trans (step_uncommitted hcommits.1)

/-- Every run keeps the account. -/
theorem run_accounted {s : EvidencePipeline T} (h : s.Accounted) (hcalled : s.Called)
    (ops : List (Op T)) : (s.run ops).Accounted ∧ (s.run ops).Called := by
  induction ops generalizing s with
  | nil => exact ⟨h, hcalled⟩
  | cons op ops ih => exact ih (step_accounted h op) (step_called hcalled op)

/-- **Where no span runs out of retries, no loss is silent**: when a `flush` whose own marker is
committed, and during which no thread submits, has returned, every span given to the pipeline is
committed, could not be normalized, or is counted by one marker. -/
theorem run_declares [Preorder T] {maxQueue : Int} {commitRetries : Nat} {spill : Option SpillBuffer}
    {durable : Bool} {journal : Option (DropIntent T)}
    (hspill : ∀ b, spill = some b → ∃ q, b.Holds q) (hjournal : ∀ d, journal = some d → d.Accurate)
    {ops : List (Op T)} (hops : ∀ op ∈ ops, op.Whole ∧ op.NoStop)
    (hcommits : Along CommitsInTime
      (init maxQueue commitRetries spill (Drops.init durable journal [] 0)) ops) :
    let s := (init maxQueue commitRetries spill (Drops.init durable journal [] 0)).run ops
    ∀ more, s.inHand = [] → (∀ op ∈ more, op.Whole ∧ op.NoSubmit ∧ op.NoStop) →
      Along CommitsInTime s.flush more → Along (Declares s.flushers.length) s.flush more →
      let t := s.run (.flush :: more)
      t.flushers[s.flushers.length]? = some .returned →
        t.given.Perm (t.processed ++ t.unnormalized ++ t.dropped) ∧
          t.drops.attested = t.dropped.length + t.drops.recoveredDrops := by
  intro s more hhand hmore hintime hdeclares t hreturned
  -- the spans
  obtain ⟨hreadable, hconserved⟩ := init_flow (T := T) hspill
  obtain ⟨hs, hkept⟩ := run_flow hreadable hconserved fun op hop => (hops op hop).1
  have hcounted : s.Counted :=
    @run_counted _ (init maxQueue commitRetries spill (Drops.init durable journal [] 0)) rfl ops
  have hunstopped : Item.sentinel ∉ s.queue :=
    run_unstopped List.not_mem_nil fun op hop => (hops op hop).2
  have hperm := (flush_conserves hs hkept hcounted hunstopped hhand hmore hreturned).2.2.2
  have hnone : (s.flush.run more).uncommitted = [] :=
    (run_uncommitted hintime).trans (run_uncommitted hcommits)
  rw [errors, hnone, List.append_nil] at hperm
  refine ⟨hperm, ?_⟩
  -- the drops
  have hinit : (init maxQueue commitRetries spill (Drops.init durable journal [] 0)).Accounted :=
    ⟨Drops.init_counts hjournal, Drops.init_balanced durable journal, rfl, fun _ => rfl⟩
  obtain ⟨haccount, hcalled⟩ := run_accounted hinit (fun k hlock => by cases hlock) ops
  have haccounted : s.flush.Accounted := step_accounted haccount .flush
  have hstart : s.flush.Declared s.flushers.length := by
    refine ⟨?_, ?_⟩
    · intro hlock
      exact absurd (hcalled _ hlock) (Nat.lt_irrefl _)
    · simp [flush]
  obtain ⟨hall, hdeclared⟩ := run_declared (flush_flushing hs hcounted hhand) haccounted hstart hmore
    hdeclares
  have hzero := hdeclared.returned hreturned
  have hsettled : (s.flush.run more).drops.unsettled = 0 := by
    rw [Drops.unsettled_eq_zero_iff hall.counts]
    intro e he
    have hle := (hall.counts.emission e he).2.1
    have hpos := (hall.counts.emission e he).1
    omega
  have hbalanced := hall.balanced
  rw [Drops.Balanced, hzero, hsettled, ← hall.dropped] at hbalanced
  exact hbalanced

/-- Two spans for a queue with room for one, and no spill buffer: the second is dropped. -/
def sampleDrop : List (Op Nat) :=
  [.submit [SpillBuffer.sampleSpan, SpillBuffer.sampleSpan], .put 0, .put 0, .clock 0 5, .drop 0 true]

/-- `flush` beside the worker, which emits the marker before it commits the span. -/
def sampleMarker : List (Op Nat) :=
  [.refill (.flusher 0) false, .get, .emitStart .worker, .emitCommit true, .emitSettle true,
    .normalize true, .commit true, .taskDone, .refill .worker false, .join 0, .emitStart (.flusher 0)]

/-- The flush of that run declares its one drop. -/
theorem run_declares_sample :
    let s := (init 1 3 none (Drops.init true none [] 0)).run sampleDrop
    let t := s.run (.flush :: sampleMarker)
    t.given.Perm (t.processed ++ t.unnormalized ++ t.dropped) ∧
      t.drops.attested = t.dropped.length + t.drops.recoveredDrops ∧ t.drops.attested = 1 := by
  have hops : ∀ op ∈ sampleDrop, op.Whole ∧ op.NoStop := by
    simp [sampleDrop, Op.Whole, Op.NoStop, SpillBuffer.sampleSpan_isJson]
  have hmore : ∀ op ∈ sampleMarker, op.Whole ∧ op.NoSubmit ∧ op.NoStop := by
    simp [sampleMarker, Op.Whole, Op.NoSubmit, Op.NoStop]
  have hcommits : Along CommitsInTime (init 1 3 none (Drops.init true none [] 0)) sampleDrop :=
    ⟨trivial, trivial, trivial, trivial, trivial, trivial⟩
  have hflush := @run_declares Nat _ 1 3 none true none (fun b hb => by cases hb)
    (fun d hd => by cases hd) sampleDrop hops hcommits sampleMarker rfl hmore
    ⟨trivial, trivial, trivial, trivial, trivial, trivial, trivial, trivial, trivial, trivial, trivial,
      trivial⟩
    ⟨trivial, trivial, trivial, trivial, trivial, trivial, trivial, trivial, trivial, trivial, trivial,
      trivial⟩ rfl
  exact ⟨hflush.1, hflush.2, rfl⟩

/-- Two spans: every attempt to commit the first fails, then the ledger is back and the second is
committed. -/
def sampleOutage : List (Op Nat) :=
  [.submit [SpillBuffer.sampleSpan, SpillBuffer.sampleSpan], .put 0, .put 0, .get, .emitStart .worker,
    .normalize true, .commit false, .commit false, .commit false, .commit false, .taskDone,
    .refill .worker false, .get, .emitStart .worker, .normalize true, .commit true, .taskDone,
    .refill .worker false]

/-- **A span that runs out of retries is lost in silence**: it has been normalized, and when `flush` has
returned it is neither committed nor counted by a marker. -/
theorem run_not_declares :
    let s := (init 10 3 none (Drops.init true none [] 0)).run sampleOutage
    let t := s.run [.flush, .refill (.flusher 0) false, .join 0, .emitStart (.flusher 0)]
    s.inHand = [] ∧ t.flushers = [.returned] ∧ t.given.length = 2 ∧ t.unnormalized = [] ∧
      t.processed.length = 1 ∧ t.drops.attested = 0 ∧ t.drops.recoveredDrops = 0 :=
  ⟨rfl, rfl, rfl, rfl, rfl, rfl, rfl⟩

end OpenWright.EvidencePipeline
