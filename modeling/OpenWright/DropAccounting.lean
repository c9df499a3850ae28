import Mathlib.Algebra.BigOperators.Group.List.Basic
import Mathlib.Algebra.GroupWithZero.Nat
import Mathlib.Order.Nat
import Mathlib.Tactic.Common

/-! # Drop accounting

A span that can be neither queued nor spilled is dropped: counted, given a time window together with
the drops before it, and noted in the drop journal. Markers that attest the drops are emitted by the
worker and by `flush`: the count is read, the marker committed, and then the count reduced by what was
read, while further drops go on.

* **`run_accounts`** — without a crash the markers and the undeclared drops add up to the drops, the
  journal holds the undeclared ones, and a marker's window contains the times of its drops as long as
  no drop is recorded behind one that read the clock after it.
* **`run_attested_iff`** — across crashes every recorded drop is attested once exactly where no process
  dies between committing a marker and reducing the count. -/

namespace OpenWright

/-! ## State -/

/-- `_drop_window`. -/
structure DropWindow (T : Type) where
  first : Option T
  last : Option T
deriving DecidableEq

namespace DropWindow

variable {T : Type}

/-- No drop. -/
def none : DropWindow T := { first := .none, last := .none }

/-- The window with one more drop. -/
def add (w : DropWindow T) (now : T) : DropWindow T :=
  { first := some (w.first.getD now), last := some now }

/-- A time from the start of the window to its end. -/
def Contains [LE T] (w : DropWindow T) (t : T) : Prop :=
  match w.first, w.last with
  | some a, some b => a ≤ t ∧ t ≤ b
  | _, _ => False

section Order

variable [Preorder T] {w : DropWindow T} {t now : T}

/-- The first drop makes its time the window. -/
theorem none_add_contains : (DropWindow.none.add now).Contains now := ⟨le_refl now, le_refl now⟩

/-- A drop that is not earlier than the end of the window leaves the others in it. -/
theorem add_contains (ht : w.Contains t) (hlast : ∀ last, w.last = some last → last ≤ now) :
    (w.add now).Contains t ∧ (w.add now).Contains now := by
  obtain ⟨first, last⟩ := w
  cases first with
  | none => exact ht.elim
  | some a =>
      cases last with
      | none => exact ht.elim
      | some b =>
          have hb : b ≤ now := hlast b rfl
          exact ⟨⟨ht.1, le_trans ht.2 hb⟩, le_trans ht.1 (le_trans ht.2 hb), le_refl now⟩

end Order

end DropWindow

/-- What the drop journal holds, and the times of the drops it stands for. -/
structure DropIntent (T : Type) where
  count : Nat
  pos : 0 < count
  window : DropWindow T
  times : List T

/-- There is a time for each drop, in the window. -/
structure DropIntent.Accurate {T : Type} [LE T] (d : DropIntent T) : Prop where
  times : d.times.length = d.count
  window : ∀ t ∈ d.times, d.window.Contains t

/-- A committed `evidence_gap` marker, and the times of the drops it counts. -/
structure GapMarker (T : Type) where
  droppedEvents : Nat
  window : DropWindow T
  times : List T

/-- A marker on its way: what was read of the drops, and whether it is in the ledger already. -/
structure Emission (T : Type) where
  n : Nat
  window : DropWindow T
  times : List T
  committed : Bool

/-- The part of an `EvidencePipeline` that accounts for drops. `clocks` are the clock readings of the
threads that wait for `_drop_lock`, `times` the times of the undeclared drops, and `recorded` is the
number of drops that were written to the journal. -/
structure Drops (T : Type) where
  durable : Bool
  dropped : Nat
  recoveredDrops : Nat
  undeclaredDrops : Nat
  dropWindow : DropWindow T
  journal : Option (DropIntent T)
  markers : List (GapMarker T)
  clocks : List T
  emission : Option (Emission T)
  times : List T
  recorded : Nat

namespace Drops

variable {T : Type}

/-- What the journal holds of a number of drops: nothing of none. -/
def intent (n : Nat) (window : DropWindow T) (times : List T) : Option (DropIntent T) :=
  if h : 0 < n then some { count := n, pos := h, window, times } else none

/-- `__init__`, on a ledger and a journal; without a durable directory there is no journal. -/
def init (durable : Bool) (journal : Option (DropIntent T)) (markers : List (GapMarker T))
    (recorded : Nat) : Drops T :=
  let pending := if durable then journal else none
  { durable
    dropped := 0
    -- the drops that the last process did not declare are this one's to declare
    recoveredDrops := (pending.map DropIntent.count).getD 0
    undeclaredDrops := (pending.map DropIntent.count).getD 0
    dropWindow := (pending.map DropIntent.window).getD .none
    journal
    markers
    clocks := []
    emission := none
    times := (pending.map DropIntent.times).getD []
    recorded }

/-- The steps of the threads. `saved` says whether the journal was written, where there is one. -/
inductive Step (T : Type)
  | clock (now : T)
  | drop (i : Nat) (saved : Bool)
  | snapshot
  | commit (ok : Bool)
  | settle (saved : Bool)
  | restart
deriving DecidableEq

/-- One step; a step that no thread can take changes nothing. -/
def step (s : Drops T) : Step T → Drops T
  | .clock now => { s with clocks := s.clocks ++ [now] }
  | .drop i saved =>
    -- a thread records the drop at the time it has read before
    match s.clocks[i]? with
    | none => s
    | some now =>
      let window := s.dropWindow.add now
      let times := s.times ++ [now]
      { s with
        dropped := s.dropped + 1
        undeclaredDrops := s.undeclaredDrops + 1
        dropWindow := window
        journal := if s.durable && saved then intent (s.undeclaredDrops + 1) window times else s.journal
        clocks := s.clocks.eraseIdx i
        times
        recorded := if s.durable && saved then s.recorded + 1 else s.recorded }
  | .snapshot =>
    -- one emission at a time, and none of no drops
    if s.emission.isNone ∧ s.undeclaredDrops ≠ 0 then
      { s with
        emission := some
          { n := s.undeclaredDrops, window := s.dropWindow, times := s.times, committed := false } }
    else s
  | .commit ok =>
    match s.emission with
    | some { n, window, times, committed := false } =>
      if ok then
        { s with
          markers := s.markers ++ [{ droppedEvents := n, window, times }]
          emission := some { n, window, times, committed := true } }
      -- the ledger refused the marker, and the drops stay undeclared
      else { s with emission := none }
    | _ => s
  | .settle saved =>
    match s.emission with
    | some { n, committed := true, .. } =>
      let left := s.undeclaredDrops - n
      -- drops recorded since the snapshot keep the window open
      let window := if left = 0 then .none else s.dropWindow
      let times := s.times.drop n
      { s with
        undeclaredDrops := left
        dropWindow := window
        journal := if s.durable && saved then intent left window times else s.journal
        emission := none
        times }
    | _ => s
  -- the next process starts with what the journal holds
  | .restart => init s.durable s.journal s.markers s.recorded

/-- The steps in order. -/
def run (s : Drops T) (ops : List (Step T)) : Drops T := ops.foldl step s

/-- The drops that the markers attest. -/
def attested (s : Drops T) : Nat := (s.markers.map GapMarker.droppedEvents).sum

/-- The drops attested by a marker whose emission is not settled yet. -/
def unsettled (s : Drops T) : Nat :=
  match s.emission with
  | some { n, committed := true, .. } => n
  | _ => 0

/-! ## What the steps do -/

/-- Reading the clock adds one time. -/
theorem step_clock (s : Drops T) (now : T) :
    s.step (.clock now) = { s with clocks := s.clocks ++ [now] } := rfl

/-- A drop is recorded by a thread that has read the clock. -/
theorem step_drop {s : Drops T} {i : Nat} {now : T} (h : s.clocks[i]? = some now) (saved : Bool) :
    s.step (.drop i saved) = { s with
      dropped := s.dropped + 1
      undeclaredDrops := s.undeclaredDrops + 1
      dropWindow := s.dropWindow.add now
      journal := if s.durable && saved then
        intent (s.undeclaredDrops + 1) (s.dropWindow.add now) (s.times ++ [now]) else s.journal
      clocks := s.clocks.eraseIdx i
      times := s.times ++ [now]
      recorded := if s.durable && saved then s.recorded + 1 else s.recorded } := by
  rw [step, h]

/-- Where no clock was read, nothing is dropped. -/
theorem step_drop_none {s : Drops T} {i : Nat} (h : s.clocks[i]? = none) (saved : Bool) :
    s.step (.drop i saved) = s := by
  rw [step, h]

/-- A thread reads the clock and records its drop. -/
theorem run_clock_drop (s : Drops T) (now : T) (saved : Bool) :
    (s.run [.clock now, .drop s.clocks.length saved]).dropped = s.dropped + 1 ∧
      (s.run [.clock now, .drop s.clocks.length saved]).emission = s.emission := by
  have hclock : (s.step (.clock now)).clocks[s.clocks.length]? = some now := by
    rw [step_clock]
    exact List.getElem?_concat_length
  simp only [run, List.foldl_cons, List.foldl_nil, step_drop hclock]
  exact ⟨rfl, rfl⟩

/-- A marker that is committed stays unsettled. -/
theorem step_commit {s : Drops T} {e : Emission T} (h : s.emission = some e)
    (hopen : e.committed = false) (ok : Bool) :
    s.step (.commit ok) = if ok then
      { s with
        markers := s.markers ++ [{ droppedEvents := e.n, window := e.window, times := e.times }]
        emission := some { e with committed := true } }
    else { s with emission := none } := by
  obtain ⟨n, window, times, committed⟩ := e
  subst hopen
  rw [step, h]

/-- Settling takes the attested drops off the count. -/
theorem step_settle {s : Drops T} {e : Emission T} (h : s.emission = some e)
    (hcommitted : e.committed = true) (saved : Bool) :
    s.step (.settle saved) = { s with
      undeclaredDrops := s.undeclaredDrops - e.n
      dropWindow := if s.undeclaredDrops - e.n = 0 then .none else s.dropWindow
      journal := if s.durable && saved then
        intent (s.undeclaredDrops - e.n) (if s.undeclaredDrops - e.n = 0 then .none else s.dropWindow)
          (s.times.drop e.n) else s.journal
      emission := none
      times := s.times.drop e.n } := by
  obtain ⟨n, window, times, committed⟩ := e
  subst hcommitted
  rw [step, h]

/-- What can happen in an emission: it starts, its marker is committed or refused, it is settled. -/
theorem step_emission (s : Drops T) (ok saved : Bool) :
    (s.step .snapshot = s ∨ s.emission = none ∧ 0 < s.undeclaredDrops ∧
      s.step .snapshot = { s with
        emission := some
          { n := s.undeclaredDrops, window := s.dropWindow, times := s.times, committed := false } }) ∧
    (s.step (.commit ok) = s ∨ ∃ e, s.emission = some e ∧ e.committed = false) ∧
    (s.step (.settle saved) = s ∨ ∃ e, s.emission = some e ∧ e.committed = true) := by
  refine ⟨?_, ?_, ?_⟩
  · rw [step]
    split
    · rename_i h
      exact Or.inr ⟨Option.isNone_iff_eq_none.mp h.1, Nat.pos_of_ne_zero h.2, rfl⟩
    · exact Or.inl rfl
  · rcases h : s.emission with _ | ⟨n, window, times, _ | _⟩
    · exact Or.inl (by rw [step, h])
    · exact Or.inr ⟨_, rfl, rfl⟩
    · exact Or.inl (by rw [step, h])
  · rcases h : s.emission with _ | ⟨n, window, times, _ | _⟩
    · exact Or.inl (by rw [step, h])
    · exact Or.inl (by rw [step, h])
    · exact Or.inr ⟨_, rfl, rfl⟩

/-! ## The account -/

/-- The counts agree with the times kept of the drops, and an emission reads the first of them. -/
structure Counts (s : Drops T) : Prop where
  times : s.times.length = s.undeclaredDrops
  emission : ∀ e, s.emission = some e → 0 < e.n ∧ e.n ≤ s.undeclaredDrops ∧ e.times = s.times.take e.n

/-- The drops counted and those recovered are attested or undeclared. -/
def Balanced (s : Drops T) : Prop :=
  s.attested + s.undeclaredDrops = s.dropped + s.recoveredDrops + s.unsettled

/-- The journal holds the undeclared drops. -/
def Noted (s : Drops T) : Prop := s.journal = intent s.undeclaredDrops s.dropWindow s.times

/-- Whether a step is none of a crash. -/
def Step.NoCrash : Step T → Prop
  | .restart => False
  | _ => True

/-- Whether a step writes the journal where it tries to. -/
def Step.Saves : Step T → Prop
  | .drop _ saved => saved = true
  | .settle saved => saved = true
  | _ => True

/-- Without an emission, nothing is unsettled. -/
theorem unsettled_of_none {s : Drops T} (h : s.emission = none) : s.unsettled = 0 := by
  rw [unsettled, h]

/-- Before the commit, nothing is unsettled. -/
theorem unsettled_of_open {s : Drops T} {e : Emission T} (h : s.emission = some e)
    (hopen : e.committed = false) : s.unsettled = 0 := by
  obtain ⟨n, window, times, committed⟩ := e
  subst hopen
  rw [unsettled, h]

/-- After the commit, its drops are. -/
theorem unsettled_of_committed {s : Drops T} {e : Emission T} (h : s.emission = some e)
    (hcommitted : e.committed = true) : s.unsettled = e.n := by
  obtain ⟨n, window, times, committed⟩ := e
  subst hcommitted
  rw [unsettled, h]

/-- Each step keeps the counts. -/
theorem step_counts {s : Drops T} (h : s.Counts) {op : Step T} (hop : op.NoCrash) :
    (s.step op).Counts := by
  have hemission := step_emission s
  cases op with
  | clock now => exact ⟨h.times, h.emission⟩
  | drop i saved =>
      rcases hnow : s.clocks[i]? with _ | now
      · rw [step_drop_none hnow]
        exact h
      · rw [step_drop hnow]
        refine ⟨?_, fun e he => ?_⟩
        · simp [h.times]
        -- a drop more does not reach into what the emission read
        · obtain ⟨hpos, hle, htimes⟩ := h.emission e he
          refine ⟨hpos, Nat.le_succ_of_le hle, ?_⟩
          rw [List.take_append_of_le_length (h.times ▸ hle), htimes]
  | snapshot =>
      rcases (hemission true true).1 with heq | ⟨-, hpos, heq⟩
      · rw [heq]
        exact h
      -- the emission reads all of them
      · rw [heq]
        refine ⟨h.times, fun e he => ?_⟩
        obtain rfl := Option.some.inj he
        exact ⟨hpos, Nat.le_refl _, by rw [← h.times, List.take_length]⟩
  | commit ok =>
      rcases (hemission ok true).2.1 with heq | ⟨e, he, hopen⟩
      · rw [heq]
        exact h
      · rw [step_commit he hopen]
        cases ok with
        | false => exact ⟨h.times, fun e' he' => by cases he'⟩
        | true =>
            refine ⟨h.times, fun e' he' => ?_⟩
            obtain rfl := Option.some.inj he'
            exact h.emission e he
  | settle saved =>
      rcases (hemission true saved).2.2 with heq | ⟨e, he, hcommitted⟩
      · rw [heq]
        exact h
      · rw [step_settle he hcommitted]
        -- the emission is over, and its drops are taken off both counts
        refine ⟨?_, fun e' he' => by cases he'⟩
        rw [List.length_drop, h.times]
  | restart => exact hop.elim

/-- Each step keeps the balance. -/
theorem step_balanced {s : Drops T} (h : s.Counts) (hbalanced : s.Balanced) {op : Step T}
    (hop : op.NoCrash) : (s.step op).Balanced := by
  have hemission := step_emission s
  cases op with
  | clock now => exact hbalanced
  | drop i saved =>
      rcases hnow : s.clocks[i]? with _ | now
      · rw [step_drop_none hnow]
        exact hbalanced
      · rw [step_drop hnow]
        -- one drop more on both sides
        show s.attested + (s.undeclaredDrops + 1) = s.dropped + 1 + s.recoveredDrops + s.unsettled
        rw [Balanced] at hbalanced
        omega
  | snapshot =>
      rcases (hemission true true).1 with heq | ⟨hnone, hpos, heq⟩
      · rw [heq]
        exact hbalanced
      · rw [heq]
        rw [Balanced, unsettled_of_none hnone] at hbalanced
        exact hbalanced
  | commit ok =>
      rcases (hemission ok true).2.1 with heq | ⟨e, he, hopen⟩
      · rw [heq]
        exact hbalanced
      · rw [Balanced, unsettled_of_open he hopen] at hbalanced
        rw [step_commit he hopen]
        cases ok with
        | false => exact hbalanced
        | true =>
            -- the marker adds what is unsettled from here on
            show (List.map GapMarker.droppedEvents (s.markers ++ [_])).sum + s.undeclaredDrops
              = s.dropped + s.recoveredDrops + e.n
            rw [List.map_append, List.sum_append]
            rw [attested] at hbalanced
            simp only [List.map_cons, List.map_nil, List.sum_cons, List.sum_nil]
            omega
  | settle saved =>
      rcases (hemission true saved).2.2 with heq | ⟨e, he, hcommitted⟩
      · rw [heq]
        exact hbalanced
      -- what the emission read is still there, so nothing is taken off twice
      · have hle := (h.emission e he).2.1
        rw [Balanced, unsettled_of_committed he hcommitted] at hbalanced
        rw [step_settle he hcommitted]
        show s.attested + (s.undeclaredDrops - e.n) = s.dropped + s.recoveredDrops + 0
        omega
  | restart => exact hop.elim

/-- **The next process reads back what the journal holds.** -/
theorem step_restart {s : Drops T} (hdurable : s.durable = true) (h : s.Counts) (hnoted : s.Noted) :
    (s.step .restart).undeclaredDrops = s.undeclaredDrops ∧
      (s.step .restart).times = s.times ∧
      (0 < s.undeclaredDrops → (s.step .restart).dropWindow = s.dropWindow) ∧
      (s.step .restart).recoveredDrops = s.undeclaredDrops ∧
      (s.step .restart).journal = s.journal := by
  rw [Noted] at hnoted
  simp only [step, init, hdurable, if_true]
  by_cases hpos : 0 < s.undeclaredDrops
  · rw [hnoted, intent, dif_pos hpos]
    exact ⟨rfl, rfl, fun _ => rfl, rfl, trivial⟩
  · have hzero : s.undeclaredDrops = 0 := by omega
    have hnil : s.times = [] := List.length_eq_zero_iff.mp (h.times.trans hzero)
    rw [hnoted, intent, dif_neg hpos, hzero, hnil]
    exact ⟨rfl, rfl, fun hcon => absurd hcon (Nat.lt_irrefl 0), rfl, trivial⟩

/-- Each step that writes the journal keeps it with the drops. -/
theorem step_noted {s : Drops T} (hdurable : s.durable = true) (h : s.Counts) (hnoted : s.Noted)
    {op : Step T} (hop : op.Saves) : (s.step op).durable = true ∧ (s.step op).Noted := by
  have hemission := step_emission s
  cases op with
  | clock now => exact ⟨hdurable, hnoted⟩
  | drop i saved =>
      -- the write succeeded, so the journal holds the new count
      obtain rfl : saved = true := hop
      rcases hnow : s.clocks[i]? with _ | now
      · rw [step_drop_none hnow]
        exact ⟨hdurable, hnoted⟩
      · rw [step_drop hnow]
        refine ⟨hdurable, ?_⟩
        show (if s.durable && true then intent (s.undeclaredDrops + 1) (s.dropWindow.add now)
          (s.times ++ [now]) else s.journal) = _
        rw [hdurable]
        rfl
  | snapshot =>
      rcases (hemission true true).1 with heq | ⟨-, -, heq⟩
      · rw [heq]
        exact ⟨hdurable, hnoted⟩
      · rw [heq]
        exact ⟨hdurable, hnoted⟩
  | commit ok =>
      rcases (hemission ok true).2.1 with heq | ⟨e, he, hopen⟩
      · rw [heq]
        exact ⟨hdurable, hnoted⟩
      · rw [step_commit he hopen]
        -- the journal is written on settling, not on committing
        cases ok with
        | false => exact ⟨hdurable, hnoted⟩
        | true => exact ⟨hdurable, hnoted⟩
  | settle saved =>
      obtain rfl : saved = true := hop
      rcases (hemission true true).2.2 with heq | ⟨e, he, hcommitted⟩
      · rw [heq]
        exact ⟨hdurable, hnoted⟩
      · rw [step_settle he hcommitted]
        refine ⟨hdurable, ?_⟩
        show (if s.durable && true then intent (s.undeclaredDrops - e.n) _ (s.times.drop e.n)
          else s.journal) = _
        rw [hdurable]
        rfl
  | restart =>
      -- a new process starts with the journal, and writes nothing
      have hrestart := step_restart hdurable h hnoted
      refine ⟨hdurable, ?_⟩
      rw [Noted, hrestart.2.2.2.2, hrestart.1, hrestart.2.1, hnoted]
      by_cases hpos : 0 < s.undeclaredDrops
      · rw [hrestart.2.2.1 hpos]
      · rw [intent, intent, dif_neg hpos, dif_neg hpos]

/-! ## The windows -/

/-- Each window contains the times of its drops. -/
structure Windowed [LE T] (s : Drops T) : Prop where
  pending : ∀ t ∈ s.times, s.dropWindow.Contains t
  empty : s.undeclaredDrops = 0 → s.dropWindow = .none
  emission : ∀ e, s.emission = some e → ∀ t ∈ e.times, e.window.Contains t
  markers : ∀ m ∈ s.markers, m.times.length = m.droppedEvents ∧ ∀ t ∈ m.times, m.window.Contains t

/-- A drop is recorded in order if it did not read the clock before the last one recorded did. -/
def InOrder [LE T] (s : Drops T) : Step T → Prop
  | .drop i _ => ∀ now last, s.clocks[i]? = some now → s.dropWindow.last = some last → last ≤ now
  | _ => True

/-- Every drop of a run is recorded in order. -/
def InOrderRun [LE T] : Drops T → List (Step T) → Prop
  | _, [] => True
  | s, op :: ops => s.InOrder op ∧ InOrderRun (s.step op) ops

section Windows

variable [Preorder T]

/-- Each step that records no drop out of order keeps the windows. -/
theorem step_windowed {s : Drops T} (h : s.Counts) (hwindowed : s.Windowed) {op : Step T}
    (hop : op.NoCrash) (horder : s.InOrder op) : (s.step op).Windowed := by
  have hemission := step_emission s
  cases op with
  | clock now =>
      exact ⟨hwindowed.pending, hwindowed.empty, hwindowed.emission, hwindowed.markers⟩
  | drop i saved =>
      rcases hnow : s.clocks[i]? with _ | now
      · rw [step_drop_none hnow]
        exact hwindowed
      · rw [step_drop hnow]
        refine ⟨fun t ht => ?_, fun hzero => absurd hzero (Nat.succ_ne_zero _), hwindowed.emission,
          hwindowed.markers⟩
        have hlast := fun last => horder now last hnow
        rcases List.mem_append.mp ht with hmem | hmem
        · exact (DropWindow.add_contains (hwindowed.pending t hmem) hlast).1
        · rw [List.mem_singleton.mp hmem]
          -- the window is empty, or an earlier drop is in it
          cases htimes : s.times with
          | nil =>
              have hzero : s.undeclaredDrops = 0 := by rw [← h.times, htimes]; rfl
              show (s.dropWindow.add now).Contains now
              rw [hwindowed.empty hzero]
              exact DropWindow.none_add_contains
          | cons u times =>
              have hu : u ∈ s.times := by rw [htimes]; exact List.mem_cons_self
              exact (DropWindow.add_contains (hwindowed.pending u hu) hlast).2
  | snapshot =>
      rcases (hemission true true).1 with heq | ⟨-, -, heq⟩
      · rw [heq]
        exact hwindowed
      · rw [heq]
        refine ⟨hwindowed.pending, hwindowed.empty, fun e he => ?_, hwindowed.markers⟩
        obtain rfl := Option.some.inj he
        exact hwindowed.pending
  | commit ok =>
      rcases (hemission ok true).2.1 with heq | ⟨e, he, hopen⟩
      · rw [heq]
        exact hwindowed
      · rw [step_commit he hopen]
        cases ok with
        | false =>
            exact ⟨hwindowed.pending, hwindowed.empty, fun e' he' => (by cases he'), hwindowed.markers⟩
        | true =>
            obtain ⟨-, hle, htimes⟩ := h.emission e he
            refine ⟨hwindowed.pending, hwindowed.empty, fun e' he' => ?_, fun m hm => ?_⟩
            · obtain rfl := Option.some.inj he'
              exact hwindowed.emission e he
            · rcases List.mem_append.mp hm with hmem | hmem
              · exact hwindowed.markers m hmem
              · rw [List.mem_singleton.mp hmem]
                refine ⟨?_, hwindowed.emission e he⟩
                show e.times.length = e.n
                rw [htimes, List.length_take, h.times]
                omega
  | settle saved =>
      rcases (hemission true saved).2.2 with heq | ⟨e, he, hcommitted⟩
      · rw [heq]
        exact hwindowed
      · rw [step_settle he hcommitted]
        refine ⟨fun t ht => ?_, fun hzero => if_pos hzero, fun e' he' => (by cases he'),
          hwindowed.markers⟩
        have hlen := List.length_pos_of_mem ht
        have hleft : ¬s.undeclaredDrops - e.n = 0 := by
          rw [List.length_drop, h.times] at hlen
          omega
        show (if s.undeclaredDrops - e.n = 0 then DropWindow.none else s.dropWindow).Contains t
        rw [if_neg hleft]
        exact hwindowed.pending t (List.mem_of_mem_drop ht)
  | restart => exact hop.elim

end Windows

/-! ## Runs without a crash -/

/-- What the journal holds of a number of drops counts them. -/
theorem intent_count (n : Nat) (window : DropWindow T) (times : List T) :
    (intent n window times).map DropIntent.count = if n = 0 then none else some n := by
  by_cases h : 0 < n
  · rw [intent, dif_pos h, if_neg (by omega)]
    rfl
  · rw [intent, dif_neg h, if_pos (by omega)]
    rfl

/-- A new pipeline has recovered what it starts with. -/
theorem init_balanced (durable : Bool) (journal : Option (DropIntent T)) :
    (init durable journal [] 0).Balanced := by
  have hsame : (init durable journal [] 0).recoveredDrops
      = (init durable journal [] 0).undeclaredDrops := rfl
  rw [Balanced, unsettled_of_none rfl, hsame, Nat.add_zero]
  rfl

section Init

variable [Preorder T] {durable : Bool} {journal : Option (DropIntent T)}
  (hjournal : ∀ d, journal = some d → d.Accurate)
include hjournal

/-- A new pipeline starts with the drops of the journal. -/
theorem init_counts : (init durable journal [] 0).Counts := by
  refine ⟨?_, fun e he => by cases he⟩
  cases durable with
  | false => rfl
  | true =>
      cases journal with
      | none => rfl
      | some d => exact (hjournal d rfl).times

/-- Its window is that of the journal. -/
theorem init_windowed : (init durable journal [] 0).Windowed := by
  refine ⟨?_, ?_, fun e he => (by cases he), fun m hm => absurd hm List.not_mem_nil⟩
  · cases durable with
    | false => exact fun t ht => absurd ht List.not_mem_nil
    | true =>
        cases journal with
        | none => exact fun t ht => absurd ht List.not_mem_nil
        | some d => exact (hjournal d rfl).window
  · cases durable with
    | false => exact fun _ => rfl
    | true =>
        cases journal with
        | none => exact fun _ => rfl
        | some d => exact fun hzero => absurd hzero (Nat.ne_of_gt d.pos)

end Init

/-- Whatever is recorded, every step keeps the counts and the balance. -/
theorem run_balanced {s : Drops T} (h : s.Counts) (hbalanced : s.Balanced) {ops : List (Step T)}
    (hops : ∀ op ∈ ops, op.NoCrash) : (s.run ops).Counts ∧ (s.run ops).Balanced := by
  induction ops generalizing s with
  | nil => exact ⟨h, hbalanced⟩
  | cons op ops ih =>
      have hop := hops op List.mem_cons_self
      exact ih (step_counts h hop) (step_balanced h hbalanced hop)
        fun o ho => hops o (List.mem_cons_of_mem op ho)

/-- The journal stays with the drops when it is written each time. -/
theorem run_noted {s : Drops T} (hdurable : s.durable = true) (h : s.Counts) (hnoted : s.Noted)
    {ops : List (Step T)} (hops : ∀ op ∈ ops, op.NoCrash) (hsaves : ∀ op ∈ ops, op.Saves) :
    (s.run ops).Noted := by
  induction ops generalizing s with
  | nil => exact hnoted
  | cons op ops ih =>
      obtain ⟨hdurable', hnoted'⟩ := step_noted hdurable h hnoted (hsaves op List.mem_cons_self)
      exact ih hdurable' (step_counts h (hops op List.mem_cons_self)) hnoted'
        (fun o ho => hops o (List.mem_cons_of_mem op ho))
        fun o ho => hsaves o (List.mem_cons_of_mem op ho)

/-- The windows contain the times of their drops when these are recorded in order. -/
theorem run_windowed [Preorder T] {s : Drops T} (h : s.Counts) (hwindowed : s.Windowed)
    {ops : List (Step T)} (hops : ∀ op ∈ ops, op.NoCrash) (horder : s.InOrderRun ops) :
    (s.run ops).Windowed := by
  induction ops generalizing s with
  | nil => exact hwindowed
  | cons op ops ih =>
      have hop := hops op List.mem_cons_self
      exact ih (step_counts h hop) (step_windowed h hwindowed hop horder.1)
        (fun o ho => hops o (List.mem_cons_of_mem op ho)) horder.2

/-- A journal that is read back is what the drops start with. -/
theorem init_noted {journal : Option (DropIntent T)} :
    (init true journal [] 0).Noted := by
  cases journal with
  | none => rfl
  | some d =>
      obtain ⟨count, pos, window, times⟩ := d
      show some _ = intent count window times
      rw [intent, dif_pos pos]

/-- **Without a crash every drop is attested or undeclared.** While no emission is in progress, the
markers and the undeclared drops add up to the drops and those recovered, and the journal, if it is
written each time, holds exactly the undeclared ones. When the drops are recorded in order, each
marker counts as many drops as its window contains the times of. -/
theorem run_accounts [Preorder T] {durable : Bool} {journal : Option (DropIntent T)}
    (hjournal : ∀ d, journal = some d → d.Accurate) {ops : List (Step T)}
    (hops : ∀ op ∈ ops, op.NoCrash) :
    let s := (init durable journal [] 0).run ops
    (s.emission = none → s.attested + s.undeclaredDrops = s.dropped + s.recoveredDrops) ∧
    (durable = true → (∀ op ∈ ops, op.Saves) →
      s.journal.map DropIntent.count = if s.undeclaredDrops = 0 then none else some s.undeclaredDrops) ∧
    ((init durable journal [] 0).InOrderRun ops →
      ∀ m ∈ s.markers, m.times.length = m.droppedEvents ∧ ∀ t ∈ m.times, m.window.Contains t) := by
  intro s
  have hcounts := @init_counts T _ durable journal hjournal
  refine ⟨fun hnone => ?_, fun hdurable hsaves => ?_, fun horder => ?_⟩
  · have hbalanced := (run_balanced hcounts (init_balanced durable journal) hops).2
    rw [Balanced, unsettled_of_none hnone] at hbalanced
    exact hbalanced
  · subst hdurable
    have hnoted : s.Noted := run_noted rfl hcounts init_noted hops hsaves
    rw [hnoted, intent_count]
  · exact (run_windowed hcounts (init_windowed hjournal) hops horder).markers

/-- Two drops recorded while a marker is on its way. -/
def sampleDrops : List (Step Nat) :=
  [.clock 1, .drop 0 true, .snapshot, .clock 2, .drop 0 true, .commit true, .settle true]

/-- The account on that run. -/
theorem run_accounts_sample :
    let s := (init true (none : Option (DropIntent Nat)) [] 0).run sampleDrops
    s.attested + s.undeclaredDrops = s.dropped + s.recoveredDrops ∧
      s.journal.map DropIntent.count = some 1 := by
  have hops : ∀ op ∈ sampleDrops, op.NoCrash := by
    intro op hop
    simp only [sampleDrops, List.mem_cons, List.not_mem_nil, or_false] at hop
    rcases hop with rfl | rfl | rfl | rfl | rfl | rfl | rfl <;> trivial
  have hsaves : ∀ op ∈ sampleDrops, op.Saves := by
    intro op hop
    simp only [sampleDrops, List.mem_cons, List.not_mem_nil, or_false] at hop
    rcases hop with rfl | rfl | rfl | rfl | rfl | rfl | rfl <;> trivial
  obtain ⟨hsum, hjournal, -⟩ := @run_accounts Nat _ true none (fun _ h => by cases h) _ hops
  exact ⟨hsum rfl, hjournal rfl hsaves⟩

/-- Two threads read the clock, and the one that read it first records its drop last. -/
def racingDrops : List (Step Nat) :=
  [.clock 1, .clock 2, .drop 1 true, .drop 0 true, .snapshot, .commit true, .settle true]

/-- **A window can end before it starts**: then it contains none of the times of its drops. -/
theorem run_not_windowed : ((init true none [] 0).run racingDrops).emission.isNone ∧
    ∃ m ∈ ((init true none [] 0).run racingDrops).markers,
      m.droppedEvents = 2 ∧ m.times = [2, 1] ∧ m.window = { first := some 2, last := some 1 } ∧
      ∀ t ∈ m.times, ¬m.window.Contains t := by
  refine ⟨rfl, _, List.mem_singleton.mpr rfl, rfl, rfl, rfl, ?_⟩
  rintro t - ⟨hfirst, hlast⟩
  exact absurd (Nat.le_trans hfirst hlast) (by decide)

/-! ## Runs with crashes -/

/-- A run in which no process dies between committing a marker and settling it. -/
def SettledRestarts : Drops T → List (Step T) → Prop
  | _, [] => True
  | s, op :: ops =>
    (op = .restart → ∀ e, s.emission = some e → e.committed = false) ∧ SettledRestarts (s.step op) ops

/-- The drops of the markers that were committed when a process died before it settled them. -/
def attestedAgain : Drops T → List (Step T) → Nat
  | _, [] => 0
  | s, .restart :: ops => s.unsettled + attestedAgain (s.step .restart) ops
  | s, op :: ops => attestedAgain (s.step op) ops

/-- What holds of a pipeline with a journal that is written each time. -/
structure Durable (s : Drops T) : Prop where
  durable : s.durable = true
  counts : s.Counts
  noted : s.Noted

/-- Each step keeps a pipeline durable. -/
theorem step_durable {s : Drops T} (h : s.Durable) {op : Step T} (hop : op.Saves) :
    (s.step op).Durable := by
  obtain ⟨hdurable, hnoted⟩ := step_noted h.durable h.counts h.noted hop
  refine ⟨hdurable, ?_, hnoted⟩
  cases op with
  | restart =>
      obtain ⟨hundeclared, htimes, -, -, -⟩ := step_restart h.durable h.counts h.noted
      refine ⟨?_, fun e he => by cases he⟩
      rw [hundeclared, htimes]
      exact h.counts.times
  | clock now => exact step_counts h.counts trivial
  | drop i saved => exact step_counts h.counts trivial
  | snapshot => exact step_counts h.counts trivial
  | commit ok => exact step_counts h.counts trivial
  | settle saved => exact step_counts h.counts trivial

/-- The recorded drops are attested or undeclared, except that `again` of them are attested once
more. -/
def Attests (s : Drops T) (again : Nat) : Prop :=
  s.attested + s.undeclaredDrops = s.recorded + s.unsettled + again

/-- Each step but a crash attests no drop again. -/
theorem step_attests {s : Drops T} (h : s.Durable) {again : Nat} (hattests : s.Attests again)
    {op : Step T} (hop : op.Saves) (hcrash : op.NoCrash) : (s.step op).Attests again := by
  have hemission := step_emission s
  cases op with
  | clock now => exact hattests
  | drop i saved =>
      obtain rfl : saved = true := hop
      rcases hnow : s.clocks[i]? with _ | now
      · rw [step_drop_none hnow]
        exact hattests
      · rw [step_drop hnow, h.durable]
        -- the drop is recorded in the journal, and not declared yet
        show s.attested + (s.undeclaredDrops + 1) = s.recorded + 1 + s.unsettled + again
        rw [Attests] at hattests
        omega
  | snapshot =>
      rcases (hemission true true).1 with heq | ⟨hnone, -, heq⟩
      · rw [heq]
        exact hattests
      · rw [heq]
        rw [Attests, unsettled_of_none hnone] at hattests
        exact hattests
  | commit ok =>
      rcases (hemission ok true).2.1 with heq | ⟨e, he, hopen⟩
      · rw [heq]
        exact hattests
      · rw [Attests, unsettled_of_open he hopen] at hattests
        rw [step_commit he hopen]
        cases ok with
        | false => exact hattests
        | true =>
            -- the marker attests what is unsettled from here on
            show (List.map GapMarker.droppedEvents (s.markers ++ [_])).sum + s.undeclaredDrops
              = s.recorded + e.n + again
            rw [List.map_append, List.sum_append]
            rw [attested] at hattests
            simp only [List.map_cons, List.map_nil, List.sum_cons, List.sum_nil]
            omega
  | settle saved =>
      rcases (hemission true saved).2.2 with heq | ⟨e, he, hcommitted⟩
      · rw [heq]
        exact hattests
      · have hle := (h.counts.emission e he).2.1
        rw [Attests, unsettled_of_committed he hcommitted] at hattests
        rw [step_settle he hcommitted]
        show s.attested + (s.undeclaredDrops - e.n) = s.recorded + 0 + again
        omega
  | restart => exact hcrash.elim

/-- A crash leaves the drops of an unsettled marker to be attested again. -/
theorem restart_attests {s : Drops T} (h : s.Durable) {again : Nat} (hattests : s.Attests again) :
    (s.step .restart).Attests (again + s.unsettled) := by
  have hundeclared := (step_restart h.durable h.counts h.noted).1
  have hsettled : (s.step .restart).unsettled = 0 := unsettled_of_none rfl
  rw [Attests, hundeclared, hsettled]
  show s.attested + s.undeclaredDrops = s.recorded + 0 + (again + s.unsettled)
  rw [Attests] at hattests
  omega

/-- **Every run attests the recorded drops** and once more those that its crashes leave. -/
theorem run_attests {s : Drops T} (h : s.Durable) {again : Nat} (hattests : s.Attests again)
    {ops : List (Step T)} (hsaves : ∀ op ∈ ops, op.Saves) :
    (s.run ops).Attests (again + attestedAgain s ops) := by
  induction ops generalizing s again with
  | nil => exact hattests
  | cons op ops ih =>
      have hop := hsaves op List.mem_cons_self
      have hrest : ∀ o ∈ ops, o.Saves := fun o ho => hsaves o (List.mem_cons_of_mem op ho)
      have hstep (hcrash : op.NoCrash) :=
        ih (step_durable h hop) (step_attests h hattests hop hcrash) hrest
      cases op with
      | restart =>
          have hrestart := ih (step_durable h hop) (restart_attests h hattests) hrest
          rwa [Nat.add_assoc] at hrestart
      | clock now => exact hstep trivial
      | drop i saved => exact hstep trivial
      | snapshot => exact hstep trivial
      | commit ok => exact hstep trivial
      | settle saved => exact hstep trivial

/-- An emission in progress reads at least one drop, so it is unsettled when its marker is
committed. -/
theorem unsettled_eq_zero_iff {s : Drops T} (h : s.Counts) :
    s.unsettled = 0 ↔ ∀ e, s.emission = some e → e.committed = false := by
  constructor
  · intro hzero e he
    cases hcommitted : e.committed with
    | false => rfl
    | true =>
        rw [unsettled_of_committed he hcommitted] at hzero
        exact absurd hzero (Nat.ne_of_gt (h.emission e he).1)
  · intro hopen
    cases he : s.emission with
    | none => exact unsettled_of_none he
    | some e => exact unsettled_of_open he (hopen e he)

/-- No drop is attested again exactly where every process that dies has settled its marker. -/
theorem attestedAgain_eq_zero_iff {s : Drops T} (h : s.Durable) {ops : List (Step T)}
    (hsaves : ∀ op ∈ ops, op.Saves) : attestedAgain s ops = 0 ↔ s.SettledRestarts ops := by
  induction ops generalizing s with
  | nil => exact iff_of_true rfl trivial
  | cons op ops ih =>
      have hop := hsaves op List.mem_cons_self
      have hrest := ih (step_durable h hop) fun o ho => hsaves o (List.mem_cons_of_mem op ho)
      have hother (hne : op ≠ .restart) : attestedAgain (s.step op) ops = 0 ↔
          s.SettledRestarts (op :: ops) := by
        rw [hrest, SettledRestarts]
        exact ⟨fun hsettled => ⟨fun heq => absurd heq hne, hsettled⟩, fun hsettled => hsettled.2⟩
      cases op with
      | restart =>
          rw [attestedAgain, Nat.add_eq_zero_iff, hrest, unsettled_eq_zero_iff h.counts,
            SettledRestarts]
          exact and_congr_left' ⟨fun hopen _ => hopen, fun hopen => hopen rfl⟩
      | clock now => exact hother (by simp)
      | drop i saved => exact hother (by simp)
      | snapshot => exact hother (by simp)
      | commit ok => exact hother (by simp)
      | settle saved => exact hother (by simp)

/-- **A recorded drop is attested once exactly where no process dies between committing a marker and
settling it**, across any crashes and restarts that end with every drop declared. -/
theorem run_attested_iff {ops : List (Step T)} (hsaves : ∀ op ∈ ops, op.Saves)
    (hflushed : ((init true none [] 0).run ops).emission = none ∧
      ((init true none [] 0).run ops).undeclaredDrops = 0) :
    ((init true none [] 0).run ops).attested = ((init true none [] 0).run ops).recorded ↔
      (init true none [] 0).SettledRestarts ops := by
  have hstart : (init true none [] 0 : Drops T).Durable :=
    ⟨rfl, ⟨rfl, fun e he => by cases he⟩, init_noted⟩
  have hnone : (init true none [] 0 : Drops T).Attests 0 := rfl
  have hattests := run_attests hstart hnone hsaves
  rw [Attests, hflushed.2, unsettled_of_none hflushed.1] at hattests
  rw [← attestedAgain_eq_zero_iff hstart hsaves]
  omega

/-- A process that dies while its marker is on its way to the ledger, and the next one. -/
def sampleRestart : List (Step Nat) :=
  [.clock 1, .drop 0 true, .snapshot, .restart, .snapshot, .commit true, .settle true]

/-- A drop whose process dies before its marker is committed is attested once, by the next process. -/
theorem run_attested_iff_sample : ((init true none [] 0).run sampleRestart).attested
    = ((init true none [] 0).run sampleRestart).recorded := by
  have hsaves : ∀ op ∈ sampleRestart, op.Saves := by
    intro op hop
    simp only [sampleRestart, List.mem_cons, List.not_mem_nil, or_false] at hop
    rcases hop with rfl | rfl | rfl | rfl | rfl | rfl | rfl <;> trivial
  have hsettled : (init true none [] 0).SettledRestarts sampleRestart := by
    simp only [sampleRestart, SettledRestarts]
    refine ⟨nofun, nofun, nofun, fun _ e he => ?_, nofun, nofun, nofun, trivial⟩
    obtain rfl := Option.some.inj he
    rfl
  exact (run_attested_iff hsaves ⟨rfl, rfl⟩).mpr hsettled

/-- **A drop is attested twice** when the process dies between committing its marker and writing the
journal. -/
theorem run_attested_twice :
    let s := (init true none [] 0).run
      [.clock 1, .drop 0 true, .snapshot, .commit true, .restart, .snapshot, .commit true, .settle true]
    s.emission.isNone ∧ s.undeclaredDrops = 0 ∧ s.recorded = 1 ∧ s.attested = 2 :=
  ⟨rfl, rfl, rfl, rfl⟩

end Drops

end OpenWright
