import OpenWright.SpillBuffer

/-! # Crashes of the spill buffer

The data file and the cursor file are replaced one after the other, and a line is written byte by byte,
so a process that dies leaves the files of some step in between; the next one starts from them.

* **`run_survives`** — as long as no crash leaves a part of a line, and no span is appended while the
  saved cursor lies beyond the end of the file, no drain raises, and every span that no callback has
  accepted is offered again, in order.
* **`run_not_survives`** — a part of a line makes every later drain raise, and a span appended under a
  cursor beyond the end is skipped. -/

namespace OpenWright

open Python

namespace SpillBuffer

/-- What happens to a buffer when processes may die. A process dies while it appends, when `k` bytes of
the line are written, or while it drains, where the file system could fail it too. -/
inductive CrashOp : Type 1
  | append (span : SpanData)
  | appendDying (span : SpanData) (k : Nat)
  | drain {σ : Type} (accept : SpanData → σ → Bool × σ) (s : σ)
  | drainDying {σ : Type} (accept : SpanData → σ → Bool × σ) (s : σ) (fault : DrainFault)
  | restart

/-- A buffer, the spans whose lines were completely written to it, how many of them some callback has
accepted, and whether a drain has raised. -/
structure CrashHistory where
  buffer : SpillBuffer
  written : List SpanData
  reached : Nat
  raised : Bool

namespace CrashHistory

/-- The position among the written spans of the first that the next drain offers. -/
def start (h : CrashHistory) : Nat :=
  h.written.length - h.buffer.remaining.countP nonblankBytes

/-- One step. -/
def step (h : CrashHistory) : CrashOp → CrashHistory
  | .append span =>
    match h.buffer.append span none with
    | (.ok _, b) => { h with buffer := b, written := h.written ++ [span] }
    | (.error _, b) => { h with buffer := b }
  -- the line reached the file, whether the call came back or not, if all of it did
  | .appendDying span k =>
    let b := (h.buffer.append span (some k)).2.restart
    match (h.buffer.append span none).1 with
    | .ok _ =>
      { h with buffer := b, written := if span.bytes.length ≤ k then h.written ++ [span] else h.written }
    | .error _ => { h with buffer := b }
  | .drain accept s =>
    let r := h.buffer.drainNoting accept s
    { h with
      buffer := r.2.1
      reached := max h.reached (h.start + r.2.2.length)
      raised := h.raised || !r.1.isOk }
  -- what was accepted is known, what was saved of the cursor is not
  | .drainDying accept s fault =>
    let r := h.buffer.drain (Fifo.recording accept) (some fault) (s, [])
    { h with
      buffer := r.2.1.restart
      reached := max h.reached (h.start + r.2.2.2.length) }
  | .restart => { h with buffer := h.buffer.restart }

/-- The steps in order. -/
def run (h : CrashHistory) (ops : List CrashOp) : CrashHistory := ops.foldl step h

/-- A new path. -/
def fresh : CrashHistory := { buffer := init none none, written := [], reached := 0, raised := false }

/-- A step that no crash before it and no crash in it makes harmful: nothing is appended while the
cursor is beyond the end of the file, and no crash leaves a part of a line. -/
def Harmless (h : CrashHistory) : CrashOp → Prop
  | .append span => span.IsJson ∧ h.buffer.consumed ≤ h.buffer.file.length
  | .appendDying span k =>
    k = 0 ∨ span.IsJson ∧ h.buffer.consumed ≤ h.buffer.file.length ∧ span.bytes.length ≤ k
  | _ => True

/-- Every step of a run is harmless. -/
def HarmlessRun : CrashHistory → List CrashOp → Prop
  | _, [] => True
  | h, op :: ops => h.Harmless op ∧ HarmlessRun (h.step op) ops

/-- A crash after the file was truncated has left the cursor beyond its end. -/
structure Stale (b : SpillBuffer) : Prop where
  file_eq : b.file = []
  nonneg : 0 ≤ b.consumed
  short : b.consumed < positions

/-- The buffer stands for the written spans from one on that is not behind those accepted. -/
structure Inv (h : CrashHistory) : Prop where
  saved : Saved h.buffer
  raised : h.raised = false
  queue : ∃ m, m ≤ h.reached ∧ m ≤ h.written.length ∧
    (Holds h.buffer (h.written.drop m) ∨ Stale h.buffer ∧ m = h.written.length)

/-! ## What a crash leaves -/

section Drain

variable {σ : Type} (b : SpillBuffer) (accept : SpanData → σ → Bool × σ) (fault : DrainFault) (s : σ)

/-- A drain has saved its cursor, or has changed nothing on disk but truncated the file. -/
theorem drain_disk : Saved (b.drain accept (some fault) s).2.1 ∨
    (b.drain accept (some fault) s).2.1.cursorFile = b.cursorFile ∧
      ((b.drain accept (some fault) s).2.1.file = b.file ∨
        (b.drain accept (some fault) s).2.1.file = []) := by
  have hcompact : ∀ b' : SpillBuffer, b'.compact.cursorFile = b'.cursorFile ∧
      (b'.compact.file = b'.file ∨ b'.compact.file = []) := by
    intro b'
    unfold compact
    split
    · exact ⟨rfl, Or.inr rfl⟩
    · exact ⟨rfl, Or.inl rfl⟩
  unfold drain
  split
  · exact Or.inr ⟨rfl, Or.inl rfl⟩
  · dsimp only
    split
    · exact Or.inr ⟨rfl, Or.inl rfl⟩
    · split_ifs
      · exact Or.inr ⟨rfl, Or.inl rfl⟩
      · exact Or.inr (hcompact _)
      · -- the loop ended before the line that could not be read
        exact Or.inl rfl

variable {b}

/-- Under a cursor beyond the end nothing is offered. -/
theorem Stale.drainLines_eq (h : Stale b) (readFault : Option Nat) :
    (drainLines accept readFault b.remaining b.consumed s).consumed = b.consumed ∧
      (drainLines accept readFault b.remaining b.consumed s).accepted = 0 ∧
      (drainLines accept readFault b.remaining b.consumed s).state = s ∧
      (readFault = none → (drainLines accept readFault b.remaining b.consumed s).raised = none) := by
  have hremaining : b.remaining = [] := by rw [remaining, h.file_eq, List.drop_nil, Lines.lines_nil]
  rw [hremaining]
  rcases readFault with _ | _ | n
  · exact ⟨rfl, rfl, rfl, fun _ => rfl⟩
  · exact ⟨rfl, rfl, rfl, fun hcon => by cases hcon⟩
  · exact ⟨rfl, rfl, rfl, fun _ => rfl⟩

/-- A stale cursor can be sought. -/
theorem Stale.seek_eq (h : Stale b) : b.seek = .ok () := by
  have hnonneg := h.nonneg
  have hshort := h.short
  rw [seek, if_neg (by omega), if_neg (by omega)]

/-- **A drain sets the cursor back** to the start of the empty file. -/
theorem Stale.drain_eq (h : Stale b) :
    b.drain accept none s = (.ok 0, { file := [], consumed := 0, cursorFile := some 0 }, s) := by
  obtain ⟨hconsumed, haccepted, hstate, hraised⟩ := h.drainLines_eq accept s none
  have hcompact : ({ b with consumed := b.consumed } : SpillBuffer).compact
      = { file := [], consumed := 0, cursorFile := b.cursorFile } := by
    have hle : (b.file.length : Int) ≤ b.consumed := by
      rw [h.file_eq]
      exact h.nonneg
    rw [compact, if_pos hle]
  rw [drain, h.seek_eq]
  simp only [DrainFault.lines, hraised, hconsumed, haccepted, hstate]
  rw [hcompact]
  rfl

/-- Truncating the empty file leaves the cursor where it is or at the start. -/
theorem Stale.compact (h : Stale b) : Stale b.compact := by
  have hle : (b.file.length : Int) ≤ b.consumed := by
    rw [h.file_eq]
    exact h.nonneg
  rw [SpillBuffer.compact, if_pos hle]
  exact ⟨rfl, le_refl 0, (by decide : (0 : Int) < positions)⟩

/-- A drain that dies offers nothing and leaves no span behind. -/
theorem Stale.drain_dying (h : Stale b) :
    (b.drain accept (some fault) s).2.2 = s ∧ Stale (b.drain accept (some fault) s).2.1 := by
  obtain ⟨hconsumed, -, hstate, -⟩ := h.drainLines_eq accept s (DrainFault.lines (some fault))
  have hmoved : Stale { b with
      consumed := (drainLines accept (DrainFault.lines (some fault)) b.remaining b.consumed s).consumed }
      := ⟨h.file_eq, by rw [hconsumed]; exact h.nonneg, by rw [hconsumed]; exact h.short⟩
  rw [drain, h.seek_eq]
  dsimp only
  split
  · exact ⟨hstate, hmoved⟩
  · split_ifs
    · exact ⟨hstate, hmoved⟩
    · exact ⟨hstate, hmoved.compact⟩
    · exact ⟨hstate, hmoved.compact.file_eq, hmoved.compact.nonneg, hmoved.compact.short⟩

end Drain

/-- A new buffer finds the cursor where the last one saved it. -/
theorem Stale.restart {b b' : SpillBuffer} (h : Stale b) (hfile : b'.file = [])
    (hcursor : b'.cursorFile.getD 0 = b.consumed) : Stale b'.restart := by
  refine ⟨hfile, ?_, ?_⟩
  · show 0 ≤ b'.cursorFile.getD 0
    rw [hcursor]
    exact h.nonneg
  · show b'.cursorFile.getD 0 < positions
    rw [hcursor]
    exact h.short

/-- An empty file with the cursor in it holds no span. -/
theorem Stale.holds {b : SpillBuffer} (h : Stale b) (hcursor : b.consumed ≤ b.file.length) :
    Holds b [] := by
  have hnonneg := h.nonneg
  rw [h.file_eq, List.length_nil] at hcursor
  refine ⟨fun s hs => absurd hs List.not_mem_nil, ?_, [], h.file_eq, ?_⟩
  · rw [h.file_eq]
    exact Nat.two_pow_pos 63
  · rw [List.length_nil]
    omega

/-! ## What the steps keep -/

/-- Writing the whole line and dying is writing it. -/
theorem append_whole {b : SpillBuffer} {span : SpanData} {k : Nat} (hk : span.bytes.length ≤ k) :
    (b.append span (some k)).2 = (b.append span none).2 := by
  unfold append
  split
  · rfl
  · rename_i line hline
    rw [SpanData.bytes, hline, Option.getD_some] at hk
    split
    · rfl
    · dsimp only
      rw [List.take_of_length_le hk]

/-- Dying before the line is written leaves the buffer alone. -/
theorem append_zero (b : SpillBuffer) (span : SpanData) : (b.append span (some 0)).2 = b := by
  unfold append
  split
  · rfl
  · split
    · rfl
    · dsimp only
      rw [List.take_zero, List.append_nil]

/-- A line that is written has bytes. -/
theorem bytes_pos {b b' : SpillBuffer} {span : SpanData} (h : b.append span none = (.ok (), b')) :
    0 < span.bytes.length := by
  unfold append at h
  split at h
  · cases h
  · rename_i line hline
    rw [SpanData.bytes, hline, Option.getD_some]
    exact List.length_pos_of_ne_nil (isLine_utf8 hline).ne_nil

/-- The cursor lies in the file of a buffer that stands for spans, and `Holds` says which. -/
theorem Inv.holds {h : CrashHistory} (hinv : h.Inv) (hcursor : h.buffer.consumed ≤ h.buffer.file.length) :
    ∃ m, m ≤ h.reached ∧ m ≤ h.written.length ∧ Holds h.buffer (h.written.drop m) := by
  obtain ⟨m, hreached, hwritten, hholds | ⟨hstale, rfl⟩⟩ := hinv.queue
  · exact ⟨m, hreached, hwritten, hholds⟩
  · refine ⟨_, hreached, hwritten, ?_⟩
    rw [List.drop_length]
    exact hstale.holds hcursor

section Steps

variable {h : CrashHistory} (hinv : h.Inv)
include hinv

/-- Starting again keeps the invariant. -/
theorem restart_inv : (h.step .restart).Inv := by
  obtain ⟨m, hreached, hwritten, hholds | ⟨hstale, hm⟩⟩ := hinv.queue
  · exact ⟨rfl, hinv.raised, m, hreached, hwritten, Or.inl (restart_holds hholds hinv.saved)⟩
  · exact ⟨rfl, hinv.raised, m, hreached, hwritten,
      Or.inr ⟨hstale.restart hstale.file_eq hinv.saved, hm⟩⟩

/-- Appending under a cursor in the file keeps the invariant. -/
theorem append_inv {span : SpanData} (hjson : span.IsJson)
    (hcursor : h.buffer.consumed ≤ h.buffer.file.length) : (h.step (.append span)).Inv := by
  obtain ⟨m, hreached, hwritten, hholds⟩ := hinv.holds hcursor
  rw [step]
  rcases happend : h.buffer.append span none with ⟨_ | _, b⟩
  · exact ⟨saved_of_append hinv.saved happend, hinv.raised, m, hreached, hwritten,
      Or.inl (hholds.append_error (Or.inl rfl) happend)⟩
  · refine ⟨saved_of_append hinv.saved happend, hinv.raised, m, hreached, ?_, Or.inl ?_⟩
    · dsimp only
      rw [List.length_append]
      omega
    · dsimp only
      rw [List.drop_append_of_le_length hwritten]
      exact hholds.append_holds hjson happend

/-- Dying in an append that leaves no part of a line keeps the invariant. -/
theorem appendDying_inv {span : SpanData} {k : Nat} (hop : h.Harmless (.appendDying span k)) :
    (h.step (.appendDying span k)).Inv := by
  rcases hop with rfl | ⟨hjson, hcursor, hk⟩
  · -- nothing is written
    have hrestart := restart_inv hinv
    rw [step, append_zero]
    rcases happend : h.buffer.append span none with ⟨_ | _, b⟩
    · exact hrestart
    · dsimp only
      rw [if_neg (Nat.not_le.mpr (bytes_pos happend))]
      exact hrestart
  · -- the line is written, and the next process finds it
    have happended := restart_inv (append_inv hinv hjson hcursor)
    rw [step, append_whole hk]
    rw [step, step] at happended
    rcases happend : h.buffer.append span none with ⟨_ | _, b⟩
    · rw [happend] at happended
      exact happended
    · rw [happend] at happended
      dsimp only
      rw [if_pos hk]
      exact happended

omit hinv in
/-- A drain starts at the first span that the buffer holds. -/
theorem start_eq {m : Nat} (hm : m ≤ h.written.length) (hholds : Holds h.buffer (h.written.drop m)) :
    h.start = m := by
  have hcount : h.buffer.remaining.countP nonblankBytes = (h.written.drop m).length := by
    rw [hholds.remaining_eq, List.countP_eq_length.mpr (nonblank_bytes hholds.readable),
      List.length_map]
  rw [start, hcount, List.length_drop]
  omega

/-- A drain that completes keeps the invariant. -/
theorem drain_inv {σ : Type} (accept : SpanData → σ → Bool × σ) (s : σ) :
    (h.step (.drain accept s)).Inv := by
  obtain ⟨m, hreached, hwritten, hholds | ⟨hstale, hm⟩⟩ := hinv.queue
  -- the file holds the spans from the `m`-th on, and the drain takes some of them
  · obtain ⟨hok, hnoted, hleft, hsaved⟩ := drainNoting_spec hholds accept s
    have hlen := Fifo.length_taken_le accept (h.written.drop m) s
    have hdrop := Fifo.drop_taken accept (h.written.drop m) s
    rw [List.drop_drop] at hdrop
    rw [List.length_drop] at hlen
    refine ⟨hsaved, ?_, m + (Fifo.offer accept (h.written.drop m) s).taken.length, ?_, ?_, Or.inl ?_⟩
    -- nothing was raised before, and nothing now
    · dsimp only [step]
      rw [hinv.raised, hok]
      rfl
    -- what it accepts starts where the file does
    · dsimp only [step]
      rw [hnoted, start_eq hwritten hholds]
      exact le_max_right _ _
    · dsimp only [step]
      omega
    · dsimp only [step]
      rw [hdrop]
      exact hleft
  -- the file was rewritten but its cursor was not saved: the drain finds no line and saves it
  · have hdrain := hstale.drain_eq (Fifo.recording accept) (s, [])
    have hnoting : h.buffer.drainNoting accept s
        = (.ok 0, { file := [], consumed := 0, cursorFile := some 0 }, []) := by
      rw [drainNoting, hdrain]
    rw [step, hnoting]
    refine ⟨rfl, ?_, m, le_trans hreached (le_max_left _ _), hwritten, Or.inl ?_⟩
    · dsimp only
      rw [hinv.raised]
      rfl
    · dsimp only
      rw [hm, List.drop_length]
      exact ⟨fun s hs => absurd hs List.not_mem_nil, Nat.two_pow_pos 63, [], rfl, rfl⟩

/-- A drain that dies keeps the invariant. -/
theorem drainDying_inv {σ : Type} (accept : SpanData → σ → Bool × σ) (s : σ) (fault : DrainFault) :
    (h.step (.drainDying accept s fault)).Inv := by
  obtain ⟨m, hreached, hwritten, hholds | ⟨hstale, hm⟩⟩ := hinv.queue
  · have hdisk := drain_disk h.buffer (Fifo.recording accept) fault (s, [])
    obtain ⟨hholds', hstate⟩ := drain_holds (Fifo.recording accept) hholds (some fault) (s, [])
    have hlog : (h.buffer.drain (Fifo.recording accept) (some fault) (s, [])).2.2.2
        = (Fifo.offer accept
            (readBefore (h.written.drop m) (DrainFault.lines (some fault))) s).taken := by
      rw [hstate, Fifo.offer_recording, List.nil_append]
    rw [Fifo.offer_recording] at hholds'
    have hlen := length_taken_le accept (h.written.drop m) (DrainFault.lines (some fault)) s
    generalize Fifo.offer accept (readBefore (h.written.drop m) (DrainFault.lines (some fault))) s = o
      at hholds' hlog hlen
    generalize hr : h.buffer.drain (Fifo.recording accept) (some fault) (s, []) = r at hdisk hholds' hlog
    rw [step, hr]
    dsimp only at hholds' ⊢
    rw [hlog, start_eq hwritten hholds]
    rw [List.drop_drop] at hholds'
    rw [List.length_drop] at hlen
    rcases hdisk with hsaved | ⟨hcursor, hfile | hfile⟩
    · -- the cursor was saved: the next process goes on behind what was taken
      refine ⟨rfl, hinv.raised, m + o.taken.length, le_max_right _ _, ?_, Or.inl ?_⟩
      · dsimp only
        omega
      · exact restart_holds hholds' hsaved
    · -- nothing has changed on disk: what was taken is offered again
      have hsame : r.2.1.restart = h.buffer.restart := by
        rw [restart, restart, hcursor, hfile]
      refine ⟨rfl, hinv.raised, m, le_trans hreached (le_max_left _ _), hwritten, Or.inl ?_⟩
      dsimp only
      rw [hsame]
      exact restart_holds hholds hinv.saved
    · -- the file was truncated, so everything was taken, and the cursor is beyond its end
      have hnil : h.written.drop (m + o.taken.length) = [] := by
        obtain ⟨before, hbytes, -⟩ := hholds'.file_eq
        rw [hfile] at hbytes
        exact eq_nil_of_bytes_eq_nil hholds'.readable (List.append_eq_nil_iff.mp hbytes.symm).2
      rw [List.drop_eq_nil_iff] at hnil
      obtain ⟨hnonneg, hle⟩ := hholds.consumed_bounds
      have hshort := hholds.short
      have hconsumed : r.2.1.restart.consumed = h.buffer.consumed := by
        show r.2.1.cursorFile.getD 0 = h.buffer.consumed
        rw [hcursor]
        exact hinv.saved
      refine ⟨rfl, hinv.raised, h.written.length, le_max_of_le_right hnil, le_refl _,
        Or.inr ⟨⟨hfile, ?_, ?_⟩, rfl⟩⟩
      · rw [hconsumed]
        exact hnonneg
      · rw [hconsumed]
        omega
  · obtain ⟨hstate, hstale'⟩ := hstale.drain_dying (Fifo.recording accept) fault (s, [])
    have hdisk := drain_disk h.buffer (Fifo.recording accept) fault (s, [])
    rw [step]
    refine ⟨rfl, hinv.raised, m, le_trans hreached (le_max_left _ _), hwritten, Or.inr ⟨?_, hm⟩⟩
    dsimp only
    rcases hdisk with hsaved | ⟨hcursor, -⟩
    · exact hstale'.restart hstale'.file_eq hsaved
    · exact hstale.restart hstale'.file_eq (by rw [hcursor]; exact hinv.saved)

/-- **One harmless step keeps the invariant.** -/
theorem step_inv {op : CrashOp} (hop : h.Harmless op) : (h.step op).Inv := by
  cases op with
  | append span => exact append_inv hinv hop.1 hop.2
  | appendDying span k => exact appendDying_inv hinv hop
  | drain accept s => exact drain_inv hinv accept s
  | drainDying accept s fault => exact drainDying_inv hinv accept s fault
  | restart => exact restart_inv hinv

/-- Harmless steps keep the invariant. -/
theorem inv_run {ops : List CrashOp} (hops : h.HarmlessRun ops) : (h.run ops).Inv := by
  induction ops generalizing h with
  | nil => exact hinv
  | cons op ops ih => exact ih (step_inv hinv hops.1) hops.2

/-- What the next drain offers. -/
theorem Inv.offers : ∃ m, m ≤ h.reached ∧ ∀ {σ : Type} (accept : SpanData → σ → Bool × σ) (s : σ),
    let r := h.buffer.drainNoting accept s
    r.1 = .ok r.2.2.length ∧ r.2.2 = (Fifo.offer accept (h.written.drop m) s).taken := by
  obtain ⟨m, hreached, -, hholds | ⟨hstale, hm⟩⟩ := hinv.queue
  · refine ⟨m, hreached, fun accept s => ?_⟩
    obtain ⟨hok, hnoted, -, -⟩ := drainNoting_spec hholds accept s
    exact ⟨by rw [hok, hnoted], hnoted⟩
  · -- nothing is left to offer, and nothing is offered
    refine ⟨m, hreached, fun accept s => ?_⟩
    have hdrain := hstale.drain_eq (Fifo.recording accept) (s, [])
    dsimp only
    rw [drainNoting, hdrain, hm, List.drop_length]
    exact ⟨rfl, rfl⟩

end Steps

/-- On a new path nothing is written and nothing accepted. -/
theorem fresh_inv : fresh.Inv :=
  ⟨rfl, rfl, 0, le_refl 0, le_refl 0,
    Or.inl ⟨fun _ hs => absurd hs List.not_mem_nil, Nat.two_pow_pos 63, [], rfl, rfl⟩⟩

/-- **A spill buffer survives harmless crashes**: no drain raises, and the next drain, whatever its
callback, offers the written spans in order from one on that is not behind those accepted. -/
theorem run_survives {ops : List CrashOp} (hops : fresh.HarmlessRun ops) :
    (fresh.run ops).raised = false ∧ ∃ m, m ≤ (fresh.run ops).reached ∧
      ∀ {σ : Type} (accept : SpanData → σ → Bool × σ) (s : σ),
        let r := (fresh.run ops).buffer.drainNoting accept s
        r.1 = .ok r.2.2.length ∧
          r.2.2 = (Fifo.offer accept ((fresh.run ops).written.drop m) s).taken :=
  ⟨(inv_run fresh_inv hops).raised, (inv_run fresh_inv hops).offers⟩

/-- A callback that accepts everything. -/
def takeAll (_ : SpanData) (_ : Unit) : Bool × Unit := (true, ())

/-- A callback that accepts one span. -/
def takeOne (_ : SpanData) (taken : Bool) : Bool × Bool := (!taken, true)

/-- A process drains one span of two and dies when it has drained the other; the next one appends a
third. -/
def sampleCrash : List CrashOp :=
  [.append (namedSpan (lit "a")), .append (namedSpan (lit "b")), .drain takeOne false,
    .drainDying takeAll () (.read 1), .append (namedSpan (lit "c"))]

/-- What is written in that run, how many spans were accepted, and what the next drain gets accepted. -/
theorem run_sampleCrash :
    (fresh.run sampleCrash).written.map SpanData.name
        = [.str (lit "a"), .str (lit "b"), .str (lit "c")] ∧
      (fresh.run sampleCrash).reached = 2 ∧
      ((fresh.run sampleCrash).buffer.drainNoting takeAll ()).2.2.map SpanData.name
        = [.str (lit "b"), .str (lit "c")] := by
  decide +kernel

/-- The next drain goes on at the span whose drain was not saved. -/
theorem run_survives_sample :
    (fresh.run sampleCrash).raised = false ∧ (fresh.run sampleCrash).reached = 2 ∧
      ((fresh.run sampleCrash).buffer.drainNoting takeAll ()).1 = .ok 2 ∧
      ((fresh.run sampleCrash).buffer.drainNoting takeAll ()).2.2.map SpanData.name
        = [.str (lit "b"), .str (lit "c")] ∧
      ∃ m ≤ 2, ((fresh.run sampleCrash).buffer.drainNoting takeAll ()).2.2
        = (Fifo.offer takeAll ((fresh.run sampleCrash).written.drop m) ()).taken := by
  have hspan : ∀ name : Str, (namedSpan name).IsJson := fun _ => sampleSpan_isJson
  have hops : fresh.HarmlessRun sampleCrash := by
    simp only [HarmlessRun, sampleCrash, Harmless, hspan, true_and, and_true]
    exact ⟨by decide, by decide +kernel, by decide +kernel⟩
  obtain ⟨-, hreached, hnames⟩ := run_sampleCrash
  obtain ⟨hraised, m, hm, hdrain⟩ := run_survives hops
  obtain ⟨hok, hoffered⟩ := hdrain takeAll ()
  have hlength := congrArg List.length hnames
  rw [List.length_map, List.length_cons, List.length_singleton] at hlength
  rw [hlength] at hok
  exact ⟨hraised, hreached, hok, hnames, m, hreached ▸ hm, hoffered⟩

/-- Two spans of which one is accepted before a process dies between truncating the file and replacing
the cursor file, and a span appended by the next. -/
def skippingCrash : List CrashOp :=
  [.append { name := .null }, .append { name := .null }, .drain takeOne false,
    .drainDying takeAll () .save, .append { name := .null }]

/-- **A spill buffer does not survive every crash**: behind a part of a line no drain returns, and a
span appended under a cursor beyond the end of the file is never offered. -/
theorem run_not_survives :
    (fresh.run [.appendDying { name := .null } 1, .append { name := .null },
      .drain takeAll ()]).raised = true ∧
    ((fresh.run skippingCrash).written.length = 3 ∧ (fresh.run skippingCrash).reached = 2 ∧
      ((fresh.run skippingCrash).buffer.drainNoting takeAll ()).2
        = ({ file := [], consumed := 0, cursorFile := some 0 }, [])) := by
  decide +kernel

end CrashHistory

end SpillBuffer

end OpenWright
