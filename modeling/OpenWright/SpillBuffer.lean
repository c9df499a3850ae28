import OpenWright.Fifo
import OpenWright.Python.Text

/-! # The spill buffer

Spans that overflow the queue are appended to a file, one JSON line each; a drain reads the lines from
a byte cursor on, moves the cursor over those that are accepted, truncates the file when the cursor
has reached its end, and saves the cursor in a file of its own. A new buffer on the same path reads the
cursor back.

* **`append_holds`**, **`drain_holds`**, **`restart_holds`** — the file and the cursor stand for a
  queue of spans, and the operations do to it what they do to a queue.
* **`run_fifo`** — through any appends, drains and restarts the spans accepted are the first ones
  appended, in order, and the rest are pending. -/

namespace OpenWright

open Python

/-! ## Spans -/

/-- `SpanData`: a telemetry span, as it comes from a receiver or out of a file. -/
structure SpanData where
  name : Val
  attributes : Val := .dict []
  resource : Val := .dict []
  traceId : Val := .null
  spanId : Val := .null
  parentSpanId : Val := .null
  startTimeUnixNano : Val := .null
  status : Val := .null
deriving DecidableEq

namespace SpanData

/-- The fields. -/
def fields : List Str :=
  [lit "name", lit "attributes", lit "resource", lit "trace_id", lit "span_id", lit "parent_span_id",
    lit "start_time_unix_nano", lit "status"]

/-- `asdict(span)`. -/
def asdict (s : SpanData) : Items :=
  [(lit "name", s.name), (lit "attributes", s.attributes), (lit "resource", s.resource),
    (lit "trace_id", s.traceId), (lit "span_id", s.spanId), (lit "parent_span_id", s.parentSpanId),
    (lit "start_time_unix_nano", s.startTimeUnixNano), (lit "status", s.status)]

/-- What a JSON object binds a key to: the last of the members with that key. -/
def member (kvs : Items) (k : Str) : Option Val := kvs.reverse.lookup k

/-- `SpanData(**v)`. -/
def ofKwargs : Val → Except PyErr SpanData
  | .dict kvs =>
    -- a keyword that is no field is refused, and so is a missing name
    if ∃ kv ∈ kvs, kv.1 ∉ fields then .error { kind := .typeError }
    else
      match member kvs (lit "name") with
      | none => .error { kind := .typeError }
      | some name => .ok {
          name
          attributes := (member kvs (lit "attributes")).getD (.dict [])
          resource := (member kvs (lit "resource")).getD (.dict [])
          traceId := (member kvs (lit "trace_id")).getD .null
          spanId := (member kvs (lit "span_id")).getD .null
          parentSpanId := (member kvs (lit "parent_span_id")).getD .null
          startTimeUnixNano := (member kvs (lit "start_time_unix_nano")).getD .null
          status := (member kvs (lit "status")).getD .null }
  | _ => .error { kind := .typeError }

/-- The fields are JSON values, as the receivers decode them. -/
def IsJson (s : SpanData) : Prop := Json.IsJson (.dict s.asdict)

/-- The line of a span. -/
def line (s : SpanData) : Option Bytes := utf8 (lineText (.dict s.asdict))

/-- The bytes of the line, if it has one. -/
def bytes (s : SpanData) : Bytes := s.line.getD []

/-- The span that a line is read as. -/
def ofLine (l : Bytes) : Except PyErr SpanData := loadsBytes l >>= ofKwargs

/-! ### Reading a span back -/

/-- The fields have different names. -/
theorem fields_nodup : fields.Nodup := by decide +kernel

/-- With different keys, the only member with a key is the last. -/
theorem member_of_mem {kvs : Items} (h : (kvs.map Prod.fst).Nodup) {k : Str} {v : Val}
    (hmem : (k, v) ∈ kvs) : member kvs k = some v := by
  have hrev : (kvs.reverse.map Prod.fst).Nodup := by rwa [List.map_reverse, List.nodup_reverse]
  have hmem' : (k, v) ∈ kvs.reverse := List.mem_reverse.mpr hmem
  rw [member]
  generalize kvs.reverse = lvs at hrev hmem'
  induction lvs with
  | nil => cases hmem'
  | cons x lvs ih =>
      rw [List.map_cons, List.nodup_cons] at hrev
      rcases List.mem_cons.mp hmem' with rfl | htail
      · rw [List.lookup_cons, beq_self_eq_true]
      · have hne : k ≠ x.1 := by
          rintro rfl
          exact hrev.1 (List.mem_map.mpr ⟨(x.1, v), htail, rfl⟩)
        rw [List.lookup_cons, beq_false_of_ne hne]
        exact ih hrev.2 htail

/-- **A span is built again from its fields.** -/
theorem ofKwargs_asdict (s : SpanData) : ofKwargs (.dict s.asdict) = .ok s := by
  have hkeys : s.asdict.map Prod.fst = fields := rfl
  have hnodup : (s.asdict.map Prod.fst).Nodup := hkeys ▸ fields_nodup
  have hknown : ¬∃ kv ∈ s.asdict, kv.1 ∉ fields := by
    rintro ⟨kv, hkv, hnot⟩
    exact hnot (hkeys ▸ List.mem_map_of_mem hkv)
  have hmember {k : Str} {v : Val} (h : (k, v) ∈ s.asdict) : member s.asdict k = some v :=
    member_of_mem hnodup h
  rw [ofKwargs, if_neg hknown, @hmember (lit "name") s.name (by simp [asdict]),
    @hmember (lit "attributes") s.attributes (by simp [asdict]),
    @hmember (lit "resource") s.resource (by simp [asdict]),
    @hmember (lit "trace_id") s.traceId (by simp [asdict]),
    @hmember (lit "span_id") s.spanId (by simp [asdict]),
    @hmember (lit "parent_span_id") s.parentSpanId (by simp [asdict]),
    @hmember (lit "start_time_unix_nano") s.startTimeUnixNano (by simp [asdict]),
    @hmember (lit "status") s.status (by simp [asdict])]
  rfl

/-- **A span is read back from its line.** -/
theorem ofLine_line {s : SpanData} (hs : s.IsJson) {l : Bytes} (h : s.line = some l) :
    ofLine l = .ok s := by
  rw [ofLine, loadsBytes_utf8 hs h]
  exact ofKwargs_asdict s

end SpanData

/-! ## The buffer -/

/-- `SpillBuffer`: the data file, the byte cursor, and the number in the cursor file, if it holds one.
Nothing takes the data file away, so that it exists is not asked. -/
structure SpillBuffer where
  file : Bytes
  consumed : Int
  cursorFile : Option Int
deriving DecidableEq

/-- The positions in a file are C integers. -/
def positions : Nat := 2 ^ 63

/-- Where the file system fails a drain: reading the line after `n` others, truncating the file, or
replacing the cursor file. -/
inductive DrainFault
  | read (n : Nat)
  | truncate
  | save
deriving DecidableEq

/-- The number of lines that are read before reading fails. -/
def DrainFault.lines : Option DrainFault → Option Nat
  | some (.read n) => some n
  | _ => none

namespace SpillBuffer

/-- `__init__`, on the files it finds. -/
def init (file : Option Bytes) (cursorFile : Option Int) : SpillBuffer where
  file := file.getD []
  consumed := cursorFile.getD 0
  cursorFile := cursorFile

/-- A new buffer on the same path. -/
def restart (b : SpillBuffer) : SpillBuffer := init (some b.file) b.cursorFile

/-- `append`. No file grows beyond its positions; where `fault` is `some k`, writing fails when `k`
bytes of the line are in the file. -/
def append (b : SpillBuffer) (span : SpanData) (fault : Option Nat) :
    Except PyErr Unit × SpillBuffer :=
  match span.line with
  | none => (.error { kind := .unicodeEncodeError }, b)
  | some line =>
    if positions ≤ b.file.length + line.length then (.error { kind := .osError }, b)
    else
      match fault with
      | none => (.ok (), { b with file := b.file ++ line })
      -- what was written of the line stays in the file
      | some k => (.error { kind := .osError }, { b with file := b.file ++ line.take k })

/-- The lines from the cursor on. -/
def remaining (b : SpillBuffer) : List Bytes := Lines.lines 10 (b.file.drop b.consumed.toNat)

/-- `fh.seek(self._consumed)`: the cursor has to be a C integer, and none before the file. -/
def seek (b : SpillBuffer) : Except PyErr Unit :=
  if b.consumed < -positions ∨ positions ≤ b.consumed then .error { kind := .valueError }
  else if b.consumed < 0 then .error { kind := .osError }
  else .ok ()

/-- `pending`. -/
def pending (b : SpillBuffer) : Except PyErr Nat :=
  b.seek.map fun _ => b.remaining.countP nonblankBytes

section Drain

variable {σ : Type}

/-- What the loop of `drain` leaves: the cursor, the number of spans accepted, the state of the
callback, and the exception that ended it. -/
structure Drained (σ : Type) where
  consumed : Int
  accepted : Nat
  state : σ
  raised : Option PyErr

/-- The loop of `drain`; reading fails after `fault` lines. -/
def drainLines (accept : SpanData → σ → Bool × σ) :
    Option Nat → List Bytes → Int → σ → Drained σ
  | some 0, _, consumed, s =>
    { consumed, accepted := 0, state := s, raised := some { kind := .osError } }
  | _, [], consumed, s => { consumed, accepted := 0, state := s, raised := none }
  | fault, line :: ls, consumed, s =>
    if nonblankBytes line then
      match SpanData.ofLine line with
      -- a line that is no span stops the drain, which keeps it
      | .error e => { consumed, accepted := 0, state := s, raised := some e }
      | .ok span =>
        match accept span s with
        | (true, s) =>
          let d := drainLines accept (fault.map (· - 1)) ls (consumed + line.length) s
          { d with accepted := d.accepted + 1 }
        | (false, s) => { consumed, accepted := 0, state := s, raised := none }
    -- a blank line is passed over
    else drainLines accept (fault.map (· - 1)) ls (consumed + line.length) s

/-- Truncate the file when everything in it is consumed. -/
def compact (b : SpillBuffer) : SpillBuffer :=
  if (b.file.length : Int) ≤ b.consumed then { b with file := [], consumed := 0 } else b

/-- Replace the cursor file. -/
def saveCursor (b : SpillBuffer) : SpillBuffer := { b with cursorFile := some b.consumed }

/-- `drain`. -/
def drain (b : SpillBuffer) (accept : SpanData → σ → Bool × σ) (fault : Option DrainFault) (s : σ) :
    Except PyErr Nat × SpillBuffer × σ :=
  match b.seek with
  | .error e => (.error e, b, s)
  | .ok _ =>
    let d := drainLines accept (DrainFault.lines fault) b.remaining b.consumed s
    let b := { b with consumed := d.consumed }
    match d.raised with
    | some e => (.error e, b, d.state)
    | none =>
      -- nothing is truncated while a line is left
      if fault = some .truncate ∧ (b.file.length : Int) ≤ b.consumed then
        (.error { kind := .osError }, b, d.state)
      else if fault = some .save then (.error { kind := .osError }, b.compact, d.state)
      else (.ok d.accepted, b.compact.saveCursor, d.state)

end Drain

/-- What the loop of `drain` meets at the cursor: the end of the file, a blank line, a line that is no
span, or a span; and the length of the line. -/
inductive Next
  | done
  | blank (length : Nat)
  | unreadable (e : PyErr)
  | span (span : SpanData) (length : Nat)

/-- The line at the cursor. -/
def next (b : SpillBuffer) : Next :=
  match b.remaining with
  | [] => .done
  | line :: _ =>
    if nonblankBytes line then
      match SpanData.ofLine line with
      | .error e => .unreadable e
      | .ok span => .span span line.length
    else .blank line.length

/-- Move the cursor over a line. -/
def advance (b : SpillBuffer) (length : Nat) : SpillBuffer :=
  { b with consumed := b.consumed + length }

/-- The spans that are pending: those of the lines from the cursor on. -/
def pendingSpans (b : SpillBuffer) : List SpanData :=
  (b.remaining.filter nonblankBytes).filterMap fun line => (SpanData.ofLine line).toOption

/-! ## What a buffer holds -/

/-- The lines of these spans can be written and are read back. -/
def Readable (q : List SpanData) : Prop := ∀ s ∈ q, s.IsJson ∧ s.line = some s.bytes

/-- The file goes on from the cursor with the lines of these spans. -/
structure Holds (b : SpillBuffer) (q : List SpanData) : Prop where
  readable : Readable q
  short : b.file.length < positions
  file_eq : ∃ before, b.file = before ++ (q.map SpanData.bytes).flatten ∧ b.consumed = before.length

/-- The cursor file holds the cursor. -/
def Saved (b : SpillBuffer) : Prop := b.cursorFile.getD 0 = b.consumed

section Lines

variable {q : List SpanData} (hq : Readable q)
include hq

/-- The line of each span is one. -/
theorem isLine_bytes : ∀ l ∈ q.map SpanData.bytes, Lines.IsLine 10 l := by
  intro l hl
  obtain ⟨s, hs, rfl⟩ := List.mem_map.mp hl
  exact isLine_utf8 (hq s hs).2

/-- No line is blank. -/
theorem nonblank_bytes : ∀ l ∈ q.map SpanData.bytes, nonblankBytes l = true := by
  intro l hl
  obtain ⟨s, hs, rfl⟩ := List.mem_map.mp hl
  exact nonblankBytes_utf8 (hq s hs).2

/-- Lines with no bytes are no lines. -/
theorem eq_nil_of_bytes_eq_nil (h : (q.map SpanData.bytes).flatten = []) : q = [] := by
  cases q with
  | nil => rfl
  | cons s q =>
      have hline := isLine_bytes hq s.bytes (by simp)
      rw [List.map_cons, List.flatten_cons, List.append_eq_nil_iff] at h
      exact absurd h.1 hline.ne_nil

end Lines

/-- An append returns where writing does not fail. -/
theorem append_ok {b b' : SpillBuffer} {span : SpanData} {fault : Option Nat} {u : Unit}
    (h : b.append span fault = (.ok u, b')) : fault = none := by
  cases fault with
  | none => rfl
  | some k =>
      unfold append at h
      split at h
      · cases h
      · split at h <;> cases h

/-- A new buffer on no file holds nothing. -/
theorem init_holds : (init none none).Holds [] :=
  ⟨fun _ hs => absurd hs List.not_mem_nil, Nat.two_pow_pos 63, [], rfl, rfl⟩

namespace Holds

variable {b : SpillBuffer} {q : List SpanData} (h : Holds b q)
include h

/-- The cursor is in the file. -/
theorem consumed_bounds : 0 ≤ b.consumed ∧ b.consumed ≤ b.file.length := by
  obtain ⟨before, hfile, hconsumed⟩ := h.file_eq
  rw [hfile, hconsumed, List.length_append]
  omega

/-- The file is read from the cursor on. -/
theorem seek_eq : b.seek = .ok () := by
  obtain ⟨hnonneg, hle⟩ := h.consumed_bounds
  have hshort := h.short
  rw [seek, if_neg (by omega), if_neg (by omega)]

/-- From the cursor on there are the lines of the spans. -/
theorem remaining_eq : b.remaining = q.map SpanData.bytes := by
  obtain ⟨before, hfile, hconsumed⟩ := h.file_eq
  rw [remaining, hfile, hconsumed, Int.toNat_natCast, List.drop_left,
    Lines.lines_flatten (isLine_bytes h.readable)]

/-- **The pending spans are counted.** -/
theorem pending_eq : b.pending = .ok q.length := by
  have hcount : (q.map SpanData.bytes).countP nonblankBytes = q.length := by
    rw [List.countP_eq_length.mpr (nonblank_bytes h.readable), List.length_map]
  rw [pending, h.seek_eq, h.remaining_eq, hcount]
  rfl

/-- The pending spans are those the file holds. -/
theorem pendingSpans_eq : b.pendingSpans = q := by
  have hfilter : (q.map SpanData.bytes).filter nonblankBytes = q.map SpanData.bytes :=
    List.filter_eq_self.mpr (nonblank_bytes h.readable)
  have hread : ∀ s ∈ q,
      ((fun line => (SpanData.ofLine line).toOption) ∘ SpanData.bytes) s = some s := by
    intro s hs
    obtain ⟨hjson, hline⟩ := h.readable s hs
    rw [Function.comp_apply, SpanData.ofLine_line hjson hline]
    rfl
  rw [pendingSpans, h.remaining_eq, hfilter, List.filterMap_map, List.filterMap_congr hread]
  exact List.filterMap_some

/-- The loop of a drain meets the first span, or the end. -/
theorem next_eq : b.next = match q with
    | [] => .done
    | span :: _ => .span span span.bytes.length := by
  cases q with
  | nil =>
      rw [next, h.remaining_eq]
      rfl
  | cons span rest =>
      obtain ⟨hjson, hline⟩ := h.readable span List.mem_cons_self
      rw [next, h.remaining_eq, List.map_cons]
      simp only [nonblankBytes_utf8 hline, SpanData.ofLine_line hjson hline, if_true]

/-- It meets no blank line. -/
theorem next_ne_blank (length : Nat) : b.next ≠ .blank length := by
  rw [h.next_eq]
  cases q <;> exact nofun

/-- At the end it has met all. -/
theorem eq_nil_of_next (hnext : b.next = .done) : q = [] := by
  rw [h.next_eq] at hnext
  cases q with
  | nil => rfl
  | cons span rest => cases hnext

/-- A span that it meets is the first. -/
theorem eq_cons_of_next {span : SpanData} {length : Nat} (hnext : b.next = .span span length) :
    ∃ rest, q = span :: rest ∧ length = span.bytes.length := by
  rw [h.next_eq] at hnext
  cases q with
  | nil => cases hnext
  | cons first rest =>
      injection hnext with hspan hlength
      subst hspan
      exact ⟨rest, rfl, hlength.symm⟩

/-- **A completed append puts its span at the end.** -/
theorem append_holds {span : SpanData} (hjson : span.IsJson) {b' : SpillBuffer}
    (happend : b.append span none = (.ok (), b')) : Holds b' (q ++ [span]) := by
  obtain ⟨before, hfile, hconsumed⟩ := h.file_eq
  unfold append at happend
  split at happend
  · cases happend
  · rename_i line hline
    have hbytes : span.bytes = line := by rw [SpanData.bytes, hline, Option.getD_some]
    split at happend
    · cases happend
    · rename_i hroom
      obtain rfl := (Prod.mk.inj happend).2
      refine ⟨fun s hs => ?_, ?_, before, ?_, hconsumed⟩
      · rcases List.mem_append.mp hs with hmem | hmem
        · exact h.readable s hmem
        · rw [List.mem_singleton.mp hmem, hbytes]
          exact ⟨hjson, hline⟩
      · rw [List.length_append]
        omega
      · rw [List.map_append, List.flatten_append, ← List.append_assoc, ← hfile]
        simp [hbytes]

/-- An append that fails before it writes changes nothing. -/
theorem append_error {span : SpanData} {fault : Option Nat} (hfault : fault = none ∨ fault = some 0)
    {e : PyErr} {b' : SpillBuffer} (happend : b.append span fault = (.error e, b')) : Holds b' q := by
  unfold append at happend
  split at happend
  · obtain rfl := (Prod.mk.inj happend).2
    exact h
  · split at happend
    · obtain rfl := (Prod.mk.inj happend).2
      exact h
    · rcases hfault with rfl | rfl
      · cases happend
      · obtain rfl := (Prod.mk.inj happend).2
        simpa using h

end Holds

/-! ## What a drain does -/

section Drain

variable {σ : Type} (accept : SpanData → σ → Bool × σ)

/-- The spans whose lines are read before reading fails. -/
def readBefore (q : List SpanData) : Option Nat → List SpanData
  | none => q
  | some n => q.take n

/-- Of no spans, none is read. -/
@[simp] theorem readBefore_nil (fault : Option Nat) : readBefore [] fault = [] := by
  cases fault with
  | none => rfl
  | some n => exact List.take_nil

/-- A span before the fault is read. -/
theorem readBefore_cons {fault : Option Nat} (h : fault ≠ some 0) (span : SpanData)
    (q : List SpanData) :
    readBefore (span :: q) fault = span :: readBefore q (fault.map (· - 1)) := by
  cases fault with
  | none => rfl
  | some n =>
      cases n with
      | zero => exact absurd rfl h
      | succ n => rfl

/-- What the loop leaves is what comes of offering the spans: the cursor is behind the lines of those
taken. -/
structure Offers (o : Fifo.Offered SpanData σ) (consumed : Int) (d : Drained σ) : Prop where
  consumed_eq : d.consumed = consumed + (o.taken.map SpanData.bytes).flatten.length
  accepted_eq : d.accepted = o.taken.length
  state_eq : d.state = o.state

/-- **The loop of a drain offers the spans** of the lines it reads. -/
theorem drainLines_bytes {q : List SpanData} (hq : Readable q) (fault : Option Nat) (consumed : Int)
    (s : σ) : Offers (Fifo.offer accept (readBefore q fault) s) consumed
      (drainLines accept fault (q.map SpanData.bytes) consumed s) := by
  induction q generalizing fault consumed s with
  | nil =>
      rw [readBefore_nil, List.map_nil]
      rcases fault with _ | _ | n <;> exact ⟨by simp [drainLines], rfl, rfl⟩
  | cons span q ih =>
      -- the drain dies before it reads the line
      by_cases hfault : fault = some 0
      · subst hfault
        exact ⟨by simp [drainLines, readBefore], rfl, rfl⟩
      · obtain ⟨hjson, hline⟩ := hq span List.mem_cons_self
        -- the line is not blank, and read back as its span
        have hblank : nonblankBytes span.bytes = true := nonblankBytes_utf8 hline
        have hread : SpanData.ofLine span.bytes = .ok span := SpanData.ofLine_line hjson hline
        have hstep : drainLines accept fault (span.bytes :: q.map SpanData.bytes) consumed s
            = match accept span s with
              | (true, s) =>
                let d := drainLines accept (fault.map (· - 1)) (q.map SpanData.bytes)
                  (consumed + span.bytes.length) s
                { d with accepted := d.accepted + 1 }
              | (false, s) => { consumed, accepted := 0, state := s, raised := none } := by
          rcases fault with _ | _ | n
          · simp only [drainLines, hblank, hread, if_true]
          · exact absurd rfl hfault
          · simp only [drainLines, hblank, hread, if_true]
        rw [List.map_cons, readBefore_cons hfault, hstep]
        rcases haccept : accept span s with ⟨_ | _, t⟩
        -- the span is declined: the drain ends, and the line stays
        · rw [Fifo.offer_cons_of_declined accept haccept]
          exact ⟨by simp, rfl, rfl⟩
        · rw [Fifo.offer_cons_of_taken accept haccept]
          -- the span is accepted, and its line is passed over
          have hrest := ih (fun u hu => hq u (List.mem_cons_of_mem span hu)) (fault.map (· - 1))
            (consumed + span.bytes.length) t
          refine ⟨?_, congrArg (· + 1) hrest.accepted_eq, hrest.state_eq⟩
          dsimp only
          rw [hrest.consumed_eq, List.map_cons, List.flatten_cons, List.length_append]
          omega

/-- Lines that are read raise nothing. -/
theorem drainLines_raised {q : List SpanData} (hq : Readable q) (consumed : Int) (s : σ) :
    (drainLines accept none (q.map SpanData.bytes) consumed s).raised = none := by
  induction q generalizing consumed s with
  | nil => rfl
  | cons span q ih =>
      obtain ⟨hjson, hline⟩ := hq span List.mem_cons_self
      have hblank : nonblankBytes span.bytes = true := nonblankBytes_utf8 hline
      have hread : SpanData.ofLine span.bytes = .ok span := SpanData.ofLine_line hjson hline
      simp only [List.map_cons, drainLines, hblank, hread, if_true, Option.map_none]
      rcases accept span s with ⟨_ | _, t⟩
      · rfl
      · exact ih (fun u hu => hq u (List.mem_cons_of_mem span hu)) _ t

/-- Without its first spans the file holds the others, behind the cursor. -/
theorem Holds.skip {b : SpillBuffer} {taken left : List SpanData} (h : Holds b (taken ++ left)) :
    Holds { b with consumed := b.consumed + (taken.map SpanData.bytes).flatten.length } left := by
  obtain ⟨before, hfile, hconsumed⟩ := h.file_eq
  refine ⟨fun s hs => h.readable s (List.mem_append_right taken hs), h.short,
    before ++ (taken.map SpanData.bytes).flatten, ?_, ?_⟩
  · dsimp only
    rw [hfile, List.map_append, List.flatten_append, List.append_assoc]
  · dsimp only
    rw [hconsumed, List.length_append]
    omega

/-- Behind its first span the file holds the others. -/
theorem Holds.advance {b : SpillBuffer} {span : SpanData} {q : List SpanData}
    (h : Holds b (span :: q)) : Holds (b.advance span.bytes.length) q := by
  have hskip := @Holds.skip b [span] q h
  rwa [List.map_singleton, List.flatten_singleton] at hskip

/-- Truncating takes no span away. -/
theorem Holds.compact {b : SpillBuffer} {q : List SpanData} (h : Holds b q) : Holds b.compact q := by
  unfold SpillBuffer.compact
  split
  · rename_i hle
    obtain ⟨before, hfile, hconsumed⟩ := h.file_eq
    have hnil : (q.map SpanData.bytes).flatten = [] := by
      rw [hfile, hconsumed, List.length_append] at hle
      exact List.length_eq_zero_iff.mp (by omega)
    exact ⟨h.readable, Nat.two_pow_pos 63, [], by rw [hnil]; rfl, rfl⟩
  · exact h

/-- Saving the cursor changes nothing else. -/
theorem Holds.saveCursor {b : SpillBuffer} {q : List SpanData} (h : Holds b q) :
    Holds b.saveCursor q :=
  ⟨h.readable, h.short, h.file_eq⟩

/-- The spans read are the first ones. -/
theorem readBefore_append (q : List SpanData) (fault : Option Nat) :
    ∃ rest, q = readBefore q fault ++ rest := by
  cases fault with
  | none => exact ⟨[], (List.append_nil q).symm⟩
  | some n => exact ⟨q.drop n, (List.take_append_drop n q).symm⟩

/-- No more is taken than the file holds. -/
theorem length_taken_le (q : List SpanData) (fault : Option Nat) (s : σ) :
    (Fifo.offer accept (readBefore q fault) s).taken.length ≤ q.length := by
  obtain ⟨rest, hrest⟩ := readBefore_append q fault
  have hlen := congrArg List.length hrest
  have htaken := Fifo.length_taken_le accept (readBefore q fault) s
  rw [List.length_append] at hlen
  omega

/-- **A drain takes the spans that are accepted**, wherever it fails, off the front. -/
theorem drain_holds {b : SpillBuffer} {q : List SpanData} (h : Holds b q) (fault : Option DrainFault)
    (s : σ) :
    let o := Fifo.offer accept (readBefore q (DrainFault.lines fault)) s
    Holds (b.drain accept fault s).2.1 (q.drop o.taken.length) ∧
      (b.drain accept fault s).2.2 = o.state := by
  intro o
  have hoffers := drainLines_bytes accept h.readable (DrainFault.lines fault) b.consumed s
  rw [← h.remaining_eq] at hoffers
  -- what is taken comes first, then what is offered and declined, then what is not read
  obtain ⟨rest, hrest⟩ := readBefore_append q (DrainFault.lines fault)
  have htaken : o.taken ++ o.left = readBefore q (DrainFault.lines fault) :=
    Fifo.taken_append_left accept _ s
  have hq : q = o.taken ++ (o.left ++ rest) := by rw [← List.append_assoc, htaken, ← hrest]
  have hleft : q.drop o.taken.length = o.left ++ rest := by
    conv_lhs => rw [hq]
    rw [List.drop_left]
  have hholds : Holds { b with
      consumed := (drainLines accept (DrainFault.lines fault) b.remaining b.consumed s).consumed }
      (q.drop o.taken.length) := by
    rw [hoffers.consumed_eq, hleft]
    rw [hq] at h
    exact h.skip
  rw [drain, h.seek_eq]
  dsimp only
  split
  · exact ⟨hholds, hoffers.state_eq⟩
  · split_ifs
    · exact ⟨hholds, hoffers.state_eq⟩
    · exact ⟨hholds.compact, hoffers.state_eq⟩
    · exact ⟨hholds.compact.saveCursor, hoffers.state_eq⟩

/-- **A drain that does not fail** returns the number of spans accepted, and saves the cursor. -/
theorem drain_eq_ok {b : SpillBuffer} {q : List SpanData} (h : Holds b q) (s : σ) :
    (b.drain accept none s).1 = .ok (Fifo.offer accept q s).taken.length ∧
      Saved (b.drain accept none s).2.1 := by
  have hoffers := drainLines_bytes accept h.readable none b.consumed s
  have hraised := drainLines_raised accept h.readable b.consumed s
  rw [← h.remaining_eq] at hoffers hraised
  rw [drain, h.seek_eq]
  simp only [DrainFault.lines, hraised]
  exact ⟨congrArg Except.ok hoffers.accepted_eq, rfl⟩

end Drain

/-! ## Runs -/

/-- An operation on a buffer; the callback of a drain keeps a state of any type. -/
inductive Op : Type 1
  | append (span : SpanData)
  | drain {σ : Type} (accept : SpanData → σ → Bool × σ) (s : σ)
  | pending
  | restart

/-- A buffer with the spans appended to it and those its drains got accepted. -/
structure History where
  buffer : SpillBuffer
  appended : List SpanData
  accepted : List SpanData

/-- A drain whose callback notes the spans it accepts. -/
def drainNoting {σ : Type} (b : SpillBuffer) (accept : SpanData → σ → Bool × σ) (s : σ) :
    Except PyErr Nat × SpillBuffer × List SpanData :=
  let r := b.drain (Fifo.recording accept) none (s, [])
  (r.1, r.2.1, r.2.2.2)

/-- One operation. A span is appended when `append` returns. -/
def step (h : History) : Op → History
  | .append span =>
    match h.buffer.append span none with
    | (.ok _, b) => { h with buffer := b, appended := h.appended ++ [span] }
    | (.error _, b) => { h with buffer := b }
  | .drain accept s =>
    let r := h.buffer.drainNoting accept s
    { h with buffer := r.2.1, accepted := h.accepted ++ r.2.2 }
  | .pending => h
  | .restart => { h with buffer := h.buffer.restart }

/-- The operations in order, on a new path. -/
def run (ops : List Op) : History :=
  ops.foldl step { buffer := init none none, appended := [], accepted := [] }

/-- The spans that are appended are JSON values. -/
def Op.AppendsJson : Op → Prop
  | .append span => span.IsJson
  | _ => True

/-- The spans accepted and those in the file are the ones appended. -/
structure History.Inv (h : History) : Prop where
  queue : ∃ q, Holds h.buffer q ∧ h.appended = h.accepted ++ q
  saved : Saved h.buffer

/-- What a drain notes is what its callback accepts. -/
theorem drainNoting_spec {σ : Type} {b : SpillBuffer} {q : List SpanData} (h : Holds b q)
    (accept : SpanData → σ → Bool × σ) (s : σ) :
    let o := Fifo.offer accept q s
    (b.drainNoting accept s).1 = .ok o.taken.length ∧ (b.drainNoting accept s).2.2 = o.taken ∧
      Holds (b.drainNoting accept s).2.1 o.left ∧ Saved (b.drainNoting accept s).2.1 := by
  intro o
  have hrecording := Fifo.offer_recording accept q s []
  obtain ⟨hholds, hstate⟩ := drain_holds (Fifo.recording accept) h none (s, [])
  obtain ⟨hok, hsaved⟩ := drain_eq_ok (Fifo.recording accept) h (s, [])
  have hleft : q.drop o.taken.length = o.left := Fifo.drop_taken accept q s
  simp only [DrainFault.lines, readBefore, hrecording] at hholds hstate hok
  refine ⟨hok, ?_, hleft ▸ hholds, hsaved⟩
  rw [drainNoting, hstate, List.nil_append]

/-- A new buffer reads its cursor back. -/
theorem restart_holds {b : SpillBuffer} {q : List SpanData} (h : Holds b q) (hsaved : Saved b) :
    Holds b.restart q := by
  obtain ⟨before, hfile, hconsumed⟩ := h.file_eq
  exact ⟨h.readable, h.short, before, hfile, hsaved.trans hconsumed⟩

/-- Appending leaves the cursor and its file alone. -/
theorem saved_of_append {b b' : SpillBuffer} (hsaved : Saved b) {span : SpanData}
    {fault : Option Nat} {r : Except PyErr Unit} (h : b.append span fault = (r, b')) : Saved b' := by
  unfold append at h
  split at h
  · obtain rfl := (Prod.mk.inj h).2
    exact hsaved
  · split at h
    · obtain rfl := (Prod.mk.inj h).2
      exact hsaved
    · cases fault with
      | none =>
          obtain rfl := (Prod.mk.inj h).2
          exact hsaved
      | some k =>
          obtain rfl := (Prod.mk.inj h).2
          exact hsaved

/-- One operation keeps the invariant. -/
theorem step_inv {h : History} (hinv : h.Inv) {op : Op} (hop : op.AppendsJson) : (step h op).Inv := by
  obtain ⟨⟨q, hq, happended⟩, hsaved⟩ := hinv
  cases op with
  | append span =>
      rw [step]
      rcases happend : h.buffer.append span none with ⟨_ | _, b⟩
      · exact ⟨⟨q, hq.append_error (Or.inl rfl) happend, happended⟩, saved_of_append hsaved happend⟩
      · refine ⟨⟨q ++ [span], hq.append_holds hop happend, ?_⟩, saved_of_append hsaved happend⟩
        dsimp only
        rw [happended, List.append_assoc]
  | drain accept s =>
      obtain ⟨-, hnoted, hleft, hsaved'⟩ := drainNoting_spec hq accept s
      refine ⟨⟨_, hleft, ?_⟩, hsaved'⟩
      dsimp only [step]
      rw [hnoted, happended, List.append_assoc, Fifo.taken_append_left]
  | pending => exact ⟨⟨q, hq, happended⟩, hsaved⟩
  | restart => exact ⟨⟨q, restart_holds hq hsaved, happended⟩, rfl⟩

/-- **The invariant holds through every run.** -/
theorem inv_run {ops : List Op} (hops : ∀ op ∈ ops, op.AppendsJson) : (run ops).Inv := by
  have hrun : ∀ (ops : List Op) (h : History), (∀ op ∈ ops, op.AppendsJson) → h.Inv →
      (ops.foldl step h).Inv := by
    intro ops
    induction ops with
    | nil => exact fun _ _ h => h
    | cons op ops ih =>
        intro h hops hinv
        rw [List.foldl_cons]
        exact ih _ (fun o ho => hops o (List.mem_cons_of_mem op ho))
          (step_inv hinv (hops op List.mem_cons_self))
  refine hrun ops _ hops ⟨⟨[], ?_, rfl⟩, rfl⟩
  exact ⟨fun s hs => absurd hs List.not_mem_nil, by decide, [], rfl, rfl⟩

/-- **A spill buffer is a first-in-first-out queue**: after any operations the spans that drains got
accepted are the first of those appended, in order; as many are pending as are appended and not
accepted; and whatever drain comes next offers its callback these, in order, until one is declined,
gets accepted what the callback takes of them, and returns their number. -/
theorem run_fifo {ops : List Op} (hops : ∀ op ∈ ops, op.AppendsJson) :
    (run ops).accepted <+: (run ops).appended ∧
      (run ops).buffer.pending = .ok ((run ops).appended.length - (run ops).accepted.length) ∧
      ∀ {σ : Type} (accept : SpanData → σ → Bool × σ) (s : σ),
        let o := Fifo.offer accept ((run ops).appended.drop (run ops).accepted.length) s
        let r := (run ops).buffer.drainNoting accept s
        r.1 = .ok o.taken.length ∧ r.2.2 = o.taken ∧
          ((run ops).buffer.drain accept none s).2.2 = o.state ∧
          (run (ops ++ [.drain accept s])).accepted = (run ops).accepted ++ o.taken ∧
          (run ops).accepted ++ o.taken <+: (run ops).appended := by
  obtain ⟨⟨q, hq, happended⟩, -⟩ := inv_run hops
  have hpending : (run ops).appended.drop (run ops).accepted.length = q := by
    rw [happended, List.drop_left]
  refine ⟨⟨q, happended.symm⟩, ?_, fun accept s => ?_⟩
  · rw [hq.pending_eq, happended, List.length_append, Nat.add_sub_cancel_left]
  · rw [hpending]
    obtain ⟨hok, hnoted, -, -⟩ := drainNoting_spec hq accept s
    refine ⟨hok, hnoted, (drain_holds accept hq none s).2, ?_, (Fifo.offer accept q s).left, ?_⟩
    · rw [run, List.foldl_append, ← run, List.foldl_cons, List.foldl_nil, step, hnoted]
    · rw [List.append_assoc, Fifo.taken_append_left, happended]

/-- A span with a number of each kind among its attributes. -/
def sampleSpan : SpanData where
  name := .str (lit "chat")
  attributes := .dict [(lit "i", .int 1), (lit "t", .float (.finite (1 / 2)))]

/-- The sample span is JSON. -/
theorem sampleSpan_isJson : sampleSpan.IsJson := by
  have hdouble : PyFloat.ofRat (1 / 2) = .finite (1 / 2) := by decide +kernel
  simp only [SpanData.IsJson, SpanData.asdict, sampleSpan, Json.IsJson, Json.IsJsonItems,
    PyFloat.IsDouble, hdouble, and_self]

/-- The sample span under another name. -/
def namedSpan (name : Str) : SpanData := { sampleSpan with name := .str name }

/-- Accept as many spans as there is room for. -/
def takeRoom (_ : SpanData) (room : Nat) : Bool × Nat := (decide (0 < room), room - 1)

/-- A drain takes one span of two, and after a restart and an append another one takes the next. -/
def sampleOps : List Op :=
  [.append (namedSpan (lit "a")), .append (namedSpan (lit "b")), .drain takeRoom 1, .restart,
    .append (namedSpan (lit "c")), .pending, .drain takeRoom 1]

/-- What is appended and what is accepted in that run. -/
theorem run_sampleOps : (run sampleOps).appended.map SpanData.name
      = [.str (lit "a"), .str (lit "b"), .str (lit "c")] ∧
    (run sampleOps).accepted.map SpanData.name = [.str (lit "a"), .str (lit "b")] := by
  decide +kernel

/-- The last span is pending, and a drain with room for two takes it and ends with room for one. -/
theorem run_fifo_sample :
    (run sampleOps).accepted.map SpanData.name = [.str (lit "a"), .str (lit "b")] ∧
      (run sampleOps).buffer.pending = .ok 1 ∧
      ((run sampleOps).buffer.drainNoting takeRoom 2).1 = .ok 1 ∧
      ((run sampleOps).buffer.drainNoting takeRoom 2).2.2.map SpanData.name = [.str (lit "c")] ∧
      ((run sampleOps).buffer.drain takeRoom none 2).2.2 = 1 := by
  have hops : ∀ op ∈ sampleOps, op.AppendsJson := by
    have hspan : ∀ name : Str, (namedSpan name).IsJson := fun _ => sampleSpan_isJson
    simp only [sampleOps, List.forall_mem_cons, Op.AppendsJson, hspan, List.not_mem_nil,
      false_implies, implies_true, and_self]
  obtain ⟨-, hpending, hdrain⟩ := run_fifo hops
  obtain ⟨hok, htaken, hstate, -, -⟩ := hdrain takeRoom 2
  obtain ⟨happended, haccepted⟩ := run_sampleOps
  have hdrop : ((run sampleOps).appended.drop (run sampleOps).accepted.length).map SpanData.name
      = [.str (lit "c")] := by
    rw [← List.length_map (f := SpanData.name), List.map_drop, happended, haccepted]
    rfl
  obtain ⟨c, hc, hname⟩ := List.map_eq_singleton_iff.mp hdrop
  have hlen := congrArg List.length happended
  have hlen' := congrArg List.length haccepted
  rw [List.length_map] at hlen hlen'
  rw [hc] at hok htaken hstate
  rw [hlen, hlen'] at hpending
  refine ⟨haccepted, hpending, hok, ?_, hstate⟩
  rw [htaken]
  exact congrArg (List.cons · []) hname

end SpillBuffer

end OpenWright
