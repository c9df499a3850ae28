import OpenWright.Ledger
import OpenWright.Python.Dump
import OpenWright.Python.Text

/-! # The file backend

One JSON line per record in an append-only file, with the offsets of the lines in memory. A process
that dies while it appends leaves a torn last line behind, which the next opening drops by rewriting
the file.

* **`run_records`** — through any appends, crashes in the middle of an append, and reopenings, exactly
  the records whose line was completely written are served.
* **`wholeLines_opens`** — a crash while a torn line is dropped loses no record exactly where the file
  has not been truncated yet, or its whole lines are written again. -/

namespace OpenWright

open Python Merkle

/-! ## Records -/

/-- A record: a dictionary as `model_dump(mode="json")` makes it, without tuples, and with distinct
keys. -/
structure Record where
  items : Items
  isJson : Json.IsJson (.dict items)
  distinct : Val.distinct (.dict items) = true

namespace Record

/-- The record as a value. -/
def val (r : Record) : Val := .dict r.items

/-- The bytes of its line; none where a string has no UTF-8 encoding. -/
def line (r : Record) : Option Bytes := utf8 (lineText r.val)

/-- The bytes of its line, if it has one. -/
def bytes (r : Record) : Bytes := r.line.getD []

end Record

/-! ## The backend -/

/-- `FileLedgerBackend`: `events.jsonl`, and the offsets of its lines. -/
structure FileLedgerBackend where
  file : Bytes
  offsets : List Nat

namespace FileLedgerBackend

/-- `_heal_torn_tail`: the bytes it rewrites the file with, where it does. -/
def healed (data : Bytes) : Option Bytes :=
  if data ≠ [] ∧ data.getLast? ≠ some 10 then some (Lines.dropTorn 10 data) else none

/-- `_index_offsets`. -/
def indexOffsets (data : Bytes) : List Nat :=
  Lines.offsets nonblankBytes 0 (Lines.lines 10 data)

/-- `__init__`, of a directory with or without the file. -/
def init : Option Bytes → FileLedgerBackend
  | none => { file := [], offsets := indexOffsets [] }
  | some data =>
    let file := (healed data).getD data
    { file, offsets := indexOffsets file }

/-- `append_record`. Where `fault` is `some k`, writing fails when `k` bytes of the line are in the
file: while it is written, when it is flushed, or in `fsync` when it is there completely. -/
def appendRecord (s : FileLedgerBackend) (record : Val) (fault : Option Nat) :
    Except PyErr Unit × FileLedgerBackend :=
  match utf8 (lineText record) with
  | none => (.error { kind := .unicodeEncodeError }, s)
  | some line =>
    match fault with
    | none => (.ok (), { file := s.file ++ line, offsets := s.offsets ++ [s.file.length] })
    | some k => (.error { kind := .osError }, { s with file := s.file ++ line.take k })

/-- `size`. -/
def size (s : FileLedgerBackend) : Nat := s.offsets.length

/-- `iter_records`, to the end. -/
def iterRecords (s : FileLedgerBackend) : Except PyErr (List Val) :=
  match decodeUtf8 s.file with
  | none => .error { kind := .unicodeDecodeError }
  | some text => ((Lines.lines (cp 10) (universalNewlines text)).filter nonblank).mapM loads

/-- `get_record`. -/
def getRecord (s : FileLedgerBackend) (index : Int) : Except PyErr Val :=
  match (if 0 ≤ index then s.offsets[index.toNat]? else none) with
  | none => .error { kind := .indexError, msg := [.str (.int index)] }
  | some offset => loadsBytes (Lines.readLine 10 (s.file.drop offset))

/-- `Ledger.__init__` on a file backend. -/
def openLedger (s : FileLedgerBackend) (origin : Str) (retention : Option (Str → Except PyErr Str)) :
    Except PyErr (Ledger FileLedgerBackend) := do
  let records ← s.iterRecords
  let leaves ← records.mapM leafBytesFromRecord
  return { store := s, origin, retention, leaves, tree := .fromLeaves leaves }

/-! ## What a file of whole lines serves -/

/-- The file consists of the lines of the records, and the offsets are theirs. -/
structure Holds (s : FileLedgerBackend) (rs : List Record) : Prop where
  line_eq : ∀ r ∈ rs, r.line = some r.bytes
  file_eq : s.file = (rs.map Record.bytes).flatten
  offsets_eq : s.offsets = Lines.offsets nonblankBytes 0 (rs.map Record.bytes)

section Records

variable {rs : List Record} (hrs : ∀ r ∈ rs, r.line = some r.bytes)
include hrs

/-- Every line is one. -/
theorem isLine_bytes : ∀ l ∈ rs.map Record.bytes, Lines.IsLine 10 l := by
  intro l hl
  obtain ⟨r, hr, rfl⟩ := List.mem_map.mp hl
  exact isLine_utf8 (hrs r hr)

/-- No line is blank. -/
theorem nonblank_bytes : ∀ l ∈ rs.map Record.bytes, nonblankBytes l = true := by
  intro l hl
  obtain ⟨r, hr, rfl⟩ := List.mem_map.mp hl
  exact nonblankBytes_utf8 (hrs r hr)

/-- The text of the file. -/
theorem utf8_lines :
    utf8 (rs.map fun r => lineText r.val).flatten = some (rs.map Record.bytes).flatten := by
  induction rs with
  | nil => rfl
  | cons r rs ih =>
      rw [List.map_cons, List.map_cons, List.flatten_cons, List.flatten_cons]
      exact utf8_append (hrs r List.mem_cons_self) (ih fun r' hr' => hrs r' (List.mem_cons_of_mem r hr'))

omit hrs in
/-- The text of the file is split into the lines of the records. -/
theorem lines_text : Lines.lines (cp 10) (universalNewlines (rs.map fun r => lineText r.val).flatten)
    = rs.map fun r => lineText r.val := by
  have hreturn : cp 13 ∉ (rs.map fun r => lineText r.val).flatten := by
    intro h
    obtain ⟨l, hl, hmem⟩ := List.mem_flatten.mp h
    obtain ⟨r, -, rfl⟩ := List.mem_map.mp hl
    exact carriageReturn_not_mem_lineText _ hmem
  rw [universalNewlines_of_not_mem hreturn]
  apply Lines.lines_flatten
  intro l hl
  obtain ⟨r, -, rfl⟩ := List.mem_map.mp hl
  exact isLine_lineText _

end Records

section Holds

variable {s : FileLedgerBackend} {rs : List Record}

/-- **All records are served in order.** -/
theorem Holds.iterRecords_eq (h : s.Holds rs) : s.iterRecords = .ok (rs.map Record.val) := by
  have hblank : (rs.map fun r => lineText r.val).filter nonblank = rs.map fun r => lineText r.val := by
    rw [List.filter_eq_self]
    intro l hl
    obtain ⟨r, -, rfl⟩ := List.mem_map.mp hl
    exact nonblank_lineText r.items
  rw [iterRecords, h.file_eq, decodeUtf8_of_utf8 (utf8_lines h.line_eq)]
  dsimp only
  rw [lines_text, hblank, mapM_eq_ok, List.forall₂_map_left_iff, List.forall₂_map_right_iff]
  exact List.forall₂_same.mpr fun r _ => loads_lineText r.isJson

/-- They are counted. -/
theorem Holds.size_eq (h : s.Holds rs) : s.size = rs.length := by
  rw [size, h.offsets_eq, Lines.length_offsets (nonblank_bytes h.line_eq), List.length_map]

/-- **Each is served at its index.** -/
theorem Holds.getRecord_eq (h : s.Holds rs) {i : Nat} {r : Record} (hr : rs[i]? = some r) :
    s.getRecord i = .ok r.val := by
  have hi : i < s.size := by
    rw [h.size_eq]
    exact (List.getElem?_eq_some_iff.mp hr).1
  obtain ⟨offset, hoffset⟩ : ∃ offset, s.offsets[i]? = some offset :=
    ⟨_, List.getElem?_eq_getElem hi⟩
  -- the line at the offset is the line of the record
  have hread : Lines.readLine 10 (s.file.drop offset) = r.bytes := by
    have hoffset' := hoffset
    rw [h.offsets_eq] at hoffset'
    have hline := Lines.readLine_drop_offsets (nonblank_bytes h.line_eq) (isLine_bytes h.line_eq)
      hoffset'
    rw [List.getElem?_map, hr, ← h.file_eq] at hline
    exact Option.some.inj hline
  rw [getRecord, if_pos (Int.natCast_nonneg i), Int.toNat_natCast, hoffset]
  dsimp only
  rw [hread]
  exact loadsBytes_utf8 r.isJson (h.line_eq r (List.mem_of_getElem? hr))

/-- **A ledger opened on the file** has the root of the leaf hashes stored in the records. -/
theorem Holds.openLedger_eq (h : s.Holds rs) (origin : Str)
    (retention : Option (Str → Except PyErr Str)) {leaves : List Bytes}
    (hleaves : (rs.map Record.val).mapM leafBytesFromRecord = .ok leaves) :
    s.openLedger origin retention
      = .ok { store := s, origin, retention, leaves, tree := .fromLeaves leaves } := by
  rw [openLedger, h.iterRecords_eq]
  exact bind_eq_ok.mpr ⟨_, rfl, bind_eq_ok.mpr ⟨leaves, hleaves, rfl⟩⟩

/-- A line more. -/
theorem Holds.append (h : s.Holds rs) {r : Record} {line : Bytes} (hline : r.line = some line) :
    (s.appendRecord r.val none).2.Holds (rs ++ [r]) := by
  have hbytes : r.bytes = line := by rw [Record.bytes, hline, Option.getD_some]
  have happend : (s.appendRecord r.val none).2
      = { file := s.file ++ line, offsets := s.offsets ++ [s.file.length] } := by
    rw [appendRecord, show utf8 (lineText r.val) = some line from hline]
  have hrs : ∀ r' ∈ rs ++ [r], r'.line = some r'.bytes := by
    intro r' hr'
    rcases List.mem_append.mp hr' with hmem | hmem
    · exact h.line_eq r' hmem
    · rw [List.mem_singleton.mp hmem, hbytes, hline]
  have hkeep := nonblank_bytes hrs
  rw [happend]
  refine ⟨hrs, ?_, ?_⟩
  · rw [h.file_eq, List.map_append, List.flatten_append, List.map_singleton, List.flatten_singleton,
      hbytes]
  · have hlast : nonblankBytes line = true :=
      hkeep line (List.mem_map.mpr ⟨r, List.mem_append_right rs List.mem_cons_self, hbytes⟩)
    dsimp only
    rw [h.offsets_eq, h.file_eq, List.map_append, Lines.offsets_append, List.map_singleton, hbytes,
      Lines.offsets, if_pos hlast, Lines.offsets, Nat.zero_add]

end Holds

/-- What is dropped is what follows the last newline. -/
theorem getD_healed (data : Bytes) : (healed data).getD data = Lines.dropTorn 10 data := by
  rw [healed]
  split
  · rfl
  · rename_i hwhole
    rw [Option.getD_none]
    by_cases hnil : data = []
    · rw [hnil]
      rfl
    · have hlast : data.getLast? = some 10 := by
        by_contra hne
        exact hwhole ⟨hnil, hne⟩
      exact (Lines.dropTorn_of_getLast? hlast).symm

/-- **Opening drops the torn line.** -/
theorem holds_init {rs : List Record} (hrs : ∀ r ∈ rs, r.line = some r.bytes) {torn : Bytes}
    (htorn : 10 ∉ torn) : (init (some ((rs.map Record.bytes).flatten ++ torn))).Holds rs := by
  have hlines := isLine_bytes hrs
  rw [init, getD_healed, Lines.dropTorn_flatten_append hlines htorn]
  exact ⟨hrs, rfl, by rw [indexOffsets, Lines.lines_flatten hlines]⟩

/-! ## Runs with crashes -/

/-- What happens to a directory. A process that dies is followed by one that opens it again. -/
inductive FileCall
  | append (r : Record)
  /-- The process dies when `k` bytes of the line are in the file. -/
  | crash (r : Record) (k : Nat)
  | reopen

/-- The backend after a call. -/
def step (s : FileLedgerBackend) : FileCall → FileLedgerBackend
  | .append r => (s.appendRecord r.val none).2
  | .crash r k => init (some (s.appendRecord r.val (some k)).2.file)
  | .reopen => init (some s.file)

/-- The backend after a sequence of calls. -/
def run (s : FileLedgerBackend) (calls : List FileCall) : FileLedgerBackend := calls.foldl step s

/-- The record whose line, the newline included, a call has completely written. -/
def FileCall.written : FileCall → List Record
  | .append r =>
    match r.line with
    | some _ => [r]
    | none => []
  | .crash r k =>
    match r.line with
    | some line => if line.length ≤ k then [r] else []
    | none => []
  | .reopen => []

/-- A line that is not there completely has no newline yet. -/
theorem newline_not_mem_take {r : Record} {line : Bytes} (hline : r.line = some line) {k : Nat}
    (hk : k < line.length) : 10 ∉ line.take k := by
  obtain ⟨body, hbody, rfl⟩ := isLine_utf8 hline
  rw [List.length_append, List.length_singleton] at hk
  rw [List.take_append_of_le_length (by omega)]
  exact fun hmem => hbody (List.mem_of_mem_take hmem)

/-- **Every call serves what it has completely written**, and what was there before. -/
theorem Holds.step {s : FileLedgerBackend} {rs : List Record} (h : s.Holds rs) (call : FileCall) :
    (s.step call).Holds (rs ++ call.written) := by
  have hreopen : (init (some s.file)).Holds rs := by
    have hinit := holds_init h.line_eq (List.not_mem_nil)
    rwa [List.append_nil, ← h.file_eq] at hinit
  cases call with
  | append r =>
      rw [FileLedgerBackend.step, FileCall.written]
      cases hline : r.line with
      | some line => exact h.append hline
      | none =>
          -- the encoder refuses the record before the file is written
          rw [appendRecord, show utf8 (lineText r.val) = none from hline]
          simpa using h
  | crash r k =>
      rw [FileLedgerBackend.step, FileCall.written]
      cases hline : r.line with
      | none =>
          rw [appendRecord, show utf8 (lineText r.val) = none from hline]
          simpa using hreopen
      | some line =>
          rw [appendRecord, show utf8 (lineText r.val) = some line from hline]
          dsimp only
          split
          · -- all bytes are there: the record survives the crash
            rename_i hk
            have happend := h.append hline
            have hwhole := holds_init happend.line_eq (List.not_mem_nil)
            rw [List.append_nil, ← happend.file_eq, appendRecord,
              show utf8 (lineText r.val) = some line from hline] at hwhole
            rwa [List.take_of_length_le hk]
          · rename_i hk
            have htorn := holds_init h.line_eq (newline_not_mem_take hline (not_le.mp hk))
            rw [← h.file_eq] at htorn
            rwa [List.append_nil]
  | reopen =>
      rw [FileLedgerBackend.step, FileCall.written, List.append_nil]
      exact hreopen

/-- A new directory. -/
theorem holds_init_none : (init none).Holds [] := by
  refine ⟨?_, rfl, rfl⟩
  intro r hr
  cases hr

/-- **Every run serves what its calls have completely written.** -/
theorem Holds.run {s : FileLedgerBackend} {rs : List Record} (h : s.Holds rs) (calls : List FileCall) :
    (s.run calls).Holds (rs ++ calls.flatMap FileCall.written) := by
  induction calls generalizing s rs with
  | nil =>
      rw [List.flatMap_nil, List.append_nil]
      exact h
  | cons call calls ih =>
      have hrest := ih (h.step call)
      rwa [List.append_assoc, ← List.flatMap_cons] at hrest

/-- **A file ledger survives a crash in any append.** After any appends, crashes in the middle of an
append and reopenings of a new directory, the records served in order, by index, and counted are those
whose line was completely written, and a ledger opened on the directory has the tree hash of the leaf
hashes stored in them as its root. -/
theorem run_records (calls : List FileCall) :
    let s := (init none).run calls
    let rs := calls.flatMap FileCall.written
    s.iterRecords = .ok (rs.map Record.val) ∧ s.size = rs.length ∧
      (∀ (i : Nat) (r : Record), rs[i]? = some r → s.getRecord i = .ok r.val) ∧
      ∀ origin retention leaves, (rs.map Record.val).mapM leafBytesFromRecord = .ok leaves →
        ∃ l, s.openLedger origin retention = .ok l ∧ l.leaves = leaves ∧ l.root = treeHash leaves := by
  intro s rs
  have h : s.Holds rs := holds_init_none.run calls
  refine ⟨h.iterRecords_eq, h.size_eq, fun i r hr => h.getRecord_eq hr, ?_⟩
  intro origin retention leaves hleaves
  refine ⟨_, h.openLedger_eq origin retention hleaves, rfl, ?_⟩
  exact (IncrementalMerkleTree.represents_fromLeaves leaves).root_eq

/-! ## Crashes while a torn line is dropped -/

/-- How far an opening that crashes has come: the file is not truncated yet, or it is and `j` bytes are
written again. -/
inductive OpenCrash
  | before
  | writing (j : Nat)

/-- The file after an opening that crashes. -/
def crashedOpen (data : Bytes) : OpenCrash → Bytes
  | .before => data
  | .writing j =>
    match healed data with
    | some whole => whole.take j
    | none => data

/-- The file after openings that crash one after the other. -/
def crashedOpens (data : Bytes) (crashes : List OpenCrash) : Bytes := crashes.foldl crashedOpen data

/-- The crash comes before the file is truncated, there is no torn line to drop, or all whole lines
are written again. -/
def Survives (data : Bytes) : OpenCrash → Prop
  | .before => True
  | .writing j => data = [] ∨ data.getLast? = some 10 ∨ (Lines.dropTorn 10 data).length ≤ j

/-- Every crash comes at such a point. -/
def AllSurvive (data : Bytes) : List OpenCrash → Prop
  | [] => True
  | crash :: crashes => Survives data crash ∧ AllSurvive (crashedOpen data crash) crashes

/-- The first bytes of whole lines have whole lines of those, and all of them only if nothing is
missing. -/
theorem wholeLines_take {ls : List Bytes} (hls : ∀ l ∈ ls, Lines.IsLine 10 l) (j : Nat) :
    Lines.wholeLines 10 (ls.flatten.take j) <+: ls ∧
      (Lines.wholeLines 10 (ls.flatten.take j) = ls ↔ ls.flatten.length ≤ j) := by
  obtain ⟨ms, t, hms, ht, htake⟩ := Lines.exists_whole_append_torn 10 (ls.flatten.take j)
  have hsplit : ms ++ Lines.lines 10 (t ++ ls.flatten.drop j) = ls := by
    rw [← Lines.lines_flatten_append hms, ← List.append_assoc, ← htake, List.take_append_drop,
      Lines.lines_flatten hls]
  rw [htake, Lines.wholeLines_flatten_append hms ht]
  refine ⟨⟨_, hsplit⟩, fun heq => ?_, fun hle => ?_⟩
  · -- all lines are among the first bytes
    rw [heq] at htake
    have hlen := congrArg List.length htake
    rw [List.length_take, List.length_append] at hlen
    omega
  · rw [List.take_of_length_le hle] at htake
    have hwhole := Lines.wholeLines_flatten_append hms ht
    rw [← htake] at hwhole
    have hall := Lines.wholeLines_flatten_append hls (List.not_mem_nil)
    rw [List.append_nil] at hall
    exact hwhole.symm.trans hall

/-- A crash leaves the first whole lines, and all of them exactly where it is survived. -/
theorem wholeLines_crashedOpen (data : Bytes) (crash : OpenCrash) :
    Lines.wholeLines 10 (crashedOpen data crash) <+: Lines.wholeLines 10 data ∧
      (Lines.wholeLines 10 (crashedOpen data crash) = Lines.wholeLines 10 data ↔
        Survives data crash) := by
  cases crash with
  | before => exact ⟨List.prefix_refl _, fun _ => trivial, fun _ => rfl⟩
  | writing j =>
      rw [crashedOpen, Survives, healed]
      split
      · rename_i whole hwhole
        split at hwhole
        -- a torn line follows the whole ones: the crash may have cut these too
        · rename_i htorn
          obtain ⟨ls, t, hls, ht, rfl⟩ := Lines.exists_whole_append_torn 10 data
          rw [Lines.dropTorn_flatten_append hls ht, Option.some.injEq] at hwhole
          obtain ⟨hpre, hiff⟩ := wholeLines_take hls j
          rw [← hwhole, Lines.wholeLines_flatten_append hls ht, hiff,
            Lines.dropTorn_flatten_append hls ht]
          refine ⟨hpre, fun hle => Or.inr (Or.inr hle), ?_⟩
          rintro (hnil | hlast | hle)
          · exact absurd hnil htorn.1
          · exact absurd hlast htorn.2
          · exact hle
        · cases hwhole
      · rename_i hwhole
        split at hwhole
        · cases hwhole
        -- nothing is torn, so nothing is written and nothing can be lost
        · rename_i htorn
          refine ⟨List.prefix_refl _, fun _ => ?_, fun _ => rfl⟩
          by_cases hnil : data = []
          · exact Or.inl hnil
          · refine Or.inr (Or.inl ?_)
            by_contra hlast
            exact htorn ⟨hnil, hlast⟩

/-- Crashes leave the first whole lines, and all of them exactly where each is survived. -/
theorem wholeLines_crashedOpens (data : Bytes) (crashes : List OpenCrash) :
    Lines.wholeLines 10 (crashedOpens data crashes) <+: Lines.wholeLines 10 data ∧
      (Lines.wholeLines 10 (crashedOpens data crashes) = Lines.wholeLines 10 data ↔
        AllSurvive data crashes) := by
  induction crashes generalizing data with
  | nil => exact ⟨List.prefix_refl _, fun _ => trivial, fun _ => rfl⟩
  | cons crash crashes ih =>
      obtain ⟨hpre, hiff⟩ := wholeLines_crashedOpen data crash
      obtain ⟨hpre', hiff'⟩ := ih (crashedOpen data crash)
      refine ⟨hpre'.trans hpre, fun heq => ?_, fun h => ?_⟩
      · -- no line that a crash has lost comes back
        have hsame : Lines.wholeLines 10 (crashedOpen data crash) = Lines.wholeLines 10 data :=
          hpre.eq_of_length_le (heq ▸ hpre'.length_le)
        exact ⟨hiff.mp hsame, hiff'.mp (heq.trans hsame.symm)⟩
      · exact (hiff'.mpr h.2).trans (hiff.mpr h.1)

/-- Opening keeps all whole lines. -/
theorem wholeLines_init (data : Bytes) :
    Lines.wholeLines 10 (init (some data)).file = Lines.wholeLines 10 data := by
  obtain ⟨ls, t, hls, ht, rfl⟩ := Lines.exists_whole_append_torn 10 data
  have hall := Lines.wholeLines_flatten_append hls (List.not_mem_nil)
  rw [List.append_nil] at hall
  rw [init, getD_healed, Lines.dropTorn_flatten_append hls ht, hall,
    Lines.wholeLines_flatten_append hls ht]

/-- **When healing a torn tail loses no record.** Of any content of the file, after any openings that
crash, the next successful opening still has every whole line exactly where each crash comes before
the file is truncated, or after all whole lines are written again, or there is no torn line. -/
theorem wholeLines_opens (data : Bytes) (crashes : List OpenCrash) :
    (Lines.wholeLines 10 data).Sublist
        (Lines.wholeLines 10 (init (some (crashedOpens data crashes))).file) ↔
      AllSurvive data crashes := by
  obtain ⟨hpre, hiff⟩ := wholeLines_crashedOpens data crashes
  rw [wholeLines_init, ← hiff]
  constructor
  · intro hsub
    exact hpre.eq_of_length_le hsub.length_le
  · intro heq
    rw [heq]

/-- A crash right after the truncation loses the one record of the file. -/
theorem wholeLines_opens_not :
    ¬(Lines.wholeLines 10 ([123, 125, 10, 123] : Bytes)).Sublist
      (Lines.wholeLines 10 (init (some (crashedOpens [123, 125, 10, 123] [.writing 0]))).file) := by
  decide

end FileLedgerBackend

end OpenWright
