import OpenWright.Python.Text
import Mathlib.Order.Basic

/-! # The SQL backend with several writers

Backends on one table. The database assigns every inserted row a larger `idx`; each backend keeps its
own list from positions to assigned `idx`, extends it by what its own inserts return, and loads it
again where a position is past its end. The statements of the methods of all backends interleave
freely, and so does what the methods do to the lists.

* **`runSql_records`** — where a backend extends a list that covers all earlier rows, every position is
  read as the iteration has it. -/

namespace OpenWright

open Python

/-! ## The table -/

/-- A row of the table. -/
structure Row where
  idx : Nat
  record : Str

/-- The table, its rows in the order of `idx`. -/
structure Table where
  rows : List Row
  sorted : rows.Pairwise fun r r' => r.idx < r'.idx

namespace Table

/-- `SELECT idx … ORDER BY idx`. -/
def idxs (t : Table) : List Nat := t.rows.map Row.idx

/-- The `idx` the database assigns next; `gap` is what it skips. -/
def nextIdx (t : Table) (gap : Nat) : Nat := (t.idxs.getLast?.getD 0) + 1 + gap

/-- The assigned `idx` are strictly increasing. -/
theorem sorted_idxs (t : Table) : t.idxs.Pairwise (· < ·) :=
  List.pairwise_map.mpr t.sorted

/-- The next `idx` is larger than those of all rows. -/
theorem lt_nextIdx (t : Table) (gap : Nat) : ∀ idx ∈ t.idxs, idx < t.nextIdx gap := by
  intro idx hidx
  have hsorted := t.sorted_idxs
  rw [nextIdx]
  rcases List.eq_nil_or_concat' t.idxs with hnil | ⟨before, last, hlast⟩
  · rw [hnil] at hidx
    cases hidx
  · rw [hlast] at hidx hsorted ⊢
    rw [List.getLast?_concat, Option.getD_some]
    rcases List.mem_append.mp hidx with hmem | hmem
    · have hlt := (List.pairwise_append.mp hsorted).2.2 idx hmem last List.mem_cons_self
      omega
    · rw [List.mem_singleton.mp hmem]
      omega

/-- `INSERT`. -/
def insert (t : Table) (record : Str) (gap : Nat) : Table where
  rows := t.rows ++ [{ idx := t.nextIdx gap, record }]
  sorted := by
    rw [List.pairwise_append]
    refine ⟨t.sorted, List.pairwise_singleton _ _, ?_⟩
    intro r hr r' hr'
    rw [List.mem_singleton.mp hr']
    exact t.lt_nextIdx gap r.idx (List.mem_map_of_mem hr)

/-- `SELECT record … WHERE idx = ?`. -/
def select (t : Table) (idx : Nat) : Option Str :=
  (t.rows.find? fun r => r.idx = idx).map Row.record

/-- What an insert adds to the list. -/
theorem idxs_insert (t : Table) (record : Str) (gap : Nat) :
    (t.insert record gap).idxs = t.idxs ++ [t.nextIdx gap] := by
  rw [idxs, insert, List.map_append, List.map_singleton, ← idxs]

end Table

/-! ## The backend -/

/-- `SqlLedgerBackend`: the list `_idx`, what inserts have returned that is still to be appended to it,
and what has been loaded that is still to be assigned to it. -/
structure SqlLedgerBackend where
  idx : List Nat
  inserted : List Nat := []
  loaded : List (List Nat) := []
deriving DecidableEq

/-- The table and the backends on it. -/
structure SqlSystem where
  table : Table
  backends : List SqlLedgerBackend := []

namespace SqlLedgerBackend

/-- `size`. -/
def size (table : Table) : Nat := table.rows.length

/-- `iter_records`: what each step of the iteration yields or raises. -/
def iterRecords (table : Table) : List (Except PyErr Val) := table.rows.map fun r => loads r.record

/-- `get_record`, and the list after it. -/
def getRecord (table : Table) (cache : List Nat) (index : Int) : Except PyErr Val × List Nat :=
  let indexError : PyErr := { kind := .indexError, msg := [.str (.int index)] }
  if index < 0 then (.error indexError, cache)
  else
    -- a concurrent writer may have advanced
    let cache := if index ≥ cache.length then table.idxs else cache
    match cache[index.toNat]? with
    | none => (.error indexError, cache)
    | some idx =>
      match table.select idx with
      | none => (.error indexError, cache)
      | some record => (loads record, cache)

end SqlLedgerBackend

namespace SqlSystem

open SqlLedgerBackend

/-- An atomic step. Backends are named by their position, and so is what is under way in one. -/
inductive SqlStep
  /-- `__init__`. -/
  | init
  /-- The `INSERT` of `append_record`. -/
  | insert (b : Nat) (record : Val) (gap : Nat)
  /-- `_idx.append` of `append_record`. -/
  | extend (b k : Nat)
  /-- The `SELECT` of `_load_idx` in `get_record`. -/
  | load (b : Nat) (index : Nat)
  /-- The assignment to `_idx` in `get_record`. -/
  | assign (b k : Nat)

/-- Change a backend. -/
def update (s : SqlSystem) (b : Nat) (f : SqlLedgerBackend → SqlLedgerBackend) : SqlSystem :=
  { s with backends := s.backends.modify b f }

/-- What a step does; a step that is not due does nothing. -/
def step (s : SqlSystem) : SqlStep → SqlSystem
  | .init => { s with backends := s.backends ++ [{ idx := s.table.idxs }] }
  -- the insert commits by itself, and a number may be left out before it
  | .insert b record gap =>
    let payload := Json.dumps record
    if b < s.backends.length ∧ (utf8 payload).isSome then
      let s' := s.update b fun backend =>
        { backend with inserted := backend.inserted ++ [s.table.nextIdx gap] }
      { s' with table := s.table.insert payload gap }
    else s
  -- the in-memory index is extended after the insert, without a lock between the two
  | .extend b k => s.update b fun backend =>
    match backend.inserted[k]? with
    | some idx =>
      { backend with idx := backend.idx ++ [idx], inserted := backend.inserted.eraseIdx k }
    | none => backend
  | .load b index => s.update b fun backend =>
    -- a read past its index loads all of them again, and assigns them later
    if index ≥ backend.idx.length then
      { backend with loaded := backend.loaded ++ [s.table.idxs] }
    else backend
  | .assign b k => s.update b fun backend =>
    match backend.loaded[k]? with
    | some idxs => { backend with idx := idxs, loaded := backend.loaded.eraseIdx k }
    | none => backend

/-- A run. -/
def runSql (s : SqlSystem) (steps : List SqlStep) : SqlSystem := steps.foldl step s

/-- A step extends a list that does not cover exactly the rows before the inserted one. -/
def Stale (s : SqlSystem) : SqlStep → Prop
  | .extend b k => ∃ backend idx, s.backends[b]? = some backend ∧ backend.inserted[k]? = some idx ∧
      backend.idx ≠ s.table.idxs.filter (· < idx)
  | _ => False

/-- No step of the run extends such a list. -/
def Fresh (s : SqlSystem) : List SqlStep → Prop
  | [] => True
  | a :: steps => ¬Stale s a ∧ Fresh (step s a) steps

/-! ## What a covering list reads -/

/-- The row at a position is found by its `idx`. -/
theorem select_getElem (t : Table) {i : Nat} {r : Row} (hr : t.rows[i]? = some r) :
    t.select r.idx = some r.record := by
  have hfind : t.rows.find? (fun r' => r'.idx = r.idx) = some r := by
    rw [List.find?_eq_some_iff_getElem]
    obtain ⟨hi, rfl⟩ := List.getElem?_eq_some_iff.mp hr
    refine ⟨by simp, i, hi, rfl, ?_⟩
    intro j hj
    -- the rows before it have smaller ones
    have hlt := List.pairwise_iff_getElem.mp t.sorted j i (by omega) hi hj
    simp only [Bool.not_eq_eq_eq_not, Bool.not_true, decide_eq_false_iff_not]
    omega
  rw [Table.select, hfind]
  rfl

/-- **A list that covers the first rows reads every position** as the iteration has it. -/
theorem getRecord_prefix_eq {t : Table} {cache : List Nat} (h : cache <+: t.idxs) {i : Nat}
    (hi : i < size t) : (iterRecords t)[i]? = some (getRecord t cache i).1 := by
  have hr : t.rows[i]? = some t.rows[i] := List.getElem?_eq_getElem hi
  generalize t.rows[i] = r at hr
  have hidx : t.idxs[i]? = some r.idx := by rw [Table.idxs, List.getElem?_map, hr]; rfl
  have hcache : (if (i : Int) ≥ cache.length then t.idxs else cache)[i]? = some r.idx := by
    split
    · exact hidx
    · rename_i hlt
      obtain ⟨rest, hrest⟩ := h
      rw [← hrest, List.getElem?_append_left (by omega)] at hidx
      exact hidx
  rw [iterRecords, List.getElem?_map, hr, getRecord, if_neg (by omega)]
  dsimp only
  rw [Int.toNat_natCast, hcache]
  dsimp only
  rw [select_getElem t hr]
  rfl

/-! ## What holds in every run -/

/-- A backend covers the first rows: with its list, with what it is about to append to it, and with
what it is about to assign to it. -/
structure Covers (t : Table) (backend : SqlLedgerBackend) : Prop where
  idx : backend.idx <+: t.idxs
  inserted : ∀ i ∈ backend.inserted, i ∈ t.idxs
  loaded : ∀ idxs ∈ backend.loaded, idxs <+: t.idxs

/-- It still does when the table grows. -/
theorem Covers.mono {t t' : Table} {backend : SqlLedgerBackend} (h : Covers t backend)
    (hgrow : t.idxs <+: t'.idxs) : Covers t' backend :=
  ⟨h.idx.trans hgrow, fun i hi => hgrow.subset (h.inserted i hi),
    fun idxs hidxs => (h.loaded idxs hidxs).trans hgrow⟩

/-- Inserting lets the table grow. -/
theorem idxs_prefix_insert (t : Table) (record : Str) (gap : Nat) :
    t.idxs <+: (t.insert record gap).idxs := by
  rw [t.idxs_insert]
  exact List.prefix_append _ _

/-- Of strictly increasing numbers, those before one and the one itself come first. -/
theorem filter_lt_concat_prefix {xs : List Nat} (hsorted : xs.Pairwise (· < ·)) {x : Nat} (hx : x ∈ xs) :
    xs.filter (· < x) ++ [x] <+: xs := by
  obtain ⟨before, after, rfl⟩ := List.append_of_mem hx
  obtain ⟨-, hafter, hbefore⟩ := List.pairwise_append.mp hsorted
  have hleft : before.filter (· < x) = before := by
    rw [List.filter_eq_self]
    intro y hy
    exact decide_eq_true (hbefore y hy x List.mem_cons_self)
  have hright : (x :: after).filter (· < x) = [] := by
    rw [List.filter_eq_nil_iff]
    intro y hy
    rw [decide_eq_true_eq]
    rcases List.mem_cons.mp hy with rfl | hmem
    · exact Nat.lt_irrefl y
    · exact Nat.not_lt_of_lt ((List.pairwise_cons.mp hafter).1 y hmem)
  rw [List.filter_append, hleft, hright, List.append_nil]
  exact ⟨after, by rw [List.append_assoc, List.singleton_append]⟩

/-- All backends cover the first rows. -/
def AllCover (s : SqlSystem) : Prop :=
  ∀ (b : Nat) backend, s.backends[b]? = some backend → Covers s.table backend

/-- A change of one backend is checked on that backend. -/
theorem AllCover.update {s : SqlSystem} (h : AllCover s) (b : Nat)
    {f : SqlLedgerBackend → SqlLedgerBackend}
    (hf : ∀ backend, s.backends[b]? = some backend → Covers s.table (f backend)) :
    AllCover (s.update b f) := by
  intro b' backend' hbackend'
  rw [SqlSystem.update, List.getElem?_modify] at hbackend'
  obtain ⟨backend, hbackend, rfl⟩ := Option.map_eq_some_iff.mp hbackend'
  split
  · rename_i heq
    exact hf backend (heq ▸ hbackend)
  · exact h b' backend hbackend

/-- **Every step that extends no stale list** leaves the backends covering the first rows. -/
theorem AllCover.step {s : SqlSystem} (h : AllCover s) {a : SqlStep} (hfresh : ¬Stale s a) :
    AllCover (step s a) := by
  cases a with
  | init =>
      intro b backend hbackend
      rw [SqlSystem.step] at hbackend ⊢
      rcases Nat.lt_trichotomy b s.backends.length with hlt | rfl | hgt
      · rw [List.getElem?_append_left hlt] at hbackend
        exact h b backend hbackend
      · rw [List.getElem?_concat_length, Option.some.injEq] at hbackend
        rw [← hbackend]
        exact ⟨List.prefix_refl _, by simp, by simp⟩
      · rw [List.getElem?_eq_none (by rw [List.length_append]; exact hgt)] at hbackend
        cases hbackend
  | insert b record gap =>
      rw [SqlSystem.step]
      split
      · have hgrow := idxs_prefix_insert s.table (Json.dumps record) gap
        intro b' backend' hbackend'
        rw [SqlSystem.update, List.getElem?_modify] at hbackend'
        obtain ⟨backend, hbackend, rfl⟩ := Option.map_eq_some_iff.mp hbackend'
        have hcovers := (h b' backend hbackend).mono hgrow
        dsimp only
        split
        · -- the new row is in the table now
          refine ⟨hcovers.idx, ?_, hcovers.loaded⟩
          intro i hi
          rcases List.mem_append.mp hi with hmem | hmem
          · exact hcovers.inserted i hmem
          · rw [List.mem_singleton.mp hmem, s.table.idxs_insert]
            exact List.mem_append_right _ List.mem_cons_self
        · exact hcovers
      · exact h
  | extend b k =>
      refine h.update b fun backend hbackend => ?_
      have hcovers := h b backend hbackend
      split
      · rename_i idx hidx
        refine ⟨?_, fun i hi => hcovers.inserted i (List.mem_of_mem_eraseIdx hi), hcovers.loaded⟩
        -- the list covers exactly the rows before the inserted one
        have hlist : backend.idx = s.table.idxs.filter (· < idx) := by
          by_contra hne
          exact hfresh ⟨backend, idx, hbackend, hidx, hne⟩
        dsimp only
        rw [hlist]
        exact filter_lt_concat_prefix s.table.sorted_idxs
          (hcovers.inserted idx (List.mem_of_getElem? hidx))
      · exact hcovers
  | load b index =>
      refine h.update b fun backend hbackend => ?_
      have hcovers := h b backend hbackend
      split
      · refine ⟨hcovers.idx, hcovers.inserted, ?_⟩
        intro idxs hidxs
        rcases List.mem_append.mp hidxs with hmem | hmem
        · exact hcovers.loaded idxs hmem
        · have heq := List.mem_singleton.mp hmem
          exact heq ▸ List.prefix_refl idxs
      · exact hcovers
  | assign b k =>
      refine h.update b fun backend hbackend => ?_
      have hcovers := h b backend hbackend
      split
      · rename_i idxs hidxs
        exact ⟨hcovers.loaded idxs (List.mem_of_getElem? hidxs), hcovers.inserted,
          fun l hl => hcovers.loaded l (List.mem_of_mem_eraseIdx hl)⟩
      · exact hcovers

/-- **Every run that extends no stale list** leaves the backends covering the first rows. -/
theorem AllCover.run {s : SqlSystem} (h : AllCover s) {steps : List SqlStep} (hfresh : Fresh s steps) :
    AllCover (runSql s steps) := by
  induction steps generalizing s with
  | nil => exact h
  | cons a steps ih => exact ih (h.step hfresh.1) hfresh.2

/-- **Positional reads agree with the log order** in every state of every run, on any table, in which
each backend that extends its list by what an insert returned has exactly the rows before it there. -/
theorem runSql_records (table : Table) (steps : List SqlStep) (hfresh : Fresh { table } steps) :
    let s := runSql { table } steps
    ∀ (b : Nat) backend, s.backends[b]? = some backend → ∀ i < size s.table,
      (iterRecords s.table)[i]? = some (getRecord s.table backend.idx i).1 := by
  have hstart : AllCover { table } := by
    intro b backend hbackend
    cases hbackend
  intro s b backend hbackend i hi
  exact getRecord_prefix_eq ((hstart.run hfresh) b backend hbackend).idx hi

/-- An empty table. -/
def sampleTable : Table where
  rows := []
  sorted := List.Pairwise.nil

/-- Two backends; the second loads its list again before it inserts. -/
def sampleFresh : List SqlStep :=
  [.init, .init, .insert 0 (.int 1) 0, .extend 0 0, .load 1 0, .assign 1 0, .insert 1 (.int 2) 3,
    .extend 1 0]

/-- Two backends; the second inserts without having seen the row of the first. -/
def sampleStale : List SqlStep :=
  [.init, .init, .insert 0 (.int 1) 0, .extend 0 0, .insert 1 (.int 2) 0, .extend 1 0]

/-- A list that covers exactly the rows before the inserted one is not stale. -/
theorem not_stale_extend {s : SqlSystem} {b k : Nat} {backend : SqlLedgerBackend} {idx : Nat}
    (hbackend : s.backends[b]? = some backend) (hidx : backend.inserted[k]? = some idx)
    (hlist : backend.idx = s.table.idxs.filter (· < idx)) : ¬Stale s (.extend b k) := by
  rintro ⟨backend', idx', hbackend', hidx', hne⟩
  rw [hbackend, Option.some.injEq] at hbackend'
  subst hbackend'
  rw [hidx, Option.some.injEq] at hidx'
  subst hidx'
  exact hne hlist

/-- The sample run in which no list is stale. -/
theorem runSql_records_sample :
    let s := runSql { table := sampleTable } sampleFresh
    ∀ (b : Nat) backend, s.backends[b]? = some backend → ∀ i < size s.table,
      (iterRecords s.table)[i]? = some (getRecord s.table backend.idx i).1 := by
  apply runSql_records
  refine ⟨id, id, id, ?_, id, id, id, ?_, trivial⟩
  · exact @not_stale_extend _ 0 0 { idx := [], inserted := [1] } 1 (by decide +kernel) rfl
      (by decide +kernel)
  · exact @not_stale_extend _ 1 0 { idx := [1], inserted := [5] } 5 (by decide +kernel) rfl
      (by decide +kernel)

/-- In the other run the second backend reads its own record at position zero. -/
theorem runSql_not_records :
    let s := runSql { table := sampleTable } sampleStale
    s.backends[1]? = some { idx := [2] } ∧ 0 < size s.table ∧
      (getRecord s.table [2] 0).1 = .ok (.int 2) ∧
      (iterRecords s.table)[0]? = some (.ok (.int 1)) := by
  decide +kernel

end SqlSystem

end OpenWright
