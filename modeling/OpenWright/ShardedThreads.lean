import OpenWright.ShardedLedger
import OpenWright.Witness

/-! # Checkpoints of a sharded ledger under concurrent commits

The shards are committed to by any number of writers while checkpoints of the whole are taken. A
checkpoint reads the size of a shard and its root in two steps, each under the lock of the shard, so
that commits to any shard may come in between; then it signs what it read.

* **`runSharded_consistent`** — where no commit to a shard comes between the two readings of it, every
  checkpoint is consistent and its proofs verify, however the shards have grown.
* **`superCheckpoints_not_consistent`** — checkpoints of different sizes have no consistency proof.
* **`checkpoint_not_pinning`** — the sizes a checkpoint lists are not bound by its signature. -/

namespace OpenWright

open Hash Python Merkle Signing

namespace ShardedThreads

open Ledger ShardedLedger

variable {σ : Type} (B : LedgerBackend σ)

/-! ## The system -/

/-- A checkpoint under way: what it has read of the first shards, and the size of the next one where
it has read that and not yet the root. -/
structure Reading where
  snap : List (Nat × Bytes) := []
  pending : Option Nat := none

/-- The ledger, the checkpoints under way, and the checkpoints that have been returned. -/
structure System (σ : Type) where
  ledger : ShardedLedger σ
  reading : List Reading := []
  checkpoints : List Checkpoint := []

/-- One atomic step. Checkpoints under way are named by their position. -/
inductive Step
  | commit (event : ComplianceEvent) (shard : Option Int) (clock : Except PyErr Str)
  | checkpointBegin
  | readSize (k : Nat)
  | readRoot (k : Nat)
  | sign (k : Nat) (key : KeySource) (timestamp : Option Str) (clock : Except PyErr Str)

/-- What a step does; a step that is not due does nothing. -/
def step (s : System σ) : Step → System σ
  | .commit event shard clock => { s with ledger := (s.ledger.commit B event shard clock).2 }
  | .checkpointBegin => { s with reading := s.reading ++ [{}] }
  | .readSize k =>
    match s.reading[k]? with
    | some { snap, pending := none } =>
      -- the two reads of a shard are two calls, each with the lock of that shard
      match s.ledger.shards[snap.length]? with
      | some shard =>
        { s with reading := s.reading.set k { snap, pending := some shard.leaves.length } }
      | none => s
    | _ => s
  | .readRoot k =>
    match s.reading[k]? with
    | some { snap, pending := some size } =>
      match s.ledger.shards[snap.length]? with
      | some shard => { s with reading := s.reading.set k { snap := snap ++ [(size, shard.root)] } }
      | none => s
    | _ => s
  | .sign k key timestamp clock =>
    match s.reading[k]? with
    | some { snap, pending := none } =>
      -- signed when every shard has been read
      if snap.length = s.ledger.shards.length then
        match signSnap s.ledger.origin key timestamp clock snap with
        | .ok cp =>
          { s with reading := s.reading.eraseIdx k, checkpoints := s.checkpoints ++ [cp] }
        | .error _ => { s with reading := s.reading.eraseIdx k }
      else s
    | _ => s

/-- A run. -/
def runSharded (s : System σ) (steps : List Step) : System σ := steps.foldl (step B) s

/-- A state from which runs start: ledgers that any sequence of calls has produced from an empty
backend, and no checkpoint under way. -/
structure Start (s : System σ) : Prop where
  opened : ∀ shard ∈ s.ledger.shards, ∃ store origin retention l₀ calls, B.records store = [] ∧
    Ledger.init B store origin retention = .ok l₀ ∧ shard = Ledger.run B l₀ calls
  reading_eq : s.reading = []
  checkpoints_eq : s.checkpoints = []

/-! ## Growth -/

/-- One ledger has the shards of another, at most with more leaves. -/
def Grows (l l' : ShardedLedger σ) : Prop :=
  List.Forall₂ (fun shard shard' => shard.leaves <+: shard'.leaves) l.shards l'.shards

/-- A ledger grows by nothing, -/
theorem Grows.refl (l : ShardedLedger σ) : Grows l l :=
  List.forall₂_same.mpr fun shard _ => List.prefix_refl shard.leaves

/-- and keeps its shards. -/
theorem Grows.length_eq {l l' : ShardedLedger σ} (h : Grows l l') :
    l.shards.length = l'.shards.length :=
  List.Forall₂.length_eq h

/-- A shard is still there when the ledger has grown. -/
theorem Grows.getElem? {l l' : ShardedLedger σ} (h : Grows l l') {j : Nat} {shard : Ledger σ}
    (hj : l.shards[j]? = some shard) :
    ∃ shard', l'.shards[j]? = some shard' ∧ shard.leaves <+: shard'.leaves := by
  obtain ⟨hlt, rfl⟩ := List.getElem?_eq_some_iff.mp hj
  have hlt' : j < l'.shards.length := h.length_eq ▸ hlt
  exact ⟨_, List.getElem?_eq_getElem hlt', h.get hlt hlt'⟩

/-- **What a commit does**: nothing, or a commit of the shard it is routed to. -/
theorem commit_cases (l : ShardedLedger σ) (event : ComplianceEvent) (shard : Option Int)
    (clock : Except PyErr Str) :
    (l.commit B event shard clock).2 = l ∨
      ∃ i k, l.shardFor event shard = .ok (i, k) ∧
        (l.commit B event shard clock).2
          = l.setShard k (Ledger.commit B (l.shards.get k) event clock).2 := by
  rw [ShardedLedger.commit]
  cases hshard : l.shardFor event shard with
  | error err => exact Or.inl rfl
  | ok route => exact Or.inr ⟨route.1, route.2, rfl, rfl⟩

/-- A commit of a shard only appends leaves. -/
theorem leaves_prefix_commit (l : Ledger σ) (event : ComplianceEvent) (clock : Except PyErr Str) :
    l.leaves <+: (Ledger.commit B l event clock).2.leaves := by
  rcases Ledger.commit_cases B l event clock with ⟨err, hcommit⟩ | ⟨p, -, hcommit⟩
  · simpa only [hcommit] using List.prefix_refl l.leaves
  · rw [hcommit]
    exact LedgerThreads.leaves_prefix_commitLocked B l p

/-- A commit only appends leaves. -/
theorem grows_commit (l : ShardedLedger σ) (event : ComplianceEvent) (shard : Option Int)
    (clock : Except PyErr Str) : Grows l (l.commit B event shard clock).2 := by
  rcases commit_cases B l event shard clock with hsame | ⟨i, k, -, hcommit⟩
  · rw [hsame]
    exact Grows.refl l
  · rw [hcommit, Grows, ShardedLedger.setShard, List.forall₂_iff_get]
    refine ⟨(List.length_set).symm, fun j hj hj' => ?_⟩
    rw [List.get_eq_getElem, List.get_eq_getElem, List.getElem_set]
    split
    · rename_i heq
      subst heq
      exact leaves_prefix_commit B _ event clock
    · exact List.prefix_refl _

/-! ## What holds in every run -/

/-- A checkpoint lists a snapshot and signs its super-root. -/
structure Lists (cp : Checkpoint) (snap : List (Nat × Bytes)) : Prop where
  shards : shardsField cp = .ok (listing snap)
  treeSize : cp.treeSize = (snap.map Prod.fst).sum
  rootHash : cp.rootHash = hex (shardSuperRoot (snap.map Prod.snd))

/-- What is signed is what was read. -/
theorem lists_of_signSnap {origin : Str} {key : KeySource} {timestamp : Option Str}
    {clock : Except PyErr Str} {snap : List (Nat × Bytes)} {cp : Checkpoint}
    (h : signSnap origin key timestamp clock snap = .ok cp) : Lists cp snap := by
  rw [signSnap] at h
  obtain ⟨_, -, h⟩ := bind_eq_ok.mp h
  obtain ⟨c, hc, h⟩ := bind_eq_ok.mp h
  obtain ⟨-, hsize, hroot, -⟩ := signCheckpoint_eq_ok hc
  rw [← pure_eq_ok.mp h]
  exact ⟨rfl, hsize, hroot⟩

/-- What holds in every state of every run. -/
structure SystemInv (s : System σ) : Prop where
  shards : ∀ shard ∈ s.ledger.shards, Inv B shard
  checkpoints : ∀ cp ∈ s.checkpoints, ∃ snap,
    snap.length = s.ledger.shards.length ∧ Lists cp snap

/-- A start has the invariant. -/
theorem Start.inv {s : System σ} (h : Start B s) : SystemInv B s := by
  refine ⟨fun shard hshard => ?_, fun cp hcp => ?_⟩
  · obtain ⟨store, origin, retention, l₀, calls, hstore, hinit, rfl⟩ := h.opened shard hshard
    obtain ⟨l₁, hinit', hinv⟩ := init_empty hstore origin retention
    rw [hinit, Except.ok.injEq] at hinit'
    subst hinit'
    exact hinv.run calls
  · rw [h.checkpoints_eq] at hcp
    cases hcp

variable {B}

/-- **Every step keeps the invariant.** -/
theorem SystemInv.step {s : System σ} (h : SystemInv B s) (a : Step) : SystemInv B (step B s a) := by
  cases a with
  | commit event shard clock =>
      refine ⟨fun shard' hshard' => ?_, fun cp hcp => ?_⟩
      · rcases commit_cases B s.ledger event shard clock with hsame | ⟨i, k, -, hcommit⟩
        · exact h.shards shard' (hsame ▸ hshard')
        · have hshards : (ShardedThreads.step B s (.commit event shard clock)).ledger.shards
              = s.ledger.shards.set k (Ledger.commit B s.ledger.shards[k] event clock).2 :=
            congrArg ShardedLedger.shards hcommit
          rw [hshards] at hshard'
          -- the shard that the event goes to, or another one
          rcases List.mem_or_eq_of_mem_set hshard' with hold | rfl
          · exact h.shards shard' hold
          · exact (h.shards _ (List.getElem_mem _)).commit event clock
      -- the checkpoints stay, and the shards only grow
      · obtain ⟨snap, hlen, hlists⟩ := h.checkpoints cp hcp
        exact ⟨snap, hlen.trans (grows_commit B s.ledger event shard clock).length_eq, hlists⟩
  | checkpointBegin => exact ⟨h.shards, h.checkpoints⟩
  | readSize k =>
      rw [ShardedThreads.step]
      split
      · split
        · exact ⟨h.shards, h.checkpoints⟩
        · exact h
      · exact h
  | readRoot k =>
      rw [ShardedThreads.step]
      split
      · split
        · exact ⟨h.shards, h.checkpoints⟩
        · exact h
      · exact h
  | sign k key timestamp clock =>
      rw [ShardedThreads.step]
      split
      · rename_i snap _
        split
        · rename_i hlen
          split
          · rename_i cp hsign
            -- the new checkpoint lists what was read of the shards
            refine ⟨h.shards, fun cp' hcp' => ?_⟩
            rcases List.mem_append.mp hcp' with hold | hnew
            · exact h.checkpoints cp' hold
            · rw [List.mem_singleton.mp hnew]
              exact ⟨snap, hlen, lists_of_signSnap hsign⟩
          · exact ⟨h.shards, h.checkpoints⟩
        · exact h
      · exact h

/-- **Every run keeps the invariant.** -/
theorem SystemInv.run {s : System σ} (h : SystemInv B s) (steps : List Step) :
    SystemInv B (runSharded B s steps) := by
  induction steps generalizing s with
  | nil => exact h
  | cons a steps ih => exact ih (h.step a)

/-! ## Undisturbed checkpoints -/

/-- A snapshot is accurate: the listed root of a shard is the tree hash of as many of its leaves as
are listed. -/
def Accurate (l : ShardedLedger σ) (snap : List (Nat × Bytes)) : Prop :=
  ∀ (j : Nat) (e : Nat × Bytes), snap[j]? = some e → ∃ shard : Ledger σ,
    l.shards[j]? = some shard ∧ e.1 ≤ shard.leaves.length ∧ e.2 = treeHash (shard.leaves.take e.1)

/-- An accurate snapshot stays accurate when the shards grow. -/
theorem Accurate.mono {l l' : ShardedLedger σ} {snap : List (Nat × Bytes)} (h : Accurate l snap)
    (hgrow : Grows l l') : Accurate l' snap := by
  intro j e he
  obtain ⟨shard, hshard, hle, hroot⟩ := h j e he
  obtain ⟨shard', hshard', hpre⟩ := hgrow.getElem? hshard
  exact ⟨shard', hshard', hle.trans hpre.length_le,
    by rw [hroot, LedgerThreads.take_prefix_eq hpre hle]⟩

/-- Another shard is read. -/
theorem Accurate.concat {l : ShardedLedger σ} {snap : List (Nat × Bytes)} (h : Accurate l snap)
    {shard : Ledger σ} (hshard : l.shards[snap.length]? = some shard) (hinv : Inv B shard) :
    Accurate l (snap ++ [(shard.leaves.length, shard.root)]) := by
  intro j e he
  rcases Nat.lt_trichotomy j snap.length with hlt | rfl | hgt
  · rw [List.getElem?_append_left hlt] at he
    exact h j e he
  · rw [List.getElem?_concat_length, Option.some.injEq] at he
    subst he
    refine ⟨shard, hshard, le_refl _, ?_⟩
    rw [List.take_length]
    exact hinv.tree.root_eq
  · rw [List.getElem?_eq_none (by rw [List.length_append]; exact hgt)] at he
    cases he

/-- What a checkpoint under way has read is accurate, and a size that has been read and whose root has
not is still the size of its shard. -/
def Reading.Accurate (l : ShardedLedger σ) (r : Reading) : Prop :=
  ShardedThreads.Accurate l r.snap ∧ ∀ size, r.pending = some size →
    ∃ shard, l.shards[r.snap.length]? = some shard ∧ size = shard.leaves.length

/-- A step comes between the two readings of a shard: it commits to the shard whose size a checkpoint
under way has read and whose root it has not. -/
def Disturbs (s : System σ) : Step → Prop
  | .commit event shard _ => ∃ r ∈ s.reading, r.pending.isSome ∧
      ∃ i k, s.ledger.shardFor event shard = .ok (i, k) ∧ k.val = r.snap.length
  | _ => False

variable (B) in
/-- No step of the run comes between the two readings of a shard. -/
def Undisturbed (s : System σ) : List Step → Prop
  | [] => True
  | a :: steps => ¬Disturbs s a ∧ Undisturbed (step B s a) steps

/-- A longer run is undisturbed where its parts are. -/
theorem undisturbed_append {s : System σ} {steps steps' : List Step} :
    Undisturbed B s (steps ++ steps') ↔
      Undisturbed B s steps ∧ Undisturbed B (runSharded B s steps) steps' := by
  induction steps generalizing s with
  | nil => simp [Undisturbed, runSharded]
  | cons a steps ih => rw [List.cons_append, Undisturbed, Undisturbed, ih, and_assoc]; rfl

/-- What holds in every state of an undisturbed run. -/
structure Steady (s : System σ) : Prop where
  reading : ∀ r ∈ s.reading, r.Accurate s.ledger
  checkpoints : ∀ cp ∈ s.checkpoints, ∃ snap,
    snap.length = s.ledger.shards.length ∧ Lists cp snap ∧ Accurate s.ledger snap

/-- The readings stay accurate through a commit that does not disturb them. -/
theorem Reading.Accurate.commit {s : System σ} {r : Reading} (h : r.Accurate s.ledger)
    (hr : r ∈ s.reading) {event : ComplianceEvent} {shard : Option Int} {clock : Except PyErr Str}
    (hundisturbed : ¬Disturbs s (.commit event shard clock)) :
    r.Accurate (s.ledger.commit B event shard clock).2 := by
  refine ⟨h.1.mono (grows_commit B s.ledger event shard clock), fun size hsize => ?_⟩
  obtain ⟨shard', hshard', hlen⟩ := h.2 size hsize
  rcases commit_cases B s.ledger event shard clock with hsame | ⟨i, k, hroute, hcommit⟩
  · rw [hsame]
    exact ⟨shard', hshard', hlen⟩
  · refine ⟨shard', ?_, hlen⟩
    have hne : k.val ≠ r.snap.length :=
      fun heq => hundisturbed ⟨r, hr, by rw [hsize]; rfl, i, k, hroute, heq⟩
    rw [hcommit, ShardedLedger.setShard, List.getElem?_set_ne hne]
    exact hshard'

/-- One more reading under way. -/
theorem forall_mem_set {α : Type} {P : α → Prop} {xs : List α} (h : ∀ x ∈ xs, P x) (k : Nat) {y : α}
    (hy : P y) : ∀ x ∈ xs.set k y, P x := by
  intro x hx
  rcases List.mem_or_eq_of_mem_set hx with hmem | rfl
  · exact h x hmem
  · exact hy

/-- **Every step that disturbs no reading keeps the checkpoints accurate.** -/
theorem Steady.step {s : System σ} (h : Steady s) (hinv : SystemInv B s) {a : Step}
    (hundisturbed : ¬Disturbs s a) : Steady (step B s a) := by
  cases a with
  | commit event shard clock =>
      refine ⟨fun r hr => (h.reading r hr).commit hr hundisturbed, fun cp hcp => ?_⟩
      have hgrow := grows_commit B s.ledger event shard clock
      obtain ⟨snap, hlen, hlists, haccurate⟩ := h.checkpoints cp hcp
      exact ⟨snap, hlen.trans hgrow.length_eq, hlists, haccurate.mono hgrow⟩
  | checkpointBegin =>
      refine ⟨fun r hr => ?_, h.checkpoints⟩
      rcases List.mem_append.mp hr with hold | hnew
      · exact h.reading r hold
      · rw [List.mem_singleton.mp hnew]
        exact ⟨fun j e he => absurd he (by simp), fun size hsize => by cases hsize⟩
  | readSize k =>
      rw [ShardedThreads.step]
      split
      · rename_i snap hk
        split
        · rename_i shard hshard
          refine ⟨forall_mem_set h.reading k ?_, h.checkpoints⟩
          refine ⟨(h.reading _ (List.mem_of_getElem? hk)).1, fun size hsize => ?_⟩
          exact ⟨shard, hshard, (Option.some.inj hsize).symm⟩
        · exact h
      · exact h
  | readRoot k =>
      rw [ShardedThreads.step]
      split
      · rename_i snap size hk
        split
        · -- the size was read from the shard as it is now
          rename_i shard hshard
          obtain ⟨hsnap, hpending⟩ := h.reading _ (List.mem_of_getElem? hk)
          obtain ⟨shard', hshard', hsize⟩ := hpending size rfl
          rw [hshard, Option.some.injEq] at hshard'
          subst hshard'
          refine ⟨forall_mem_set h.reading k ⟨?_, fun size hsize => by cases hsize⟩, h.checkpoints⟩
          rw [hsize]
          exact hsnap.concat hshard (hinv.shards shard (List.mem_of_getElem? hshard))
        · exact h
      · exact h
  | sign k key timestamp clock =>
      rw [ShardedThreads.step]
      have herase : ∀ r ∈ s.reading.eraseIdx k, r.Accurate s.ledger :=
        fun r hr => h.reading r (List.mem_of_mem_eraseIdx hr)
      split
      · rename_i snap hk
        split
        · rename_i hlen
          split
          · rename_i cp hsign
            refine ⟨herase, fun cp' hcp' => ?_⟩
            rcases List.mem_append.mp hcp' with hold | hnew
            · exact h.checkpoints cp' hold
            · rw [List.mem_singleton.mp hnew]
              exact ⟨snap, hlen, lists_of_signSnap hsign, (h.reading _ (List.mem_of_getElem? hk)).1⟩
          · exact ⟨herase, h.checkpoints⟩
        · exact h
      · exact h

/-- **An undisturbed run keeps all checkpoints accurate.** -/
theorem Steady.run {s : System σ} (h : Steady s) (hinv : SystemInv B s) {steps : List Step}
    (hundisturbed : Undisturbed B s steps) : Steady (runSharded B s steps) := by
  induction steps generalizing s with
  | nil => exact h
  | cons a steps ih => exact ih (h.step hinv hundisturbed.1) (hinv.step a) hundisturbed.2

/-- A start is steady. -/
theorem Start.steady {s : System σ} (h : Start B s) : Steady s := by
  constructor
  · intro r hr
    rw [h.reading_eq] at hr
    cases hr
  · intro cp hcp
    rw [h.checkpoints_eq] at hcp
    cases hcp

/-- Runs start where `__init__` puts ledgers together that calls have produced. -/
theorem start_of_init {shards : List (Ledger σ)} {origin : Str}
    {route : ComplianceEvent → Except PyErr Int} {l : ShardedLedger σ}
    (h : ShardedLedger.init shards origin route = .ok l)
    (hopened : ∀ shard ∈ shards, ∃ store origin retention l₀ calls, B.records store = [] ∧
      Ledger.init B store origin retention = .ok l₀ ∧ shard = Ledger.run B l₀ calls) :
    Start B { ledger := l } := by
  rw [ShardedLedger.init] at h
  split at h
  · cases h
  · refine ⟨fun shard hshard => hopened shard ?_, rfl, rfl⟩
    rwa [← Except.ok.inj h] at hshard

/-! ## A checkpoint that nothing interrupts -/

/-- The readings of a checkpoint: the size and the root of one shard after the other. -/
def readings (n : Nat) : List Step := (List.replicate n [.readSize 0, .readRoot 0]).flatten

/-- The steps of a checkpoint. -/
def checkpointSteps (n : Nat) (key : KeySource) (timestamp : Option Str) (clock : Except PyErr Str) :
    List Step :=
  .checkpointBegin :: readings n ++ [.sign 0 key timestamp clock]

/-- What the readings see, if nothing happens in between: the size and the root of each shard. -/
theorem runSharded_readings {s : System σ} {read : List (Ledger σ)} {snap : List (Nat × Bytes)}
    {rest : List (Ledger σ)} (hshards : s.ledger.shards = read ++ rest)
    (hlen : snap.length = read.length) (hreading : s.reading = [{ snap }]) :
    runSharded B s (readings rest.length) = { s with
      reading := [{ snap := snap ++ rest.map fun shard => (shard.leaves.length, shard.root) }] } := by
  induction rest generalizing s read snap with
  | nil =>
      rw [List.map_nil, List.append_nil, ← hreading]
      rfl
  | cons shard rest ih =>
      have hshard : s.ledger.shards[snap.length]? = some shard := by
        rw [hshards, hlen, List.getElem?_append_right (le_refl _), Nat.sub_self]
        rfl
      have hread : runSharded B s [.readSize 0, .readRoot 0] = { s with
          reading := [{ snap := snap ++ [(shard.leaves.length, shard.root)] }] } := by
        simp [runSharded, step, hreading, hshard]
      have hsplit : readings (shard :: rest).length
          = [.readSize 0, .readRoot 0] ++ readings rest.length := rfl
      rw [hsplit, runSharded, List.foldl_append]
      change runSharded B (runSharded B s [.readSize 0, .readRoot 0]) _ = _
      have hshards' : s.ledger.shards = (read ++ [shard]) ++ rest := by
        rw [hshards, List.append_assoc]
        rfl
      have hrest := @ih
        { s with reading := [{ snap := snap ++ [(shard.leaves.length, shard.root)] }] }
        (read ++ [shard]) _ hshards' (by simp [hlen]) rfl
      rw [hread, hrest, List.map_cons, List.append_assoc]
      rfl

/-- **Without interruption the steps are `checkpoint`.** -/
theorem runSharded_checkpointSteps {s : System σ} (hidle : s.reading = []) {key : KeySource}
    {timestamp : Option Str} {clock : Except PyErr Str} {cp : Checkpoint}
    (hcp : s.ledger.checkpoint key timestamp clock = .ok cp) :
    runSharded B s (checkpointSteps s.ledger.shards.length key timestamp clock)
      = { s with checkpoints := s.checkpoints ++ [cp] } := by
  have hbegin : step B s .checkpointBegin = { s with reading := [{}] } := by
    simp [step, hidle]
  have hread := runSharded_readings (B := B) (s := { s with reading := [{}] })
    (List.nil_append s.ledger.shards).symm rfl rfl
  rw [runSharded] at hread
  rw [checkpointSteps, List.cons_append, runSharded, List.foldl_cons, List.foldl_append, hbegin, hread,
    List.foldl_cons, List.foldl_nil, step]
  have hsign : signSnap s.ledger.origin key timestamp clock
      (s.ledger.shards.map fun shard => (shard.leaves.length, shard.root)) = .ok cp := hcp
  simp [hsign, hidle]

/-- Such a checkpoint signs the super-root and the total size of the ledger. -/
theorem checkpoint_eq_ok {l : ShardedLedger σ} {key : KeySource} {timestamp : Option Str}
    {clock : Except PyErr Str} {cp : Checkpoint} (h : l.checkpoint key timestamp clock = .ok cp) :
    cp.rootHash = hex l.superRoot ∧ cp.treeSize = l.totalSize := by
  obtain ⟨-, hsize, hroot⟩ := lists_of_signSnap h
  rw [List.map_map] at hroot hsize
  exact ⟨hroot, hsize⟩

/-! ## A ledger of one shard -/

/-- An event with a kind has neither an id nor ledger fields. -/
theorem keys_generic (kvs : Items)
    (hkvs : (.ok [(lit "kind", .str (lit "generic"))] : Except PyErr Items) = .ok kvs) :
    ∀ kv ∈ kvs, kv.1 ≠ lit "event_id" ∧ kv.1 ≠ lit "ledger" := by
  rw [← Except.ok.inj hkvs, List.forall_mem_singleton]
  exact ⟨by decide, by decide⟩

/-- A small event. -/
def sampleEvent : ComplianceEvent where
  content := .ok [(lit "kind", .str (lit "generic"))]
  content_keys := keys_generic

/-- Its leaf. -/
def sampleLeaf : Bytes :=
  [138, 205, 130, 79, 211, 243, 86, 226, 175, 43, 94, 24, 78, 89, 84, 83, 237, 82, 209, 237, 64, 118,
    137, 49, 248, 70, 218, 195, 164, 150, 76, 121]

/-- The root of two such leaves. -/
def sampleRoot : Bytes :=
  [127, 159, 215, 148, 135, 215, 17, 34, 48, 135, 213, 85, 201, 195, 125, 235, 15, 140, 96, 153, 216,
    168, 47, 202, 208, 38, 19, 138, 138, 8, 248, 60]

/-- The bytes the sample producer signs for the super-root of one shard. -/
def sampleSigned (treeSize : Int) (root : Bytes) : Bytes :=
  (checkpointSigningBytes (lit "demo") treeSize (hex (shardSuperRoot [root]))
    (lit "2026-01-01T00:00:00Z")).toOption.getD []

/-- The sample producer's signatures of three heads. -/
def sampleMade : List (Bytes × Bytes) :=
  [(sampleSigned 1 sampleRoot,
      [160, 114, 163, 86, 93, 27, 200, 187, 117, 11, 153, 116, 141, 213, 172, 162, 207, 118, 82, 6,
        218, 249, 49, 207, 243, 94, 147, 111, 115, 245, 17, 68, 201, 200, 229, 107, 29, 148, 181, 255,
        215, 206, 95, 20, 133, 71, 150, 63, 225, 84, 225, 108, 190, 15, 38, 29, 180, 235, 132, 113,
        146, 48, 238, 9]),
    (sampleSigned 1 sampleLeaf,
      [77, 255, 91, 40, 123, 228, 170, 82, 161, 52, 107, 134, 27, 9, 44, 130, 63, 215, 96, 235, 150,
        34, 164, 93, 219, 224, 253, 126, 234, 117, 148, 144, 31, 83, 2, 45, 24, 89, 243, 8, 152, 95,
        82, 6, 93, 110, 171, 81, 69, 170, 204, 43, 140, 172, 89, 157, 194, 253, 121, 172, 61, 115, 163,
        4]),
    (sampleSigned 2 sampleRoot,
      [198, 43, 104, 3, 133, 222, 135, 103, 223, 91, 250, 53, 46, 178, 224, 177, 139, 163, 25, 21, 178,
        88, 1, 231, 221, 219, 4, 104, 17, 63, 73, 59, 56, 252, 30, 89, 104, 10, 107, 242, 41, 59, 30,
        208, 62, 17, 20, 100, 120, 46, 185, 98, 28, 150, 20, 14, 9, 29, 135, 227, 23, 20, 103, 13])]

/-- One empty shard in memory. -/
def sampleStart : System (List Val) where
  ledger :=
    { shards := [{ store := [], origin := lit "demo", retention := none, leaves := [], tree := .new }],
      origin := lit "demo", route := fun _ => .ok 0, shards_ne := List.cons_ne_nil _ _ }

/-- Runs start there. -/
theorem start_sampleStart : Start inMemoryLedgerBackend sampleStart where
  opened shard hshard := by
    rw [List.mem_singleton.mp hshard]
    exact ⟨[], lit "demo", none, _, [], rfl, rfl, rfl⟩
  reading_eq := rfl
  checkpoints_eq := rfl

/-- A commit of the sample event. -/
def sampleCommit : Step := .commit sampleEvent none (.ok (lit "2026-01-01T00:00:00Z"))

/-- The sample producer signs the first checkpoint under way. -/
def sampleSign : Step :=
  .sign 0 (madeKey sampleKey sampleMade) none (.ok (lit "2026-01-01T00:00:00Z"))

/-- A commit and a checkpoint, twice. -/
def sampleSteps : List Step :=
  [sampleCommit, .checkpointBegin, .readSize 0, .readRoot 0, sampleSign,
    sampleCommit, .checkpointBegin, .readSize 0, .readRoot 0, sampleSign]

/-- A commit comes between the reading of the size and the reading of the root. -/
def sampleRace : List Step :=
  [sampleCommit, .checkpointBegin, .readSize 0, sampleCommit, .readRoot 0, sampleSign]

/-- What the sample run returns: a checkpoint of one leaf and one of two, both signed. -/
theorem checkpoints_sampleSteps :
    ((runSharded inMemoryLedgerBackend sampleStart sampleSteps).checkpoints.map fun cp =>
        (shardsField cp, cp.treeSize, cp.verify (madeBy sampleKey sampleMade) sampleKey),
      (runSharded inMemoryLedgerBackend sampleStart sampleSteps).ledger.shards.map Ledger.leaves)
      = ([(.ok (listing [(1, sampleLeaf)]), 1, .ok true),
          (.ok (listing [(2, sampleRoot)]), 2, .ok true)], [[sampleLeaf, sampleLeaf]]) := by
  decide +kernel

/-- The leaves of the one shard after the sample run. -/
theorem leaves_sampleSteps :
    (runSharded inMemoryLedgerBackend sampleStart sampleSteps).ledger.shards.map Ledger.leaves
      = [[sampleLeaf, sampleLeaf]] :=
  (Prod.mk.inj checkpoints_sampleSteps).2

/-- The two checkpoints of the sample run. -/
theorem exists_checkpoints_sampleSteps :
    ∃ cp₁ cp₂, cp₁ ∈ (runSharded inMemoryLedgerBackend sampleStart sampleSteps).checkpoints ∧
      cp₂ ∈ (runSharded inMemoryLedgerBackend sampleStart sampleSteps).checkpoints ∧
      shardsField cp₁ = .ok (listing [(1, sampleLeaf)]) ∧ cp₁.treeSize = 1 ∧
      shardsField cp₂ = .ok (listing [(2, sampleRoot)]) ∧ cp₂.treeSize = 2 ∧
      cp₂.verify (madeBy sampleKey sampleMade) sampleKey = .ok true := by
  have hlist := (Prod.mk.inj checkpoints_sampleSteps).1
  obtain ⟨cp₁, rest, hrest, h₁, hmap⟩ := List.map_eq_cons_iff.mp hlist
  obtain ⟨cp₂, rest', rfl, h₂, -⟩ := List.map_eq_cons_iff.mp hmap
  rw [Prod.mk.injEq, Prod.mk.injEq] at h₁ h₂
  rw [hrest]
  exact ⟨cp₁, cp₂, List.mem_cons_self, List.mem_cons_of_mem _ List.mem_cons_self, h₁.1, h₁.2.1,
    h₂.1, h₂.2.1, h₂.2.2⟩

/-! ## Consistency of checkpoints -/

/-- **A sharded checkpoint is consistent.** In every run in which no commit to a shard comes between
the two readings of it, each returned checkpoint lists for every shard the tree hash of exactly as
many leaves as it lists, signs the super-root of these roots and the sum of these sizes, and the proof
of every event it covers verifies, at the end of the run as well. -/
theorem runSharded_consistent (B : LedgerBackend σ) (s : System σ) (hstart : Start B s)
    (steps : List Step) (hundisturbed : Undisturbed B s steps) :
    let s' := runSharded B s steps
    ∀ cp ∈ s'.checkpoints, ∃ snap : List (Nat × Bytes),
      snap.length = s'.ledger.shards.length ∧ shardsField cp = .ok (listing snap) ∧
      (∀ (k : Nat) (e : Nat × Bytes), snap[k]? = some e → ∃ shard, s'.ledger.shards[k]? = some shard ∧
        e.1 ≤ shard.leaves.length ∧ e.2 = treeHash (shard.leaves.take e.1)) ∧
      cp.rootHash = hex (shardSuperRoot (snap.map Prod.snd)) ∧
      cp.treeSize = (snap.map Prod.fst).sum ∧
      ∀ (k : Nat) (e : Nat × Bytes) (i : Nat), snap[k]? = some e → i < e.1 →
        ∃ shard leaf P Q superRoot, s'.ledger.shards[k]? = some shard ∧
          shard.leaves[i]? = some leaf ∧
          s'.ledger.shardedInclusionProof k i (some cp) = .ok
            { shardIndex := k, numShards := s'.ledger.shards.length, leafIndex := i,
              shardSize := .int e.1, shardRoot := hex e.2, shardProof := P.map hex,
              superProof := Q.map hex } ∧
          fromhex cp.rootHash = some superRoot ∧
          verifyShardedInclusion leaf i e.1 P e.2 k s'.ledger.shards.length Q superRoot = true := by
  have hinv := hstart.inv
  intro s' cp hcp
  obtain ⟨snap, hlen, hlists, haccurate⟩ := (hstart.steady.run hinv hundisturbed).checkpoints cp hcp
  refine ⟨snap, hlen, hlists.shards, haccurate, hlists.rootHash, hlists.treeSize,
    fun k e i hk hi => ?_⟩
  obtain ⟨shard, hshard, hle, hroot⟩ := haccurate k e hk
  have hk' : snap[k]? = some (e.1, treeHash (shard.leaves.take e.1)) := by rw [hk, ← hroot]
  obtain ⟨P, Q, leaf, hproof, hleaf, hverify⟩ :=
    shardedInclusionProof_listing hlists.shards hlen hshard hle hk' hi
  rw [← hroot] at hproof hverify
  exact ⟨shard, leaf, P, Q, _, hshard, hleaf, hproof, hlists.rootHash ▸ fromhex_hex _, hverify⟩

/-- Two empty shards in memory. -/
def sampleTwo : System (List Val) where
  ledger :=
    { shards := [{ store := [], origin := lit "demo", retention := none, leaves := [], tree := .new },
        { store := [], origin := lit "demo", retention := none, leaves := [], tree := .new }],
      origin := lit "demo", route := fun _ => .ok 0, shards_ne := List.cons_ne_nil _ _ }

/-- Runs start there. -/
theorem start_sampleTwo : Start inMemoryLedgerBackend sampleTwo := by
  have hinit : ShardedLedger.init sampleTwo.ledger.shards (lit "demo") (fun _ => .ok 0)
      = .ok sampleTwo.ledger := dif_neg (List.cons_ne_nil _ _)
  refine start_of_init hinit fun shard hshard => ⟨[], lit "demo", none, _, [], rfl, rfl, ?_⟩
  rcases List.mem_pair.mp hshard with rfl | rfl <;> rfl

/-- A commit of the sample event to a shard. -/
def sampleCommitTo (shard : Nat) : Step :=
  .commit sampleEvent (some shard) (.ok (lit "2026-01-01T00:00:00Z"))

/-- The sample producer's signature of the head of two events in one shard and one in the other. -/
def sampleTwoMade : List (Bytes × Bytes) :=
  [((checkpointSigningBytes (lit "demo") 3 (hex (shardSuperRoot [sampleRoot, sampleLeaf]))
      (lit "2026-01-01T00:00:00Z")).toOption.getD [],
    [118, 159, 8, 54, 100, 227, 81, 43, 76, 2, 243, 17, 192, 82, 6, 180, 191, 63, 193, 140, 5,
     225, 239, 247, 26, 236, 120, 2, 44, 202, 190, 139, 161, 100, 203, 207, 251, 178, 8, 254, 99,
     49, 8, 21, 37, 216, 157, 211, 202, 169, 109, 143, 6, 14, 234, 188, 154, 182, 225, 31, 44,
     46, 174, 7])]

/-- Commits to the first shard come when a checkpoint has read it, one of them while it reads the
second one. -/
def sampleTwoSteps : List Step :=
  [sampleCommitTo 0, sampleCommitTo 0, sampleCommitTo 1, .checkpointBegin, .readSize 0, .readRoot 0,
    sampleCommitTo 0, .readSize 0, sampleCommitTo 0, .readRoot 0,
    .sign 0 (madeKey sampleKey sampleTwoMade) none (.ok (lit "2026-01-01T00:00:00Z"))]

/-- Where the first shard has been read, a commit to it disturbs nothing. -/
theorem not_disturbs_sampleCommitTo {s : System (List Val)} {pending : Option Nat}
    (hreading : s.reading.map (fun r => (r.snap.length, r.pending)) = [(1, pending)]) :
    ¬Disturbs s (sampleCommitTo 0) := by
  rintro ⟨r, hr, -, i, k, hfor, hk⟩
  have hread : (r.snap.length, r.pending) ∈ [(1, pending)] := by
    rw [← hreading]
    exact List.mem_map_of_mem hr
  have hone : r.snap.length = 1 := congrArg Prod.fst (List.mem_singleton.mp hread)
  rw [val_of_shardFor hfor, hone] at hk
  exact absurd hk (by decide)

/-- No commit of the run disturbs the checkpoint. -/
theorem undisturbed_sampleTwoSteps : Undisturbed inMemoryLedgerBackend sampleTwo sampleTwoSteps := by
  have hidle : ∀ {s : System (List Val)} (shard : Nat), s.reading = [] →
      ¬Disturbs s (sampleCommitTo shard) := by
    rintro s shard hs ⟨r, hr, -⟩
    rw [hs] at hr
    cases hr
  have hread : (runSharded inMemoryLedgerBackend sampleTwo (sampleTwoSteps.take 6)).reading.map
      (fun r => (r.snap.length, r.pending)) = [(1, none)] := by decide +kernel
  have hsize : (runSharded inMemoryLedgerBackend sampleTwo (sampleTwoSteps.take 8)).reading.map
      (fun r => (r.snap.length, r.pending)) = [(1, some 1)] := by decide +kernel
  have hlater : Undisturbed inMemoryLedgerBackend
      (runSharded inMemoryLedgerBackend sampleTwo (sampleTwoSteps.take 8)) (sampleTwoSteps.drop 8) :=
    ⟨not_disturbs_sampleCommitTo hsize, id, id, trivial⟩
  have hmiddle : Undisturbed inMemoryLedgerBackend
      (runSharded inMemoryLedgerBackend sampleTwo (sampleTwoSteps.take 6))
      [sampleCommitTo 0, .readSize 0] := ⟨not_disturbs_sampleCommitTo hread, id, trivial⟩
  have hfirst : Undisturbed inMemoryLedgerBackend sampleTwo (sampleTwoSteps.take 6) :=
    ⟨hidle 0 rfl, hidle 0 rfl, hidle 1 rfl, id, id, id, trivial⟩
  have hsplit : sampleTwoSteps
      = sampleTwoSteps.take 6 ++ [sampleCommitTo 0, .readSize 0] ++ sampleTwoSteps.drop 8 := rfl
  rw [hsplit]
  exact undisturbed_append.mpr ⟨undisturbed_append.mpr ⟨hfirst, hmiddle⟩, hlater⟩

/-- What the run returns. -/
theorem checkpoints_sampleTwoSteps :
    ((runSharded inMemoryLedgerBackend sampleTwo sampleTwoSteps).checkpoints.map fun cp =>
        (shardsField cp, cp.verify (madeBy sampleKey sampleTwoMade) sampleKey),
      (runSharded inMemoryLedgerBackend sampleTwo sampleTwoSteps).ledger.shards.map Ledger.leaves)
      = ([(.ok (listing [(2, sampleRoot), (1, sampleLeaf)]), .ok true)],
        [[sampleLeaf, sampleLeaf, sampleLeaf, sampleLeaf], [sampleLeaf]]) := by
  decide +kernel

/-- The checkpoint of the run lists two events of the first shard, though that has four in the end, and
one of the second; a proof of an event has a node in the shard and one above it. -/
theorem runSharded_consistent_two :
    let s' := runSharded inMemoryLedgerBackend sampleTwo sampleTwoSteps
    s'.ledger.shards.map Ledger.leaves
        = [[sampleLeaf, sampleLeaf, sampleLeaf, sampleLeaf], [sampleLeaf]] ∧
      ∃ cp ∈ s'.checkpoints, shardsField cp = .ok (listing [(2, sampleRoot), (1, sampleLeaf)]) ∧
        cp.verify (madeBy sampleKey sampleTwoMade) sampleKey = .ok true ∧ cp.treeSize = 3 ∧
        cp.rootHash = hex (shardSuperRoot [sampleRoot, sampleLeaf]) ∧
        ∃ P Q superRoot, s'.ledger.shardedInclusionProof 0 1 (some cp) = .ok
            { shardIndex := 0, numShards := 2, leafIndex := 1, shardSize := .int 2,
              shardRoot := hex sampleRoot, shardProof := P.map hex, superProof := Q.map hex } ∧
          P ≠ [] ∧ Q ≠ [] ∧ fromhex cp.rootHash = some superRoot ∧
          verifyShardedInclusion sampleLeaf 1 2 P sampleRoot 0 2 Q superRoot = true := by
  have hrun := checkpoints_sampleTwoSteps
  have hconsistent := runSharded_consistent inMemoryLedgerBackend sampleTwo start_sampleTwo
    sampleTwoSteps undisturbed_sampleTwoSteps
  dsimp only at hconsistent ⊢
  generalize runSharded inMemoryLedgerBackend sampleTwo sampleTwoSteps = s' at hrun hconsistent ⊢
  obtain ⟨hcps, hleaves⟩ := Prod.mk.inj hrun
  obtain ⟨cp, rest, hrest, hcp, -⟩ := List.map_eq_cons_iff.mp hcps
  obtain ⟨hfield, hverify⟩ := Prod.mk.inj hcp
  have hmem : cp ∈ s'.checkpoints := by
    rw [hrest]
    exact List.mem_cons_self
  obtain ⟨snap, hlen, hshards, -, hroot, hsize, hproofs⟩ := hconsistent cp hmem
  rw [hfield, Except.ok.injEq] at hshards
  obtain rfl := listing_injective hshards
  obtain ⟨shard, leaf, P, Q, superRoot, hshard, hleaf, hproof, hhex, hincluded⟩ :=
    hproofs 0 (2, sampleRoot) 1 rfl (by decide)
  rw [← hlen] at hproof hincluded
  -- the leaf is one of the first shard
  have hshardLeaves : shard.leaves = [sampleLeaf, sampleLeaf, sampleLeaf, sampleLeaf] := by
    have hget : (s'.ledger.shards.map Ledger.leaves)[0]?
        = some [sampleLeaf, sampleLeaf, sampleLeaf, sampleLeaf] := by
      rw [hleaves]
      rfl
    rw [List.getElem?_map, hshard] at hget
    exact Option.some.inj hget
  obtain rfl : sampleLeaf = leaf := by
    rw [hshardLeaves, List.getElem?_cons_succ, List.getElem?_cons_zero] at hleaf
    exact Option.some.inj hleaf
  -- a proof without nodes is one of a tree of one leaf
  have hne : ∀ {i n : Int} {x r : Bytes}, verifyInclusion i n x [] r = true → n ≤ 1 := by
    intro i n x r h
    by_contra hn
    have hlast : n - 1 ≠ 0 := by omega
    simp [verifyInclusion, inclusionLoop, hlast] at h
  obtain ⟨hinShard, hinSuper⟩ := verifyShardedInclusion_eq_true.mp hincluded
  refine ⟨hleaves, cp, hmem, hfield, hverify, hsize, hroot, P, Q, superRoot, hproof, ?_, ?_, hhex,
    hincluded⟩
  · rintro rfl
    exact absurd (hne hinShard) (by decide)
  · rintro rfl
    exact absurd (hne hinSuper) (by decide)

/-- With a commit between the two readings, the checkpoint lists one leaf and the root of two. -/
theorem runSharded_not_consistent :
    ∃ cp ∈ (runSharded inMemoryLedgerBackend sampleStart sampleRace).checkpoints, ∃ shard,
      (runSharded inMemoryLedgerBackend sampleStart sampleRace).ledger.shards[0]? = some shard ∧
        shardsField cp = .ok (listing [(1, sampleRoot)]) ∧
        sampleRoot ≠ treeHash (shard.leaves.take 1) := by
  have hrun : ((runSharded inMemoryLedgerBackend sampleStart sampleRace).checkpoints.map shardsField,
      (runSharded inMemoryLedgerBackend sampleStart sampleRace).ledger.shards.map Ledger.leaves)
        = ([.ok (listing [(1, sampleRoot)])], [[sampleLeaf, sampleLeaf]]) := by
    decide +kernel
  rw [Prod.mk.injEq] at hrun
  obtain ⟨cp, rest, hcps, hcp, -⟩ := List.map_eq_cons_iff.mp hrun.1
  obtain ⟨shard, rest', hshards, hleaves, -⟩ := List.map_eq_cons_iff.mp hrun.2
  refine ⟨cp, by rw [hcps]; exact List.mem_cons_self, shard, by rw [hshards]; rfl, hcp, ?_⟩
  rw [hleaves, List.take_succ_cons, List.take_zero, treeHash_singleton]
  decide

/-! ## Super-checkpoints and witnesses -/

/-- **Super-checkpoints cannot be witnessed.** Between any two checkpoints of different sizes in any
run there is no proof that `verify_consistency` accepts, and a witness that endorsed the smaller one
refuses the larger one: the sizes count events, the trees have one leaf for each shard. -/
theorem superCheckpoints_not_consistent (B : LedgerBackend σ) (s : System σ) (hstart : Start B s)
    (steps : List Step) (cp₁ cp₂ : Checkpoint) (h₁ : cp₁ ∈ (runSharded B s steps).checkpoints)
    (h₂ : cp₂ ∈ (runSharded B s steps).checkpoints) (hpos : 0 < cp₁.treeSize)
    (hlt : cp₁.treeSize < cp₂.treeSize) :
    ∃ snap₁ snap₂ root₁ root₂, shardsField cp₁ = .ok (listing snap₁) ∧
      shardsField cp₂ = .ok (listing snap₂) ∧ fromhex cp₁.rootHash = some root₁ ∧
      fromhex cp₂.rootHash = some root₂ ∧
      (∀ proof, CollisionFree (hashedByContents (snap₁.map Prod.snd)
          ++ hashedByContents (snap₂.map Prod.snd)
          ++ hashedByVerifyConsistency cp₁.treeSize cp₂.treeSize root₁ proof) →
        verifyConsistency cp₁.treeSize cp₂.treeSize root₁ root₂ proof = false) ∧
      ∀ (ed : Ed25519) (w : Witness) (call : CosignCall), w.last = some cp₁ → call.checkpoint = cp₂ →
        CollisionFree (hashedByContents (snap₁.map Prod.snd)
          ++ hashedByContents (snap₂.map Prod.snd) ++ Witness.hashedByCheckExtends cp₁ call) →
        ∃ err, Witness.cosign ed w call = (.error err, w) := by
  have hinv := hstart.inv.run steps
  obtain ⟨snap₁, hlen₁, hlists₁⟩ := hinv.checkpoints cp₁ h₁
  obtain ⟨snap₂, hlen₂, hlists₂⟩ := hinv.checkpoints cp₂ h₂
  have hroot₁ : fromhex cp₁.rootHash = some (shardSuperRoot (snap₁.map Prod.snd)) :=
    hlists₁.rootHash ▸ fromhex_hex _
  have hroot₂ : fromhex cp₂.rootHash = some (shardSuperRoot (snap₂.map Prod.snd)) :=
    hlists₂.rootHash ▸ fromhex_hex _
  have hlen : (snap₁.map Prod.snd).length = (snap₂.map Prod.snd).length := by
    rw [List.length_map, List.length_map, hlen₁, hlen₂]
  have hfalse : ∀ proof, CollisionFree (hashedByContents (snap₁.map Prod.snd)
        ++ hashedByContents (snap₂.map Prod.snd)
        ++ hashedByVerifyConsistency cp₁.treeSize cp₂.treeSize
          (shardSuperRoot (snap₁.map Prod.snd)) proof) →
      verifyConsistency cp₁.treeSize cp₂.treeSize (shardSuperRoot (snap₁.map Prod.snd))
        (shardSuperRoot (snap₂.map Prod.snd)) proof = false := by
    rw [hlists₁.treeSize, hlists₂.treeSize]
    rw [hlists₁.treeSize] at hpos hlt
    rw [hlists₂.treeSize] at hlt
    exact fun proof hS => verifyConsistency_superRoots hlen (by omega) (by omega) hS
  refine ⟨snap₁, snap₂, _, _, hlists₁.shards, hlists₂.shards, hroot₁, hroot₂, hfalse,
    fun ed w call hlast hcall hS => ?_⟩
  rcases Witness.cosign_cases ed w call with ⟨err, hcosign⟩ | ⟨cosig, -, hcheck⟩
  · exact ⟨err, hcosign⟩
  · -- the witness would have accepted a proof
    obtain ⟨-, hproof⟩ := Witness.checkExtends_eq_ok (hcheck cp₁ hlast)
    obtain ⟨proof, firstRoot, secondRoot, -, hfirst, hsecond, haccept, hstrings⟩ :=
      hproof (hcall ▸ hlt)
    rw [hcall] at hsecond haccept hstrings
    rw [hroot₁, Option.some.injEq] at hfirst
    rw [hroot₂, Option.some.injEq] at hsecond
    subst hfirst
    subst hsecond
    rw [hstrings] at hS
    rw [hfalse proof hS] at haccept
    cases haccept

/-- The empty proof between the two checkpoints of the sample run is refused. -/
theorem superCheckpoints_not_consistent_sample : ∃ cp₁ cp₂ root₁ root₂,
    cp₁ ∈ (runSharded inMemoryLedgerBackend sampleStart sampleSteps).checkpoints ∧
      cp₂ ∈ (runSharded inMemoryLedgerBackend sampleStart sampleSteps).checkpoints ∧
      fromhex cp₁.rootHash = some root₁ ∧ fromhex cp₂.rootHash = some root₂ ∧
      verifyConsistency 1 2 root₁ root₂ [] = false := by
  obtain ⟨cp₁, cp₂, hmem₁, hmem₂, hfield₁, hsize₁, hfield₂, hsize₂, -⟩ := exists_checkpoints_sampleSteps
  obtain ⟨snap₁, snap₂, root₁, root₂, hsnap₁, hsnap₂, hroot₁, hroot₂, hfalse, -⟩ :=
    superCheckpoints_not_consistent inMemoryLedgerBackend sampleStart start_sampleStart sampleSteps
      cp₁ cp₂ hmem₁ hmem₂ (by omega) (by omega)
  rw [hfield₁, Except.ok.injEq] at hsnap₁
  rw [hfield₂, Except.ok.injEq] at hsnap₂
  rw [hsize₁, hsize₂, ← map_snd_of_listing_eq hsnap₁, ← map_snd_of_listing_eq hsnap₂] at hfalse
  refine ⟨cp₁, cp₂, root₁, root₂, hmem₁, hmem₂, hroot₁, hroot₂, hfalse [] ?_⟩
  have hrun : hashedByVerifyConsistency 1 2 root₁ [] = [] := rfl
  refine collisionFree_of_forall_or (s := leafPrefix ++ sampleLeaf) (t := leafPrefix ++ sampleRoot)
    (fun u hu => ?_) (by decide +kernel)
  simpa only [hashedByContents, hrun, List.map_cons, List.map_nil, hashedByTreeHash_singleton,
    List.append_nil, List.cons_append, List.nil_append, List.mem_cons, List.not_mem_nil,
    or_false] using hu

/-- In the sample run no proof leads from the first checkpoint to the second. -/
theorem superCheckpoints_consistent_not : ∃ cp₁ cp₂ root₁ root₂,
    cp₁ ∈ (runSharded inMemoryLedgerBackend sampleStart sampleSteps).checkpoints ∧
      cp₂ ∈ (runSharded inMemoryLedgerBackend sampleStart sampleSteps).checkpoints ∧
      cp₁.treeSize = 1 ∧ cp₂.treeSize = 2 ∧ fromhex cp₁.rootHash = some root₁ ∧
      fromhex cp₂.rootHash = some root₂ ∧
      ¬∃ proof, CollisionFree (hashedByContents [sampleLeaf] ++ hashedByContents [sampleRoot]
          ++ hashedByVerifyConsistency 1 2 root₁ proof) ∧
        verifyConsistency 1 2 root₁ root₂ proof = true := by
  obtain ⟨cp₁, cp₂, hmem₁, hmem₂, hfield₁, hsize₁, hfield₂, hsize₂, -⟩ := exists_checkpoints_sampleSteps
  have hinv := start_sampleStart.inv.run sampleSteps
  obtain ⟨snap₁, -, hlists₁⟩ := hinv.checkpoints cp₁ hmem₁
  obtain ⟨snap₂, -, hlists₂⟩ := hinv.checkpoints cp₂ hmem₂
  have hsnap₁ := hlists₁.shards
  have hsnap₂ := hlists₂.shards
  rw [hfield₁, Except.ok.injEq] at hsnap₁
  rw [hfield₂, Except.ok.injEq] at hsnap₂
  have hroot₁ := hlists₁.rootHash
  have hroot₂ := hlists₂.rootHash
  rw [← map_snd_of_listing_eq hsnap₁] at hroot₁
  rw [← map_snd_of_listing_eq hsnap₂] at hroot₂
  refine ⟨cp₁, cp₂, _, _, hmem₁, hmem₂, hsize₁, hsize₂, hroot₁ ▸ fromhex_hex _,
    hroot₂ ▸ fromhex_hex _, ?_⟩
  rintro ⟨proof, hS, haccept⟩
  have hlen : [sampleLeaf].length = [sampleRoot].length := rfl
  have hfalse := verifyConsistency_superRoots hlen Nat.one_pos Nat.one_lt_two hS
  exact absurd (hfalse.symm.trans haccept) Bool.false_ne_true

/-! ## What the signature binds -/

/-- What it would mean that a signed checkpoint pins the sizes of `n` shards: a copy with another field
`shards` that verifies, and whose listed roots rebuild the signed super-root, lists the same sizes. -/
def PinsSizes (ed : Ed25519) (publicKeyRaw : Bytes) (n : Nat) (cp : Checkpoint) : Prop :=
  ∀ extra sizes roots, ({ cp with extra } : Checkpoint).verify ed publicKeyRaw = .ok true →
    readListing { cp with extra } n = .ok (sizes, roots) →
    fromhex cp.rootHash = some (shardSuperRoot roots) →
    ∃ roots', readListing cp n = .ok (sizes, roots')

/-- **Any sizes may be listed**: the copy with them verifies and rebuilds the super-root. -/
theorem Lists.relist {cp : Checkpoint} {snap : List (Nat × Bytes)} (h : Lists cp snap)
    {sizes : List Val} (hsizes : sizes.length = snap.length) :
    readListing { cp with extra := [(lit "shards", listingOf (sizes.zip (snap.map Prod.snd)))] }
        snap.length = .ok (sizes, snap.map Prod.snd) ∧
      fromhex cp.rootHash = some (shardSuperRoot (snap.map Prod.snd)) := by
  have hlen : (sizes.zip (snap.map Prod.snd)).length = snap.length := by
    rw [List.length_zip, List.length_map, hsizes, Nat.min_self]
  have hread := @readListing_listingOf
    { cp with extra := [(lit "shards", listingOf (sizes.zip (snap.map Prod.snd)))] }
    (sizes.zip (snap.map Prod.snd)) rfl
  rw [hlen, List.map_fst_zip (by rw [List.length_map, hsizes]),
    List.map_snd_zip (by rw [List.length_map, hsizes])] at hread
  exact ⟨hread, h.rootHash ▸ fromhex_hex _⟩

/-- **No checkpoint pins the sizes of its shards**: of every checkpoint that verifies there is a copy
with other sizes that verifies as well. -/
theorem checkpoint_not_pinning (B : LedgerBackend σ) (s : System σ) (hstart : Start B s)
    (steps : List Step) (ed : Ed25519) (publicKeyRaw : Bytes) (cp : Checkpoint)
    (hcp : cp ∈ (runSharded B s steps).checkpoints) (hvalid : cp.verify ed publicKeyRaw = .ok true) :
    ¬PinsSizes ed publicKeyRaw (runSharded B s steps).ledger.shards.length cp := by
  intro hpins
  obtain ⟨snap, hlen, hlists⟩ := (hstart.inv.run steps).checkpoints cp hcp
  have hne : (runSharded B s steps).ledger.shards.length ≠ 0 :=
    fun h => (runSharded B s steps).ledger.shards_ne (List.length_eq_zero_iff.mp h)
  rw [← hlen] at hpins hne
  -- the sizes are strings in the copy
  have hstrings : (List.replicate snap.length (Val.str [])).length = snap.length :=
    List.length_replicate
  obtain ⟨hread, hroot⟩ := hlists.relist hstrings
  have hcopy : ({ cp with extra := [(lit "shards", listingOf
      ((List.replicate snap.length (Val.str [])).zip (snap.map Prod.snd)))] } : Checkpoint).verify ed
      publicKeyRaw = .ok true := hvalid
  obtain ⟨roots', hread'⟩ := hpins _ _ _ hcopy hread hroot
  have hcpread := readListing_listingOf hlists.shards
  rw [List.length_map, hread', Except.ok.injEq, Prod.mk.injEq] at hcpread
  have hfirst := congrArg List.head? hcpread.1
  cases snap with
  | nil => exact hne rfl
  | cons e rest => simp [List.replicate_succ] at hfirst

/-- The second checkpoint of the sample run does not pin its size. -/
theorem checkpoint_not_pinning_sample :
    ∃ cp ∈ (runSharded inMemoryLedgerBackend sampleStart sampleSteps).checkpoints,
      ¬PinsSizes (madeBy sampleKey sampleMade) sampleKey
        (runSharded inMemoryLedgerBackend sampleStart sampleSteps).ledger.shards.length cp := by
  obtain ⟨-, cp, -, hmem, -, -, -, -, hvalid⟩ := exists_checkpoints_sampleSteps
  exact ⟨cp, hmem, checkpoint_not_pinning inMemoryLedgerBackend sampleStart start_sampleStart
    sampleSteps _ _ cp hmem hvalid⟩

/-- A copy that lists three leaves instead of two verifies, and the second leaf is accepted at the
index of a third one. -/
theorem checkpoint_pinning_not :
    ∃ cp ∈ (runSharded inMemoryLedgerBackend sampleStart sampleSteps).checkpoints, ∃ extra,
      ({ cp with extra } : Checkpoint).verify (madeBy sampleKey sampleMade) sampleKey = .ok true ∧
      readListing cp 1 = .ok ([.int 2], [sampleRoot]) ∧
      readListing { cp with extra } 1 = .ok ([.int 3], [sampleRoot]) ∧
      fromhex cp.rootHash = some (shardSuperRoot [sampleRoot]) ∧
      verifyShardedInclusion sampleLeaf 2 3 [sampleLeaf] sampleRoot 0 1 []
        (shardSuperRoot [sampleRoot]) = true ∧
      ∀ shard ∈ (runSharded inMemoryLedgerBackend sampleStart sampleSteps).ledger.shards,
        shard.leaves.length = 2 := by
  obtain ⟨-, cp, -, hmem, -, -, hfield, -, hvalid⟩ := exists_checkpoints_sampleSteps
  obtain ⟨snap, hlen, hlists⟩ := (start_sampleStart.inv.run sampleSteps).checkpoints cp hmem
  have hsnap := hlists.shards
  rw [hfield, Except.ok.injEq] at hsnap
  have hroots := map_snd_of_listing_eq hsnap
  have hone : snap.length = 1 := by
    have hlength := congrArg List.length hroots
    rwa [List.length_map, List.length_map, eq_comm] at hlength
  have hsizes : [Val.int 3].length = snap.length := hone.symm
  obtain ⟨hread, hroot⟩ := hlists.relist hsizes
  rw [← hroots, hone] at hread
  rw [← hroots] at hroot
  -- the sizes are no part of what is signed
  have hcopy : ({ cp with extra := [(lit "shards", listingOf ([.int 3].zip [sampleRoot]))] } :
      Checkpoint).verify (madeBy sampleKey sampleMade) sampleKey = .ok true := hvalid
  have haccept : verifyShardedInclusion sampleLeaf 2 3 [sampleLeaf] sampleRoot 0 1 []
      (shardSuperRoot [sampleRoot]) = true := by
    decide +kernel
  refine ⟨cp, hmem, _, hcopy, readListing_listingOf hfield, hread, hroot, haccept,
    fun shard hshard => ?_⟩
  have hleaves : shard.leaves ∈ [[sampleLeaf, sampleLeaf]] :=
    leaves_sampleSteps ▸ List.mem_map_of_mem hshard
  rw [List.mem_singleton.mp hleaves]
  exact List.length_cons

end ShardedThreads

end OpenWright
