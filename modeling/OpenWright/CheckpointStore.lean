import OpenWright.Keyed
import OpenWright.Python.Digits
import OpenWright.Report

/-! # Checkpoint stores

Persistent stores of signed tree heads behind one interface: a directory of files, and an
S3-compatible object store that stamps each object with its retention. Both name what they store
after the tree size alone.

A stored body is given by the value that `json.loads` reads from it: the text is ASCII, and it is the
text of the checkpoint's dump with its tuples written as arrays.

* **`stores_kept_iff`** — what is put stays readable as it was put where it is made of JSON values and
  no two different checkpoints of the history have one tree size.
* **`stores_not_kept`** — a second head of one size replaces the first. -/

namespace OpenWright.CheckpointStore

open Python Python.Val Canonical Signing

/-! ## Reading a checkpoint back -/

/-- The declared fields of `Checkpoint`. -/
def fieldNames : List Str :=
  [lit "origin", lit "tree_size", lit "root_hash", lit "timestamp", lit "public_key_id",
    lit "signature"]

/-- A field that is a string. -/
def strField (kvs : Items) (name : Str) : Option Str :=
  match kvs.lookup name with
  | some (.str s) => some s
  | _ => none

/-- The integer that pydantic makes of a value in an `int` field, if it accepts it. -/
abbrev ReadInt := Val → Option Int

/-- An integer is accepted as it is. -/
def ReadInt.Sound (readInt : ReadInt) : Prop := ∀ z, readInt (.int z) = some z

/-- `Checkpoint.model_validate`: the declared fields are checked, the others let through. -/
def modelValidate (readInt : ReadInt) : Val → Except PyErr Checkpoint
  | .dict kvs =>
    match strField kvs (lit "origin"), (kvs.lookup (lit "tree_size")).bind readInt,
      strField kvs (lit "root_hash"), strField kvs (lit "timestamp"),
      strField kvs (lit "public_key_id"), strField kvs (lit "signature") with
    | some origin, some treeSize, some rootHash, some timestamp, some publicKeyId, some signature =>
      .ok { origin, treeSize, rootHash, timestamp, publicKeyId, signature,
            -- a checkpoint allows further fields
            extra := kvs.filter fun kv => kv.1 ∉ fieldNames }
    | _, _, _, _, _, _ => .error { kind := .validationError }
  | _ => .error { kind := .validationError }

/-- The extra fields of a checkpoint are none of the declared ones. -/
def Valid (cp : Checkpoint) : Prop := ∀ kv ∈ cp.extra, kv.1 ∉ fieldNames

instance (cp : Checkpoint) : Decidable (Valid cp) :=
  inferInstanceAs (Decidable (∀ kv ∈ cp.extra, kv.1 ∉ fieldNames))

/-- A checkpoint whose extra fields were written to JSON and read back. -/
def asJson (cp : Checkpoint) : Checkpoint := { cp with extra := jsonModeItems cp.extra }

/-- The dump of the declared fields. -/
def declared (cp : Checkpoint) : Items :=
  [(lit "origin", .str cp.origin), (lit "tree_size", .int cp.treeSize),
    (lit "root_hash", .str cp.rootHash), (lit "timestamp", .str cp.timestamp),
    (lit "public_key_id", .str cp.publicKeyId), (lit "signature", .str cp.signature)]

/-- A head is dumped with its fields first. -/
theorem dump_eq (cp : Checkpoint) : cp.dump = .dict (declared cp ++ jsonModeItems cp.extra) := by
  rw [Checkpoint.dump, jsonMode, jsonModeItems_eq_map, List.map_append, ← jsonModeItems_eq_map,
    ← jsonModeItems_eq_map]
  rfl

/-- The extra fields of a dump are those of the checkpoint. -/
theorem filter_dump {cp : Checkpoint} (hcp : Valid cp) :
    (declared cp ++ jsonModeItems cp.extra).filter (fun kv => kv.1 ∉ fieldNames)
      = jsonModeItems cp.extra := by
  have hdeclared : (declared cp).filter (fun kv => kv.1 ∉ fieldNames) = [] :=
    List.filter_eq_nil_iff.mpr fun kv hkv => by
      have hname : kv.1 ∈ fieldNames :=
        show kv.1 ∈ (declared cp).map Prod.fst from List.mem_map_of_mem hkv
      simpa using hname
  rw [List.filter_append, hdeclared, List.nil_append]
  refine List.filter_eq_self.mpr fun kv hkv => decide_eq_true ?_
  rw [jsonModeItems_eq_map] at hkv
  obtain ⟨kv', hkv', rfl⟩ := List.mem_map.mp hkv
  exact hcp kv' hkv'

/-- **A dumped checkpoint is read back** with its extra fields as JSON has them. -/
theorem modelValidate_dump {readInt : ReadInt} (hint : readInt.Sound) {cp : Checkpoint}
    (hcp : Valid cp) : modelValidate readInt cp.dump = .ok (asJson cp) := by
  have hsize : ((declared cp ++ jsonModeItems cp.extra).lookup (lit "tree_size")).bind readInt
      = some cp.treeSize := hint cp.treeSize
  rw [dump_eq, modelValidate, hsize, filter_dump hcp]
  rfl

/-! ## Names -/

/-- `f"{n:012d}"`. -/
def padded (n : Int) : Str :=
  let ds := Json.natText n.natAbs
  if n < 0 then cp 45 :: (List.replicate (11 - ds.length) (cp 48) ++ ds)
  else List.replicate (12 - ds.length) (cp 48) ++ ds

/-- `f"checkpoint-{tree_size:012d}.json"`. -/
def fileName (treeSize : Int) : Str := lit "checkpoint-" ++ padded treeSize ++ lit ".json"

/-- Different numbers are padded differently. -/
theorem padded_injective : Function.Injective padded := zeroPadded_injective 12

/-- **Each tree size has a name of its own.** -/
theorem fileName_injective : Function.Injective fileName := by
  intro m n h
  rw [fileName, fileName, List.append_left_inj, List.append_right_inj] at h
  exact padded_injective h

/-! ## The stores -/

/-- A checkpoint as pydantic makes it. -/
abbrev ValidCheckpoint := { cp : Checkpoint // Valid cp }

/-- `Checkpoint.model_validate(json.loads(...))` of a stored body, if there is one. -/
def readBody (readInt : ReadInt) : Option Val → Except PyErr (Option Checkpoint)
  | none => .ok none
  | some body => do
    let cp ← modelValidate readInt body
    return some cp

/-- `LocalCheckpointStore`: a directory, and its files by path. -/
structure LocalCheckpointStore where
  dir : Str
  files : List (Str × Val) := []

namespace LocalCheckpointStore

/-- `_path`. -/
def path (s : LocalCheckpointStore) (treeSize : Int) : Str :=
  s.dir ++ lit "/" ++ fileName treeSize

/-- `put`: the path, and the store with the file written. -/
def put (s : LocalCheckpointStore) (cp : Checkpoint) : Str × LocalCheckpointStore :=
  let path := s.path cp.treeSize
  (path, { s with files := (path, cp.dump) :: s.files.filter fun file => file.1 ≠ path })

/-- `get`. -/
def get (readInt : ReadInt) (s : LocalCheckpointStore) (treeSize : Int) :
    Except PyErr (Option Checkpoint) :=
  readBody readInt (s.files.lookup (s.path treeSize))

end LocalCheckpointStore

/-- A version of an object. -/
structure S3Object where
  body : Val
  contentType : Str
  objectLockMode : Option Str
  objectLockRetainUntilDate : Option Int

/-- `S3CheckpointStore`: a bucket, with the versions of its objects by key, the newest first. Times
are counted in microseconds. -/
structure S3CheckpointStore where
  bucket : Str
  keyPrefix : Str
  objectLockMode : Option Str
  retention : Option Int
  /-- An object lock mode comes with a retention window. -/
  retained : objectLockMode.isSome → retention.isSome
  objects : List (Str × S3Object) := []

namespace S3CheckpointStore

/-- `s.rstrip("/")`. -/
def rstripSlash (s : Str) : Str := (s.reverse.dropWhile (· = cp 47)).reverse

/-- `__init__`, over a bucket with the given objects. -/
def init (bucket keyPrefix : Str) (objectLockMode : Option Str) (retention : Option Int)
    (objects : List (Str × S3Object)) : Except PyErr S3CheckpointStore :=
  match objectLockMode with
  | none =>
    .ok { bucket, keyPrefix := rstripSlash keyPrefix, objectLockMode := none, retention,
          retained := fun h => absurd h (by decide), objects }
  | some mode =>
    if mode = lit "COMPLIANCE" ∨ mode = lit "GOVERNANCE" then
      -- a locked bucket needs to know for how long
      match retention with
      | none =>
        .error { kind := .valueError,
                 msg := [.text (lit "object_lock_mode requires a retention window")] }
      | some window =>
        .ok { bucket, keyPrefix := rstripSlash keyPrefix, objectLockMode := some mode,
              retention := some window, retained := fun _ => rfl, objects }
    else
      .error { kind := .valueError,
               msg := [.text (lit "object_lock_mode must be 'COMPLIANCE' or 'GOVERNANCE'")] }

/-- `_key`. -/
def key (s : S3CheckpointStore) (treeSize : Int) : Str :=
  s.keyPrefix ++ lit "/" ++ fileName treeSize

/-- The object that is put at a time. -/
def object (s : S3CheckpointStore) (now : Int) (cp : Checkpoint) : S3Object where
  body := cp.dump
  contentType := lit "application/json"
  objectLockMode := s.objectLockMode
  objectLockRetainUntilDate :=
    if s.objectLockMode.isSome then s.retention.map (now + ·) else none

/-- `put` at a time: the location, and the bucket with a new version of the object. -/
def put (s : S3CheckpointStore) (now : Int) (cp : Checkpoint) : Str × S3CheckpointStore :=
  let key := s.key cp.treeSize
  (lit "s3://" ++ s.bucket ++ lit "/" ++ key,
    { s with objects := (key, s.object now cp) :: s.objects })

/-- `get`: the newest version. -/
def get (readInt : ReadInt) (s : S3CheckpointStore) (treeSize : Int) :
    Except PyErr (Option Checkpoint) :=
  readBody readInt ((s.objects.lookup (s.key treeSize)).map (·.body))

end S3CheckpointStore

/-! ## What they keep -/

/-- What is put into the directory stays readable. -/
def LocalCheckpointStore.Keeps (readInt : ReadInt) (s : LocalCheckpointStore)
    (cps : List ValidCheckpoint) : Prop :=
  Keyed.Kept (fun (s : LocalCheckpointStore) (cp : ValidCheckpoint) => (s.put cp.1).2)
    (fun s => s.get readInt) (·.1.treeSize) (fun cp => .ok (some cp.1)) s cps

/-- What is put into the bucket stays readable, whatever the times. -/
def S3CheckpointStore.Keeps (readInt : ReadInt) (s : S3CheckpointStore)
    (puts : List (Int × ValidCheckpoint)) : Prop :=
  Keyed.Kept (fun (s : S3CheckpointStore) (p : Int × ValidCheckpoint) => (s.put p.1 p.2.1).2)
    (fun s => s.get readInt) (·.2.1.treeSize) (fun p => .ok (some p.2.1)) s puts

/-- The extra fields are JSON values. -/
def JsonFields (cps : List ValidCheckpoint) : Prop := ∀ cp ∈ cps, asJson cp.1 = cp.1

/-- No two different checkpoints have one tree size. -/
def OneHeadPerSize (cps : List ValidCheckpoint) : Prop :=
  cps.Pairwise fun a b => a.1.treeSize = b.1.treeSize → a = b

instance (cps : List ValidCheckpoint) : Decidable (JsonFields cps) :=
  inferInstanceAs (Decidable (∀ cp ∈ cps, asJson cp.1 = cp.1))

instance (cps : List ValidCheckpoint) : Decidable (OneHeadPerSize cps) :=
  inferInstanceAs (Decidable (cps.Pairwise fun a b => a.1.treeSize = b.1.treeSize → a = b))

/-- A stored dump is read back. -/
theorem readBody_dump {readInt : ReadInt} (hint : readInt.Sound) {cp : Checkpoint}
    (hcp : Valid cp) : readBody readInt (some cp.dump) = .ok (some (asJson cp)) := by
  rw [readBody, modelValidate_dump hint hcp]
  rfl

/-- Paths tell tree sizes apart. -/
theorem LocalCheckpointStore.path_injective (s : LocalCheckpointStore) :
    Function.Injective s.path := by
  intro m n h
  rw [path, path, List.append_right_inj] at h
  exact fileName_injective h

/-- Keys tell tree sizes apart. -/
theorem S3CheckpointStore.key_injective (s : S3CheckpointStore) : Function.Injective s.key := by
  intro m n h
  rw [key, key, List.append_right_inj] at h
  exact fileName_injective h

/-- The directory shows the file that was written last. -/
theorem LocalCheckpointStore.showsLast {readInt : ReadInt} (hint : readInt.Sound) :
    Keyed.ShowsLast (fun (s : LocalCheckpointStore) (cp : ValidCheckpoint) => (s.put cp.1).2)
      (fun s => s.get readInt) (·.1.treeSize) (fun cp => .ok (some (asJson cp.1))) := by
  intro s cp n
  change readBody readInt (((s.path cp.1.treeSize, cp.1.dump) ::
    s.files.filter fun file => file.1 ≠ s.path cp.1.treeSize).lookup (s.path n)) = _
  by_cases hn : n = cp.1.treeSize
  · rw [if_pos hn, hn, List.lookup_cons_self, readBody_dump hint cp.2]
  · have hne : s.path n ≠ s.path cp.1.treeSize := fun h => hn (s.path_injective h)
    rw [if_neg hn, List.lookup_cons, beq_false_of_ne hne,
      lookup_filter_of (p := fun file => file ≠ s.path cp.1.treeSize) (decide_eq_true hne)]
    rfl

/-- The bucket shows the newest version. -/
theorem S3CheckpointStore.showsLast {readInt : ReadInt} (hint : readInt.Sound) :
    Keyed.ShowsLast
      (fun (s : S3CheckpointStore) (p : Int × ValidCheckpoint) => (s.put p.1 p.2.1).2)
      (fun s => s.get readInt) (·.2.1.treeSize) (fun p => .ok (some (asJson p.2.1))) := by
  intro s p n
  change readBody readInt ((((s.key p.2.1.treeSize, s.object p.1 p.2.1) :: s.objects).lookup
    (s.key n)).map (·.body)) = _
  by_cases hn : n = p.2.1.treeSize
  · rw [if_pos hn, hn, List.lookup_cons_self]
    exact readBody_dump hint p.2.2
  · have hne : s.key n ≠ s.key p.2.1.treeSize := fun h => hn (s.key_injective h)
    rw [if_neg hn, List.lookup_cons, beq_false_of_ne hne]
    rfl

/-- **Both stores keep what is put into them** exactly where it is made of JSON values and the
history has one head for each size. -/
theorem stores_kept_iff {readInt : ReadInt} (hint : readInt.Sound) (l : LocalCheckpointStore)
    (s : S3CheckpointStore) (cps : List ValidCheckpoint) (puts : List (Int × ValidCheckpoint)) :
    (l.Keeps readInt cps ↔ JsonFields cps ∧ OneHeadPerSize cps) ∧
      (s.Keeps readInt puts ↔
        JsonFields (puts.map (·.2)) ∧ OneHeadPerSize (puts.map (·.2))) := by
  have hanswer : ∀ a b : ValidCheckpoint,
      (Except.ok (some a.1) : Except PyErr (Option Checkpoint)) = .ok (some b.1) ↔ a = b :=
    fun a b => by rw [Except.ok.injEq, Option.some.injEq, Subtype.ext_iff]
  constructor
  · rw [LocalCheckpointStore.Keeps, Keyed.kept_iff (LocalCheckpointStore.showsLast hint)]
    simp only [hanswer, Except.ok.injEq, Option.some.injEq]
    rfl
  · rw [S3CheckpointStore.Keeps, Keyed.kept_iff (S3CheckpointStore.showsLast hint), JsonFields,
      OneHeadPerSize, List.forall_mem_map, List.pairwise_map]
    simp only [hanswer, Except.ok.injEq, Option.some.injEq]

/-- An integer field that takes integers only. -/
def sampleReadInt : ReadInt
  | .int z => some z
  | _ => none

/-- A signed head of size one, with the shards of a sharded log. -/
def sampleStored : ValidCheckpoint :=
  ⟨{ sampleHead 1 [1] [2] with extra := [(lit "shards", .list [])] }, by decide⟩

/-- Another signed head of size one. -/
def sampleFork : ValidCheckpoint := ⟨sampleHead 1 [3] [4], by decide⟩

/-- Putting one head twice keeps it. -/
theorem stores_kept_iff_sample :
    LocalCheckpointStore.Keeps sampleReadInt { dir := lit "cps" } [sampleStored, sampleStored] :=
  (stores_kept_iff (fun _ => rfl) _
    { bucket := lit "b", keyPrefix := [], objectLockMode := none, retention := none,
      retained := nofun } [sampleStored, sampleStored] []).1.mpr
    ⟨by decide +kernel, by decide +kernel⟩

/-- **A second head of one size replaces the first**, in the directory and under an object lock. -/
theorem stores_not_kept :
    (¬ LocalCheckpointStore.Keeps sampleReadInt { dir := lit "cps" } [sampleStored, sampleFork]) ∧
    ¬ S3CheckpointStore.Keeps sampleReadInt
        { bucket := lit "b", keyPrefix := lit "p", objectLockMode := some (lit "COMPLIANCE"),
          retention := some 1, retained := fun _ => rfl } [(0, sampleStored), (0, sampleFork)] := by
  constructor
  · intro h
    exact absurd (h [] sampleStored [sampleFork] (List.prefix_refl _)) (by decide +kernel)
  · intro h
    exact absurd (h [] (0, sampleStored) [(0, sampleFork)] (List.prefix_refl _)) (by decide +kernel)

/-! ## The scheduler -/

/-- `CheckpointScheduler`, between two ticks. -/
structure CheckpointScheduler where
  skipIfUnchanged : Bool := true
  lastSize : Option Int := none
  count : Nat := 0

namespace CheckpointScheduler

/-- The scheduler when a checkpoint has been put into the store. -/
def stored (s : CheckpointScheduler) (cp : ValidCheckpoint) : CheckpointScheduler :=
  { s with lastSize := some cp.1.treeSize, count := s.count + 1 }

/-- `tick` with the checkpoint that the ledger signed: what is put into the store, if anything. -/
def tick (s : CheckpointScheduler) (cp : ValidCheckpoint) :
    Option ValidCheckpoint × CheckpointScheduler :=
  if s.skipIfUnchanged ∧ s.lastSize = some cp.1.treeSize then (none, s)
  else (some cp, s.stored cp)

/-- What a scheduler puts into the store, tick after tick. -/
def puts : CheckpointScheduler → List ValidCheckpoint → List ValidCheckpoint
  | _, [] => []
  | s, cp :: cps => (s.tick cp).1.toList ++ (s.tick cp).2.puts cps

/-- No head is put that is not larger than the last one, if the log does not shrink. -/
theorem puts_increasing {s : CheckpointScheduler} (hskip : s.skipIfUnchanged = true)
    {cps : List ValidCheckpoint} (hgrows : cps.Pairwise fun a b => a.1.treeSize ≤ b.1.treeSize)
    (hlast : ∀ n, s.lastSize = some n → ∀ cp ∈ cps, n ≤ cp.1.treeSize) :
    (s.puts cps).Pairwise (fun a b => a.1.treeSize < b.1.treeSize) ∧
      ∀ n, s.lastSize = some n → ∀ cp ∈ s.puts cps, n < cp.1.treeSize := by
  induction cps generalizing s with
  | nil => exact ⟨List.Pairwise.nil, fun n _ cp hcp => absurd hcp List.not_mem_nil⟩
  | cons cp cps ih =>
      rw [List.pairwise_cons] at hgrows
      by_cases hsize : s.lastSize = some cp.1.treeSize
      · -- the tick is skipped
        have htick : s.tick cp = (none, s) := if_pos ⟨hskip, hsize⟩
        rw [puts, htick]
        exact ih hskip hgrows.2 fun n hn c hc => hlast n hn c (List.mem_cons_of_mem cp hc)
      · have htick : s.tick cp = (some cp, s.stored cp) := if_neg fun h => hsize h.2
        -- the head is stored, and no later one is smaller
        have hnext : ∀ n, (s.stored cp).lastSize = some n → ∀ c ∈ cps, n ≤ c.1.treeSize := by
          intro n hn c hc
          rw [← Option.some.inj hn]
          exact hgrows.1 c hc
        obtain ⟨hpairwise, hlarger⟩ := @ih (s.stored cp) hskip hgrows.2 hnext
        have hlarger' := hlarger cp.1.treeSize rfl
        rw [puts, htick]
        constructor
        · exact List.pairwise_cons.mpr ⟨hlarger', hpairwise⟩
        -- the head is larger than the last one, and what is put after it larger still
        · intro n hn c hc
          have hcp : n < cp.1.treeSize :=
            lt_of_le_of_ne (hlast n hn cp List.mem_cons_self) fun h => hsize (h ▸ hn)
          rcases List.mem_cons.mp hc with rfl | hc
          · exact hcp
          · exact hcp.trans (hlarger' c hc)

/-- **One run of the scheduler puts one head for each size**; it is a second run that starts at the
size the first one ended at that puts another. -/
theorem oneHeadPerSize_puts {s : CheckpointScheduler} (hskip : s.skipIfUnchanged = true)
    (hlast : s.lastSize = none) {cps : List ValidCheckpoint}
    (hgrows : cps.Pairwise fun a b => a.1.treeSize ≤ b.1.treeSize) : OneHeadPerSize (s.puts cps) := by
  have hnone : ∀ n, s.lastSize = some n → ∀ cp ∈ cps, n ≤ cp.1.treeSize := by
    intro n hn
    rw [hlast] at hn
    cases hn
  exact (puts_increasing hskip hgrows hnone).1.imp fun hlt heq => absurd heq hlt.ne

end CheckpointScheduler

end OpenWright.CheckpointStore
