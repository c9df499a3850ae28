import OpenWright.CheckpointStore

/-! # The newest checkpoint

The object store tells which tree sizes it holds from the keys it lists. A listing comes in pages, in
the order of the keys, and the sizes are padded with zeros so that this is the order of the sizes; but
only the first page is read.

* **`findsNewest_iff`** — the sizes are complete, and the latest checkpoint is the newest, exactly where
  one page holds all keys. -/

namespace OpenWright.CheckpointStore

open Python Python.Val Canonical Signing

/-! ## Listing -/

/-- `s.replace(sub, "")`, where `skip` more characters belong to a `sub` that was found. -/
def removeAll (sub : Str) : Nat → Str → Str
  | _, [] => []
  | skip + 1, _ :: s => removeAll sub skip s
  | 0, c :: s =>
    if sub.isPrefixOf (c :: s) then removeAll sub (sub.length - 1) s else c :: removeAll sub 0 s

/-- The tree size in the name of an object. -/
def sizeOfKey (key : Str) : Except PyErr Int :=
  let stem := removeAll (lit ".json") 0 (afterLast (cp 47) key)
  match (split (cp 45) stem)[1]? with
  | some digits => (Val.str digits).toInt
  | none => .error { kind := .indexError }

namespace S3CheckpointStore

/-- The number of keys in a page of a listing. -/
def pageSize : Nat := 1000

/-- All keys of the bucket with a prefix, in order. -/
def keysWith (s : S3CheckpointStore) (start : Str) : List Str :=
  ((s.objects.map (·.1)).filter (start.isPrefixOf ·)).dedup.insertionSort (· ≤ ·)

/-- `list_objects_v2` without a continuation token. -/
def listObjectsV2 (s : S3CheckpointStore) (start : Str) : List Str := (s.keysWith start).take pageSize

/-- `tree_sizes`. -/
def treeSizes (s : S3CheckpointStore) : Except PyErr (List Int) := do
  let sizes ← (s.listObjectsV2 (s.keyPrefix ++ lit "/checkpoint-")).mapM sizeOfKey
  return sizes.insertionSort (· ≤ ·)

/-- `latest`. -/
def latest (readInt : ReadInt) (s : S3CheckpointStore) : Except PyErr (Option Checkpoint) := do
  let sizes ← s.treeSizes
  match sizes.max? with
  | none => return none
  | some n => s.get readInt n

/-- The store after a history of puts. -/
def run (s : S3CheckpointStore) (puts : List (Int × ValidCheckpoint)) : S3CheckpointStore :=
  Keyed.run (fun s p => (s.put p.1 p.2.1).2) s puts

end S3CheckpointStore

/-- The sizes of a history of puts. -/
def sizesOf (puts : List (Int × ValidCheckpoint)) : List Int := puts.map (·.2.1.treeSize)

/-- After a history of puts the sizes are those of the history in order, and the latest checkpoint is
one of the largest size, as JSON has it. -/
structure FindsNewest (readInt : ReadInt) (s : S3CheckpointStore) (puts : List (Int × ValidCheckpoint)) :
    Prop where
  treeSizes : (s.run puts).treeSizes = .ok ((sizesOf puts).dedup.insertionSort (· ≤ ·))
  latest : ∃ p ∈ puts, (∀ q ∈ puts, q.2.1.treeSize ≤ p.2.1.treeSize) ∧
    (s.run puts).latest readInt = .ok (some (asJson p.2.1))

/-! ## Keys and sizes -/

/-- Twelve digits denote a size. -/
theorem padded_spec {n : Int} (hpos : 0 ≤ n) (h : n < 10 ^ 12) :
    (∀ c ∈ padded n, Json.isDigit c = true) ∧ (padded n).length = 12 ∧
      (Json.natOf (padded n) : Int) = n :=
  zeroPadded_spec hpos h

/-- The sizes that twelve digits hold. -/
def TwelveDigits (n : Int) : Prop := 0 ≤ n ∧ n < 10 ^ 12

instance (n : Int) : Decidable (TwelveDigits n) := instDecidableAnd

/-- **The order of keys is the order of sizes.** -/
theorem S3CheckpointStore.key_le_iff (s : S3CheckpointStore) {m n : Int} (hm : TwelveDigits m)
    (hn : TwelveDigits n) : s.key m ≤ s.key n ↔ m ≤ n := by
  have hlt : ∀ {m n : Int}, TwelveDigits m → TwelveDigits n → m < n → s.key m < s.key n := by
    intro m n hm hn hlt
    have hlength := (padded_spec hm.1 hm.2).2.1
    have hlength' := (padded_spec hn.1 hn.2).2.1
    have hpadded : padded m < padded n := zeroPadded_lt hm.1 hlt hn.2
    rw [key, key, fileName, fileName]
    refine List.append_left_lt ?_
    rw [List.append_assoc, List.append_assoc]
    refine List.append_left_lt ?_
    exact append_lt_append (hlength.trans hlength'.symm) hpadded _ _
  constructor
  · intro h
    by_contra hlt'
    exact absurd (hlt hn hm (by omega)) (not_lt.mpr h)
  · intro h
    rcases h.lt_or_eq with hlt' | rfl
    · exact (hlt hm hn hlt').le
    · exact le_refl _

/-- A digit of ASCII has its value, and is no space. -/
theorem decimalValue_digit : ∀ d < 10, decimalValue (cp (48 + d)) = some d ∧
    Val.isIntSpace (cp (48 + d)) = false := by
  decide

/-- Digits are read as the number they denote. -/
theorem readInt_digits {ds : Str} (h : ∀ c ∈ ds, Json.isDigit c = true) (hne : ds ≠ []) :
    readInt ds = some ((Json.natOf ds : Nat) : Int) := by
  -- a digit is one of the ten code points from 48 on
  have hdigit : ∀ c ∈ ds, ∃ d < 10, c = cp (48 + d) := by
    intro c hc
    have hrange : 48 ≤ c.val ∧ c.val < 58 := by simpa [Json.isDigit] using h c hc
    refine ⟨c.val - 48, by omega, Fin.ext ?_⟩
    have hval : (cp (48 + (c.val - 48))).val = 48 + (c.val - 48) := Nat.mod_eq_of_lt (by omega)
    omega
  -- no digit is white space, so nothing is stripped at either end
  have hspace : ∀ c ∈ ds, Val.isIntSpace c = false := by
    intro c hc
    obtain ⟨d, hd, rfl⟩ := hdigit c hc
    exact (decimalValue_digit d hd).2
  have hread : ∀ {ds : Str}, (∀ c ∈ ds, ∃ d < 10, c = cp (48 + d)) → ∀ acc,
      readDigits acc true ds = some (ds.foldl (fun n c => 10 * n + (c.val - 48)) acc) := by
    intro ds
    induction ds with
    | nil => exact fun _ acc => rfl
    | cons c ds ih =>
        intro hdigit acc
        rw [List.forall_mem_cons] at hdigit
        obtain ⟨d, hd, rfl⟩ := hdigit.1
        rw [readDigits, (decimalValue_digit d hd).1, List.foldl_cons, (Json.digit_spec d hd).2]
        exact ih hdigit.2 _
  have hdrop : ∀ {ds : Str}, (∀ c ∈ ds, Val.isIntSpace c = false) →
      ds.dropWhile Val.isIntSpace = ds := by
    intro ds hspace
    cases ds with
    | nil => rfl
    | cons c ds => rw [List.dropWhile_cons, if_neg (by simp [hspace c List.mem_cons_self])]
  rw [readInt, hdrop hspace, hdrop fun c hc => hspace c (List.mem_reverse.mp hc), List.reverse_reverse]
  -- the first code point decides the sign
  cases ds with
  | nil => exact absurd rfl hne
  | cons c ds =>
      rw [List.forall_mem_cons] at hdigit
      obtain ⟨d, hd, rfl⟩ := hdigit.1
      have hsign : ∀ d < 10, cp (48 + d) ≠ cp 45 ∧ cp (48 + d) ≠ cp 43 := by decide
      dsimp only
      rw [if_neg (hsign d hd).1, if_neg (hsign d hd).2, readDigits, (decimalValue_digit d hd).1,
        Json.natOf, List.foldl_cons, (Json.digit_spec d hd).2]
      dsimp only
      rw [hread hdigit.2]
      rfl

/-- A suffix that starts with a character the text has not got is removed. -/
theorem removeAll_append {c : CodePoint} {sub t : Str} (ht : c ∉ t) :
    removeAll (c :: sub) 0 (t ++ c :: sub) = t := by
  induction t with
  | nil =>
      have hskip : ∀ s : Str, removeAll (c :: sub) s.length s = [] := by
        intro s
        induction s with
        | nil => rfl
        | cons d s ih => exact ih
      rw [List.nil_append, removeAll, if_pos (by simp)]
      exact hskip sub
  | cons d t ih =>
      rw [List.mem_cons, not_or] at ht
      rw [List.cons_append, removeAll, if_neg (by simp [List.isPrefixOf, ht.1]), ih ht.2]

/-- Digits are no separators. -/
theorem not_mem_digits {ds : Str} (h : ∀ c ∈ ds, Json.isDigit c = true) {c : CodePoint}
    (hc : Json.isDigit c = false) : c ∉ ds := fun hmem => by rw [h c hmem] at hc; cases hc

/-- Text without a separator is one part. -/
theorem split_of_not_mem {sep : CodePoint} {s : Str} (h : sep ∉ s) : split sep s = [s] := by
  induction s with
  | nil => rfl
  | cons c s ih =>
      rw [List.mem_cons, not_or] at h
      rw [split, if_neg (Ne.symm h.1), ih h.2]

/-- **The size of a key** is read back from it. -/
theorem S3CheckpointStore.sizeOfKey_key (s : S3CheckpointStore) {n : Int} (h : TwelveDigits n) :
    sizeOfKey (s.key n) = .ok n := by
  obtain ⟨hdigits, hlength, hval⟩ := padded_spec h.1 h.2
  -- no slash is in the name, so it is what follows the last slash of the key
  have hslash : cp 47 ∉ fileName n := by
    have := not_mem_digits hdigits (show Json.isDigit (cp 47) = false by decide)
    rw [fileName, List.mem_append, List.mem_append, not_or, not_or]
    exact ⟨⟨by decide, this⟩, by decide⟩
  have hkey : s.key n = s.keyPrefix ++ cp 47 :: fileName n := by
    rw [key, List.append_assoc]
    rfl
  -- `.json` can only be found at the end, where the dot is
  have hdot : cp 46 ∉ lit "checkpoint-" ++ padded n := by
    have := not_mem_digits hdigits (show Json.isDigit (cp 46) = false by decide)
    rw [List.mem_append, not_or]
    exact ⟨by decide, this⟩
  have hstem : removeAll (lit ".json") 0 (fileName n) = lit "checkpoint-" ++ padded n :=
    removeAll_append hdot
  -- one dash is left, the one before the number
  have hdash := not_mem_digits hdigits (show Json.isDigit (cp 45) = false by decide)
  have hsplit : split (cp 45) (lit "checkpoint-" ++ padded n) = [lit "checkpoint", padded n] := by
    have hparts : ∀ {t : Str}, cp 45 ∉ t →
        split (cp 45) (t ++ cp 45 :: padded n) = [t, padded n] := by
      intro t ht
      induction t with
      | nil => rw [List.nil_append, split, if_pos rfl, split_of_not_mem hdash]
      | cons c t ih =>
          rw [List.mem_cons, not_or] at ht
          rw [List.cons_append, split, if_neg (Ne.symm ht.1), ih ht.2]
    exact hparts (t := lit "checkpoint") (by decide)
  have hne : padded n ≠ [] := fun hnil => by rw [hnil] at hlength; cases hlength
  rw [sizeOfKey, hkey, afterLast_append _ hslash, hstem, hsplit]
  change (Val.str (padded n)).toInt = _
  rw [toInt, readInt_digits hdigits hne]
  exact congrArg Except.ok hval

/-! ## What is listed -/

variable {readInt : ReadInt} {s : S3CheckpointStore} {puts : List (Int × ValidCheckpoint)}

/-- A put changes neither the bucket nor the prefix, and adds the key of its size. -/
theorem S3CheckpointStore.run_spec (s : S3CheckpointStore) (puts : List (Int × ValidCheckpoint)) :
    (s.run puts).keyPrefix = s.keyPrefix ∧
      (s.run puts).objects.map (·.1) = (sizesOf puts).reverse.map s.key ++ s.objects.map (·.1) := by
  induction puts generalizing s with
  | nil => exact ⟨rfl, rfl⟩
  | cons p puts ih =>
      obtain ⟨hsame, hkeys⟩ := ih (s.put p.1 p.2.1).2
      have hkey : (s.put p.1 p.2.1).2.key = s.key := rfl
      refine ⟨hsame, hkeys.trans ?_⟩
      have hsizes : sizesOf (p :: puts) = p.2.1.treeSize :: sizesOf puts := rfl
      rw [hkey, hsizes, List.reverse_cons, List.map_append, List.append_assoc]
      rfl

/-- Sorted lists of the same elements are one list. -/
theorem insertionSort_eq_of_perm {xs ys : List Int} (h : xs.Perm ys) :
    xs.insertionSort (· ≤ ·) = ys.insertionSort (· ≤ ·) :=
  List.Perm.eq_of_pairwise (fun _ _ _ _ => le_antisymm) (List.pairwise_insertionSort _ _)
    (List.pairwise_insertionSort _ _)
    (((List.perm_insertionSort _ _).trans h).trans (List.perm_insertionSort _ _).symm)

/-- The keys under a prefix are none of those the store had before. -/
def Fresh (s : S3CheckpointStore) : Prop :=
  ∀ object ∈ s.objects, (s.keyPrefix ++ lit "/checkpoint-").isPrefixOf object.1 = false

/-- All keys under the prefix are those of the sizes, in the order of the sizes. -/
theorem S3CheckpointStore.keysWith_run (hfresh : Fresh s) (hsizes : ∀ n ∈ sizesOf puts, TwelveDigits n) :
    (s.run puts).keysWith (s.keyPrefix ++ lit "/checkpoint-")
      = ((sizesOf puts).dedup.insertionSort (· ≤ ·)).map s.key := by
  -- each key of the store is under its own prefix
  have hown : ∀ n, (s.keyPrefix ++ lit "/checkpoint-").isPrefixOf (s.key n) = true := by
    intro n
    rw [List.isPrefixOf_iff_prefix]
    refine ⟨padded n ++ lit ".json", ?_⟩
    have hname : lit "/" ++ lit "checkpoint-" = lit "/checkpoint-" := by decide
    rw [key, fileName, ← hname]
    simp only [List.append_assoc]
  have hfilter : ((s.run puts).objects.map (·.1)).filter
      ((s.keyPrefix ++ lit "/checkpoint-").isPrefixOf ·) = (sizesOf puts).reverse.map s.key := by
    rw [(s.run_spec puts).2, List.filter_append, List.filter_eq_self.mpr, List.filter_eq_nil_iff.mpr,
      List.append_nil]
    -- what was in the bucket before is not
    · intro k hk
      obtain ⟨object, hobject, rfl⟩ := List.mem_map.mp hk
      rw [hfresh object hobject]
      exact Bool.false_ne_true
    · intro k hk
      obtain ⟨n, -, rfl⟩ := List.mem_map.mp hk
      exact hown n
  -- keys of twelve digits sort as the sizes do
  have hsort : ((sizesOf puts).reverse.dedup.map s.key).insertionSort (· ≤ ·)
      = ((sizesOf puts).reverse.dedup.insertionSort (· ≤ ·)).map s.key :=
    (List.map_insertionSort (· ≤ ·) (· ≤ ·) s.key _ fun m hm n hn => by
      rw [List.mem_dedup, List.mem_reverse] at hm hn
      exact (s.key_le_iff (hsizes m hm) (hsizes n hn)).symm).symm
  rw [keysWith, hfilter, List.dedup_map_of_injective s.key_injective, hsort,
    insertionSort_eq_of_perm ((List.reverse_perm _).dedup)]

/-- **The sizes that are found** are the first page of the sizes in order. -/
theorem S3CheckpointStore.treeSizes_run (hfresh : Fresh s)
    (hsizes : ∀ n ∈ sizesOf puts, TwelveDigits n) : (s.run puts).treeSizes
      = .ok (((sizesOf puts).dedup.insertionSort (· ≤ ·)).take pageSize) := by
  have hread : ((((sizesOf puts).dedup.insertionSort (· ≤ ·)).take pageSize).map s.key).mapM sizeOfKey
      = .ok (((sizesOf puts).dedup.insertionSort (· ≤ ·)).take pageSize) := by
    rw [List.mapM_map]
    refine (mapM_eq_ok_map fun n hn => s.sizeOfKey_key (hsizes n ?_)).trans
      (congrArg Except.ok (List.map_id _))
    have hmem := List.mem_of_mem_take hn
    rwa [List.mem_insertionSort, List.mem_dedup] at hmem
  rw [treeSizes, (s.run_spec puts).1, listObjectsV2, keysWith_run hfresh hsizes, ← List.map_take]
  refine bind_eq_ok.mpr ⟨_, hread, congrArg Except.ok (List.Pairwise.insertionSort_eq ?_)⟩
  exact (List.pairwise_insertionSort _ _).sublist (List.take_sublist _ _)

/-- The newest checkpoint of the largest size is read. -/
theorem S3CheckpointStore.exists_get_run (hint : readInt.Sound) {n : Int} (hn : n ∈ sizesOf puts) :
    ∃ p ∈ puts, p.2.1.treeSize = n ∧ (s.run puts).get readInt n = .ok (some (asJson p.2.1)) :=
  Keyed.exists_get_run (S3CheckpointStore.showsLast hint) hn

/-- Sizes that are found fit into one page. -/
theorem length_le_of_findsNewest (hfresh : Fresh s) (hsizes : ∀ n ∈ sizesOf puts, TwelveDigits n)
    (h : FindsNewest readInt s puts) : (sizesOf puts).dedup.length ≤ 1000 := by
  have htake := congrArg List.length
    (Except.ok.inj ((S3CheckpointStore.treeSizes_run hfresh hsizes).symm.trans h.treeSizes))
  rw [List.length_take, List.length_insertionSort] at htake
  exact min_eq_right_iff.mp htake

/-- **The newest head is found** exactly where one page holds the keys of all sizes. -/
theorem findsNewest_iff (hint : readInt.Sound) (s : S3CheckpointStore) (hfresh : Fresh s)
    (puts : List (Int × ValidCheckpoint)) (hne : puts ≠ [])
    (hsizes : ∀ n ∈ sizesOf puts, TwelveDigits n) :
    FindsNewest readInt s puts ↔ (sizesOf puts).dedup.length ≤ 1000 := by
  constructor
  · exact length_le_of_findsNewest hfresh hsizes
  · intro hlength
    -- one page has all keys, so the listing is complete
    have htreeSizes := S3CheckpointStore.treeSizes_run hfresh hsizes
    rw [List.take_of_length_le (by rwa [List.length_insertionSort])] at htreeSizes
    refine ⟨htreeSizes, ?_⟩
    have hmem : ∀ {n : Int}, n ∈ (sizesOf puts).dedup.insertionSort (· ≤ ·) ↔ n ∈ sizesOf puts := by
      intro n
      rw [List.mem_insertionSort, List.mem_dedup]
    obtain ⟨n, hmax⟩ : ∃ n, ((sizesOf puts).dedup.insertionSort (· ≤ ·)).max? = some n := by
      rw [← Option.isSome_iff_exists, List.isSome_max?_iff]
      intro hnil
      obtain ⟨p, rest, rfl⟩ := List.exists_cons_of_ne_nil hne
      have hfirst := hmem.mpr (show p.2.1.treeSize ∈ sizesOf (p :: rest) from List.mem_cons_self)
      rw [hnil] at hfirst
      cases hfirst
    obtain ⟨hn, hlargest⟩ := List.max?_eq_some_iff.mp hmax
    obtain ⟨p, hp, hsize, hget⟩ := S3CheckpointStore.exists_get_run hint (hmem.mp hn)
    refine ⟨p, hp, fun q hq => ?_, ?_⟩
    · rw [hsize]
      exact hlargest _ (hmem.mpr (List.mem_map.mpr ⟨q, hq, rfl⟩))
    · rw [S3CheckpointStore.latest, htreeSizes]
      refine bind_eq_ok.mpr ⟨_, rfl, ?_⟩
      rw [hmax]
      exact hget

/-- A bucket without objects. -/
def sampleBucket : S3CheckpointStore where
  bucket := lit "b"
  keyPrefix := lit "p"
  objectLockMode := none
  retention := none
  retained := nofun

/-- A signed head of any size. -/
def headOfSize (n : Nat) : ValidCheckpoint :=
  ⟨{ sampleHead 1 [1] [2] with treeSize := n }, fun _ hkv => absurd hkv List.not_mem_nil⟩

/-- In a listing of the sizes 10 and 9 the newest head is found. -/
theorem findsNewest_iff_two :
    FindsNewest sampleReadInt sampleBucket [(0, headOfSize 10), (1, headOfSize 9)] :=
  (findsNewest_iff (fun _ => rfl) sampleBucket (fun _ h => absurd h List.not_mem_nil) _
    (List.cons_ne_nil _ _) (by decide)).mpr (by decide)

/-- The heads of a log that grew to a thousand events, from the empty one on. -/
def thousandHeads : List (Int × ValidCheckpoint) := (List.range 1001).map fun n => (0, headOfSize n)

/-- Their sizes. -/
theorem sizesOf_thousandHeads : sizesOf thousandHeads = (List.range 1001).map Int.ofNat := by
  rw [sizesOf, thousandHeads, List.map_map]
  rfl

/-- **The head after the first thousand is not found.** -/
theorem findsNewest_not : ¬∀ (readInt : ReadInt) (s : S3CheckpointStore)
    (puts : List (Int × ValidCheckpoint)), readInt.Sound → Fresh s → puts ≠ [] →
      (∀ n ∈ sizesOf puts, TwelveDigits n) → FindsNewest readInt s puts := by
  intro h
  have hfresh : Fresh sampleBucket := fun _ h => absurd h List.not_mem_nil
  have hsizes : ∀ n ∈ sizesOf thousandHeads, TwelveDigits n := by
    intro n hn
    rw [sizesOf_thousandHeads] at hn
    obtain ⟨k, hk, rfl⟩ := List.mem_map.mp hn
    rw [List.mem_range] at hk
    exact ⟨Int.natCast_nonneg k, by rw [Int.ofNat_eq_natCast]; omega⟩
  have hne : thousandHeads ≠ [] := by rw [thousandHeads, List.range_succ]; simp
  have hlength := length_le_of_findsNewest hfresh hsizes
    (h sampleReadInt sampleBucket thousandHeads (fun _ => rfl) hfresh hne hsizes)
  rw [sizesOf_thousandHeads, List.dedup_map_of_injective Int.ofNat_injective,
    List.nodup_range.dedup, List.length_map, List.length_range] at hlength
  omega

end OpenWright.CheckpointStore
