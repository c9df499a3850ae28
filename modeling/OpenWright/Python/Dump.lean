import OpenWright.Canonical

/-! # JSON-mode dumps

What `model_dump(mode="json")` makes of a value, the entries of a dictionary, with those that are
bound to `None` and without them, and the keys of a dictionary, which are distinct in Python.

* **`plain_of_clean_of_jsonMode`** — a dump that has canonical bytes consists of plain JSON values. -/

namespace OpenWright.Python.Val

/-! ## JSON mode -/

mutual
/-- The JSON-mode dump of a value: tuples are dumped as lists. -/
def jsonMode : Val → Val
  | .list vs => .list (jsonModeList vs)
  | .tuple vs => .list (jsonModeList vs)
  | .dict kvs => .dict (jsonModeItems kvs)
  | v => v

/-- `jsonMode`, elementwise. -/
def jsonModeList : List Val → List Val
  | [] => []
  | v :: vs => jsonMode v :: jsonModeList vs

/-- `jsonMode`, itemwise. -/
def jsonModeItems : Items → Items
  | [] => []
  | (k, v) :: kvs => (k, jsonMode v) :: jsonModeItems kvs
end

/-- JSON mode of a dictionary is that of its values. -/
theorem jsonModeItems_eq_map (kvs : Items) :
    jsonModeItems kvs = kvs.map fun kv => (kv.1, jsonMode kv.2) := by
  induction kvs with
  | nil => rfl
  | cons kv kvs ih => rw [jsonModeItems, List.map_cons, ih]

/-- Only null is null in JSON mode. -/
@[simp] theorem jsonMode_eq_null {v : Val} : jsonMode v = .null ↔ v = .null := by
  cases v <;> simp [jsonMode]

/-! ## Null entries and distinct keys -/

mutual
/-- No dictionary inside binds a key to `None`. -/
def nullFree : Val → Bool
  | .list vs => nullFreeList vs
  | .tuple vs => nullFreeList vs
  | .dict kvs => nullFreeItems kvs
  | _ => true

/-- `nullFree`, elementwise. -/
def nullFreeList : List Val → Bool
  | [] => true
  | v :: vs => nullFree v && nullFreeList vs

/-- No value is `None`, and none has a null entry inside. -/
def nullFreeItems : Items → Bool
  | [] => true
  | (_, v) :: kvs => decide (v ≠ .null) && nullFree v && nullFreeItems kvs
end

mutual
/-- The keys of every dictionary inside are distinct, as they are in Python. -/
def distinct : Val → Bool
  | .list vs => distinctList vs
  | .tuple vs => distinctList vs
  | .dict kvs => decide (kvs.map Prod.fst).Nodup && distinctItems kvs
  | _ => true

/-- `distinct`, elementwise. -/
def distinctList : List Val → Bool
  | [] => true
  | v :: vs => distinct v && distinctList vs

/-- `distinct`, itemwise. -/
def distinctItems : Items → Bool
  | [] => true
  | (_, v) :: kvs => distinct v && distinctItems kvs
end

/-- The keys in a dictionary are distinct where they are in each value. -/
theorem distinctItems_iff {kvs : Items} :
    distinctItems kvs = true ↔ ∀ kv ∈ kvs, distinct kv.2 = true := by
  induction kvs with
  | nil => simp [distinctItems]
  | cons kv kvs ih => rw [distinctItems, Bool.and_eq_true, ih, List.forall_mem_cons]

/-- The keys in a list are distinct where they are in each element. -/
theorem distinctList_iff {vs : List Val} :
    distinctList vs = true ↔ ∀ v ∈ vs, distinct v = true := by
  induction vs with
  | nil => simp [distinctList]
  | cons v vs ih => rw [distinctList, Bool.and_eq_true, ih, List.forall_mem_cons]

/-- The keys of a dictionary are distinct, and those in its values. -/
theorem distinct_dict {kvs : Items} :
    distinct (.dict kvs) = true ↔
      (kvs.map Prod.fst).Nodup ∧ ∀ kv ∈ kvs, distinct kv.2 = true := by
  rw [distinct, Bool.and_eq_true, decide_eq_true_eq, distinctItems_iff]

/-! ## Entries -/

/-- `v.get(k)` where a value that is no dictionary has no entries. -/
def entry (k : Str) (v : Val) : Val := (v.item? k).getD .null

/-- The entry of a dictionary. -/
@[simp] theorem entry_dict (k : Str) (kvs : Items) :
    entry k (.dict kvs) = (kvs.lookup k).getD .null := rfl

/-- What a key is bound to when the null entries are filtered out. -/
theorem lookup_filter_ne_null {kvs : Items} (h : (kvs.map Prod.fst).Nodup) (k : Str) :
    ((kvs.filter fun kv => kv.2 ≠ .null).lookup k).getD .null = (kvs.lookup k).getD .null := by
  induction kvs with
  | nil => rfl
  | cons kv kvs ih =>
      obtain ⟨l, v⟩ := kv
      rw [List.map_cons, List.nodup_cons] at h
      rw [List.filter_cons, List.lookup_cons]
      by_cases hkl : k = l
      · subst hkl
        rw [beq_self_eq_true]
        by_cases hnull : v = .null
        · -- no other entry has the key
          have hnone : (kvs.filter fun kv => kv.2 ≠ .null).lookup k = none := by
            refine List.lookup_eq_none_iff.mpr fun kv hkv => bne_iff_ne.mpr fun heq => h.1 ?_
            exact List.mem_map.mpr ⟨kv, List.mem_of_mem_filter hkv, heq.symm⟩
          rw [if_neg (by simp [hnull]), hnone, hnull]
          rfl
        · rw [if_pos (by simp [hnull]), List.lookup_cons_self]
      · rw [beq_false_of_ne hkl]
        split
        · rw [List.lookup_cons, beq_false_of_ne hkl]
          exact ih h.2
        · exact ih h.2

/-- An option of a value, changed so that `None` stays `None`. -/
theorem getD_map_null {f : Val → Val} (hf : f .null = .null) (o : Option Val) :
    (o.map f).getD .null = f (o.getD .null) := by
  cases o with
  | none => exact hf.symm
  | some v => rfl

/-- The entries of the key are the keys of the entries. -/
theorem entry_key (v : Val) (k : Str) : entry k (key v) = key (entry k v) := by
  rw [entry, item?_key, getD_map_null (f := key) rfl, entry]

/-- The entries of the dump are the dumps of the entries. -/
theorem entry_jsonMode (v : Val) (k : Str) : entry k (jsonMode v) = jsonMode (entry k v) := by
  cases v with
  | dict kvs =>
      rw [jsonMode, entry_dict, jsonModeItems_eq_map, lookup_map_snd,
        getD_map_null (f := jsonMode) rfl, entry_dict]
  | _ => rfl

/-- The entries of a value with distinct keys have distinct keys. -/
theorem distinct_entry {v : Val} (h : distinct v = true) (k : Str) :
    distinct (entry k v) = true := by
  cases v with
  | dict kvs =>
      rw [entry_dict]
      cases hlookup : kvs.lookup k with
      | none => rfl
      | some w => exact (distinct_dict.mp h).2 _ (mem_of_lookup hlookup)
  | _ => rfl

mutual
/-- Dumping keeps keys distinct. -/
theorem distinct_jsonMode : ∀ {v : Val}, distinct v = true → distinct (jsonMode v) = true
  | .null, _ | .bool _, _ | .int _, _ | .float _, _ | .str _, _ => rfl
  | .list vs, h => distinctList_jsonModeList h
  | .tuple vs, h => distinctList_jsonModeList h
  | .dict kvs, h => by
      rw [distinct, Bool.and_eq_true, decide_eq_true_eq] at h
      have hkeys : (jsonModeItems kvs).map Prod.fst = kvs.map Prod.fst := by
        rw [jsonModeItems_eq_map, List.map_map]
        rfl
      rw [jsonMode, distinct, hkeys, Bool.and_eq_true, decide_eq_true_eq]
      exact ⟨h.1, distinctItems_jsonModeItems h.2⟩

/-- The same of lists. -/
theorem distinctList_jsonModeList : ∀ {vs : List Val}, distinctList vs = true →
    distinctList (jsonModeList vs) = true
  | [], _ => rfl
  | v :: vs, h => by
      rw [distinctList, Bool.and_eq_true] at h
      rw [jsonModeList, distinctList, distinct_jsonMode h.1, distinctList_jsonModeList h.2]
      rfl

/-- The same of dictionaries. -/
theorem distinctItems_jsonModeItems : ∀ {kvs : Items}, distinctItems kvs = true →
    distinctItems (jsonModeItems kvs) = true
  | [], _ => rfl
  | (k, v) :: kvs, h => by
      rw [distinctItems, Bool.and_eq_true] at h
      rw [jsonModeItems, distinctItems, distinct_jsonMode h.1, distinctItems_jsonModeItems h.2]
      rfl
end

/-! ## Sorted dictionaries -/

mutual
/-- Sorting the dictionaries inside does not change the key. -/
@[simp] theorem key_sorted : ∀ v : Val, key (Json.sorted v) = key v
  | .null | .bool _ | .int _ | .float _ | .str _ => rfl
  | .list vs => by rw [Json.sorted, key, key, keyList_sortedList vs]
  | .tuple vs => by rw [Json.sorted, key, key, keyList_sortedList vs]
  | .dict kvs => by
      rw [Json.sorted, key, key, keyItems_eq_map, ← sortKeys_map key, ← keyItems_eq_map,
        sortKeys_sortKeys, keyItems_sortedItems kvs]

/-- The same of lists. -/
theorem keyList_sortedList : ∀ vs : List Val, keyList (Json.sortedList vs) = keyList vs
  | [] => rfl
  | v :: vs => by rw [Json.sortedList, keyList, keyList, key_sorted v, keyList_sortedList vs]

/-- The same of dictionaries. -/
theorem keyItems_sortedItems : ∀ kvs : Items, keyItems (Json.sortedItems kvs) = keyItems kvs
  | [] => rfl
  | (k, v) :: kvs => by rw [Json.sortedItems, keyItems, keyItems, key_sorted v, keyItems_sortedItems kvs]
end

/-! ## Values that dump as themselves -/

/-- A dictionary dumps as itself where its values do. -/
theorem jsonMode_dict_eq {kvs : Items} :
    jsonMode (.dict kvs) = .dict kvs ↔ ∀ kv ∈ kvs, jsonMode kv.2 = kv.2 := by
  rw [jsonMode, dict.injEq]
  induction kvs with
  | nil => simp [jsonModeItems]
  | cons kv kvs ih =>
      rw [jsonModeItems, List.cons.injEq, ih, List.forall_mem_cons, Prod.ext_iff]
      simp

/-- A list dumps as itself where its elements do. -/
theorem jsonMode_list_eq {vs : List Val} :
    jsonMode (.list vs) = .list vs ↔ ∀ v ∈ vs, jsonMode v = v := by
  rw [jsonMode, list.injEq]
  induction vs with
  | nil => simp [jsonModeList]
  | cons v vs ih => rw [jsonModeList, List.cons.injEq, ih, List.forall_mem_cons]

mutual
/-- A dump dumps as itself. -/
@[simp] theorem jsonMode_jsonMode : ∀ v : Val, jsonMode (jsonMode v) = jsonMode v
  | .null | .bool _ | .int _ | .float _ | .str _ => rfl
  | .list vs => congrArg Val.list (jsonModeList_jsonModeList vs)
  | .tuple vs => congrArg Val.list (jsonModeList_jsonModeList vs)
  | .dict kvs => congrArg Val.dict (jsonModeItems_jsonModeItems kvs)

/-- The same of lists. -/
theorem jsonModeList_jsonModeList : ∀ vs : List Val,
    jsonModeList (jsonModeList vs) = jsonModeList vs
  | [] => rfl
  | v :: vs => by rw [jsonModeList, jsonModeList, jsonMode_jsonMode v, jsonModeList_jsonModeList vs]

/-- The same of dictionaries. -/
theorem jsonModeItems_jsonModeItems : ∀ kvs : Items,
    jsonModeItems (jsonModeItems kvs) = jsonModeItems kvs
  | [] => rfl
  | (k, v) :: kvs => by
      rw [jsonModeItems, jsonModeItems, jsonMode_jsonMode v, jsonModeItems_jsonModeItems kvs]
end

/-- The entries of a value that dumps as itself do so too. -/
theorem jsonMode_entry {v : Val} (h : jsonMode v = v) (k : Str) :
    jsonMode (entry k v) = entry k v := by
  rw [← entry_jsonMode, h]

mutual
/-- What can be cleaned has no floats, and what dumps as itself has no tuples. -/
theorem plain_of_clean_of_jsonMode : ∀ {v w : Val}, Canonical.clean v = .ok w → jsonMode v = v →
    Json.Plain v
  | .null, _, _, _ | .bool _, _, _, _ | .int _, _, _, _ | .str _, _, _, _ => trivial
  | .float _, _, h, _ => by rw [Canonical.clean] at h; cases h
  | .tuple vs, _, _, h => by rw [jsonMode] at h; cases h
  | .list vs, _, h, hjson => by
      rw [Canonical.clean] at h
      obtain ⟨ws, hws, -⟩ := bind_eq_ok.mp h
      rw [jsonMode, list.injEq] at hjson
      exact plainList_of_cleanList hws hjson
  | .dict kvs, _, h, hjson => by
      rw [Canonical.clean] at h
      obtain ⟨out, hout, -⟩ := bind_eq_ok.mp h
      rw [jsonMode, dict.injEq] at hjson
      exact plainItems_of_cleanItems hout hjson

/-- The same of lists. -/
theorem plainList_of_cleanList : ∀ {vs ws : List Val}, Canonical.cleanList vs = .ok ws →
    jsonModeList vs = vs → Json.PlainList vs
  | [], _, _, _ => trivial
  | v :: vs, _, h, hjson => by
      obtain ⟨w, us, hw, hus, -⟩ := Canonical.cleanList_cons_ok h
      rw [jsonModeList, List.cons.injEq] at hjson
      exact ⟨plain_of_clean_of_jsonMode hw hjson.1, plainList_of_cleanList hus hjson.2⟩

/-- The same of dictionaries. -/
theorem plainItems_of_cleanItems : ∀ {kvs out : Items}, Canonical.cleanItems kvs = .ok out →
    jsonModeItems kvs = kvs → Json.PlainItems kvs
  | [], _, _, _ => trivial
  | (k, v) :: kvs, _, h, hjson => by
      obtain ⟨rest, hrest, hv⟩ := Canonical.cleanItems_cons_ok h
      rw [jsonModeItems, List.cons.injEq, Prod.mk.injEq] at hjson
      refine ⟨?_, plainItems_of_cleanItems hrest hjson.2⟩
      rcases hv with ⟨rfl, -⟩ | ⟨-, w, hw, -⟩
      · trivial
      · exact plain_of_clean_of_jsonMode hw hjson.1.2
end

end OpenWright.Python.Val
