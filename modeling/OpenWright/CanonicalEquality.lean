import OpenWright.Python.JsonEq
import OpenWright.Python.Text

/-! # What canonical bytes identify

Canonical bytes stand for the content of a value: the JSON value that is left of it when its
null-valued entries are gone. Event ids, leaf hashes, crosswalk pins and signatures rest on this.

* **`canonicalBytes_eq_iff`** — canonical bytes are equal exactly where the contents are equal as
  JSON values, and a JSON parser reads the content back from them. -/

namespace OpenWright.Canonical

open Python Python.Val

/-! ## The content of a value with distinct keys -/

/-- The keys of the content of a dictionary are keys of the dictionary, in order. -/
theorem keys_stripItems_sublist (kvs : Items) :
    ((stripItems kvs).map Prod.fst).Sublist (kvs.map Prod.fst) := by
  induction kvs with
  | nil => exact List.Sublist.refl _
  | cons kv kvs ih =>
      rw [stripItems]
      split
      · exact ih.cons kv.1
      · exact ih.cons_cons kv.1

mutual
/-- Taking the content keeps keys distinct. -/
theorem distinct_strip : ∀ {v : Val}, distinct v = true → distinct (strip v) = true
  | .null, _ | .bool _, _ | .int _, _ | .float _, _ | .str _, _ => rfl
  | .list _, h => distinctList_stripList h
  | .tuple _, h => distinctList_stripList h
  | .dict kvs, h => by
      rw [distinct_dict, ← distinctItems_iff] at h
      rw [strip, distinct_dict, ← distinctItems_iff]
      exact ⟨h.1.sublist (keys_stripItems_sublist kvs), distinctItems_stripItems h.2⟩

/-- The same of lists. -/
theorem distinctList_stripList : ∀ {vs : List Val}, distinctList vs = true →
    distinctList (stripList vs) = true
  | [], _ => rfl
  | v :: vs, h => by
      rw [distinctList, Bool.and_eq_true] at h
      rw [stripList, distinctList, distinct_strip h.1, distinctList_stripList h.2]
      rfl

/-- The same of dictionaries. -/
theorem distinctItems_stripItems : ∀ {kvs : Items}, distinctItems kvs = true →
    distinctItems (stripItems kvs) = true
  | [], _ => rfl
  | (k, v) :: kvs, h => by
      rw [distinctItems, Bool.and_eq_true] at h
      rw [stripItems]
      split
      · exact distinctItems_stripItems h.2
      · rw [distinctItems, distinct_strip h.1, distinctItems_stripItems h.2]
        rfl
end

/-! ## Sorting twice -/

mutual
/-- Sorting a sorted value changes nothing. -/
theorem sorted_sorted : ∀ v : Val, Json.sorted (Json.sorted v) = Json.sorted v
  | .null | .bool _ | .int _ | .float _ | .str _ => rfl
  | .list vs => by rw [Json.sorted, Json.sorted, sortedList_sortedList vs]
  | .tuple vs => by rw [Json.sorted, Json.sorted, sortedList_sortedList vs]
  | .dict kvs => by
      rw [Json.sorted, Json.sorted, Json.sortedItems_eq_map, ← sortKeys_map Json.sorted,
        ← Json.sortedItems_eq_map, sortKeys_sortKeys, sortedItems_sortedItems kvs]

/-- The same of lists. -/
theorem sortedList_sortedList : ∀ vs : List Val,
    Json.sortedList (Json.sortedList vs) = Json.sortedList vs
  | [] => rfl
  | v :: vs => by rw [Json.sortedList, Json.sortedList, sorted_sorted v, sortedList_sortedList vs]

/-- The same of dictionaries. -/
theorem sortedItems_sortedItems : ∀ kvs : Items,
    Json.sortedItems (Json.sortedItems kvs) = Json.sortedItems kvs
  | [] => rfl
  | (k, v) :: kvs => by
      rw [Json.sortedItems, Json.sortedItems, sorted_sorted v, sortedItems_sortedItems kvs]
end

mutual
/-- Sorting keeps keys distinct. -/
theorem distinct_sorted : ∀ {v : Val}, distinct v = true → distinct (Json.sorted v) = true
  | .null, _ | .bool _, _ | .int _, _ | .float _, _ | .str _, _ => rfl
  | .list _, h => distinctList_sortedList h
  | .tuple _, h => distinctList_sortedList h
  | .dict kvs, h => by
      rw [distinct_dict] at h
      rw [Json.sorted, distinct_dict]
      constructor
      · have hkeys := (sortKeys_perm (Json.sortedItems kvs)).map Prod.fst
        exact hkeys.nodup_iff.mpr (keys_sortedItems kvs ▸ h.1)
      · intro kv hkv
        exact distinct_of_mem_sortedItems h.2 (mem_sortKeys.mp hkv)

/-- The same of lists. -/
theorem distinctList_sortedList : ∀ {vs : List Val}, distinctList vs = true →
    distinctList (Json.sortedList vs) = true
  | [], _ => rfl
  | v :: vs, h => by
      rw [distinctList, Bool.and_eq_true] at h
      rw [Json.sortedList, distinctList, distinct_sorted h.1, distinctList_sortedList h.2]
      rfl

/-- The values of a dictionary, which are sorted one by one. -/
theorem distinct_of_mem_sortedItems : ∀ {kvs : Items}, (∀ kv ∈ kvs, distinct kv.2 = true) →
    ∀ {kv : Str × Val}, kv ∈ Json.sortedItems kvs → distinct kv.2 = true
  | [], _, _, hkv => absurd hkv List.not_mem_nil
  | (k, v) :: kvs, h, kv, hkv => by
      rw [List.forall_mem_cons] at h
      rw [Json.sortedItems, List.mem_cons] at hkv
      rcases hkv with rfl | hkv
      · exact distinct_sorted h.1
      · exact distinct_of_mem_sortedItems h.2 hkv
end

/-! ## Contents of equal values -/

/-- The content of items is what is left of them, in order. -/
theorem stripItems_eq (kvs : Items) :
    stripItems kvs = (kvs.filter fun kv => kv.2 ≠ .null).map fun kv => (kv.1, strip kv.2) := by
  induction kvs with
  | nil => rfl
  | cons kv kvs ih =>
      rw [stripItems, List.filter_cons, ih]
      by_cases hnull : kv.2 = .null
      · rw [if_pos hnull, if_neg (by simp [hnull])]
      · rw [if_neg hnull, if_pos (by simp [hnull]), List.map_cons]

/-- A key bound to a value that is not null is bound to its content in the content. -/
theorem lookup_stripItems {k : Str} {v : Val} (hv : v ≠ .null) : ∀ {kvs : Items},
    kvs.lookup k = some v → (stripItems kvs).lookup k = some (strip v)
  | [], h => by cases h
  | (l, u) :: kvs, h => by
      by_cases hkl : k = l
      · rw [hkl, List.lookup_cons_self, Option.some.injEq] at h
        rw [stripItems, h, if_neg hv, hkl, List.lookup_cons_self]
      · rw [List.lookup_cons, beq_false_of_ne hkl] at h
        rw [stripItems]
        split
        · exact lookup_stripItems hv h
        · rw [List.lookup_cons, beq_false_of_ne hkl]
          exact lookup_stripItems hv h

/-- What a key is bound to in the content of items with distinct keys. -/
theorem exists_lookup_of_stripItems {kvs : Items} (h : (kvs.map Prod.fst).Nodup) {k : Str} {u : Val}
    (hu : (stripItems kvs).lookup k = some u) :
    ∃ v, kvs.lookup k = some v ∧ v ≠ .null ∧ u = strip v := by
  have hmem := mem_of_lookup hu
  rw [stripItems_eq, List.mem_map] at hmem
  obtain ⟨⟨l, v⟩, hl, heq⟩ := hmem
  obtain ⟨rfl, rfl⟩ := Prod.mk.inj heq
  obtain ⟨hmem, hnull⟩ := List.mem_filter.mp hl
  exact ⟨v, (lookup_eq_some_iff h).mpr hmem, of_decide_eq_true hnull, rfl⟩

/-- Dictionaries of one content bind each key to values of one content. -/
theorem SameContent.lookup {as bs : Items} (h : SameContent (.dict as) (.dict bs))
    (ha : (as.map Prod.fst).Nodup) (hb : (bs.map Prod.fst).Nodup) {k : Str} {v : Val}
    (hv : as.lookup k = some v) (hnull : v ≠ .null) :
    ∃ w, bs.lookup k = some w ∧ SameContent v w := by
  rw [SameContent, strip, strip, sorted_dict_eq_iff (ha.sublist (keys_stripItems_sublist as))
    (hb.sublist (keys_stripItems_sublist bs))] at h
  have hk := h k
  rw [lookup_stripItems hnull hv, Option.map_some, eq_comm, Option.map_eq_some_iff] at hk
  obtain ⟨u, hu, heq⟩ := hk
  obtain ⟨w, hw, -, rfl⟩ := exists_lookup_of_stripItems hb hu
  exact ⟨w, hw, heq.symm⟩

/-- Only `None` is sorted to `None`. -/
@[simp] theorem sorted_eq_null {v : Val} : Json.sorted v = .null ↔ v = .null := by
  cases v <;> simp [Json.sorted]

/-- The content of sorted items is sorted again to the same items as without sorting first. -/
theorem sortKeys_stripItems_sortKeys {kvs : Items} (h : (kvs.map Prod.fst).Nodup) :
    sortKeys (Json.sortedItems (stripItems (sortKeys kvs)))
      = sortKeys (Json.sortedItems (stripItems kvs)) := by
  have hperm : (Json.sortedItems (stripItems kvs)).Perm
      (Json.sortedItems (stripItems (sortKeys kvs))) := by
    simp only [Json.sortedItems_eq_map, stripItems_eq]
    exact (((sortKeys_perm kvs).symm.filter _).map _).map _
  refine (sortKeys_eq_of_perm hperm ?_).symm
  rw [keys_sortedItems]
  exact h.sublist (keys_stripItems_sublist kvs)

mutual
/-- Sorting first does not change the sorted content. -/
theorem sorted_strip_sorted : ∀ {v : Val}, distinct v = true →
    Json.sorted (strip (Json.sorted v)) = Json.sorted (strip v)
  | .null, _ | .bool _, _ | .int _, _ | .float _, _ | .str _, _ => rfl
  | .list vs, h => congrArg Val.list (sortedList_stripList_sortedList h)
  | .tuple vs, h => congrArg Val.list (sortedList_stripList_sortedList h)
  | .dict kvs, h => by
      rw [distinct_dict, ← distinctItems_iff] at h
      have hkeys : ((Json.sortedItems kvs).map Prod.fst).Nodup := keys_sortedItems kvs ▸ h.1
      rw [Json.sorted, strip, strip, Json.sorted, Json.sorted, sortKeys_stripItems_sortKeys hkeys,
        sortedItems_stripItems_sortedItems h.2]

/-- The same of lists. -/
theorem sortedList_stripList_sortedList : ∀ {vs : List Val}, distinctList vs = true →
    Json.sortedList (stripList (Json.sortedList vs)) = Json.sortedList (stripList vs)
  | [], _ => rfl
  | v :: vs, h => by
      rw [distinctList, Bool.and_eq_true] at h
      rw [Json.sortedList, stripList, stripList, Json.sortedList, Json.sortedList,
        sorted_strip_sorted h.1, sortedList_stripList_sortedList h.2]

/-- The same of dictionaries. -/
theorem sortedItems_stripItems_sortedItems : ∀ {kvs : Items}, distinctItems kvs = true →
    Json.sortedItems (stripItems (Json.sortedItems kvs)) = Json.sortedItems (stripItems kvs)
  | [], _ => rfl
  | (k, v) :: kvs, h => by
      rw [distinctItems, Bool.and_eq_true] at h
      rw [Json.sortedItems, stripItems, stripItems]
      by_cases hnull : v = .null
      · rw [if_pos (sorted_eq_null.mpr hnull), if_pos hnull, sortedItems_stripItems_sortedItems h.2]
      · rw [if_neg (mt sorted_eq_null.mp hnull), if_neg hnull, Json.sortedItems, Json.sortedItems,
          sorted_strip_sorted h.1, sortedItems_stripItems_sortedItems h.2]
end

/-- **Equal JSON values have one content.** -/
theorem sameContent_of_jsonEq {v w : Val} (hv : distinct v = true) (hw : distinct w = true)
    (h : JsonEq v w) : SameContent v w := by
  rw [SameContent, ← sorted_strip_sorted hv, (jsonEq_iff_sorted hv hw).mp h, sorted_strip_sorted hw]

/-! ## Canonical bytes and contents -/

/-- What can be canonicalized has its content read back from its canonical bytes. -/
theorem loads_canonicalBytes {v : Val} {b : Bytes} (h : canonicalBytes v = .ok b) :
    ∃ t, decodeUtf8 b = some t ∧ loads t = .ok (Json.sorted (strip v)) := by
  obtain ⟨c, hc, hb⟩ := canonicalBytes_eq_ok.mp h
  refine ⟨Json.text c, decodeUtf8_of_utf8 hb, ?_⟩
  rw [loads, Json.read_text (plain_of_clean hc), strip_of_clean hc]

/-- **Canonical bytes identify content.** Two accepted values have the same canonical bytes exactly
where they are equal as JSON values without their null entries, and parsing the bytes gives that
content back. -/
theorem canonicalBytes_eq_iff {v w : Val} {a b : Bytes} (hv : distinct v = true)
    (hw : distinct w = true) (ha : canonicalBytes v = .ok a) (hb : canonicalBytes w = .ok b) :
    (a = b ↔ JsonEq (strip v) (strip w)) ∧
      ∃ t u, decodeUtf8 a = some t ∧ loads t = .ok u ∧ JsonEq u (strip v) := by
  constructor
  · rw [jsonEq_iff_sorted (distinct_strip hv) (distinct_strip hw)]
    have hsame : SameContent v w ↔ canonicalBytes w = .ok a := sameContent_iff ha
    rw [hb, Except.ok.injEq, eq_comm] at hsame
    exact hsame.symm
  · obtain ⟨t, ht, hloads⟩ := loads_canonicalBytes ha
    refine ⟨t, _, ht, hloads, ?_⟩
    have hdistinct := distinct_strip hv
    rw [jsonEq_iff_sorted (distinct_sorted hdistinct) hdistinct]
    exact sorted_sorted (strip v)

/-- A null entry and a tuple leave no trace in the canonical bytes. -/
theorem canonicalBytes_eq_iff_sample : ∃ b,
    canonicalBytes (.dict [(lit "b", .tuple [.bool true, .null]), (lit "a", .null)]) = .ok b ∧
    canonicalBytes (.dict [(lit "b", .list [.bool true, .null])]) = .ok b ∧
    JsonEq (strip (.dict [(lit "b", .tuple [.bool true, .null]), (lit "a", .null)]))
      (strip (.dict [(lit "b", .list [.bool true, .null])])) := by
  have hb : canonicalBytes (.dict [(lit "b", .list [.bool true, .null])])
      = .ok ((utf8 (lit "\x7b\"b\":[true,null]\x7d")).getD []) := by decide +kernel
  have ha : canonicalBytes (.dict [(lit "b", .tuple [.bool true, .null]), (lit "a", .null)])
      = .ok ((utf8 (lit "\x7b\"b\":[true,null]\x7d")).getD []) := by decide +kernel
  exact ⟨_, ha, hb, (canonicalBytes_eq_iff (by decide) (by decide) ha hb).1.mp rfl⟩

end OpenWright.Canonical
