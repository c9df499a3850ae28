import OpenWright.Python.Dump

/-! # Equality of JSON values

Two JSON values are equal when they are the same scalar, arrays with equal elements in order, or
objects that bind the same keys to equal values, in whatever order. Booleans are not numbers here,
unlike under Python's `==`.

* **`jsonEq_iff_sorted`** — where the keys of each object are distinct, equal values are the values
  that sorting the objects makes identical. -/

namespace OpenWright.Python.Val

mutual
/-- Equality of JSON values: arrays are compared in order and objects key by key. -/
def JsonEq : Val → Val → Prop
  | .null, .null => True
  | .bool a, .bool b => a = b
  | .int a, .int b => a = b
  | .float a, .float b => a = b
  | .str a, .str b => a = b
  | .list as, .list bs => JsonEqList as bs
  | .tuple as, .tuple bs => JsonEqList as bs
  | .dict as, .dict bs => JsonEqItems as bs ∧ ∀ kv ∈ bs, kv.1 ∈ as.map Prod.fst
  | _, _ => False

/-- `JsonEq`, elementwise. -/
def JsonEqList : List Val → List Val → Prop
  | [], [] => True
  | a :: as, b :: bs => JsonEq a b ∧ JsonEqList as bs
  | _, _ => False

/-- Each item is bound to an equal value by the other object. -/
def JsonEqItems : Items → Items → Prop
  | [], _ => True
  | (k, a) :: as, bs => (∃ b, bs.lookup k = some b ∧ JsonEq a b) ∧ JsonEqItems as bs
end

/-- With distinct keys an item is what its key is bound to. -/
theorem lookup_eq_some_iff {α β : Type} [BEq α] [LawfulBEq α] {kvs : List (α × β)}
    (h : (kvs.map Prod.fst).Nodup) {k : α} {b : β} : kvs.lookup k = some b ↔ (k, b) ∈ kvs := by
  constructor
  · exact mem_of_lookup
  · intro hmem
    obtain ⟨l₁, l₂, rfl⟩ := List.append_of_mem hmem
    refine List.lookup_eq_some_iff.mpr ⟨l₁, l₂, rfl, fun kv hkv => ?_⟩
    rw [List.map_append, List.nodup_append] at h
    exact bne_iff_ne.mpr (h.2.2 kv.1 (List.mem_map_of_mem hkv) k (by simp)).symm

/-- The items of a sorted object have the keys of the object. -/
theorem keys_sortedItems (kvs : Items) : (Json.sortedItems kvs).map Prod.fst = kvs.map Prod.fst := by
  rw [Json.sortedItems_eq_map, List.map_map]
  rfl

/-- What a key is bound to in a sorted object. -/
theorem lookup_sortedItems (kvs : Items) (k : Str) :
    (Json.sortedItems kvs).lookup k = (kvs.lookup k).map Json.sorted := by
  rw [Json.sortedItems_eq_map, lookup_map_snd]

/-- Objects with distinct keys are sorted to the same object where they bind every key alike. -/
theorem sorted_dict_eq_iff {as bs : Items} (ha : (as.map Prod.fst).Nodup)
    (hb : (bs.map Prod.fst).Nodup) :
    Json.sorted (.dict as) = Json.sorted (.dict bs) ↔
      ∀ k, (as.lookup k).map Json.sorted = (bs.lookup k).map Json.sorted := by
  simp only [Json.sorted, dict.injEq, ← lookup_sortedItems]
  constructor
  · intro h k
    rw [← lookup_sortKeys k (Json.sortedItems as), h, lookup_sortKeys]
  · intro h
    have ha' : ((Json.sortedItems as).map Prod.fst).Nodup := keys_sortedItems as ▸ ha
    have hb' : ((Json.sortedItems bs).map Prod.fst).Nodup := keys_sortedItems bs ▸ hb
    refine sortKeys_eq_of_perm ?_ ha'
    refine (List.perm_ext_iff_of_nodup ha'.of_map hb'.of_map).mpr fun kv => ?_
    rw [← lookup_eq_some_iff ha', ← lookup_eq_some_iff hb', h]

/-- Items with distinct keys are bound alike by the other object, one by one. -/
theorem forall_lookup_of_items {as bs : Items} (ha : (as.map Prod.fst).Nodup)
    (hkeys : ∀ kv ∈ bs, kv.1 ∈ as.map Prod.fst)
    (h : ∀ kv ∈ as, ∃ b, bs.lookup kv.1 = some b ∧ Json.sorted kv.2 = Json.sorted b) (k : Str) :
    (as.lookup k).map Json.sorted = (bs.lookup k).map Json.sorted := by
  cases hk : as.lookup k with
  | some a =>
      obtain ⟨b, hb, heq⟩ := h _ (mem_of_lookup hk)
      rw [hb, Option.map_some, Option.map_some, heq]
  | none =>
      -- a key the one object does not have is not a key of the other
      cases hb : bs.lookup k with
      | none => rfl
      | some b =>
          obtain ⟨kv, hkv, rfl⟩ := List.mem_map.mp (hkeys _ (mem_of_lookup hb))
          rw [(lookup_eq_some_iff ha).mpr hkv] at hk
          cases hk

mutual
/-- **Equality of JSON values** is identity after sorting the objects. -/
theorem jsonEq_iff_sorted : ∀ {v w : Val}, distinct v = true → distinct w = true →
    (JsonEq v w ↔ Json.sorted v = Json.sorted w)
  | .null, w, _, _ | .bool _, w, _, _ | .int _, w, _, _ | .float _, w, _, _ | .str _, w, _, _ => by
      cases w <;> simp [JsonEq, Json.sorted]
  | .list as, w, ha, hb => by
      cases w with
      | list bs =>
          rw [JsonEq, Json.sorted, Json.sorted, list.injEq]
          exact jsonEqList_iff_sorted ha hb
      | _ => simp [JsonEq, Json.sorted]
  | .tuple as, w, ha, hb => by
      cases w with
      | tuple bs =>
          rw [JsonEq, Json.sorted, Json.sorted, tuple.injEq]
          exact jsonEqList_iff_sorted ha hb
      | _ => simp [JsonEq, Json.sorted]
  | .dict as, w, ha, hb => by
      cases w with
      | dict bs =>
          rw [distinct_dict] at ha hb
          -- an object has its members at whatever place, so it is compared by lookup
          rw [JsonEq, jsonEqItems_iff_sorted ha.2 hb.2, sorted_dict_eq_iff ha.1 hb.1]
          constructor
          · rintro ⟨hitems, hkeys⟩
            exact forall_lookup_of_items ha.1 hkeys hitems
          · intro h
            constructor
            · intro kv hkv
              have hk := h kv.1
              rw [(lookup_eq_some_iff ha.1).mpr hkv, Option.map_some, eq_comm,
                Option.map_eq_some_iff] at hk
              obtain ⟨b, hlookup, heq⟩ := hk
              exact ⟨b, hlookup, heq.symm⟩
            · intro kv hkv
              have hk := h kv.1
              rw [(lookup_eq_some_iff hb.1).mpr hkv, Option.map_some, Option.map_eq_some_iff] at hk
              obtain ⟨a, hlookup, -⟩ := hk
              exact List.mem_map.mpr ⟨(kv.1, a), mem_of_lookup hlookup, rfl⟩
      | _ => simp [JsonEq, Json.sorted]

/-- The same of lists. -/
theorem jsonEqList_iff_sorted : ∀ {as bs : List Val}, distinctList as = true →
    distinctList bs = true → (JsonEqList as bs ↔ Json.sortedList as = Json.sortedList bs)
  | [], bs, _, _ => by cases bs <;> simp [JsonEqList, Json.sortedList]
  | a :: as, [], _, _ => by simp [JsonEqList, Json.sortedList]
  | a :: as, b :: bs, ha, hb => by
      rw [distinctList, Bool.and_eq_true] at ha hb
      rw [JsonEqList, jsonEq_iff_sorted ha.1 hb.1, jsonEqList_iff_sorted ha.2 hb.2,
        Json.sortedList, Json.sortedList, List.cons.injEq]

/-- The same of dictionaries. -/
theorem jsonEqItems_iff_sorted : ∀ {as bs : Items}, (∀ kv ∈ as, distinct kv.2 = true) →
    (∀ kv ∈ bs, distinct kv.2 = true) → (JsonEqItems as bs ↔
      ∀ kv ∈ as, ∃ b, bs.lookup kv.1 = some b ∧ Json.sorted kv.2 = Json.sorted b)
  | [], bs, _, _ => by simp [JsonEqItems]
  | (k, a) :: as, bs, ha, hb => by
      rw [List.forall_mem_cons] at ha ⊢
      rw [JsonEqItems, jsonEqItems_iff_sorted ha.2 hb]
      refine and_congr_left fun _ => exists_congr fun b => and_congr_right fun hlookup => ?_
      exact jsonEq_iff_sorted ha.1 (hb _ (mem_of_lookup hlookup))
end

end OpenWright.Python.Val
