import OpenWright.Go.Canonical
import Mathlib.Data.List.Pairwise

/-! # Decoding into structs

What `encoding/json` makes of a document where a Go program decodes it into a struct. A field takes
the values of the keys that match its name, where a key that is the name in another case matches as
well; a key that matches no field is dropped, and `null` resets a pointer and leaves anything else as
it is.

A struct is described by its fields, each with the way to read and to write it and with what the
program puts into a map for it, so that what holds of every struct is proved once.

* **`sameMap_of_decode`** — a struct that is decoded from a map with no keys but its fields' is put
  back into a map that is encoded alike. -/

namespace OpenWright.Go

open Python

/-! ## Matching keys -/

/-- Whether case folding identifies a rune with a character of a name in lower-case ASCII. -/
def foldsTo (c r : CodePoint) : Bool :=
  r = c ∨ (97 ≤ c.val ∧ c.val ≤ 122 ∧ r.val + 32 = c.val) ∨ (c = cp 107 ∧ r.val = 0x212A) ∨
    (c = cp 115 ∧ r.val = 0x17F)

/-- Whether a key is a name in lower-case ASCII, whatever the case. -/
def equalFold (name key : GoString) : Bool :=
  (runes name).length = (runes key).length ∧
    ((runes name).zip (runes key)).all fun cr => foldsTo cr.1 cr.2

/-! ## Maps -/

/-- `m[k] = v`. -/
def assign {β : Type} (m : List (GoString × β)) (k : GoString) (v : β) : List (GoString × β) :=
  match m with
  | [] => [(k, v)]
  | (l, w) :: rest => if l = k then (k, v) :: rest else (l, w) :: assign rest k v

/-! ## Fields -/

/-- The errors of decoding: `json.UnmarshalTypeError`. -/
inductive DecodeErr
  | unmarshalType

/-- A field of the struct `S`, with its tag. -/
structure Field (S : Type) where
  {T : Type}
  name : GoString
  get : S → T
  set : S → T → S
  /-- Decode a value into the field, which may hold something already. -/
  dec : T → GoVal → Except DecodeErr T
  /-- What the program puts into a map for the field. -/
  emit : T → Option GoVal

variable {S : Type}

/-- The field a key is decoded into: the one of that name, or one whose name it is in another case. -/
def matchField (fs : List (Field S)) (k : GoString) : Option (Field S) :=
  (fs.find? fun f => f.name = k).or (fs.find? fun f => equalFold f.name k)

/-- Decode one entry of an object. -/
def store (fs : List (Field S)) (s : S) (kv : GoString × GoVal) : Except DecodeErr S :=
  match matchField fs kv.1 with
  | some f => do
    let t ← f.dec (f.get s) kv.2
    return f.set s t
  | none => .ok s

/-- Decode a document into a struct. -/
def decodeStruct (fs : List (Field S)) (s : S) : GoVal → Except DecodeErr S
  | .nil => .ok s
  | .map kvs => kvs.foldlM (store fs) s
  | _ => .error .unmarshalType

/-- The entries of a map that the fields give. -/
def entries (fs : List (Field S)) (s : S) : GoItems :=
  fs.flatMap fun f => ((f.emit (f.get s)).map fun v => (f.name, v)).toList

/-! ## The types of fields -/

/-- Decode into a `string`. -/
def decString (t : GoString) : GoVal → Except DecodeErr GoString
  | .nil => .ok t
  | .string s => .ok s
  | _ => .error .unmarshalType

/-- Decode into a `*string`. -/
def decStringPtr (_ : Option GoString) : GoVal → Except DecodeErr (Option GoString)
  | .nil => .ok none
  | .string s => .ok (some s)
  | _ => .error .unmarshalType

/-- Read decimal digits into `acc`. -/
def readDecimal (acc : Nat) : GoString → Option Nat
  | [] => some acc
  | a :: s => if 48 ≤ a.toNat ∧ a.toNat < 58 then readDecimal (10 * acc + (a.toNat - 48)) s else none

/-- The integer a number literal spells, none where it has a fraction or an exponent. -/
def readInteger (s : GoString) : Option Int :=
  match s with
  | [] => none
  | a :: t =>
    if a = 45 then if t = [] then none else (readDecimal 0 t).map fun n : Nat => -(n : Int)
    else (readDecimal 0 (a :: t)).map fun n : Nat => (n : Int)

/-- The integers of an `int64`. -/
def inInt64 (z : Int) : Prop := -2 ^ 63 ≤ z ∧ z < 2 ^ 63

instance (z : Int) : Decidable (inInt64 z) := instDecidableAnd

/-- Decode into an `*int64`. -/
def decInt64Ptr (_ : Option Int) : GoVal → Except DecodeErr (Option Int)
  | .nil => .ok none
  | .number s =>
    match readInteger s with
    | some z => if inInt64 z then .ok (some z) else .error .unmarshalType
    | none => .error .unmarshalType
  | _ => .error .unmarshalType

/-- Decode into a `map[string]interface{}`: entries are added to those that are there. -/
def decMap (m : Option GoItems) : GoVal → Except DecodeErr (Option GoItems)
  | .nil => .ok none
  | .map kvs => .ok (some (kvs.foldl (fun m kv => assign m kv.1 kv.2) (m.getD [])))
  | _ => .error .unmarshalType

/-- The entries of a `map[string]string`. -/
abbrev StringItems := List (GoString × GoString)

/-- Decode into a `map[string]string`. -/
def decStringMap (m : Option StringItems) : GoVal → Except DecodeErr (Option StringItems)
  | .nil => .ok none
  | .map kvs => do
    let m ← kvs.foldlM (fun m kv => do
      let s ← decString [] kv.2
      return assign m kv.1 s) (m.getD [])
    return some m
  | _ => .error .unmarshalType

/-- Decode into a pointer to a struct. -/
def decStructPtr (fs : List (Field S)) (zero : S) (s : Option S) : GoVal → Except DecodeErr (Option S)
  | .nil => .ok none
  | v => do
    let s ← decodeStruct fs (s.getD zero) v
    return some s

/-! ## Structs whose fields are apart -/

/-- A key matches fields of the struct only. -/
theorem mem_of_matchField {fs : List (Field S)} {k : GoString} {f : Field S}
    (h : matchField fs k = some f) : f ∈ fs := by
  rw [matchField, Option.or_eq_some_iff] at h
  rcases h with h | ⟨-, h⟩
  · exact List.mem_of_find?_eq_some h
  · exact List.mem_of_find?_eq_some h

/-- Writing to one of two fields does not change the other. -/
def Apart (f g : Field S) : Prop :=
  (∀ s t, g.get (f.set s t) = g.get s) ∧ ∀ s t, f.get (g.set s t) = f.get s

instance : Std.Symm (@Apart S) := ⟨fun _ _ h => ⟨h.2, h.1⟩⟩

/-- The fields of a struct: each reads back what is written to it and to no other, and no two have
one name. -/
structure Lawful (fs : List (Field S)) : Prop where
  get_set : ∀ f ∈ fs, ∀ s t, f.get (f.set s t) = t
  apart : fs.Pairwise Apart
  names : (fs.map (·.name)).Nodup

namespace Lawful

variable {fs : List (Field S)}

/-- Fields of one name are one field. -/
theorem eq_of_name (h : Lawful fs) {f g : Field S} (hf : f ∈ fs) (hg : g ∈ fs)
    (hname : f.name = g.name) : f = g :=
  List.inj_on_of_nodup_map h.names hf hg hname

/-- Writing to a field leaves the others as they are. -/
theorem get_set_ne (h : Lawful fs) {f g : Field S} (hf : f ∈ fs) (hg : g ∈ fs)
    (hname : g.name ≠ f.name) (s : S) (t : g.T) : f.get (g.set s t) = f.get s :=
  (h.apart.forall hg hf fun heq => hname (heq ▸ rfl)).1 s t

/-- The field of a name is found by it. -/
theorem find?_name (h : Lawful fs) {f : Field S} (hf : f ∈ fs) :
    (fs.find? fun g => g.name = f.name) = some f := by
  obtain ⟨g, hg⟩ : ∃ g, fs.find? (fun g => g.name = f.name) = some g := by
    rw [← Option.isSome_iff_exists, List.find?_isSome]
    exact ⟨f, hf, decide_eq_true rfl⟩
  have hname : g.name = f.name := by simpa using List.find?_some hg
  rw [hg, h.eq_of_name (List.mem_of_find?_eq_some hg) hf hname]

/-- The name of a field is a key of the field. -/
theorem matchField_name (h : Lawful fs) {f : Field S} (hf : f ∈ fs) :
    matchField fs f.name = some f := by
  rw [matchField, h.find?_name hf, Option.some_or]

/-- An entry whose key is in no other case a name of the field is stored in the field exactly if its
key is the name. -/
theorem get_of_store (h : Lawful fs) {s s' : S} {kv : GoString × GoVal} {f : Field S} (hf : f ∈ fs)
    (hexact : matchField fs kv.1 = some f → f.name = kv.1) (hstore : store fs s kv = .ok s') :
    (f.name = kv.1 → f.dec (f.get s) kv.2 = .ok (f.get s')) ∧ (f.name ≠ kv.1 → f.get s' = f.get s) := by
  rw [store] at hstore
  constructor
  · intro hname
    rw [← hname, h.matchField_name hf] at hstore
    obtain ⟨t, ht, hset⟩ := bind_eq_ok.mp hstore
    rw [← pure_eq_ok.mp hset, h.get_set f hf, ht]
  · intro hname
    cases hmatch : matchField fs kv.1 with
    | none =>
        rw [hmatch] at hstore
        rw [Except.ok.inj hstore]
    | some g =>
        rw [hmatch] at hstore hexact
        obtain ⟨t, -, hset⟩ := bind_eq_ok.mp hstore
        have hg := mem_of_matchField hmatch
        have hne : g.name ≠ f.name := fun heq =>
          hname (hexact (congrArg some (h.eq_of_name hg hf heq)))
        rw [← pure_eq_ok.mp hset]
        exact h.get_set_ne hf hg hne s t

/-- **What a field holds** after an object with distinct keys is decoded, of which none is its name in
another case: what its own key is bound to, or what it held before. -/
theorem get_of_foldlM (h : Lawful fs) {kvs : GoItems} {s s' : S} {f : Field S} (hf : f ∈ fs)
    (hexact : ∀ kv ∈ kvs, matchField fs kv.1 = some f → f.name = kv.1)
    (hkeys : (kvs.map Prod.fst).Nodup) (hdec : kvs.foldlM (store fs) s = .ok s') :
    (∀ v, kvs.lookup f.name = some v → f.dec (f.get s) v = .ok (f.get s')) ∧
      (kvs.lookup f.name = none → f.get s' = f.get s) := by
  induction kvs generalizing s with
  | nil =>
      obtain rfl : s = s' := pure_eq_ok.mp hdec
      exact ⟨fun v hv => (nomatch hv), fun _ => rfl⟩
  | cons kv kvs ih =>
      rw [List.foldlM_cons] at hdec
      obtain ⟨mid, hmid, hdec⟩ := bind_eq_ok.mp hdec
      rw [List.forall_mem_cons] at hexact
      rw [List.map_cons, List.nodup_cons] at hkeys
      obtain ⟨hown, hother⟩ := h.get_of_store hf hexact.1 hmid
      obtain ⟨hbound, hunbound⟩ := ih hexact.2 hkeys.2 hdec
      rw [List.lookup_cons]
      by_cases hname : f.name = kv.1
      · -- the key does not occur again
        have hnone : kvs.lookup f.name = none := by
          refine List.lookup_eq_none_iff.mpr fun p hp => bne_iff_ne.mpr fun heq => hkeys.1 ?_
          rw [← hname, heq]
          exact List.mem_map_of_mem hp
        rw [beq_iff_eq.mpr hname]
        refine ⟨fun v hv => ?_, fun hv => (nomatch hv)⟩
        rw [← Option.some.inj hv, hunbound hnone]
        exact hown hname
      · rw [beq_false_of_ne hname, ← hother hname]
        exact ⟨hbound, hunbound⟩

/-- An object is decoded where each of its values is: into the field of its name, or into one that
takes every value. -/
theorem exists_foldlM (h : Lawful fs) {kvs : GoItems} {s : S} (hkeys : (kvs.map Prod.fst).Nodup)
    (hdec : ∀ kv ∈ kvs, ∀ f ∈ matchField fs kv.1,
      (f.name = kv.1 ∧ ∃ t, f.dec (f.get s) kv.2 = .ok t) ∨ ∀ t v, ∃ t', f.dec t v = .ok t') :
    ∃ s', kvs.foldlM (store fs) s = .ok s' := by
  induction kvs generalizing s with
  | nil => exact ⟨s, rfl⟩
  | cons kv kvs ih =>
      rw [List.forall_mem_cons] at hdec
      rw [List.map_cons, List.nodup_cons] at hkeys
      obtain ⟨mid, hmid⟩ : ∃ mid, store fs s kv = .ok mid := by
        rw [store]
        cases hmatch : matchField fs kv.1 with
        | none => exact ⟨s, rfl⟩
        | some g =>
            obtain ⟨t, ht⟩ : ∃ t, g.dec (g.get s) kv.2 = .ok t := by
              rcases hdec.1 g hmatch with ⟨-, ht⟩ | htotal
              · exact ht
              · exact htotal _ _
            exact ⟨g.set s t, bind_eq_ok.mpr ⟨t, ht, rfl⟩⟩
      obtain ⟨s', hs'⟩ : ∃ s', kvs.foldlM (store fs) mid = .ok s' := by
        refine ih hkeys.2 fun p hp f hmatch => ?_
        rcases hdec.2 p hp f hmatch with ⟨hname, ht⟩ | htotal
        · have hne : f.name ≠ kv.1 := fun heq =>
            hkeys.1 (heq ▸ hname ▸ List.mem_map_of_mem hp)
          by_cases hkv : matchField fs kv.1 = some f
          · -- the field took the first entry as well, in another case
            rcases hdec.1 f hkv with ⟨heq, -⟩ | htotal
            · exact absurd heq hne
            · exact Or.inr htotal
          · rw [(h.get_of_store (mem_of_matchField hmatch) (fun heq => absurd heq hkv) hmid).2 hne]
            exact Or.inl ⟨hname, ht⟩
        · exact Or.inr htotal
      exact ⟨s', by rw [List.foldlM_cons]; exact bind_eq_ok.mpr ⟨mid, hmid, hs'⟩⟩

end Lawful

/-! ## Maps that are written alike -/

/-- What is written for a value in a map: nothing for nil. -/
def written : GoVal → Option (Except EncodeErr Bytes)
  | .nil => none
  | v => some (encode v)

/-- A value other than nil is written. -/
theorem written_of_ne {v : GoVal} (h : v ≠ .nil) : written v = some (encode v) := by
  cases v with
  | nil => exact absurd rfl h
  | _ => rfl

/-- The entries that are encoded are those that are written. -/
theorem encodeEntries_eq (kvs : GoItems) :
    encodeEntries kvs = kvs.filterMap fun kv => (written kv.2).map fun b => (kv.1, b) := by
  induction kvs with
  | nil => rfl
  | cons kv kvs ih =>
      obtain ⟨k, v⟩ := kv
      rw [List.filterMap_cons]
      by_cases hnil : v = .nil
      · subst hnil
        exact ih
      · have hcons : encodeEntries ((k, v) :: kvs) = (k, encode v) :: encodeEntries kvs := by
          cases v with
          | nil => exact absurd rfl hnil
          | _ => rfl
        rw [hcons, written_of_ne hnil, ih]
        rfl

/-- The keys that are encoded are keys of the map. -/
theorem keys_encodeEntries_sublist (kvs : GoItems) :
    ((encodeEntries kvs).map Prod.fst).Sublist (kvs.map Prod.fst) := by
  rw [encodeEntries_eq]
  induction kvs with
  | nil => exact List.Sublist.refl _
  | cons kv kvs ih =>
      rw [List.filterMap_cons]
      cases written kv.2 with
      | none => exact ih.cons _
      | some b => exact ih.cons_cons _

/-- What is encoded for a key. -/
theorem mem_encodeEntries {kvs : GoItems} (hkeys : (kvs.map Prod.fst).Nodup) {k : GoString}
    {b : Except EncodeErr Bytes} :
    (k, b) ∈ encodeEntries kvs ↔ (kvs.lookup k).bind written = some b := by
  rw [encodeEntries_eq, List.mem_filterMap, Option.bind_eq_some_iff]
  constructor
  · rintro ⟨⟨l, v⟩, hmem, h⟩
    rw [Option.map_eq_some_iff] at h
    obtain ⟨b', hb', heq⟩ := h
    obtain ⟨rfl, rfl⟩ := Prod.mk.inj heq
    exact ⟨v, (Val.lookup_eq_some_iff hkeys).mpr hmem, hb'⟩
  · rintro ⟨v, hv, hb⟩
    exact ⟨(k, v), mem_of_lookup hv, by rw [hb]; rfl⟩

/-- Two maps for which the same is written key by key. -/
def SameMap (a b : GoItems) : Prop := ∀ k, (a.lookup k).bind written = (b.lookup k).bind written

/-- The order of keys is one of them. -/
theorem order_injective {s t : GoString} (h : order s = order t) : s = t :=
  List.map_injective_iff.mpr (fun _ _ => UInt8.toNat_inj.mp) h

/-- **Such maps are encoded alike.** -/
theorem encode_map_congr {a b : GoItems} (ha : (a.map Prod.fst).Nodup) (hb : (b.map Prod.fst).Nodup)
    (h : SameMap a b) : encode (.map a) = encode (.map b) := by
  have ha' := ha.sublist (keys_encodeEntries_sublist a)
  have hb' := hb.sublist (keys_encodeEntries_sublist b)
  have hperm : (encodeEntries a).Perm (encodeEntries b) := by
    refine (List.perm_ext_iff_of_nodup ha'.of_map hb'.of_map).mpr fun kb => ?_
    rw [show kb = (kb.1, kb.2) from rfl, mem_encodeEntries ha, mem_encodeEntries hb, h kb.1]
  have hsorted : sortEntries (encodeEntries a) = sortEntries (encodeEntries b) := by
    refine List.Perm.eq_of_pairwise (fun x y hx hy hxy hyx => ?_)
      (List.pairwise_insertionSort _ _) (List.pairwise_insertionSort _ _)
      ((List.perm_insertionSort _ _).trans (hperm.trans (List.perm_insertionSort _ _).symm))
    -- two entries with one key are one entry
    have hx' := (List.mem_insertionSort _).mp hx
    have hy' := hperm.mem_iff.mpr ((List.mem_insertionSort _).mp hy)
    exact List.inj_on_of_nodup_map ha' hx' hy' (order_injective (le_antisymm hxy hyx))
  rw [encode, encode, hsorted]

/-! ## Structs that are put back into maps -/

section Entries

variable {fs : List (Field S)}

/-- The keys of the map are names of fields. -/
theorem keys_entries_sublist (fs : List (Field S)) (s : S) :
    ((entries fs s).map Prod.fst).Sublist (fs.map (·.name)) := by
  induction fs with
  | nil => exact List.Sublist.refl _
  | cons f fs ih =>
      rw [entries, List.flatMap_cons, List.map_append, List.map_cons]
      cases f.emit (f.get s) with
      | none => exact ih.cons _
      | some v => exact ih.cons_cons _

/-- What the map has for a field. -/
theorem lookup_entries (hnames : (fs.map (·.name)).Nodup) {f : Field S} (hf : f ∈ fs) (s : S) :
    (entries fs s).lookup f.name = f.emit (f.get s) := by
  have hkeys := hnames.sublist (keys_entries_sublist fs s)
  cases hemit : f.emit (f.get s) with
  | some v =>
      refine (Val.lookup_eq_some_iff hkeys).mpr (List.mem_flatMap.mpr ⟨f, hf, ?_⟩)
      rw [hemit]
      exact List.mem_singleton.mpr rfl
  | none =>
      rw [List.lookup_eq_none_iff]
      intro kv hkv
      obtain ⟨g, hg, hmem⟩ := List.mem_flatMap.mp hkv
      rw [Option.mem_toList, Option.map_eq_some_iff] at hmem
      obtain ⟨v, hv, rfl⟩ := hmem
      refine bne_iff_ne.mpr fun hname => ?_
      rw [List.inj_on_of_nodup_map hnames hf hg hname, hv] at hemit
      cases hemit

/-- The map has nothing for a key that names no field. -/
theorem lookup_entries_of_ne {k : GoString} (hk : k ∉ fs.map (·.name)) (s : S) :
    (entries fs s).lookup k = none := by
  rw [List.lookup_eq_none_iff]
  intro kv hkv
  refine bne_iff_ne.mpr fun heq => hk (heq ▸ ?_)
  exact (keys_entries_sublist fs s).mem (List.mem_map_of_mem hkv)

/-- A field takes a value in such a way that the same is written for it. -/
def Field.Repro (f : Field S) (t : f.T) (v : GoVal) : Prop :=
  ∃ t', f.dec t v = .ok t' ∧ (f.emit t').bind written = written v

/-- A field that takes its value, or is unbound and empty, has the same written for it. -/
theorem written_of_foldlM (h : Lawful fs) {kvs : GoItems} {s s' : S} {f : Field S} (hf : f ∈ fs)
    (hexact : ∀ kv ∈ kvs, matchField fs kv.1 = some f → f.name = kv.1)
    (hkeys : (kvs.map Prod.fst).Nodup) (hdec : kvs.foldlM (store fs) s = .ok s')
    (hbound : ∀ v, kvs.lookup f.name = some v → f.Repro (f.get s) v)
    (hunbound : kvs.lookup f.name = none → (f.emit (f.get s)).bind written = none) :
    (f.emit (f.get s')).bind written = (kvs.lookup f.name).bind written := by
  obtain ⟨hget, hkept⟩ := h.get_of_foldlM hf hexact hkeys hdec
  cases hlookup : kvs.lookup f.name with
  | none => rw [hkept hlookup, hunbound hlookup, Option.bind_none]
  | some v =>
      obtain ⟨t, ht, hwritten⟩ := hbound v hlookup
      obtain rfl := Except.ok.inj (ht.symm.trans (hget v hlookup))
      exact hwritten

/-- An object that a struct takes over completely: its keys are distinct and name fields, each of
which takes its value; and nothing is put into a map for a field that is unbound. -/
structure Reproduced (fs : List (Field S)) (s : S) (kvs : GoItems) : Prop where
  keys : (kvs.map Prod.fst).Nodup
  declared : ∀ kv ∈ kvs, kv.1 ∈ fs.map (·.name)
  bound : ∀ f ∈ fs, ∀ v, kvs.lookup f.name = some v → f.Repro (f.get s) v
  unbound : ∀ f ∈ fs, kvs.lookup f.name = none → (f.emit (f.get s)).bind written = none

/-- **A struct that takes over an object** is put back into a map for which the same is written. -/
theorem sameMap_of_decode (h : Lawful fs) {kvs : GoItems} {s : S} (hr : Reproduced fs s kvs) :
    ∃ s', kvs.foldlM (store fs) s = .ok s' ∧ SameMap (entries fs s') kvs := by
  -- a key that names a field matches that field
  have hexact : ∀ kv ∈ kvs, ∀ f, matchField fs kv.1 = some f → f.name = kv.1 := by
    intro kv hkv f hmatch
    obtain ⟨g, hg, hname⟩ := List.mem_map.mp (hr.declared kv hkv)
    rw [← hname, h.matchField_name hg] at hmatch
    rw [← Option.some.inj hmatch, hname]
  obtain ⟨s', hs'⟩ := @Lawful.exists_foldlM _ _ h kvs s hr.keys fun kv hkv f hmatch => by
    have hname := hexact kv hkv f hmatch
    obtain ⟨t, ht, -⟩ := hr.bound f (mem_of_matchField hmatch) kv.2
      ((Val.lookup_eq_some_iff hr.keys).mpr (hname ▸ hkv))
    exact Or.inl ⟨hname, t, ht⟩
  refine ⟨s', hs', fun k => ?_⟩
  by_cases hk : k ∈ fs.map (·.name)
  · obtain ⟨f, hf, rfl⟩ := List.mem_map.mp hk
    rw [lookup_entries h.names hf]
    exact written_of_foldlM h hf (fun kv hkv => hexact kv hkv f) hr.keys hs' (hr.bound f hf)
      (hr.unbound f hf)
  · have hnone : kvs.lookup k = none := by
      refine List.lookup_eq_none_iff.mpr fun kv hkv => bne_iff_ne.mpr fun heq => hk ?_
      rw [heq]
      exact hr.declared kv hkv
    rw [lookup_entries_of_ne hk, hnone]

end Entries

/-! ## Fields of each type -/

section Fields

variable (name : GoString)

/-- A field `string`. -/
def stringField (get : S → GoString) (set : S → GoString → S) : Field S :=
  { name, get, set, dec := decString, emit := fun s => some (.string s) }

/-- A field `*string`. -/
def stringPtrField (get : S → Option GoString) (set : S → Option GoString → S) : Field S :=
  { name, get, set, dec := decStringPtr, emit := fun s => s.map .string }

/-- A field `*int64`. -/
def int64PtrField (get : S → Option Int) (set : S → Option Int → S) : Field S :=
  { name, get, set, dec := decInt64Ptr, emit := fun z => z.map .int64 }

/-- A field `map[string]interface{}` that is put into a map whether it is nil or not. -/
def mapField (get : S → Option GoItems) (set : S → Option GoItems → S) : Field S :=
  { name, get, set, dec := decMap, emit := fun m => some (.map (m.getD [])) }

/-- The map of a `map[string]string`. -/
def stringValues (m : StringItems) : GoItems := m.map fun kv => (kv.1, .string kv.2)

/-- A field `map[string]string` that is put into a map whether it is nil or not. -/
def stringMapField (get : S → Option StringItems) (set : S → Option StringItems → S) : Field S :=
  { name, get, set, dec := decStringMap, emit := fun m => some (.map (stringValues (m.getD []))) }

variable {S' : Type} (fs : List (Field S')) (toMap : S' → GoItems)

/-- A field of a struct type. -/
def structField (get : S → S') (set : S → S' → S) : Field S :=
  { name, get, set, dec := decodeStruct fs, emit := fun s => some (.map (toMap s)) }

/-- A field of a pointer to a struct, put into a map where it is not nil. -/
def structPtrField (zero : S') (get : S → Option S') (set : S → Option S' → S) : Field S :=
  { name, get, set, dec := decStructPtr fs zero, emit := fun s => s.map fun s => .map (toMap s) }

/-- A field of a pointer to a struct, put into a map whether it is nil or not. -/
def keptStructPtrField (zero : S') (get : S → Option S') (set : S → Option S' → S) : Field S :=
  { name, get, set, dec := decStructPtr fs zero, emit := fun s => some (.map (toMap (s.getD zero))) }

end Fields

/-! ## Values that fields take -/

section Repro

variable {name : GoString}

/-- A `string` takes text. -/
theorem repro_string {get : S → GoString} {set : S → GoString → S} (t s : GoString) :
    (stringField name get set).Repro t (.string s) := ⟨s, rfl, rfl⟩

/-- A `*string` takes text. -/
theorem repro_stringPtr {get : S → Option GoString} {set : S → Option GoString → S}
    (t : Option GoString) (s : GoString) : (stringPtrField name get set).Repro t (.string s) :=
  ⟨some s, rfl, rfl⟩

/-- The bytes of a digit, and of text that starts with one. -/
theorem ofStr_digit {c : CodePoint} {s : Str} (hc : c.val < 128) (hs : Canonical.Scalar s) :
    ofStr (c :: s) = UInt8.ofNat c.val :: ofStr s := by
  have hchar : utf8Char c = some [UInt8.ofNat c.val] := by rw [utf8Char, if_pos hc]
  rw [ofStr_cons (Canonical.scalar_cons.mpr ⟨by omega, hs⟩), writeRune, hchar, Option.getD_some,
    List.singleton_append]

/-- Reading the digits of a number. -/
theorem readDecimal_ofStr {ds : Str} (hdigits : ∀ c ∈ ds, Json.isDigit c = true) (acc : Nat) :
    readDecimal acc (ofStr ds) = some (ds.foldl (fun n c => 10 * n + (c.val - 48)) acc) := by
  induction ds generalizing acc with
  | nil => rfl
  | cons c ds ih =>
      rw [List.forall_mem_cons] at hdigits
      have hrange : 48 ≤ c.val ∧ c.val < 58 := by simpa [Json.isDigit] using hdigits.1
      have hscalar : Canonical.Scalar ds := fun d hd => by
        have hd' : 48 ≤ d.val ∧ d.val < 58 := by simpa [Json.isDigit] using hdigits.2 d hd
        omega
      have hval : (UInt8.ofNat c.val).toNat = c.val :=
        UInt8.toNat_ofNat_of_lt' (show c.val < 256 by omega)
      rw [ofStr_digit (by omega) hscalar, readDecimal, hval, if_pos hrange, ih hdigits.2, List.foldl_cons]

/-- **Reading the decimal text of an integer.** -/
theorem readInteger_intText (z : Int) : readInteger (ofStr (Json.intText z)) = some z := by
  obtain ⟨hdigits, hval⟩ := Json.natText_digits z.natAbs
  have hread := readDecimal_ofStr hdigits 0
  rw [← Json.natOf, hval] at hread
  obtain ⟨c, rest, htext, -⟩ := Json.natText_cons z.natAbs
  have hc : 48 ≤ c.val ∧ c.val < 58 := by
    simpa [Json.isDigit] using hdigits c (htext ▸ List.mem_cons_self)
  have hscalar : Canonical.Scalar (Json.natText z.natAbs) := fun d hd => by
    have hd' : 48 ≤ d.val ∧ d.val < 58 := by simpa [Json.isDigit] using hdigits d hd
    omega
  -- the first byte is a digit, so the text has one
  have hcons : ofStr (Json.natText z.natAbs) = UInt8.ofNat c.val :: ofStr rest := by
    rw [htext]
    exact ofStr_digit (by omega) fun d hd => hscalar d (htext ▸ List.mem_cons_of_mem c hd)
  rw [Json.intText]
  split
  · rename_i hneg
    rw [ofStr_digit (by decide) hscalar, readInteger, if_pos (by decide), hcons,
      if_neg (List.cons_ne_nil _ _), ← hcons, hread, Option.map_some]
    exact congrArg some (by omega)
  · rename_i hpos
    -- and that byte is no minus
    have hne : UInt8.ofNat c.val ≠ 45 := by
      intro heq
      have hnat := congrArg UInt8.toNat heq
      rw [UInt8.toNat_ofNat_of_lt' (show c.val < 256 by omega)] at hnat
      simp at hnat
      omega
    rw [hcons, readInteger, if_neg hne, ← hcons, hread, Option.map_some]
    exact congrArg some (by omega)

/-- An `*int64` takes the integers in its range, and is written as they are. -/
theorem repro_int64Ptr {get : S → Option Int} {set : S → Option Int → S} (t : Option Int) {z : Int}
    (hz : inInt64 z) :
    (int64PtrField name get set).Repro t (.number (ofStr (Json.intText z))) := by
  refine ⟨some z, ?_, ?_⟩
  · change decInt64Ptr t (.number (ofStr (Json.intText z))) = .ok (some z)
    rw [decInt64Ptr, readInteger_intText]
    exact if_pos hz
  · change some (encode (.int64 z)) = some (encode (.number _))
    rw [encode, encode, spelledFloat_intText]
    rfl

/-- Entries whose keys are distinct are assigned one after the other. -/
theorem foldl_assign {β : Type} {kvs m : List (GoString × β)}
    (hkeys : ((m ++ kvs).map Prod.fst).Nodup) :
    kvs.foldl (fun m kv => assign m kv.1 kv.2) m = m ++ kvs := by
  induction kvs generalizing m with
  | nil => exact (List.append_nil m).symm
  | cons kv kvs ih =>
      have hassign : assign m kv.1 kv.2 = m ++ [kv] := by
        have hne : ∀ p ∈ m, p.1 ≠ kv.1 := by
          rw [List.map_append, List.nodup_append] at hkeys
          exact fun p hp => hkeys.2.2 p.1 (List.mem_map_of_mem hp) kv.1 (by simp)
        clear hkeys ih
        induction m with
        | nil => rfl
        | cons p m ih =>
            obtain ⟨l, w⟩ := p
            rw [List.forall_mem_cons] at hne
            rw [assign, if_neg hne.1, ih hne.2, List.cons_append]
      rw [List.foldl_cons, hassign, ih (by rwa [List.append_assoc, List.singleton_append]),
        List.append_assoc, List.singleton_append]

/-- A nil `map[string]interface{}` takes a map. -/
theorem repro_map {get : S → Option GoItems} {set : S → Option GoItems → S} {kvs : GoItems}
    (hkeys : (kvs.map Prod.fst).Nodup) : (mapField name get set).Repro none (.map kvs) := by
  refine ⟨some kvs, ?_, rfl⟩
  change Except.ok (some _) = Except.ok (some _)
  rw [Option.getD_none, foldl_assign hkeys, List.nil_append]

/-- A nil `map[string]string` takes a map of texts. -/
theorem repro_stringMap {get : S → Option StringItems} {set : S → Option StringItems → S}
    {kvs : GoItems} (hkeys : (kvs.map Prod.fst).Nodup) (htext : ∀ kv ∈ kvs, ∃ s, kv.2 = .string s) :
    (stringMapField name get set).Repro none (.map kvs) := by
  obtain ⟨m, rfl⟩ : ∃ m, kvs = stringValues m := by
    clear hkeys
    induction kvs with
    | nil => exact ⟨[], rfl⟩
    | cons kv kvs ih =>
        rw [List.forall_mem_cons] at htext
        obtain ⟨s, hs⟩ := htext.1
        obtain ⟨m, hm⟩ := ih htext.2
        exact ⟨(kv.1, s) :: m, by rw [hm, stringValues, stringValues, List.map_cons, ← hs]⟩
  -- the loop assigns the texts one after the other
  have hfold : ∀ m m' : StringItems, (stringValues m).foldlM (fun m kv => do
      let s ← decString [] kv.2
      return assign m kv.1 s) m' = .ok (m.foldl (fun m kv => assign m kv.1 kv.2) m') := by
    intro m
    induction m with
    | nil => exact fun _ => rfl
    | cons kv m ih => exact fun m' => ih _
  have hkeys' : (([] ++ m).map Prod.fst).Nodup := by
    rw [stringValues, List.map_map] at hkeys
    exact hkeys
  refine ⟨some m, ?_, rfl⟩
  change decStringMap none (.map (stringValues m)) = .ok (some m)
  rw [decStringMap, Option.getD_none, hfold, foldl_assign hkeys']
  rfl

variable {S' : Type} {fs : List (Field S')} {toMap : S' → GoItems}

/-- What is written for a struct that takes over an object. -/
theorem written_toMap (h : Lawful fs) (htoMap : ∀ s, toMap s = entries fs s) {s : S'} {kvs : GoItems}
    (hr : Reproduced fs s kvs) :
    ∃ s', decodeStruct fs s (.map kvs) = .ok s' ∧ written (.map (toMap s')) = written (.map kvs) := by
  obtain ⟨s', hs', hsame⟩ := sameMap_of_decode h hr
  refine ⟨s', hs', congrArg some ?_⟩
  rw [htoMap]
  exact encode_map_congr (h.names.sublist (keys_entries_sublist fs s')) hr.keys hsame

/-- A struct takes an object that it takes over. -/
theorem repro_struct (h : Lawful fs) (htoMap : ∀ s, toMap s = entries fs s) {get : S → S'}
    {set : S → S' → S} {s : S'} {kvs : GoItems} (hr : Reproduced fs s kvs) :
    (structField name fs toMap get set).Repro s (.map kvs) :=
  written_toMap h htoMap hr

/-- So does a nil pointer to a struct. -/
theorem repro_structPtr (h : Lawful fs) (htoMap : ∀ s, toMap s = entries fs s) {get : S → Option S'}
    {set : S → Option S' → S} {zero : S'} {kvs : GoItems} (hr : Reproduced fs zero kvs) :
    (structPtrField name fs toMap zero get set).Repro none (.map kvs) := by
  obtain ⟨s', hs', hwritten⟩ := written_toMap h htoMap hr
  exact ⟨some s', bind_eq_ok.mpr ⟨s', hs', rfl⟩, hwritten⟩

/-- So does one that is put into a map even where it is nil. -/
theorem repro_keptStructPtr (h : Lawful fs) (htoMap : ∀ s, toMap s = entries fs s)
    {get : S → Option S'} {set : S → Option S' → S} {zero : S'} {kvs : GoItems}
    (hr : Reproduced fs zero kvs) :
    (keptStructPtrField name fs toMap zero get set).Repro none (.map kvs) := by
  obtain ⟨s', hs', hwritten⟩ := written_toMap h htoMap hr
  exact ⟨some s', bind_eq_ok.mpr ⟨s', hs', rfl⟩, hwritten⟩

end Repro

end OpenWright.Go
