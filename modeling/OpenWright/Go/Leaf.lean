import OpenWright.EventModel
import OpenWright.Go.Event
import OpenWright.Ledger

/-! # Leaves across languages

The event model in Go has to give every committed event the leaf that the ledger in Python gave it. It
does so for events that stay within the declared fields, in whatever order their keys stand.

* **`EventRecord.reproduced`** — a record within the declared fields is taken over by the event model. -/

namespace OpenWright.Go

open Python Python.Val Canonical EventModel

/-! ## Records as documents -/

/-- Texts with one Go string are one text. -/
theorem ofStr_injective {s t : Str} (hs : Scalar s) (ht : Scalar t) (h : ofStr s = ofStr t) : s = t := by
  rw [← runes_utf8 hs, h, runes_utf8 ht]

/-- Items whose keys can be encoded. -/
def ScalarKeys (kvs : Items) : Prop := ∀ kv ∈ kvs, Scalar kv.1

/-- The entries of a document are those of the items. -/
theorem goItems_eq_map (kvs : Items) : goItems kvs = kvs.map fun kv => (ofStr kv.1, goVal kv.2) := by
  induction kvs with
  | nil => rfl
  | cons kv kvs ih =>
      rw [goItems, ih]
      rfl

/-- What a key is bound to in a document. -/
theorem lookup_goItems {kvs : Items} (hkeys : ScalarKeys kvs) {k : Str} (hk : Scalar k) :
    (goItems kvs).lookup (ofStr k) = (kvs.lookup k).map goVal := by
  induction kvs with
  | nil => rfl
  | cons kv kvs ih =>
      obtain ⟨l, v⟩ := kv
      have hl := hkeys (l, v) List.mem_cons_self
      rw [goItems, List.lookup_cons, List.lookup_cons,
        ih fun kv hkv => hkeys kv (List.mem_cons_of_mem _ hkv)]
      by_cases hkl : k = l
      · rw [hkl, beq_self_eq_true, beq_self_eq_true]
        rfl
      · rw [beq_false_of_ne hkl, beq_false_of_ne fun heq => hkl (ofStr_injective hk hl heq)]

/-- The keys of a document are distinct where those of the items are. -/
theorem nodup_goItems {kvs : Items} (hkeys : ScalarKeys kvs) (hnodup : (kvs.map Prod.fst).Nodup) :
    ((goItems kvs).map Prod.fst).Nodup := by
  rw [goItems_eq_map, List.map_map,
    show Prod.fst ∘ (fun kv : Str × Val => (ofStr kv.1, goVal kv.2)) = ofStr ∘ Prod.fst from rfl,
    ← List.map_map]
  refine (List.nodup_map_iff_inj_on hnodup).mpr fun s hs t ht heq => ?_
  obtain ⟨kv, hkv, rfl⟩ := List.mem_map.mp hs
  obtain ⟨lv, hlv, rfl⟩ := List.mem_map.mp ht
  exact ofStr_injective (hkeys kv hkv) (hkeys lv hlv) heq

/-! ## The order of keys -/

/-- Two dictionaries that are one when they are sorted bind each key to values that are one so. -/
theorem lookup_of_sorted {as bs : Items} (h : Json.sorted (.dict as) = Json.sorted (.dict bs)) (k : Str) :
    (as.lookup k).map Json.sorted = (bs.lookup k).map Json.sorted := by
  rw [Json.sorted, Json.sorted, Val.dict.injEq] at h
  have hlookup := congrArg (List.lookup k) h
  rwa [lookup_sortKeys, lookup_sortKeys, Json.sortedItems_eq_map, Json.sortedItems_eq_map,
    lookup_map_snd, lookup_map_snd] at hlookup

/-- What is a text when it is sorted is that text. -/
theorem eq_str_of_sorted {w : Val} {s : Str} (h : Json.sorted w = Json.sorted (.str s)) : w = .str s := by
  cases w with
  | str t => exact h
  | _ => simp [Json.sorted] at h

/-- What is an integer when it is sorted is that integer. -/
theorem eq_int_of_sorted {w : Val} {z : Int} (h : Json.sorted w = Json.sorted (.int z)) : w = .int z := by
  cases w with
  | int y => exact h
  | _ => simp [Json.sorted] at h

/-- What is a dictionary when it is sorted is one. -/
theorem exists_dict_of_sorted {w : Val} {bs : Items} (h : Json.sorted w = Json.sorted (.dict bs)) :
    ∃ as, w = .dict as := by
  cases w with
  | dict as => exact ⟨as, rfl⟩
  | _ => simp [Json.sorted] at h

/-- What is empty when it is sorted is empty. -/
theorem eq_nil_of_sorted {w : Val} (h : Json.sorted w = Json.sorted (.dict [])) : w = .dict [] := by
  obtain ⟨as, rfl⟩ := exists_dict_of_sorted h
  rw [Json.sorted, Json.sorted, Val.dict.injEq, Json.sortedItems, sortKeys_nil] at h
  have hlen := congrArg List.length h
  rw [(sortKeys_perm _).length_eq, Json.sortedItems_eq_map, List.length_map] at hlen
  rw [List.length_eq_zero_iff.mp hlen]

/-- A dictionary is one of texts when it is so after sorting. -/
theorem exists_str_of_sorted {as bs : Items} (h : Json.sorted (.dict as) = Json.sorted (.dict bs))
    (hbs : ∀ kv ∈ bs, ∃ s, kv.2 = .str s) : ∀ kv ∈ as, ∃ s, kv.2 = .str s := by
  intro kv hkv
  rw [Json.sorted, Json.sorted, Val.dict.injEq] at h
  have hmem : (kv.1, Json.sorted kv.2) ∈ sortKeys (Json.sortedItems as) :=
    mem_sortKeys.mpr (Json.sortedItems_eq_map as ▸ List.mem_map_of_mem hkv)
  rw [h, mem_sortKeys, Json.sortedItems_eq_map] at hmem
  obtain ⟨lv, hlv, heq⟩ := List.mem_map.mp hmem
  obtain ⟨s, hs⟩ := hbs lv hlv
  rw [Prod.mk.injEq, hs] at heq
  exact ⟨s, eq_str_of_sorted heq.2.symm⟩

/-- What a field is bound to, up to the order of the keys inside. -/
def YieldsUpTo (p : Model.Field) (w : Val) : Prop := ∃ w', p.Yields w' ∧ Json.sorted w = Json.sorted w'

/-- A dump of a model, up to the order of the keys inside. -/
def ModelUpTo (fields : List Model.Field) (out : Items) : Prop :=
  ∃ v dump, Model.model fields v = some (.dict dump) ∧ Json.sorted (.dict out) = Json.sorted (.dict dump)

/-! ## Dumped models -/

section Dump

variable {S : Type} {fs : List (Field S)} {zero : S} {fields : List Model.Field} {out : Items}

/-- A field in Go takes what a field in Python is dumped as in the given dump, and has nothing to put
into a map where the latter may be left out. -/
structure Matches (out : Items) (zero : S) (f : Field S) (p : Model.Field) : Prop where
  name : f.name = ofStr p.name
  bound : ∀ w, YieldsUpTo p w → out.lookup p.name = some w → f.Repro (f.get zero) (goVal w)
  unbound : p.presence = .optional → (f.emit (f.get zero)).bind written = none

/-- **A dump with no keys but declared ones is taken over** by a struct whose fields match. -/
theorem reproduced_of_model (hmodel : ModelUpTo fields out)
    (hnames : (fields.map (·.name)).Nodup) (hmatch : List.Forall₂ (Matches out zero) fs fields)
    (hscalar : ScalarKeys out) (hnodup : (out.map Prod.fst).Nodup)
    (hdeclared : ∀ kv ∈ out, kv.1 ∈ fields.map (·.name)) (hfields : ∀ p ∈ fields, Scalar p.name) :
    Reproduced fs zero (goItems out) := by
  obtain ⟨v, dump, hdump, hsorted⟩ := hmodel
  refine ⟨nodup_goItems hscalar hnodup, fun kv hkv => ?_, fun f hf v hv => ?_, fun f hf hnone => ?_⟩
  -- every key is that of a field
  · rw [goItems_eq_map] at hkv
    obtain ⟨lv, hlv, rfl⟩ := List.mem_map.mp hkv
    obtain ⟨p, hp, hname⟩ := List.mem_map.mp (hdeclared lv hlv)
    obtain ⟨f, hf, hfp⟩ := exists_right_of_mem hmatch.flip hp
    exact List.mem_map.mpr ⟨f, hf, hfp.name.trans (congrArg ofStr hname)⟩
  -- what is bound to a key is what the model dumps under it
  · obtain ⟨p, hp, hfp⟩ := exists_right_of_mem hmatch hf
    rw [hfp.name, lookup_goItems hscalar (hfields p hp), Option.map_eq_some_iff] at hv
    obtain ⟨w, hw, rfl⟩ := hv
    have hlookup := lookup_of_sorted hsorted p.name
    rw [hw, Option.map_some, eq_comm, Option.map_eq_some_iff] at hlookup
    obtain ⟨w', hw', hsame⟩ := hlookup
    exact hfp.bound w ⟨w', (Model.lookup_model hdump hnames hp).2 w' hw', hsame.symm⟩ hw
  · obtain ⟨p, hp, hfp⟩ := exists_right_of_mem hmatch hf
    rw [hfp.name, lookup_goItems hscalar (hfields p hp), Option.map_eq_none_iff] at hnone
    have hlookup := lookup_of_sorted hsorted p.name
    rw [hnone, Option.map_none, eq_comm, Option.map_eq_none_iff] at hlookup
    exact hfp.unbound ((Model.lookup_model hdump hnames hp).1 hlookup)

/-- A field whose values are texts. -/
def IsText (p : Model.Field) : Prop := ∀ w, p.Yields w → ∃ s, w = .str s

/-- Sorting leaves its values as they are. -/
theorem IsText.exists_str {p : Model.Field} (h : IsText p) {w : Val} (hw : YieldsUpTo p w) :
    ∃ s, w = .str s := by
  obtain ⟨w', hw', hsame⟩ := hw
  obtain ⟨s, rfl⟩ := h w' hw'
  exact ⟨s, eq_str_of_sorted hsame⟩

/-- A required text, -/
theorem isText_required (name : String) : IsText (required name Model.str) := by
  rintro w (⟨v, hv⟩ | hv)
  · exact exists_str hv
  · cases hv

/-- an optional one, -/
theorem isText_optional (name : String) : IsText (optional name Model.str) := by
  rintro w (⟨v, hv⟩ | hv)
  · exact exists_str hv
  · cases hv

/-- and one with a default are texts. -/
theorem isText_defaulted (name : String) (s : Str) :
    IsText (defaulted name (.str s) Model.str) := by
  rintro w (⟨v, hv⟩ | hv)
  · exact exists_str hv
  · exact ⟨s, (Model.Presence.default.inj hv).symm⟩

/-- So is an enumeration, -/
theorem isText_enum (name : String) (members : List Str) :
    IsText (required name (Model.enum members)) := by
  rintro w (⟨v, hv⟩ | hv)
  · exact exists_str_of_enum hv
  · cases hv

/-- with a default or without one. -/
theorem isText_defaulted_enum (name : String) (s : Str) (members : List Str) :
    IsText (defaulted name (.str s) (Model.enum members)) := by
  rintro w (⟨v, hv⟩ | hv)
  · exact exists_str_of_enum hv
  · exact ⟨s, (Model.Presence.default.inj hv).symm⟩

variable {name : String} {p : Model.Field}

/-- A `string` matches a text that is not optional. -/
theorem matches_string {get : S → GoString} {set : S → GoString → S} (hname : p.name = lit name)
    (htext : IsText p) (hpresence : p.presence ≠ .optional) :
    Matches out zero (stringField (goLit name) get set) p where
  name := by rw [hname]; rfl
  bound w hw _ := by
    obtain ⟨s, rfl⟩ := htext.exists_str hw
    exact repro_string _ _
  unbound h := absurd h hpresence

/-- A `*string` matches a text. -/
theorem matches_stringPtr {get : S → Option GoString} {set : S → Option GoString → S}
    (hname : p.name = lit name) (htext : IsText p) (hzero : get zero = none) :
    Matches out zero (stringPtrField (goLit name) get set) p where
  name := by rw [hname]; rfl
  bound w hw _ := by
    obtain ⟨s, rfl⟩ := htext.exists_str hw
    exact repro_stringPtr _ _
  unbound _ := by
    change ((get zero).map GoVal.string).bind written = none
    rw [hzero]
    rfl

/-- An `*int64` matches an optional integer that fits. -/
theorem matches_int64Ptr {get : S → Option Int} {set : S → Option Int → S} (hzero : get zero = none)
    (hfits : ∀ z, out.lookup (lit name) = some (.int z) → inInt64 z) :
    Matches out zero (int64PtrField (goLit name) get set) (optional name Model.int) where
  name := rfl
  bound w hw hlookup := by
    obtain ⟨w', ⟨v, hv⟩ | hv, hsame⟩ := hw
    · obtain ⟨z, rfl⟩ := exists_int hv
      obtain rfl := eq_int_of_sorted hsame
      exact repro_int64Ptr _ (hfits z hlookup)
    · cases hv
  unbound _ := by
    change ((get zero).map GoVal.int64).bind written = none
    rw [hzero]
    rfl

variable {S' : Type} {fs' : List (Field S')} {toMap : S' → GoItems} {zero' : S'}
  {fields' : List Model.Field}

/-- A pointer to a struct matches an optional model whose dump is taken over. -/
theorem matches_structPtr {get : S → Option S'} {set : S → Option S' → S} (h : Lawful fs')
    (htoMap : ∀ s, toMap s = entries fs' s) (hzero : get zero = none)
    (hr : ∀ inner, ModelUpTo fields' inner →
      out.lookup (lit name) = some (.dict inner) → Reproduced fs' zero' (goItems inner)) :
    Matches out zero (structPtrField (goLit name) fs' toMap zero' get set)
      (optional name (Model.model fields')) where
  name := rfl
  bound w hw hlookup := by
    obtain ⟨w', ⟨v, hv⟩ | hv, hsame⟩ := hw
    · obtain ⟨dump, rfl, hdump⟩ := exists_model hv
      obtain ⟨inner, rfl⟩ := exists_dict_of_sorted hsame
      rw [show (structPtrField (goLit name) fs' toMap zero' get set).get zero = none from hzero]
      exact repro_structPtr h htoMap (hr inner ⟨v, dump, hdump, hsame⟩ hlookup)
    · cases hv
  unbound _ := by
    change ((get zero).map fun s => GoVal.map (toMap s)).bind written = none
    rw [hzero]
    rfl

/-- A struct matches a model that has to be there. -/
theorem matches_struct {get : S → S'} {set : S → S' → S} (h : Lawful fs')
    (htoMap : ∀ s, toMap s = entries fs' s)
    (hr : ∀ inner, ModelUpTo fields' inner →
      out.lookup (lit name) = some (.dict inner) → Reproduced fs' (get zero) (goItems inner)) :
    Matches out zero (structField (goLit name) fs' toMap get set)
      (required name (Model.model fields')) where
  name := rfl
  bound w hw hlookup := by
    obtain ⟨w', ⟨v, hv⟩ | hv, hsame⟩ := hw
    · obtain ⟨dump, rfl, hdump⟩ := exists_model hv
      obtain ⟨inner, rfl⟩ := exists_dict_of_sorted hsame
      exact repro_struct h htoMap (hr inner ⟨v, dump, hdump, hsame⟩ hlookup)
    · cases hv
  unbound h := nomatch h

/-- A pointer to a struct that is always put into a map matches a model with an empty default. -/
theorem matches_keptStructPtr {get : S → Option S'} {set : S → Option S' → S} (h : Lawful fs')
    (htoMap : ∀ s, toMap s = entries fs' s) (hzero : get zero = none)
    (hempty : Reproduced fs' zero' [])
    (hr : ∀ inner, ModelUpTo fields' inner →
      out.lookup (lit name) = some (.dict inner) → Reproduced fs' zero' (goItems inner)) :
    Matches out zero (keptStructPtrField (goLit name) fs' toMap zero' get set)
      (defaulted name (.dict []) (Model.model fields')) where
  name := rfl
  bound w hw hlookup := by
    rw [show (keptStructPtrField (goLit name) fs' toMap zero' get set).get zero = none from hzero]
    obtain ⟨w', ⟨v, hv⟩ | hv, hsame⟩ := hw
    · obtain ⟨dump, rfl, hdump⟩ := exists_model hv
      obtain ⟨inner, rfl⟩ := exists_dict_of_sorted hsame
      exact repro_keptStructPtr h htoMap (hr inner ⟨v, dump, hdump, hsame⟩ hlookup)
    · rw [← Model.Presence.default.inj hv] at hsame
      rw [eq_nil_of_sorted hsame]
      exact repro_keptStructPtr h htoMap hempty
  unbound h := nomatch h

/-- A `map[string]interface{}` matches attributes. -/
theorem matches_attributes {get : S → Option GoItems} {set : S → Option GoItems → S}
    (hzero : get zero = none)
    (hkeys : ∀ inner, out.lookup (lit name) = some (.dict inner) →
      ((goItems inner).map Prod.fst).Nodup) :
    Matches out zero (mapField (goLit name) get set)
      (defaulted name (.dict []) (Model.guarded findsFloat Model.anyDict)) where
  name := rfl
  bound w hw hlookup := by
    rw [show (mapField (goLit name) get set).get zero = none from hzero]
    obtain ⟨w', ⟨v, hv⟩ | hv, hsame⟩ := hw
    · obtain ⟨dump, rfl⟩ := exists_attributes hv
      obtain ⟨inner, rfl⟩ := exists_dict_of_sorted hsame
      exact repro_map (hkeys inner hlookup)
    · rw [← Model.Presence.default.inj hv] at hsame
      rw [eq_nil_of_sorted hsame]
      exact repro_map List.nodup_nil
  unbound h := nomatch h

/-- A `map[string]string` matches labels. -/
theorem matches_labels {get : S → Option StringItems} {set : S → Option StringItems → S}
    (hzero : get zero = none)
    (hkeys : ∀ inner, out.lookup (lit name) = some (.dict inner) →
      ((goItems inner).map Prod.fst).Nodup) :
    Matches out zero (stringMapField (goLit name) get set)
      (defaulted name (.dict []) Model.strDict) where
  name := rfl
  bound w hw hlookup := by
    rw [show (stringMapField (goLit name) get set).get zero = none from hzero]
    obtain ⟨w', ⟨v, hv⟩ | hv, hsame⟩ := hw
    · obtain ⟨dump, rfl, hstr⟩ := exists_strDict hv
      obtain ⟨inner, rfl⟩ := exists_dict_of_sorted hsame
      refine repro_stringMap (hkeys inner hlookup) fun kv hkv => ?_
      rw [goItems_eq_map] at hkv
      obtain ⟨lv, hlv, rfl⟩ := List.mem_map.mp hkv
      obtain ⟨s, hs⟩ := exists_str_of_sorted hsame hstr lv hlv
      exact ⟨ofStr s, by rw [hs]; rfl⟩
    · rw [← Model.Presence.default.inj hv] at hsame
      rw [eq_nil_of_sorted hsame]
      exact repro_stringMap List.nodup_nil fun kv hkv => absurd hkv List.not_mem_nil
  unbound h := nomatch h

end Dump

/-! ## The models inside an event -/

/-- A value that stands for itself in a document: it can be encoded and its keys are distinct. -/
def Plain (v : Val) : Prop := Encodable v ∧ distinct v = true

/-- The values inside such a value are such values. -/
theorem Plain.lookup {kvs : Items} (h : Plain (.dict kvs)) {k : Str} {v : Val}
    (hv : kvs.lookup k = some v) : Plain v :=
  ⟨(encodableItems_iff.mp h.1 _ (mem_of_lookup hv)).2, (distinct_dict.mp h.2).2 _ (mem_of_lookup hv)⟩

/-- Its keys can be encoded. -/
theorem Plain.scalarKeys {kvs : Items} (h : Plain (.dict kvs)) : ScalarKeys kvs :=
  fun kv hkv => (encodableItems_iff.mp h.1 kv hkv).1

/-- Its keys are distinct in a document. -/
theorem Plain.nodup {kvs : Items} (h : Plain (.dict kvs)) : ((goItems kvs).map Prod.fst).Nodup :=
  nodup_goItems h.scalarKeys (distinct_dict.mp h.2).1

/-- The keys of a dictionary are among the declared ones. -/
def DeclaredIn (fields : List Model.Field) (v : Val) : Prop :=
  ∀ kvs, v = .dict kvs → ∀ kv ∈ kvs, kv.1 ∈ fields.map (·.name)

section Models

variable {out : Items}

/-- Go reproduces a claim. -/
theorem reproduced_identityClaim (hmodel : ModelUpTo identityClaim out)
    (hplain : Plain (.dict out)) (hdeclared : DeclaredIn identityClaim (.dict out)) :
    Reproduced identityClaimFields {} (goItems out) := by
  refine reproduced_of_model hmodel (by decide) ?_ hplain.scalarKeys (distinct_dict.mp hplain.2).1
    (hdeclared out rfl) (by decide)
  exact .cons (matches_stringPtr rfl (isText_defaulted _ _) rfl)
    (.cons (matches_stringPtr rfl (isText_optional _) rfl)
    (.cons (matches_stringPtr rfl (isText_optional _) rfl)
    (.cons (matches_stringPtr rfl (isText_optional _) rfl) .nil)))

/-- Go reproduces an actor, with its claim. -/
theorem reproduced_actor (hmodel : ModelUpTo actor out)
    (hplain : Plain (.dict out)) (hdeclared : DeclaredIn actor (.dict out))
    (hclaim : ∀ w ∈ out.lookup (lit "identity_claim"), DeclaredIn identityClaim w) :
    Reproduced actorFields {} (goItems out) := by
  refine reproduced_of_model hmodel (by decide) ?_ hplain.scalarKeys (distinct_dict.mp hplain.2).1
    (hdeclared out rfl) (by decide)
  refine .cons (matches_string rfl (isText_required _) (fun h => nomatch h))
    (.cons (matches_stringPtr rfl (isText_optional _) rfl) (.cons ?_ .nil))
  exact matches_structPtr lawful_identityClaimFields identityClaimMap_eq rfl
    fun inner hinner hlookup =>
      reproduced_identityClaim hinner (hplain.lookup hlookup) (hclaim _ hlookup)

/-- Go reproduces provenance. -/
theorem reproduced_provenance (hmodel : ModelUpTo provenance out)
    (hplain : Plain (.dict out)) (hdeclared : DeclaredIn provenance (.dict out)) :
    Reproduced provenanceFields {} (goItems out) := by
  refine reproduced_of_model hmodel (by decide) ?_ hplain.scalarKeys (distinct_dict.mp hplain.2).1
    (hdeclared out rfl) (by decide)
  exact .cons (matches_stringPtr rfl (isText_optional _) rfl)
    (.cons (matches_stringPtr rfl (isText_optional _) rfl)
    (.cons (matches_stringPtr rfl (isText_optional _) rfl)
    (.cons (matches_stringPtr rfl (isText_optional _) rfl) .nil)))

/-- The counts of tokens. -/
def tokenKeys : List Str := [lit "input_tokens", lit "output_tokens", lit "total_tokens"]

/-- Go reproduces references, where the tokens fit. -/
theorem reproduced_io (hmodel : ModelUpTo ioRef out)
    (hplain : Plain (.dict out)) (hdeclared : DeclaredIn ioRef (.dict out))
    (hfits : ∀ k ∈ tokenKeys, ∀ z, out.lookup k = some (.int z) → inInt64 z) :
    Reproduced ioFields {} (goItems out) := by
  refine reproduced_of_model hmodel (by decide) ?_ hplain.scalarKeys (distinct_dict.mp hplain.2).1
    (hdeclared out rfl) (by decide)
  exact .cons (matches_stringPtr rfl (isText_optional _) rfl)
    (.cons (matches_stringPtr rfl (isText_optional _) rfl)
    (.cons (matches_stringPtr rfl (isText_optional _) rfl)
    (.cons (matches_int64Ptr rfl (hfits _ (by decide)))
    (.cons (matches_int64Ptr rfl (hfits _ (by decide)))
    (.cons (matches_int64Ptr rfl (hfits _ (by decide)))
    (.cons (matches_stringPtr rfl (isText_optional _) rfl)
    (.cons (matches_stringPtr rfl (isText_optional _) rfl) .nil)))))))

/-- Go reproduces a model. -/
theorem reproduced_modelInfo (hmodel : ModelUpTo modelInfo out)
    (hplain : Plain (.dict out)) (hdeclared : DeclaredIn modelInfo (.dict out)) :
    Reproduced modelFields {} (goItems out) := by
  refine reproduced_of_model hmodel (by decide) ?_ hplain.scalarKeys (distinct_dict.mp hplain.2).1
    (hdeclared out rfl) (by decide)
  exact .cons (matches_stringPtr rfl (isText_optional _) rfl)
    (.cons (matches_stringPtr rfl (isText_optional _) rfl)
    (.cons (matches_stringPtr rfl (isText_optional _) rfl) .nil))

/-- Go reproduces a tool. -/
theorem reproduced_toolInfo (hmodel : ModelUpTo toolInfo out)
    (hplain : Plain (.dict out)) (hdeclared : DeclaredIn toolInfo (.dict out)) :
    Reproduced toolFields {} (goItems out) := by
  refine reproduced_of_model hmodel (by decide) ?_ hplain.scalarKeys (distinct_dict.mp hplain.2).1
    (hdeclared out rfl) (by decide)
  exact .cons (matches_stringPtr rfl (isText_optional _) rfl)
    (.cons (matches_stringPtr rfl (isText_optional _) rfl) .nil)

/-- Go reproduces oversight. -/
theorem reproduced_oversight (hmodel : ModelUpTo oversight out)
    (hplain : Plain (.dict out)) (hdeclared : DeclaredIn oversight (.dict out)) :
    Reproduced oversightFields {} (goItems out) := by
  refine reproduced_of_model hmodel (by decide) ?_ hplain.scalarKeys (distinct_dict.mp hplain.2).1
    (hdeclared out rfl) (by decide)
  exact .cons (matches_stringPtr rfl (isText_defaulted_enum _ _ _) rfl)
    (.cons (matches_stringPtr rfl (isText_optional _) rfl)
    (.cons (matches_stringPtr rfl (isText_optional _) rfl) .nil))

/-- Go reproduces a risk. -/
theorem reproduced_risk (hmodel : ModelUpTo risk out)
    (hplain : Plain (.dict out)) (hdeclared : DeclaredIn risk (.dict out)) :
    Reproduced riskFields {} (goItems out) := by
  refine reproduced_of_model hmodel (by decide) ?_ hplain.scalarKeys (distinct_dict.mp hplain.2).1
    (hdeclared out rfl) (by decide)
  exact .cons (matches_stringPtr rfl (isText_optional _) rfl)
    (.cons (matches_stringPtr rfl (isText_optional _) rfl)
    (.cons (matches_stringPtr rfl (isText_optional _) rfl) .nil))

/-- Go reproduces a source. -/
theorem reproduced_source (hmodel : ModelUpTo sourceMeta out)
    (hplain : Plain (.dict out)) (hdeclared : DeclaredIn sourceMeta (.dict out)) :
    Reproduced sourceFields {} (goItems out) := by
  refine reproduced_of_model hmodel (by decide) ?_ hplain.scalarKeys (distinct_dict.mp hplain.2).1
    (hdeclared out rfl) (by decide)
  exact .cons (matches_string rfl (isText_required _) (fun h => nomatch h))
    (.cons (matches_stringPtr rfl (isText_optional _) rfl)
    (.cons (matches_stringPtr rfl (isText_optional _) rfl)
    (.cons (matches_stringPtr rfl (isText_optional _) rfl)
    (.cons (matches_stringPtr rfl (isText_optional _) rfl) .nil))))

end Models

/-! ## Committed records -/

/-- The items of a committed record: the declared fields but the ledger are bound as they are dumped,
and what is hashed can be encoded. -/
structure EventRecord (items : Items) : Prop where
  bound : ∀ p ∈ complianceEvent, p.name ≠ lit "ledger" → ∀ w, items.lookup p.name = some w →
    YieldsUpTo p w
  unbound : ∀ p ∈ complianceEvent, p.name ≠ lit "ledger" → items.lookup p.name = none →
    p.presence = .optional
  distinct : distinct (.dict items) = true
  encodable : Encodable (.dict (OpenWright.withoutLedger items))

/-- The models inside an event, by the keys they stand under. -/
def nestedModels : List (Str × List Model.Field) :=
  [(lit "actor", actor), (lit "provenance", provenance), (lit "io", ioRef),
    (lit "model", modelInfo), (lit "tool", toolInfo), (lit "oversight", oversight),
    (lit "risk", risk), (lit "source", sourceMeta)]

/-- No model inside the event has keys but the declared ones. -/
structure NoNestedExtras (items : Items) : Prop where
  nested : ∀ p ∈ nestedModels, ∀ v ∈ items.lookup p.1, DeclaredIn p.2 v
  identityClaim : ∀ a ∈ items.lookup (lit "actor"), ∀ v ∈ a.item? (lit "identity_claim"),
    DeclaredIn EventModel.identityClaim v

/-- The counts of tokens are integers of 64 bits. -/
def TokensFit (items : Items) : Prop :=
  ∀ io ∈ items.lookup (lit "io"), ∀ k ∈ tokenKeys, ∀ z, io.item? k = some (.int z) → inInt64 z

/-- No key of the event is the name of a field in another case. -/
def NoOtherCase (items : Items) : Prop :=
  ∀ kv ∈ items, ∀ f ∈ leafFields, equalFold f.name (ofStr kv.1) = true → f.name = ofStr kv.1

namespace EventRecord

variable {items : Items}

/-- The keys of a record can be encoded. -/
theorem scalarKeys (h : EventRecord items) : ScalarKeys items := by
  intro kv hkv
  by_cases hledger : kv.1 = lit "ledger"
  · rw [hledger]
    exact scalar_lit _
  · exact (encodableItems_iff.mp h.encodable kv
      (List.mem_filter.mpr ⟨hkv, decide_eq_true hledger⟩)).1

/-- They are distinct in the document. -/
theorem nodup (h : EventRecord items) : ((goItems items).map Prod.fst).Nodup :=
  nodup_goItems h.scalarKeys (distinct_dict.mp h.distinct).1

/-- What a key but the ledger's is bound to stands for itself in the document. -/
theorem plain (h : EventRecord items) {k : Str} (hk : k ≠ lit "ledger") {v : Val}
    (hv : items.lookup k = some v) : Plain v := by
  have hmem := mem_of_lookup hv
  exact ⟨(encodableItems_iff.mp h.encodable _ (List.mem_filter.mpr ⟨hmem, decide_eq_true hk⟩)).2,
    (distinct_dict.mp h.distinct).2 _ hmem⟩

/-- The fields of the content, in the order of the leaf content in Go. -/
def contentFields : List Model.Field :=
  [defaulted "schema_version" (.str (lit "1.0.0")) Model.str, defaulted "event_id" (.str []) Model.str,
    required "timestamp" Model.str, required "kind" (Model.enum eventKinds),
    required "actor" (Model.model actor), required "source" (Model.model sourceMeta),
    defaulted "provenance" (.dict []) (Model.model provenance),
    defaulted "attributes" (.dict []) (Model.guarded findsFloat Model.anyDict),
    defaulted "labels" (.dict []) Model.strDict, optional "io" (Model.model ioRef),
    optional "model" (Model.model modelInfo), optional "tool" (Model.model toolInfo),
    optional "oversight" (Model.model oversight), optional "risk" (Model.model risk)]

/-- They are the declared fields but the ledger. -/
theorem mem_contentFields {p : Model.Field} (hp : p ∈ contentFields) :
    p ∈ complianceEvent ∧ p.name ≠ lit "ledger" := by
  constructor
  · -- the order in Go differs
    have hperm : contentFields = [0, 1, 2, 3, 4, 13, 5, 11, 12, 6, 7, 8, 9, 10].filterMap
        (complianceEvent[·]?) := rfl
    rw [hperm, List.mem_filterMap] at hp
    obtain ⟨i, -, hi⟩ := hp
    exact List.mem_of_getElem? hi
  · have hnames : ∀ k ∈ contentFields.map (·.name), k ≠ lit "ledger" := by decide
    exact hnames _ (List.mem_map_of_mem hp)

/-- The names of the fields are text in UTF-8. -/
theorem scalar_name {p : Model.Field} (hp : p ∈ contentFields) : Scalar p.name := by
  have hnames : ∀ k ∈ contentFields.map (·.name), Scalar k := by decide
  exact hnames _ (List.mem_map_of_mem hp)

/-- An empty provenance is taken over. -/
theorem reproduced_provenance_empty : Reproduced provenanceFields {} [] where
  keys := List.nodup_nil
  declared kv hkv := absurd hkv List.not_mem_nil
  bound f _ v hv := nomatch hv
  unbound f hf _ := by
    simp only [provenanceFields, List.mem_cons, List.not_mem_nil, or_false] at hf
    rcases hf with rfl | rfl | rfl | rfl <;> rfl

/-- Fields in Go match those of a record within the declared fields. -/
theorem matches_contentFields (h : EventRecord items) (hextras : NoNestedExtras items)
    (htokens : TokensFit items) :
    List.Forall₂ (Matches items ({} : Event)) leafFields contentFields := by
  -- every nested record is plain and has its declared fields only
  have hnested : ∀ {name : String} {fields : List Model.Field} {inner : Items},
      (lit name, fields) ∈ nestedModels → items.lookup (lit name) = some (.dict inner) →
      Plain (.dict inner) ∧ DeclaredIn fields (.dict inner) := by
    intro name fields inner hmem hlookup
    have hne : ∀ p ∈ nestedModels.map Prod.fst, p ≠ lit "ledger" := by decide
    exact ⟨h.plain (hne _ (List.mem_map_of_mem hmem)) hlookup, hextras.nested _ hmem _ hlookup⟩
  -- field by field, in the order of the model; a pointer is nil where the field is null
  refine .cons (matches_string rfl (isText_defaulted _ _) fun h => nomatch h)
    (.cons (matches_string rfl (isText_defaulted _ _) fun h => nomatch h)
    (.cons (matches_string rfl (isText_required _) fun h => nomatch h)
    (.cons (matches_string rfl (isText_enum _ _) fun h => nomatch h)
    (.cons (matches_struct lawful_actorFields actorMap_eq fun inner hinner hlookup => ?_)
    (.cons (matches_struct lawful_sourceFields sourceMap_eq fun inner hinner hlookup => ?_)
    (.cons (matches_keptStructPtr lawful_provenanceFields provenanceMap_eq rfl
      reproduced_provenance_empty fun inner hinner hlookup => ?_)
    (.cons (matches_attributes rfl fun inner hlookup => (h.plain (by decide) hlookup).nodup)
    (.cons (matches_labels rfl fun inner hlookup => (h.plain (by decide) hlookup).nodup)
    (.cons (matches_structPtr lawful_ioFields ioMap_eq rfl fun inner hinner hlookup => ?_)
    (.cons (matches_structPtr lawful_modelFields modelMap_eq rfl fun inner hinner hlookup => ?_)
    (.cons (matches_structPtr lawful_toolFields toolMap_eq rfl fun inner hinner hlookup => ?_)
    (.cons (matches_structPtr lawful_oversightFields oversightMap_eq rfl
      fun inner hinner hlookup => ?_)
    (.cons (matches_structPtr lawful_riskFields riskMap_eq rfl
      fun inner hinner hlookup => ?_) .nil)))))))))))))
  · obtain ⟨hplain, hdeclared⟩ := hnested (List.mem_of_getElem? (i := 0) rfl) hlookup
    exact reproduced_actor hinner hplain hdeclared (hextras.identityClaim _ hlookup)
  · obtain ⟨hplain, hdeclared⟩ := hnested (List.mem_of_getElem? (i := 7) rfl) hlookup
    exact reproduced_source hinner hplain hdeclared
  · obtain ⟨hplain, hdeclared⟩ := hnested (List.mem_of_getElem? (i := 1) rfl) hlookup
    exact reproduced_provenance hinner hplain hdeclared
  · obtain ⟨hplain, hdeclared⟩ := hnested (List.mem_of_getElem? (i := 2) rfl) hlookup
    exact reproduced_io hinner hplain hdeclared (htokens _ hlookup)
  · obtain ⟨hplain, hdeclared⟩ := hnested (List.mem_of_getElem? (i := 3) rfl) hlookup
    exact reproduced_modelInfo hinner hplain hdeclared
  · obtain ⟨hplain, hdeclared⟩ := hnested (List.mem_of_getElem? (i := 4) rfl) hlookup
    exact reproduced_toolInfo hinner hplain hdeclared
  · obtain ⟨hplain, hdeclared⟩ := hnested (List.mem_of_getElem? (i := 5) rfl) hlookup
    exact reproduced_oversight hinner hplain hdeclared
  · obtain ⟨hplain, hdeclared⟩ := hnested (List.mem_of_getElem? (i := 6) rfl) hlookup
    exact reproduced_risk hinner hplain hdeclared

/-- **A record within the declared fields is taken over** by the event model. -/
theorem reproduced (h : EventRecord items) (hcase : NoOtherCase items)
    (hextras : NoNestedExtras items) (htokens : TokensFit items) :
    ReproducedEvent (goItems items) := by
  have hmatch := matches_contentFields h hextras htokens
  refine ⟨h.nodup, fun kv hkv f hf hmatches => ?_, fun f hf v hv => ?_, fun f hf hnone => ?_⟩
  · rw [goItems_eq_map] at hkv
    obtain ⟨lv, hlv, rfl⟩ := List.mem_map.mp hkv
    rw [matchField, Option.or_eq_some_iff] at hmatches
    rcases hmatches with hname | ⟨-, hfold⟩
    · have hdec := List.find?_some hname
      exact of_decide_eq_true hdec
    · have hdec := List.find?_some hfold
      exact hcase lv hlv f hf hdec
  · obtain ⟨p, hp, hfp⟩ := exists_right_of_mem hmatch hf
    obtain ⟨hmem, hledger⟩ := mem_contentFields hp
    rw [hfp.name, lookup_goItems h.scalarKeys (scalar_name hp), Option.map_eq_some_iff] at hv
    obtain ⟨w, hw, rfl⟩ := hv
    exact hfp.bound w (h.bound p hmem hledger w hw) hw
  · obtain ⟨p, hp, hfp⟩ := exists_right_of_mem hmatch hf
    obtain ⟨hmem, hledger⟩ := mem_contentFields hp
    rw [hfp.name, lookup_goItems h.scalarKeys (scalar_name hp), Option.map_eq_none_iff] at hnone
    exact hfp.unbound (h.unbound p hmem hledger hnone)

end EventRecord

end OpenWright.Go
