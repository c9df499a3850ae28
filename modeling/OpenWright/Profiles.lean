import OpenWright.CrosswalkPin
import OpenWright.Report

/-! # Deployer profiles

A crosswalk has variants of some controls, for deployers of different profiles. Only the controls of a
profile are evaluated.

* **`evaluate_selectProfile`** — a profile selects controls and does not change what is found of them,
  and its hash is that of the whole crosswalk only where it selects all of them. -/

namespace OpenWright

open Python Python.Val Canonical Hash

/-! ## Selection -/

/-- Whether a control applies to the selected profiles. -/
def Control.applies (selected : List Str) (c : Control) : Bool :=
  c.appliesToProfiles.isEmpty || c.appliesToProfiles.any (· ∈ selected)

/-- The selected profiles: those that are asked for, or the default ones. -/
def Crosswalk.selected (cw : Crosswalk) (profile : Option (List Str)) : List Str :=
  profile.getD cw.defaultProfiles

/-- `select_profile`. -/
def selectProfile (cw : Crosswalk) (profile : Option (List Str)) : Crosswalk :=
  { cw with controls := cw.controls.filter (·.applies (cw.selected profile)) }

/-- The results of the controls that apply. -/
def resultsFor (cw : Crosswalk) (profile : Option (List Str)) (results : List ControlResult) :
    List ControlResult :=
  ((cw.controls.zip results).filter fun cr => cr.1.applies (cw.selected profile)).map Prod.snd

section Lists

variable {ε α β : Type} {f : α → Except ε β}

/-- A loop over some of the elements gives the results of those. -/
theorem mapM_filter {p : α → Bool} {xs : List α} {ys : List β} (h : xs.mapM f = .ok ys) :
    (xs.filter p).mapM f = .ok (((xs.zip ys).filter fun xy => p xy.1).map Prod.snd) := by
  rw [mapM_eq_ok] at h ⊢
  induction h with
  | nil => exact .nil
  | @cons x y xs ys hxy hrest ih =>
      rw [List.zip_cons_cons]
      by_cases hp : p x = true
      · rw [List.filter_cons_of_pos hp, List.filter_cons_of_pos (by simpa using hp), List.map_cons]
        exact .cons hxy ih
      · rw [List.filter_cons_of_neg hp, List.filter_cons_of_neg (by simpa using hp)]
        exact ih

/-- Selection commutes with a map on the results. -/
theorem zip_map_filter {p : α → Bool} {xs : List α} {ys : List β} (g : β → β) :
    (((xs.zip (ys.map g)).filter fun xy => p xy.1).map Prod.snd)
      = (((xs.zip ys).filter fun xy => p xy.1).map Prod.snd).map g := by
  rw [List.zip_map_right, List.filter_map, List.map_map, List.map_map]
  rfl

/-- Elements of one position are related. -/
theorem of_mem_zip {R : α → β → Prop} {xs : List α} {ys : List β} (h : List.Forall₂ R xs ys) {x : α}
    {y : β} (hxy : (x, y) ∈ xs.zip ys) : R x y :=
  (List.forall₂_iff_zip.mp h).2 hxy

end Lists

/-! ## The content hash -/

/-- Null entries are left out; the others are encodable. -/
theorem encodable_strip_dict {kvs : Items} : Canonical.Encodable (strip (.dict kvs)) ↔
    ∀ kv ∈ kvs, kv.2 ≠ .null → Scalar kv.1 ∧ Canonical.Encodable (strip kv.2) := by
  rw [strip, Canonical.Encodable]
  induction kvs with
  | nil => simp [stripItems, EncodableItems]
  | cons kv kvs ih =>
      obtain ⟨k, v⟩ := kv
      rw [stripItems, List.forall_mem_cons, ← ih]
      by_cases hv : v = .null
      · simp [hv]
      · simp [hv, EncodableItems, and_assoc]

/-- A list without nulls can be encoded where its elements can. -/
theorem encodable_strip_list {vs : List Val} :
    Canonical.Encodable (strip (.list vs)) ↔ ∀ v ∈ vs, Canonical.Encodable (strip v) := by
  rw [strip, Canonical.Encodable]
  induction vs with
  | nil => simp [stripList, EncodableList]
  | cons v vs ih => rw [stripList, EncodableList, List.forall_mem_cons, ih]

/-- The dump of a crosswalk without its controls. -/
def Crosswalk.header (cw : Crosswalk) : Items :=
  [(lit "id", .str cw.id), (lit "title", .str cw.title), (lit "version", .str cw.version),
      (lit "source", .str cw.source), (lit "reviewed_as_of", .str cw.reviewedAsOf)]
    ++ ifSet "description" (cw.description.map .str)
    ++ ifSet "disclaimer" (cw.disclaimer.map .str)
    ++ [(lit "default_profiles", strings cw.defaultProfiles)]

/-- A crosswalk is dumped with its controls last. -/
theorem Crosswalk.dump_eq (cw : Crosswalk) : cw.dump
    = .dict (cw.header ++ [(lit "controls", .list (cw.controls.map Control.dump))]) := by
  rw [Crosswalk.dump, Crosswalk.header, List.append_assoc _ [_]]
  rfl

/-- A crosswalk has a hash where its header and each of its controls are encodable. -/
theorem exists_crosswalkContentHash_iff {cw : Crosswalk} :
    (∃ hash, crosswalkContentHash cw = .ok hash) ↔
      (∀ kv ∈ cw.header, kv.2 ≠ .null → Scalar kv.1 ∧ Canonical.Encodable (strip kv.2)) ∧
        ∀ c ∈ cw.controls, Canonical.Encodable (strip c.dump) := by
  rw [crosswalkContentHash, exists_contentHash_iff, Crosswalk.dump_eq, encodable_strip_dict,
    List.forall_mem_append, List.forall_mem_singleton, encodable_strip_list, List.forall_mem_map]
  refine and_congr_right fun _ => ⟨fun h => (h (by simp)).2, fun h _ =>
    ⟨(show Scalar (lit "controls") from by decide), h⟩⟩

/-- The hash of a selection can be computed where that of the whole can. -/
theorem exists_hash_selectProfile {cw : Crosswalk} {hash : Str} (h : crosswalkContentHash cw = .ok hash)
    (profile : Option (List Str)) :
    ∃ hash', crosswalkContentHash (selectProfile cw profile) = .ok hash' := by
  obtain ⟨hheader, hcontrols⟩ := exists_crosswalkContentHash_iff.mp ⟨hash, h⟩
  exact exists_crosswalkContentHash_iff.mpr
    ⟨hheader, fun c hc => hcontrols c (List.mem_of_mem_filter hc)⟩

/-- The keys of the dump of a selection are distinct. -/
theorem distinct_selectProfile {cw : Crosswalk} (h : distinct cw.dump = true)
    (profile : Option (List Str)) : distinct (selectProfile cw profile).dump = true := by
  rw [Crosswalk.dump_eq, distinct_dict, List.forall_mem_append, List.forall_mem_singleton, distinct,
    distinctList_iff, List.forall_mem_map] at h ⊢
  obtain ⟨hkeys, hheader, hcontrols⟩ := h
  rw [List.map_append] at hkeys ⊢
  exact ⟨hkeys, hheader, fun c hc => hcontrols c (List.mem_of_mem_filter hc)⟩

/-- Where the two dumps do not collide, a selection has the hash of the whole crosswalk exactly where
every control applies. -/
theorem hash_selectProfile_eq_iff {cw : Crosswalk} {profile : Option (List Str)} {hash hash' : Str}
    (hd : distinct cw.dump = true)
    (hfree : ∀ a b, canonicalBytes cw.dump = .ok a →
      canonicalBytes (selectProfile cw profile).dump = .ok b → CollisionFree [a, b])
    (h : crosswalkContentHash cw = .ok hash)
    (h' : crosswalkContentHash (selectProfile cw profile) = .ok hash') :
    hash' = hash ↔ ∀ c ∈ cw.controls, c.applies (cw.selected profile) = true := by
  obtain ⟨a, ha, -⟩ := bind_eq_ok.mp h
  obtain ⟨b, hb, -⟩ := bind_eq_ok.mp h'
  constructor
  · rintro rfl
    obtain rfl : a = b := bytes_eq_of_contentHash ha hb (hfree a b ha hb) h h'
    -- the same bytes are of as many controls, and a filter that keeps the length keeps everything
    have hlen := (Crosswalk.controls_of_sameContent ((sameContent_iff ha).mpr hb) hd
      (distinct_selectProfile hd profile)).length_eq
    exact List.length_filter_eq_length_iff.mp hlen.symm
  · intro hall
    have hself : selectProfile cw profile = cw := by
      rw [selectProfile, List.filter_eq_self.mpr hall]
    rw [hself, h, Except.ok.injEq] at h'
    exact h'.symm

/-! ## Evaluation -/

/-- A selected control that is sensitive in the whole crosswalk is so in the selection. -/
def KeepsSensitive (cw : Crosswalk) (profile : Option (List Str)) : Prop :=
  ∀ c ∈ (selectProfile cw profile).controls, c.id ∈ cw.sensitive →
    c.id ∈ (selectProfile cw profile).sensitive

/-- Where the ids are distinct, that is so. -/
theorem keepsSensitive_of_nodup {cw : Crosswalk} (h : (cw.controls.map (·.id)).Nodup)
    (profile : Option (List Str)) : KeepsSensitive cw profile := by
  intro c hc hsensitive
  obtain ⟨d, hd, hid⟩ := List.mem_map.mp hsensitive
  obtain ⟨hd, hcs⟩ := List.mem_filter.mp hd
  obtain rfl : d = c := List.inj_on_of_nodup_map h hd (List.mem_of_mem_filter hc) hid
  exact List.mem_map_of_mem (List.mem_filter.mpr ⟨hc, hcs⟩)

/-- What is sensitive in the selection is so in the whole crosswalk. -/
theorem sensitive_selectProfile {cw : Crosswalk} {profile : Option (List Str)} {id : Str}
    (h : id ∈ (selectProfile cw profile).sensitive) : id ∈ cw.sensitive := by
  obtain ⟨c, hc, rfl⟩ := List.mem_map.mp h
  obtain ⟨hc, hcs⟩ := List.mem_filter.mp hc
  exact List.mem_map_of_mem (List.mem_filter.mpr ⟨List.mem_of_mem_filter hc, hcs⟩)

/-- An override depends on whether the id is sensitive. -/
theorem override_congr {r : ControlResult} (gaps : Gaps) {ids ids' : List Str}
    (h : r.controlId ∈ ids ↔ r.controlId ∈ ids') : r.override gaps ids = r.override gaps ids' := by
  simp only [ControlResult.override, h]

/-- A selection is evaluated where the whole crosswalk is, with the results of its controls. -/
theorem controlResults_selectProfile {cw : Crosswalk} {dicts : List Val} {rs : List ControlResult}
    (h : cw.controlResults dicts = .ok rs) {profile : Option (List Str)}
    (hkeeps : KeepsSensitive cw profile) :
    (selectProfile cw profile).controlResults dicts = .ok (resultsFor cw profile rs) := by
  obtain ⟨idx, gaps, results, hidx, hgaps, hresults, rfl⟩ := Crosswalk.controlResults_eq_ok h
  have hselected := mapM_filter (p := (·.applies (cw.selected profile))) (mapM_eq_ok.mpr hresults)
  refine bind_eq_ok.mpr ⟨idx, hidx, bind_eq_ok.mpr ⟨gaps, hgaps, bind_eq_ok.mpr ⟨_, hselected, ?_⟩⟩⟩
  rw [resultsFor, zip_map_filter]
  refine congrArg Except.ok (List.map_congr_left fun r hr => ?_)
  refine override_congr gaps ⟨sensitive_selectProfile, fun hid => ?_⟩
  -- a result that is selected is that of a control that is
  obtain ⟨⟨c, r'⟩, hzip, rfl⟩ := List.mem_map.mp hr
  obtain ⟨hzip, happlies⟩ := List.mem_filter.mp hzip
  have hid' : r'.controlId = c.id := (Control.evaluate_eq_ok (of_mem_zip hresults hzip)).1
  dsimp only at hid ⊢
  rw [hid'] at hid ⊢
  exact hkeeps c (List.mem_filter.mpr ⟨(List.of_mem_zip hzip).1, happlies⟩) hid

/-- **A profile selects verdicts.** Where the whole crosswalk can be evaluated on the events, every
profile of it can, and finds of each control that applies what the whole crosswalk finds of it. So two
profiles find the same of the controls that apply to both. The hash of the selection is that of the
whole crosswalk only where every control applies. -/
theorem evaluate_selectProfile (cw : Crosswalk) (dicts : List Val) {cr : CrosswalkResult}
    (h : cw.evaluate dicts = .ok cr) (profile : Option (List Str)) (hkeeps : KeepsSensitive cw profile)
    (hdistinct : distinct cw.dump = true)
    (hfree : ∀ a b, canonicalBytes cw.dump = .ok a →
      canonicalBytes (selectProfile cw profile).dump = .ok b → CollisionFree [a, b]) :
    ∃ hash, (selectProfile cw profile).evaluate dicts = .ok { cr with
        crosswalkContentHash := some hash, controls := resultsFor cw profile cr.controls } ∧
      (some hash = cr.crosswalkContentHash ↔
        ∀ c ∈ cw.controls, c.applies (cw.selected profile) = true) := by
  obtain ⟨rs, hash, hrs, hhash, rfl⟩ := Crosswalk.evaluate_eq_ok h
  obtain ⟨hash', hhash'⟩ := exists_hash_selectProfile hhash profile
  refine ⟨hash', ?_, ?_⟩
  · exact bind_eq_ok.mpr ⟨_, controlResults_selectProfile hrs hkeeps, bind_eq_ok.mpr ⟨hash', hhash', rfl⟩⟩
  · rw [Option.some.injEq]
    exact hash_selectProfile_eq_iff hdistinct hfree hhash hhash'

/-- A control for all deployers, and one for banks. -/
def bankCrosswalk : Crosswalk where
  id := lit "b"
  title := lit "B"
  version := lit "1"
  source := lit "s"
  reviewedAsOf := lit "2026"
  controls := [
    { id := lit "records", title := lit "R", requirement := lit "r", citation := policyCitation,
      condition := .mk (lit "committed") none none .null none none [] },
    { id := lit "approvals", title := lit "A", requirement := lit "r", citation := policyCitation,
      scope := { kind := some [lit "human_approval"] },
      condition := .mk (lit "committed") none none .null none none [],
      appliesToProfiles := [lit "bank"] }]

/-- Their results on the sample records. -/
def bankResult : CrosswalkResult where
  crosswalkId := lit "b"
  crosswalkTitle := lit "B"
  crosswalkVersion := lit "1"
  crosswalkContentHash := (crosswalkContentHash bankCrosswalk).toOption
  source := lit "s"
  reviewedAsOf := lit "2026"
  controls := [
    { controlId := lit "records", title := lit "R", status := .satisfied, requirement := lit "r",
      citation := policyCitation, reason := scopeReason 0 3, evaluatedCount := 3, satisfiedCount := 3,
      evidenceEventIds := threeRecords.map (entry (lit "event_id")) },
    { controlId := lit "approvals", title := lit "A", status := .satisfied, requirement := lit "r",
      citation := policyCitation, reason := scopeReason 0 1, evaluatedCount := 1, satisfiedCount := 1,
      evidenceEventIds := [entry (lit "event_id") approvalRecord] }]

/-- The crosswalk is encodable. -/
theorem encodable_bankCrosswalk : Encodable bankCrosswalk.dump := by
  simp [bankCrosswalk, policyCitation, Crosswalk.dump, Control.dump, EventFilter.dump, Condition.dump,
    Condition.dumpList, Canonical.Encodable, EncodableItems, EncodableList, ifSet, strings, jsonMode,
    jsonModeItems, jsonModeList, EmptyScopePolicy.value]

/-- The events satisfy both controls. -/
theorem evaluate_bankCrosswalk : bankCrosswalk.evaluate threeRecords = .ok bankResult := by
  have hcontrols : bankCrosswalk.controlResults threeRecords = .ok bankResult.controls :=
    eq_ok_of_toOption (by decide +kernel)
  obtain ⟨hash, hhash, -⟩ := exists_contentHash encodable_bankCrosswalk
  rw [Crosswalk.evaluate, hcontrols]
  refine bind_eq_ok.mpr ⟨_, rfl, ?_⟩
  rw [bankResult, crosswalkContentHash, hhash]
  rfl

/-- The digests of the crosswalk and of its selection start differently. -/
theorem digests_bankCrosswalk :
    (canonicalBytes bankCrosswalk.dump).toOption.map (fun b => (sha256 b).take 2) = some [233, 89] ∧
      (canonicalBytes (selectProfile bankCrosswalk (some [lit "insurer"])).dump).toOption.map
        (fun b => (sha256 b).take 2) = some [212, 210] := by
  decide +kernel

/-- For insurers the control for banks is left out, and the hash is another one. -/
theorem evaluate_selectProfile_sample : ∃ hash,
    (selectProfile bankCrosswalk (some [lit "insurer"])).evaluate threeRecords = .ok { bankResult with
        crosswalkContentHash := some hash
        controls := bankResult.controls.take 1 } ∧
      some hash ≠ bankResult.crosswalkContentHash := by
  obtain ⟨hash, heval, hiff⟩ := evaluate_selectProfile bankCrosswalk threeRecords evaluate_bankCrosswalk
    (some [lit "insurer"]) (keepsSensitive_of_nodup (by decide) _) (by decide) fun a b ha hb => by
      obtain ⟨hfirst, hsecond⟩ := digests_bankCrosswalk
      rw [ha] at hfirst
      rw [hb] at hsecond
      refine @collisionFree_of_digests _ [a, b] [[233, 89], [212, 210]] (fun s hs => hs) ?_ (by decide)
      simpa [Except.toOption] using And.intro hfirst hsecond
  exact ⟨hash, heval, fun h => absurd (hiff.mp h) (by decide)⟩

end OpenWright
