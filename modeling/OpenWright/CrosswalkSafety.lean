import OpenWright.CrosswalkSemantics
import OpenWright.Ledger

/-! # Where an evaluation returns

An evaluation compares, searches and converts what the events carry, and hashes the crosswalk. It
raises where a comparison it comes to is between values that do not compare, and nowhere before: a
condition that is not come to, because the ones before it decide, asks nothing of the event.

* **`evaluate_returns_iff`** — an evaluation returns exactly where the crosswalk has a hash, the gap
  markers say how many events were dropped, and every test it comes to is safe.
* **`evaluate_not_total`** — one committed event stops the evaluation of a crosswalk of the
  documented kinds. -/

namespace OpenWright

open Python Python.Val Canonical

/-! ## Documented crosswalks -/

/-- The condition types of the schema. -/
def conditionTypes : List Str :=
  [lit "committed", lit "field", lit "linked", lit "any_of", lit "all_of", lit "not"]

/-- The operators of the schema. -/
def fieldOps : List Str := [lit "eq", lit "ne", lit "in", lit "exists", lit "gte", lit "lte"]

/-- The links of the schema. -/
def linkKinds : List Str :=
  [lit "approval_ref", lit "same_task", lit "same_context", lit "references_root"]

mutual
/-- A condition that uses the types, operators and links of the schema only. -/
def Condition.documented : Condition → Bool
  | .mk type _ op _ link _ conditions =>
    type ∈ conditionTypes && op.all (· ∈ fieldOps) && link.all (· ∈ linkKinds)
      && Condition.allDocumented conditions

/-- `Condition.documented`, elementwise. -/
def Condition.allDocumented : List Condition → Bool
  | [] => true
  | c :: cs => Condition.documented c && Condition.allDocumented cs
end

/-- A crosswalk whose conditions use what the schema documents only. -/
def Crosswalk.Documented (cw : Crosswalk) : Prop :=
  ∀ c ∈ cw.controls, c.condition.documented = true

/-! ## Safe conditions -/

/-- What the types of the fields say about the dump of an event: the id and the reference to an
approval are strings, the attributes a dictionary. -/
structure FieldTypes (ev : Val) : Prop where
  event_id : ∃ s, entry (lit "event_id") ev = .str s
  approval_ref : getPath ev (lit "oversight.approval_ref") = .null ∨
    ∃ s, getPath ev (lit "oversight.approval_ref") = .str s
  attributes : entry (lit "attributes") ev = .null ∨ ∃ kvs, entry (lit "attributes") ev = .dict kvs

/-- The value at the path of a `field` condition goes together with the value it is compared with. -/
def FieldSafe (op : Str) (actual value : Val) : Prop :=
  if op = lit "in" then Searchable actual (value.orElse (.list []))
  else if op = lit "gte" then actual ≠ .null → Comparable value actual
  else if op = lit "lte" then actual ≠ .null → Comparable actual value
  else True

mutual
/-- Every test that the evaluation of a condition comes to is safe. -/
def Condition.Safe (events : List Val) (pos : Nat) (ev : Val) : Condition → Prop
  | .mk type path op value link _ conditions =>
    if type = lit "committed" then True
    else if type = lit "field" then FieldSafe (opOrExists op) (fieldValue ev path) value
    else if type = lit "linked" then ∃ k ∈ linkKinds, link = some k
    else if type = lit "any_of" then Condition.AnySafe events pos ev conditions
    else if type = lit "all_of" then Condition.AllSafe events pos ev conditions
    else if type = lit "not" then Condition.AllSafe events pos ev conditions
    else False

/-- The conditions up to the first one that is satisfied are safe. -/
def Condition.AnySafe (events : List Val) (pos : Nat) (ev : Val) : List Condition → Prop
  | [] => True
  | c :: cs => Condition.Safe events pos ev c ∧
      (¬Condition.Sat events pos ev c → Condition.AnySafe events pos ev cs)

/-- The conditions up to the first one that is not satisfied are safe. -/
def Condition.AllSafe (events : List Val) (pos : Nat) (ev : Val) : List Condition → Prop
  | [] => True
  | c :: cs => Condition.Safe events pos ev c ∧
      (Condition.Sat events pos ev c → Condition.AllSafe events pos ev cs)
end

/-- A comparison returns exactly where it is safe. -/
theorem exists_fieldHolds_iff {op : Str} {actual value : Val} :
    (∃ b, fieldHolds op actual value = .ok b) ↔ FieldSafe op actual value := by
  -- only three operators look at the operands in a way that can raise
  have hin : lit "in" ≠ lit "exists" ∧ lit "in" ≠ lit "eq" ∧ lit "in" ≠ lit "ne" := by decide
  have hgte : lit "gte" ≠ lit "exists" ∧ lit "gte" ≠ lit "eq" ∧ lit "gte" ≠ lit "ne" := by decide
  have hlte : lit "lte" ≠ lit "exists" ∧ lit "lte" ≠ lit "eq" ∧ lit "lte" ≠ lit "ne" := by decide
  rw [FieldSafe]
  split
  · rename_i hop
    rw [hop, fieldHolds, if_neg hin.1, if_neg hin.2.1, if_neg hin.2.2, if_pos rfl]
    exact exists_inside_iff
  · rename_i hnin
    split
    · rename_i hop
      rw [hop] at hnin ⊢
      rw [fieldHolds, if_neg hgte.1, if_neg hgte.2.1, if_neg hgte.2.2, if_neg hnin, if_pos rfl]
      split
      -- a missing field is not compared
      · rename_i hnull
        exact iff_of_true ⟨_, rfl⟩ fun h => absurd hnull h
      · rename_i hnull
        rw [ge, exists_le_iff]
        exact ⟨fun h _ => h, fun h => h hnull⟩
    · rename_i hngte
      split
      · rename_i hop
        rw [hop] at hnin hngte ⊢
        rw [fieldHolds, if_neg hlte.1, if_neg hlte.2.1, if_neg hlte.2.2, if_neg hnin,
          if_neg hngte, if_pos rfl]
        split
        · rename_i hnull
          exact iff_of_true ⟨_, rfl⟩ fun h => absurd hnull h
        · rename_i hnull
          rw [exists_le_iff]
          exact ⟨fun h _ => h, fun h => h hnull⟩
      -- equality, presence and what is no operator never raise
      · rename_i hnlte
        refine iff_of_true ?_ trivial
        unfold fieldHolds
        rw [if_neg hnin, if_neg hngte, if_neg hnlte]
        split_ifs
        · exact ⟨_, rfl⟩
        · exact ⟨_, rfl⟩
        · exact ⟨_, rfl⟩
        · exact ⟨_, rfl⟩

/-- The links that compare a path. -/
theorem exists_linkKey_iff {link : Option Str} (h : link ≠ some (lit "approval_ref")) :
    (∃ k, linkKey link = some k) ↔ ∃ k ∈ linkKinds, link = some k := by
  unfold linkKey
  split_ifs with htask hcontext hroot
  · exact iff_of_true ⟨_, rfl⟩ ⟨lit "same_task", by decide, htask⟩
  · exact iff_of_true ⟨_, rfl⟩ ⟨lit "same_context", by decide, hcontext⟩
  · exact iff_of_true ⟨_, rfl⟩ ⟨lit "references_root", by decide, hroot⟩
  · refine iff_of_false (fun ⟨_, hk⟩ => nomatch hk) ?_
    rintro ⟨k, hk, rfl⟩
    simp only [linkKinds, List.mem_cons, List.not_mem_nil, or_false] at hk
    rcases hk with rfl | rfl | rfl | rfl
    · exact h rfl
    · exact htask rfl
    · exact hcontext rfl
    · exact hroot rfl

/-- A link returns exactly where it is one of the schema. -/
theorem exists_linked_iff {idx : Index} {pos : Nat} {ev : Val} (hev : FieldTypes ev)
    {link : Option Str} {target : Option EventFilter} :
    (∃ b, linked idx pos ev link target = .ok b) ↔ ∃ k ∈ linkKinds, link = some k := by
  unfold linked
  by_cases happroval : link = some (lit "approval_ref")
  · rw [if_pos happroval]
    refine iff_of_true ?_ ⟨lit "approval_ref", by decide, happroval⟩
    dsimp only
    split
    · rename_i htruthy
      -- a reference is a string, which has a hash
      rcases hev.approval_ref with hnull | ⟨s, hs⟩
      · rw [hnull] at htruthy
        cases htruthy
      · rw [hs, Index.getById, if_pos (show hashable (.str s) = true from rfl)]
        exact ⟨_, rfl⟩
    · exact ⟨_, rfl⟩
  · rw [if_neg happroval, ← exists_linkKey_iff happroval]
    cases linkKey link with
    | none =>
        refine iff_of_false ?_ ?_
        · rintro ⟨b, hb⟩
          cases hb
        · rintro ⟨k, hk⟩
          cases hk
    | some k =>
        refine iff_of_true ?_ ⟨k, rfl⟩
        dsimp only
        split
        · exact ⟨_, rfl⟩
        · exact ⟨_, rfl⟩

section Returns

variable {events : List Val} {idx : Index} {pos : Nat} {ev : Val}

mutual
/-- **A condition returns exactly where it is safe.** -/
theorem Condition.exists_holds_iff (hidx : Index.init events = .ok idx) (hev : FieldTypes ev) :
    ∀ {c : Condition}, (∃ b, c.holds idx pos ev = .ok b) ↔ c.Safe events pos ev
  | .mk type path op value link target conditions => by
      rw [Condition.Safe]
      unfold Condition.holds
      split
      · exact iff_of_true ⟨_, rfl⟩ trivial
      · split
        · exact exists_fieldHolds_iff
        · split
          · exact exists_linked_iff hev
          · split
            · exact Condition.exists_anyHolds_iff hidx hev
            · split
              · exact Condition.exists_allHold_iff hidx hev
              · split
                · rw [← Condition.exists_allHold_iff hidx hev]
                  cases Condition.allHold idx pos ev conditions with
                  | ok b => exact iff_of_true ⟨_, rfl⟩ ⟨_, rfl⟩
                  | error err => exact iff_of_false (fun ⟨_, h⟩ => nomatch h) fun ⟨_, h⟩ => nomatch h
                · exact iff_of_false (fun ⟨_, h⟩ => nomatch h) id

/-- The same of alternatives, which end with the first one that holds. -/
theorem Condition.exists_anyHolds_iff (hidx : Index.init events = .ok idx) (hev : FieldTypes ev) :
    ∀ {cs : List Condition},
      (∃ b, Condition.anyHolds idx pos ev cs = .ok b) ↔ Condition.AnySafe events pos ev cs
  | [] => iff_of_true ⟨false, rfl⟩ trivial
  | c :: cs => by
      rw [Condition.AnySafe, ← Condition.exists_holds_iff hidx hev,
        ← Condition.exists_anyHolds_iff hidx hev, Condition.anyHolds]
      cases hfirst : c.holds idx pos ev with
      | error err => exact iff_of_false (fun ⟨_, h⟩ => nomatch h) fun ⟨⟨_, h⟩, _⟩ => nomatch h
      | ok first =>
          rw [← Condition.sat_of_holds hidx hfirst]
          cases first with
          | true => exact iff_of_true ⟨true, rfl⟩ ⟨⟨true, rfl⟩, fun h => absurd rfl h⟩
          | false => exact ⟨fun h => ⟨⟨false, rfl⟩, fun _ => h⟩, fun h => h.2 (by decide)⟩

/-- The same of conjunctions, which end with the first part that does not hold. -/
theorem Condition.exists_allHold_iff (hidx : Index.init events = .ok idx) (hev : FieldTypes ev) :
    ∀ {cs : List Condition},
      (∃ b, Condition.allHold idx pos ev cs = .ok b) ↔ Condition.AllSafe events pos ev cs
  | [] => iff_of_true ⟨true, rfl⟩ trivial
  | c :: cs => by
      rw [Condition.AllSafe, ← Condition.exists_holds_iff hidx hev,
        ← Condition.exists_allHold_iff hidx hev, Condition.allHold]
      cases hfirst : c.holds idx pos ev with
      | error err => exact iff_of_false (fun ⟨_, h⟩ => nomatch h) fun ⟨⟨_, h⟩, _⟩ => nomatch h
      | ok first =>
          rw [← Condition.sat_of_holds hidx hfirst]
          cases first with
          | true => exact ⟨fun h => ⟨⟨true, rfl⟩, fun _ => h⟩, fun h => h.2 rfl⟩
          | false => exact iff_of_true ⟨false, rfl⟩ ⟨⟨false, rfl⟩, fun h => nomatch h⟩
end

/-! ## The evaluation -/

/-- What a gap marker says was dropped is a number, or nothing. -/
def DropSafe (ev : Val) : Prop :=
  (entry (lit "dropped_events") (entry (lit "attributes") ev)).truthy = true →
    Convertible (entry (lit "dropped_events") (entry (lit "attributes") ev))

/-- The attributes of an event are looked up. -/
theorem attributes_getD (hev : FieldTypes ev) (k : Str) :
    (attributes ev).getD k .null = .ok (entry k (entry (lit "attributes") ev)) := by
  rw [attributes, orElse]
  rcases hev.attributes with hnull | ⟨kvs, hkvs⟩
  · rw [hnull, if_neg (by simp [truthy])]
    rfl
  · rw [hkvs]
    split
    · rfl
    · -- without items the default has as many
      rename_i hempty
      obtain rfl : kvs = [] := by simpa [truthy] using hempty
      rfl

/-- Every event is looked at for a gap. -/
theorem exists_isGapMarker (hev : FieldTypes ev) : ∃ b, isGapMarker ev = .ok b := by
  rw [isGapMarker, attributes_getD hev]
  exact ⟨_, rfl⟩

/-- The number of dropped events is read exactly where it is one. -/
theorem exists_droppedEvents_iff (hev : FieldTypes ev) :
    (∃ n, droppedEvents ev = .ok n) ↔ DropSafe ev := by
  have hread : droppedEvents ev
      = ((entry (lit "dropped_events") (entry (lit "attributes") ev)).orElse (.int 0)).toInt := by
    rw [droppedEvents, attributes_getD hev]
    rfl
  rw [hread, DropSafe, orElse]
  split
  · rename_i htruthy
    rw [exists_toInt_iff]
    exact ⟨fun h _ => h, fun h => h htruthy⟩
  · rename_i htruthy
    exact iff_of_true ⟨0, rfl⟩ fun h => absurd h htruthy

/-- A comprehension with a condition returns exactly where each test does. -/
theorem exists_select_iff {α : Type} {p : α → Except PyErr Bool} {as : List α} :
    (∃ bs, select p as = .ok bs) ↔ ∀ a ∈ as, ∃ b, p a = .ok b := by
  constructor
  · rintro ⟨bs, hbs⟩
    exact (select_eq_ok.mp hbs).1
  · exact fun h => ⟨_, select_eq_ok.mpr ⟨h, rfl⟩⟩

/-- An index is made of events with string ids. -/
theorem Index.exists_init (hid : ∀ ev ∈ events, ∃ s, entry (lit "event_id") ev = .str s) :
    ∃ idx, Index.init events = .ok idx := by
  have hitems : ∀ ev ∈ events.filter fun ev => (entry (lit "event_id") ev).truthy,
      ∃ kv, idItem ev = .ok kv := by
    intro ev hmem
    obtain ⟨s, hs⟩ := hid ev (List.mem_of_mem_filter hmem)
    exact ⟨(.str s, ev), by rw [idItem, hs]; rfl⟩
  obtain ⟨byId, hbyId⟩ := exists_mapM_iff.mpr hitems
  exact ⟨_, bind_eq_ok.mpr ⟨byId, hbyId, rfl⟩⟩

/-- The gap markers are collected exactly where they say how much was dropped. -/
theorem exists_gapsOf_iff (hev : ∀ ev ∈ events, FieldTypes ev) :
    (∃ gaps, gapsOf events = .ok gaps) ↔ ∀ ev ∈ events, AttestsGap ev → DropSafe ev := by
  -- every event says whether it is a gap marker, so the markers are there in any case
  have hselect : ∀ ev ∈ events, ∃ b, isGapMarker ev = .ok b :=
    fun ev hmem => exists_isGapMarker (hev ev hmem)
  obtain ⟨markers, hmarkers⟩ := exists_select_iff.mpr hselect
  have hmarker : ∀ ev, ev ∈ markers ↔ ev ∈ events ∧ AttestsGap ev := by
    intro ev
    rw [(select_eq_ok.mp hmarkers).2, List.mem_filter]
    refine and_congr_right fun hmem => ?_
    obtain ⟨b, hb⟩ := hselect ev hmem
    rw [hb, saysYes]
    exact attestsGap_of_isGapMarker hb
  -- of the markers, those without an untold number of drops are read
  have hdropped : (∃ ns, markers.mapM droppedEvents = .ok ns) ↔
      ∀ ev ∈ events, AttestsGap ev → DropSafe ev := by
    rw [exists_mapM_iff]
    constructor
    · intro h ev hmem hgap
      exact (exists_droppedEvents_iff (hev ev hmem)).mp (h ev ((hmarker ev).mpr ⟨hmem, hgap⟩))
    · intro h ev hmem
      obtain ⟨hevent, hgap⟩ := (hmarker ev).mp hmem
      exact (exists_droppedEvents_iff (hev ev hevent)).mpr (h ev hevent hgap)
  rw [← hdropped, gapsOf]
  constructor
  · rintro ⟨gaps, hgaps⟩
    obtain ⟨markers', hmarkers', hgaps⟩ := bind_eq_ok.mp hgaps
    obtain rfl : markers = markers' := Except.ok.inj (hmarkers.symm.trans hmarkers')
    obtain ⟨ns, hns, -⟩ := bind_eq_ok.mp hgaps
    exact ⟨ns, hns⟩
  · rintro ⟨ns, hns⟩
    exact ⟨_, bind_eq_ok.mpr ⟨markers, hmarkers, bind_eq_ok.mpr ⟨ns, hns, rfl⟩⟩⟩

/-- The ids of events are strings. -/
theorem exists_eventIds (hid : ∀ ev ∈ events, ∃ s, entry (lit "event_id") ev = .str s) :
    ∃ ids, eventIds events = .ok ids ∧ ∀ id ∈ ids, isStr id = true := by
  have hitem : ∀ ev ∈ events, ∃ s, ev.getItem (lit "event_id") = .ok (.str s) := by
    intro ev hmem
    obtain ⟨s, hs⟩ := hid ev hmem
    refine ⟨s, ?_⟩
    cases ev with
    | dict kvs =>
        rw [entry_dict] at hs
        rw [getItem]
        cases hlookup : kvs.lookup (lit "event_id") with
        | none =>
            rw [hlookup] at hs
            cases hs
        | some w =>
            rw [hlookup] at hs
            exact congrArg Except.ok hs
    | _ => cases hs
  obtain ⟨ids, hids⟩ : ∃ ids, events.mapM (·.getItem (lit "event_id")) = .ok ids :=
    exists_mapM_iff.mpr fun ev hmem => ⟨_, (hitem ev hmem).choose_spec⟩
  -- of all ids only the first few are listed
  refine ⟨ids.take maxIds, bind_eq_ok.mpr ⟨ids, hids, rfl⟩, fun id hmem => ?_⟩
  obtain ⟨ev, hmem, hev⟩ := exists_of_mem_mapM hids (List.mem_of_mem_take hmem)
  obtain ⟨s, hs⟩ := hitem ev hmem
  rw [hs] at hev
  rw [← Except.ok.inj hev]
  rfl

/-- A result whose ids are strings is returned. -/
theorem Control.exists_result (c : Control) (status : ControlStatus) (reason : Str) (m n : Nat)
    {evidence gaps : List Val} (hevidence : ∀ id ∈ evidence, isStr id = true)
    (hgaps : ∀ id ∈ gaps, isStr id = true) :
    ∃ r, c.result status reason m n evidence gaps = .ok r := by
  rw [Control.result, if_pos]
  · exact ⟨_, rfl⟩
  · rw [List.all_eq_true]
    intro id hid
    exact (List.mem_append.mp hid).elim (hevidence id) (hgaps id)

/-- **A control is evaluated exactly where its condition is safe** for the events in its scope. -/
theorem Control.exists_evaluate_iff (hidx : Index.init events = .ok idx)
    (hev : ∀ ev ∈ events, FieldTypes ev) {c : Control} :
    (∃ r, c.evaluate idx = .ok r) ↔ ∀ e ∈ c.inScope events, c.condition.Safe events e.2 e.1 := by
  have hscoped : ∀ e ∈ c.inScope events, FieldTypes e.1 := fun e he =>
    hev e.1 (List.fst_mem_of_mem_zipIdx (List.mem_of_mem_filter he))
  have hselect : (∃ passed, select (fun e => c.condition.holds idx e.2 e.1) (c.inScope events)
      = .ok passed) ↔ ∀ e ∈ c.inScope events, c.condition.Safe events e.2 e.1 := by
    rw [exists_select_iff]
    exact forall₂_congr fun e he => Condition.exists_holds_iff hidx (hscoped e he)
  rw [← hselect, Control.evaluate, Index.events_of_init hidx]
  split
  · rename_i hscope
    rw [hscope]
    refine iff_of_true ?_ ⟨[], rfl⟩
    exact c.exists_result _ _ _ _ (fun _ h => absurd h List.not_mem_nil)
      fun _ h => absurd h List.not_mem_nil
  · rename_i e es hscope
    rw [← hscope, Control.evaluateScope]
    constructor
    · rintro ⟨r, hr⟩
      obtain ⟨passed, hpassed, -⟩ := bind_eq_ok.mp hr
      exact ⟨passed, hpassed⟩
    · rintro ⟨passed, hpassed⟩
      -- what passed and what did not are in scope, so that their ids are strings
      have hids : ∀ es : List (Val × Nat), (∀ e ∈ es, e ∈ c.inScope events) →
          ∃ ids, eventIds (es.map (·.1)) = .ok ids ∧ ∀ id ∈ ids, isStr id = true := by
        intro es hes
        refine exists_eventIds fun ev hmem => ?_
        obtain ⟨e, he, rfl⟩ := List.mem_map.mp hmem
        exact (hscoped e (hes e he)).event_id
      obtain ⟨evidence, hevidence, hstr⟩ := hids passed fun e he => by
        rw [(select_eq_ok.mp hpassed).2] at he
        exact List.mem_of_mem_filter he
      obtain ⟨gaps, hgaps, hstr'⟩ := hids (violators (c.inScope events) passed)
        fun e he => List.mem_of_mem_filter he
      obtain ⟨r, hr⟩ := c.exists_result
        (if violators (c.inScope events) passed = [] then .satisfied else .notSatisfied)
        (scopeReason (violators (c.inScope events) passed).length (c.inScope events).length)
        (c.inScope events).length passed.length hstr hstr'
      exact ⟨r, bind_eq_ok.mpr ⟨passed, hpassed, bind_eq_ok.mpr ⟨evidence, hevidence,
        bind_eq_ok.mpr ⟨gaps, hgaps, hr⟩⟩⟩⟩

end Returns

/-- What an evaluation comes to is safe: the crosswalk has a content hash, every gap marker says how
many events were dropped, and every test that is come to is between values that go together. -/
def Crosswalk.Evaluable (cw : Crosswalk) (dicts : List Val) : Prop :=
  Encodable (strip cw.dump) ∧ (∀ ev ∈ dicts, AttestsGap ev → DropSafe ev) ∧
    ∀ c ∈ cw.controls, ∀ e ∈ c.inScope dicts, c.condition.Safe dicts e.2 e.1

/-- A crosswalk is evaluated where each of its controls can be. -/
theorem Crosswalk.exists_evaluate_iff {cw : Crosswalk} {dicts : List Val}
    (hev : ∀ ev ∈ dicts, FieldTypes ev) :
    (∃ cr, cw.evaluate dicts = .ok cr) ↔ cw.Evaluable dicts := by
  obtain ⟨idx, hidx⟩ := Index.exists_init fun ev hmem => (hev ev hmem).event_id
  have hcontrols : (∃ rs, cw.controls.mapM (·.evaluate idx) = .ok rs) ↔
      ∀ c ∈ cw.controls, ∀ e ∈ c.inScope dicts, c.condition.Safe dicts e.2 e.1 := by
    rw [exists_mapM_iff]
    exact forall₂_congr fun c _ => Control.exists_evaluate_iff hidx hev
  rw [Crosswalk.Evaluable, ← exists_contentHash_iff, ← exists_gapsOf_iff hev, ← hcontrols]
  constructor
  · rintro ⟨cr, hcr⟩
    obtain ⟨controls, hash, hcontrols, hhash, -⟩ := Crosswalk.evaluate_eq_ok hcr
    obtain ⟨idx', gaps, results, hidx', hgaps, hresults, -⟩ := Crosswalk.controlResults_eq_ok hcontrols
    obtain rfl : idx = idx' := Except.ok.inj (hidx.symm.trans hidx')
    exact ⟨⟨hash, hhash⟩, ⟨gaps, hgaps⟩, results, mapM_eq_ok.mpr hresults⟩
  · rintro ⟨⟨hash, hhash⟩, ⟨gaps, hgaps⟩, results, hresults⟩
    have hcontrols : cw.controlResults dicts = .ok (results.map (·.override gaps cw.sensitive)) :=
      bind_eq_ok.mpr ⟨idx, hidx, bind_eq_ok.mpr ⟨gaps, hgaps, bind_eq_ok.mpr ⟨results, hresults, rfl⟩⟩⟩
    exact ⟨_, bind_eq_ok.mpr ⟨_, hcontrols, bind_eq_ok.mpr ⟨hash, hhash, rfl⟩⟩⟩

/-- **Where an evaluation returns.** The crosswalk has a content hash, every gap marker says how many
events were dropped, and every test that the evaluation comes to is between values that go
together. -/
theorem evaluate_returns_iff {cw : Crosswalk} {dicts : List Val}
    (hev : ∀ ev ∈ dicts, FieldTypes ev) :
    (∃ cr, cw.evaluate dicts = .ok cr) ↔
      Encodable (strip cw.dump) ∧ (∀ ev ∈ dicts, AttestsGap ev → DropSafe ev) ∧
        ∀ c ∈ cw.controls, ∀ e ∈ c.inScope dicts, c.condition.Safe dicts e.2 e.1 :=
  Crosswalk.exists_evaluate_iff hev

/-! ## A comparison with text -/

/-- A payment whose amount is a text. -/
def paymentEvent : ComplianceEvent where
  content := .ok [(lit "schema_version", .str (lit "1.0.0")),
    (lit "timestamp", .str (lit "2026-01-01T00:00:00Z")), (lit "kind", .str (lit "tool_call")),
    (lit "actor", .dict [(lit "agent_id", .str (lit "agent-1"))]), (lit "provenance", .dict []),
    (lit "attributes", .dict [(lit "amount", .str (lit "many"))]),
    (lit "labels", .dict []), (lit "source", .dict [(lit "format", .str (lit "sdk"))])]
  content_keys := by
    intro kvs hkvs kv hkv
    rw [← Except.ok.inj hkvs] at hkv
    simp only [List.mem_cons, List.not_mem_nil, or_false] at hkv
    rcases hkv with rfl | rfl | rfl | rfl | rfl | rfl | rfl | rfl <;>
      exact ⟨by simp only; decide, by simp only; decide⟩

/-- The record of a payment. -/
def paymentRecord (amount : Val) (id leaf : String) : Val :=
  .dict [(lit "event_id", .str (lit id)), (lit "schema_version", .str (lit "1.0.0")),
    (lit "timestamp", .str (lit "2026-01-01T00:00:00Z")), (lit "kind", .str (lit "tool_call")),
    (lit "actor", .dict [(lit "agent_id", .str (lit "agent-1"))]), (lit "provenance", .dict []),
    (lit "attributes", .dict [(lit "amount", amount)]), (lit "labels", .dict []),
    (lit "source", .dict [(lit "format", .str (lit "sdk"))]),
    (lit "ledger", .dict [(lit "leaf_hash", .str (lit leaf)), (lit "leaf_index", .int 0),
      (lit "committed_at", .str (lit "2026-01-01T00:00:00Z"))])]

/-- A new ledger in memory. -/
def paymentLedger : Ledger (List Val) where
  store := []
  origin := lit "openwright"
  retention := none
  leaves := []
  tree := .new

/-- A crosswalk that asks for payments of five or more. -/
def paymentCrosswalk : Crosswalk where
  id := lit "payments"
  title := lit "Payments"
  version := lit "1"
  source := lit "internal policy"
  reviewedAsOf := lit "2026-01-01"
  controls := [{ id := lit "amounts", title := lit "Amounts", requirement := lit "Five or more.",
                 citation := [(lit "instrument", .str (lit "internal policy"))],
                 condition := .mk (lit "field") (some (lit "attributes.amount")) (some (lit "gte"))
                   (.int 5) none none [] }]

/-- The dump of an event that a ledger in memory has committed. -/
def CommittedDump (ev : Val) : Prop :=
  ∃ (l : Ledger (List Val)) (event committed : ComplianceEvent) (clock : Except PyErr Str),
    (l.commit inMemoryLedgerBackend event clock).1 = .ok committed ∧ committed.dump = .ok ev

/-- The types of the fields of a payment. -/
theorem fieldTypes_paymentRecord (amount : Val) (id leaf : String) :
    FieldTypes (paymentRecord amount id leaf) where
  event_id := ⟨lit id, rfl⟩
  approval_ref := Or.inl rfl
  attributes := Or.inr ⟨_, rfl⟩

/-- The marker of a gap, with the number of events that were dropped. -/
def gapRecord (dropped : Val) : Val :=
  .dict [(lit "event_id", .str (lit "evt_2")), (lit "kind", .str (lit "conformance_finding")),
    (lit "attributes", .dict [(lit "marker", .str (lit "evidence_gap")),
      (lit "dropped_events", dropped)])]

/-- The types of the fields of a gap marker. -/
theorem fieldTypes_gapRecord (dropped : Val) : FieldTypes (gapRecord dropped) where
  event_id := ⟨_, rfl⟩
  approval_ref := Or.inl rfl
  attributes := Or.inr ⟨_, rfl⟩

/-- The fields of a payment and a gap marker have their types. -/
theorem fieldTypes_paid (amount dropped : Val) :
    ∀ ev ∈ [paymentRecord amount "evt_1" "sha256:00", gapRecord dropped], FieldTypes ev := by
  intro ev hev
  simp only [List.mem_cons, List.not_mem_nil, or_false] at hev
  rcases hev with rfl | rfl
  · exact fieldTypes_paymentRecord _ _ _
  · exact fieldTypes_gapRecord _

/-- The condition on the amount is not safe where the amount is a text. -/
theorem not_safe_of_amount {c : Control} (hc : c ∈ paymentCrosswalk.controls) {ev : Val}
    {rest : List Val} {s : Str} (h : getPath ev (lit "attributes.amount") = .str s) :
    ¬∀ e ∈ c.inScope (ev :: rest), c.condition.Safe (ev :: rest) e.2 e.1 := by
  intro hsafe
  have hscope : (ev, 0) ∈ c.inScope (ev :: rest) := by
    rw [List.mem_singleton.mp hc]
    exact List.mem_filter.mpr ⟨List.mem_cons_self, rfl⟩
  have hfield := hsafe (ev, 0) hscope
  rw [List.mem_singleton.mp hc, Condition.Safe, if_neg (by decide), if_pos rfl] at hfield
  have hcomparable : FieldSafe (lit "gte") (getPath ev (lit "attributes.amount")) (.int 5) := hfield
  rw [FieldSafe, if_neg (by decide), if_pos rfl, h] at hcomparable
  have hnumber := hcomparable fun hnull => by cases hnull
  cases hnumber.2

/-- A number of five or more and a number of dropped events are evaluated; a text in the place of the
amount stops the evaluation, and so does a separator before the number of dropped events, which `int`
does not pass over. -/
theorem evaluate_returns_iff_payment :
    (∃ cr, paymentCrosswalk.evaluate [paymentRecord (.int 7) "evt_1" "sha256:00",
      gapRecord (.str (lit " 5\n"))] = .ok cr) ∧
    (¬∃ cr, paymentCrosswalk.evaluate [paymentRecord (.str (lit "many")) "evt_1" "sha256:00",
      gapRecord (.int 5)] = .ok cr) ∧
    ¬∃ cr, paymentCrosswalk.evaluate [paymentRecord (.int 7) "evt_1" "sha256:00",
      gapRecord (.str (cp 28 :: lit "5"))] = .ok cr := by
  refine ⟨(evaluate_returns_iff (fieldTypes_paid _ _)).mpr ⟨?_, ?_, ?_⟩, ?_, ?_⟩
  · -- the crosswalk has a content hash
    have hencodable : Encodable paymentCrosswalk.dump := by
      simp [paymentCrosswalk, Crosswalk.dump, Control.dump, EventFilter.dump, Condition.dump,
        Condition.dumpList, Canonical.Encodable, EncodableItems, EncodableList, ifSet, strings, jsonMode,
        jsonModeItems, EmptyScopePolicy.value]
    obtain ⟨hash, hhash, -⟩ := exists_contentHash hencodable
    exact exists_contentHash_iff.mp ⟨hash, hhash⟩
  · -- the number of dropped events is read
    intro ev hev hgap htruthy
    simp only [List.mem_cons, List.not_mem_nil, or_false] at hev
    rcases hev with rfl | rfl
    · exact absurd hgap (by rw [AttestsGap]; decide +kernel)
    · exact (show (readInt (lit " 5\n")).isSome = true by decide +kernel)
  · -- the amount is compared where there is one
    intro c hc e he
    obtain rfl := List.mem_singleton.mp hc
    rw [Condition.Safe, if_neg (by decide), if_pos rfl]
    have hmem := (List.mem_filter.mp he).1
    simp only [List.zipIdx_cons, List.zipIdx_nil, List.mem_cons, List.not_mem_nil, or_false] at hmem
    rcases hmem with rfl | rfl
    · refine (show FieldSafe (lit "gte") (.int 7) (.int 5) from ?_)
      rw [FieldSafe, if_neg (by decide), if_pos rfl]
      exact fun _ => ⟨rfl, rfl⟩
    · refine (show FieldSafe (lit "gte") .null (.int 5) from ?_)
      rw [FieldSafe, if_neg (by decide), if_pos rfl]
      exact fun h => absurd rfl h
  · rw [evaluate_returns_iff (fieldTypes_paid _ _)]
    rintro ⟨-, -, hsafe⟩
    exact not_safe_of_amount List.mem_cons_self rfl (hsafe _ List.mem_cons_self)
  · rw [evaluate_returns_iff (fieldTypes_paid _ _)]
    rintro ⟨-, hdropped, -⟩
    have hconvertible := hdropped (gapRecord (.str (cp 28 :: lit "5")))
      (List.mem_cons_of_mem _ List.mem_cons_self) (by rw [AttestsGap]; decide +kernel)
      (by decide +kernel)
    exact absurd (show (readInt (cp 28 :: lit "5")).isSome = true from hconvertible) (by decide +kernel)

/-- **One committed event stops the evaluation**: a text does not compare with a number. -/
theorem evaluate_not_total : ¬∀ cw : Crosswalk, cw.Documented → ∀ dicts : List Val,
    (∀ ev ∈ dicts, FieldTypes ev ∧ CommittedDump ev) → ∃ cr, cw.evaluate dicts = .ok cr := by
  intro h
  have hdocumented : paymentCrosswalk.Documented := fun c hc => by
    rw [List.mem_singleton.mp hc]
    rfl
  obtain ⟨p, -, hcontent, hcommit⟩ := @Ledger.exists_commit paymentLedger paymentEvent _
    (lit "2026-01-01T00:00:00Z") rfl rfl (by simp [EncodableItems, Canonical.Encodable]) (scalar_lit _)
  rw [Ledger.commitLocked_inMemory hcontent] at hcommit
  have hdump := Ledger.dump_committed hcontent 0
  generalize hrecord : Val.dict _ = record at hdump
  have hcommitted : CommittedDump record :=
    ⟨paymentLedger, paymentEvent, _, _, congrArg Prod.fst hcommit, hdump⟩
  have htypes : ∀ ev ∈ [record], FieldTypes ev := fun ev hev => by
    rw [List.mem_singleton.mp hev, ← hrecord]
    exact ⟨⟨_, rfl⟩, Or.inl rfl, Or.inr ⟨_, rfl⟩⟩
  obtain ⟨cr, hcr⟩ := h paymentCrosswalk hdocumented [record] fun ev hev =>
    ⟨htypes ev hev, List.mem_singleton.mp hev ▸ hcommitted⟩
  obtain ⟨-, -, hsafe⟩ := (Crosswalk.exists_evaluate_iff htypes).mp ⟨cr, hcr⟩
  have hamount : getPath record (lit "attributes.amount") = .str (lit "many") := by
    rw [← hrecord]
    rfl
  exact not_safe_of_amount List.mem_cons_self hamount (hsafe _ List.mem_cons_self)

end OpenWright
