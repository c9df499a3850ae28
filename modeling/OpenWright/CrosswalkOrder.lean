import OpenWright.CrosswalkSafety
import Mathlib.Data.List.Find

/-! # The order of events

A link looks for another event anywhere in the list, and the index of ids keeps the last event of
each id. Where ids are distinct neither depends on where events are, so that a condition holds of an
event in every order of the list or in none.

* **`evaluate_perm`** — the verdicts and the counts are those of any order of the events. -/

namespace OpenWright

open Python Python.Val

/-! ## Distinct ids -/

/-- The ids of the dumps are distinct strings. -/
structure DistinctIds (events : List Val) : Prop where
  nodup_ids : (events.map (entry (lit "event_id"))).Nodup
  exists_id : ∀ ev ∈ events, ∃ s, entry (lit "event_id") ev = .str s

namespace DistinctIds

variable {events events' : List Val}

/-- The dumps in another order have the same ids. -/
theorem perm (h : DistinctIds events) (hperm : events.Perm events') : DistinctIds events' where
  nodup_ids := (hperm.map _).nodup_iff.mp h.nodup_ids
  exists_id := fun ev hev => h.exists_id ev (hperm.mem_iff.mpr hev)

/-- No dump is listed twice. -/
theorem nodup (h : DistinctIds events) : events.Nodup :=
  List.Nodup.of_map _ h.nodup_ids

/-- Dumps whose ids equal one value are one dump. -/
theorem eq_of_eq (h : DistinctIds events) {ev ev' ref : Val} (hev : ev ∈ events)
    (hev' : ev' ∈ events) (heq : (entry (lit "event_id") ev).eq ref = true)
    (heq' : (entry (lit "event_id") ev').eq ref = true) : ev = ev' := by
  obtain ⟨s, hs⟩ := h.exists_id ev hev
  obtain ⟨t, ht⟩ := h.exists_id ev' hev'
  have hkey : key (.str s) = key (.str t) := by
    rw [← hs, ← ht, key_eq_of_eq heq, key_eq_of_eq heq']
  refine List.inj_on_of_nodup_map h.nodup_ids hev hev' ?_
  rw [hs, ht, show s = t by simpa [key] using hkey]

/-- An event has one position. -/
theorem pos_inj (h : DistinctIds events) {i j : Nat} {ev : Val} (hi : events[i]? = some ev)
    (hj : events[j]? = some ev) : i = j :=
  (List.getElem?_inj (List.getElem?_eq_some_iff.mp hi).1 h.nodup).mp (hi.trans hj.symm)

end DistinctIds

/-! ## Links -/

section Order

variable {events events' : List Val} (hids : DistinctIds events) (hperm : events.Perm events')
include hids hperm

/-- **The last event with an id is the only one**, in any order of the events. -/
theorem Index.getById_perm {idx idx' : Index} (h : Index.init events = .ok idx)
    (h' : Index.init events' = .ok idx') (ref : Val) : idx.getById ref = idx'.getById ref := by
  have hitems : idx.byId.reverse.Perm idx'.byId.reverse := by
    rw [Index.byId_of_init h, Index.byId_of_init h']
    exact (List.reverse_perm _).trans
      (((hperm.filter _).map _).trans (List.reverse_perm _).symm)
  have hone : {kv ∈ idx.byId.reverse | kv.1.eq ref = true}.Subsingleton := by
    rintro kv ⟨hkv, heq⟩ kv' ⟨hkv', heq'⟩
    rw [List.mem_reverse, Index.byId_of_init h, List.mem_map] at hkv hkv'
    obtain ⟨ev, hev, rfl⟩ := hkv
    obtain ⟨ev', hev', rfl⟩ := hkv'
    rw [hids.eq_of_eq (List.mem_of_mem_filter hev) (List.mem_of_mem_filter hev') heq heq']
  rw [Index.getById, Index.getById, List.find?_eq_find?_of_perm hitems hone]

/-- Another event than the one at a position is another event in any order. -/
theorem exists_other_perm {pos pos' : Nat} {ev : Val} {p : Val → Bool}
    (hpos : events[pos]? = some ev) (hpos' : events'[pos']? = some ev)
    (hother : ∃ i other, events[i]? = some other ∧ i ≠ pos ∧ p other = true) :
    ∃ i other, events'[i]? = some other ∧ i ≠ pos' ∧ p other = true := by
  obtain ⟨i, other, hi, hne, hp⟩ := hother
  obtain ⟨j, hj⟩ := List.getElem?_of_mem (hperm.mem_iff.mp (List.mem_of_getElem? hi))
  refine ⟨j, other, hj, ?_, hp⟩
  rintro rfl
  -- at one position there would be one event, which has one position in the other order
  obtain rfl : other = ev := Option.some.inj (hj.symm.trans hpos')
  exact hne (hids.pos_inj hi hpos)

/-- The search for another event finds one in every order or in none. -/
theorem any_other_perm {pos pos' : Nat} {ev : Val} (p : Val → Bool)
    (hpos : events[pos]? = some ev) (hpos' : events'[pos']? = some ev) :
    (events.zipIdx.any fun other => other.2 != pos && p other.1)
      = events'.zipIdx.any fun other => other.2 != pos' && p other.1 := by
  rw [Bool.eq_iff_iff, any_zipIdx, any_zipIdx]
  constructor
  · exact exists_other_perm hids hperm hpos hpos'
  · exact exists_other_perm (hids.perm hperm) hperm.symm hpos' hpos

variable {idx idx' : Index} (h : Index.init events = .ok idx) (h' : Index.init events' = .ok idx')
include h h'

/-- **An event has the same links in any order.** -/
theorem linked_perm {pos pos' : Nat} {ev : Val} (hpos : events[pos]? = some ev)
    (hpos' : events'[pos']? = some ev) (link : Option Str) (target : Option EventFilter) :
    linked idx pos ev link target = linked idx' pos' ev link target := by
  have hany := fun k => any_other_perm hids hperm
    (fun other => (getPath other k).eq (getPath ev k) && targets target other) hpos hpos'
  simp only [linked, Index.getById_perm hids hperm h h', Index.events_of_init h,
    Index.events_of_init h', Bool.and_assoc, hany]

end Order

/-! ## Conditions -/

section Conditions

variable {events events' : List Val} {idx idx' : Index} {pos pos' : Nat} {ev : Val}

mutual
/-- **A condition says the same of an event in any order**, at every depth. -/
theorem Condition.holds_perm (hids : DistinctIds events) (hperm : events.Perm events')
    (h : Index.init events = .ok idx) (h' : Index.init events' = .ok idx')
    (hpos : events[pos]? = some ev) (hpos' : events'[pos']? = some ev) :
    ∀ c : Condition, c.holds idx pos ev = c.holds idx' pos' ev
  | .mk type path op value link target conditions => by
      rw [Condition.holds, Condition.holds, linked_perm hids hperm h h' hpos hpos',
        Condition.anyHolds_perm hids hperm h h' hpos hpos' conditions,
        Condition.allHold_perm hids hperm h h' hpos hpos' conditions]

/-- The same of alternatives. -/
theorem Condition.anyHolds_perm (hids : DistinctIds events) (hperm : events.Perm events')
    (h : Index.init events = .ok idx) (h' : Index.init events' = .ok idx')
    (hpos : events[pos]? = some ev) (hpos' : events'[pos']? = some ev) : ∀ cs : List Condition,
    Condition.anyHolds idx pos ev cs = Condition.anyHolds idx' pos' ev cs
  | [] => rfl
  | c :: cs => by
      rw [Condition.anyHolds, Condition.anyHolds,
        Condition.holds_perm hids hperm h h' hpos hpos' c,
        Condition.anyHolds_perm hids hperm h h' hpos hpos' cs]

/-- The same of conjunctions. -/
theorem Condition.allHold_perm (hids : DistinctIds events) (hperm : events.Perm events')
    (h : Index.init events = .ok idx) (h' : Index.init events' = .ok idx')
    (hpos : events[pos]? = some ev) (hpos' : events'[pos']? = some ev) : ∀ cs : List Condition,
    Condition.allHold idx pos ev cs = Condition.allHold idx' pos' ev cs
  | [] => rfl
  | c :: cs => by
      rw [Condition.allHold, Condition.allHold,
        Condition.holds_perm hids hperm h h' hpos hpos' c,
        Condition.allHold_perm hids hperm h h' hpos hpos' cs]
end

end Conditions

/-! ## Controls -/

/-- Two results of a control agree: their lists of ids and their reasons may differ. -/
structure SameVerdict (r r' : ControlResult) : Prop where
  controlId : r'.controlId = r.controlId
  status : r'.status = r.status
  evaluatedCount : r'.evaluatedCount = r.evaluatedCount
  satisfiedCount : r'.satisfiedCount = r.satisfiedCount

section Controls

variable {events events' : List Val} {idx idx' : Index} {c : Control}

/-- The dumps at the places of a list. -/
theorem mem_fst {es : List (Val × Nat)} {ev : Val} :
    ev ∈ es.map (·.1) ↔ ∃ pos, (ev, pos) ∈ es := by
  rw [List.mem_map]
  constructor
  · rintro ⟨⟨_, pos⟩, he, rfl⟩
    exact ⟨pos, he⟩
  · rintro ⟨pos, he⟩
    exact ⟨(ev, pos), he, rfl⟩

/-- An event is in scope at its positions. -/
theorem Control.mem_inScope {ev : Val} {pos : Nat} :
    (ev, pos) ∈ c.inScope events ↔ events[pos]? = some ev ∧ c.scope.matches ev = true := by
  rw [Control.inScope, List.mem_filter, List.mem_zipIdx_iff_getElem?]

/-- The places of part of a scope hold distinct events. -/
theorem Control.nodup_fst (hids : DistinctIds events) {es : List (Val × Nat)}
    (hes : es.Sublist (c.inScope events)) : (es.map (·.1)).Nodup := by
  refine List.Nodup.sublist (hes.map _) (List.Nodup.sublist (List.filter_sublist.map _) ?_)
  rw [List.zipIdx_map_fst]
  exact hids.nodup

/-- **The scope is the same in any order.** -/
theorem Control.inScope_perm (hperm : events.Perm events') :
    ((c.inScope events).map (·.1)).Perm ((c.inScope events').map (·.1)) := by
  have hscope : ∀ es : List Val, (c.inScope es).map (·.1) = es.filter c.scope.matches := by
    intro es
    rw [Control.inScope, ← List.zipIdx_map_fst 0 es, List.filter_map, List.zipIdx_map_fst]
    rfl
  rw [hscope, hscope]
  exact hperm.filter _

/-- The violators of a scope are its events that no event that passed is or equals. -/
theorem Control.mem_violators (hids : DistinctIds events) {passed : List (Val × Nat)}
    (hpassed : passed ⊆ c.inScope events) {ev : Val} :
    ev ∈ (violators (c.inScope events) passed).map (·.1) ↔
      ev ∈ (c.inScope events).map (·.1) ∧
        ∀ p ∈ passed.map (·.1), ¬(p = ev ∨ p.eq ev = true) := by
  have hsame : ∀ pos, (ev, pos) ∈ c.inScope events →
      ((∀ p ∈ passed, ¬(p.2 = pos ∨ p.1.eq ev = true)) ↔
        ∀ p ∈ passed.map (·.1), ¬(p = ev ∨ p.eq ev = true)) := by
    intro pos hpos
    rw [List.forall_mem_map]
    refine forall₂_congr fun p hp => not_congr (or_congr_left ?_)
    -- an event has one position, and a position one event
    have hat := (Control.mem_inScope.mp (hpassed hp)).1
    have hev := (Control.mem_inScope.mp hpos).1
    constructor
    · intro heq
      rw [heq] at hat
      exact Option.some.inj (hat.symm.trans hev)
    · intro heq
      rw [heq] at hat
      exact hids.pos_inj hat hev
  have hmem : ∀ pos, (ev, pos) ∈ violators (c.inScope events) passed ↔
      (ev, pos) ∈ c.inScope events ∧ ∀ p ∈ passed, ¬(p.2 = pos ∨ p.1.eq ev = true) := by
    intro pos
    rw [violators, List.mem_filter, Bool.not_eq_true', List.any_eq_false]
    simp only [Bool.or_eq_true, beq_iff_eq]
  rw [mem_fst, mem_fst]
  constructor
  · rintro ⟨pos, he⟩
    obtain ⟨hscope, hnone⟩ := (hmem pos).mp he
    exact ⟨⟨pos, hscope⟩, (hsame pos hscope).mp hnone⟩
  · rintro ⟨⟨pos, hscope⟩, hnone⟩
    exact ⟨pos, (hmem pos).mpr ⟨hscope, (hsame pos hscope).mpr hnone⟩⟩

section Perm

variable (hids : DistinctIds events) (hperm : events.Perm events')
  (h : Index.init events = .ok idx) (h' : Index.init events' = .ok idx')
include hids hperm h h'

/-- A test of an event in scope is made in any order, with one answer. -/
theorem Control.exists_inScope_perm {e' : Val × Nat} (he' : e' ∈ c.inScope events') :
    ∃ pos, (e'.1, pos) ∈ c.inScope events ∧
      c.condition.holds idx pos e'.1 = c.condition.holds idx' e'.2 e'.1 := by
  obtain ⟨hpos', hscope⟩ := Control.mem_inScope.mp he'
  obtain ⟨pos, hpos⟩ := List.getElem?_of_mem (hperm.mem_iff.mpr (List.mem_of_getElem? hpos'))
  exact ⟨pos, Control.mem_inScope.mpr ⟨hpos, hscope⟩,
    Condition.holds_perm hids hperm h h' hpos hpos' c.condition⟩

/-- Where the tests return in one order they return in any. -/
theorem Control.exists_select_perm {passed : List (Val × Nat)}
    (hpassed : select (fun e => c.condition.holds idx e.2 e.1) (c.inScope events) = .ok passed) :
    ∃ passed', select (fun e => c.condition.holds idx' e.2 e.1) (c.inScope events')
      = .ok passed' := by
  refine exists_select_iff.mpr fun e' he' => ?_
  obtain ⟨pos, hscope, hholds⟩ := Control.exists_inScope_perm hids hperm h h' he'
  obtain ⟨b, hb⟩ := (select_eq_ok.mp hpassed).1 _ hscope
  exact ⟨b, hholds.symm.trans hb⟩

/-- What passes in another order passes in this one. -/
theorem Control.mem_passed_perm {passed passed' : List (Val × Nat)}
    (hpassed : select (fun e => c.condition.holds idx e.2 e.1) (c.inScope events) = .ok passed)
    (hpassed' : select (fun e => c.condition.holds idx' e.2 e.1) (c.inScope events') = .ok passed')
    {ev : Val} (hev : ev ∈ passed'.map (·.1)) : ev ∈ passed.map (·.1) := by
  obtain ⟨pos', he'⟩ := mem_fst.mp hev
  rw [(select_eq_ok.mp hpassed').2, List.mem_filter] at he'
  obtain ⟨pos, hscope, hholds⟩ := Control.exists_inScope_perm hids hperm h h' he'.1
  refine mem_fst.mpr ⟨pos, ?_⟩
  rw [(select_eq_ok.mp hpassed).2, List.mem_filter]
  exact ⟨hscope, (congrArg saysYes hholds).trans he'.2⟩

/-- **The same events pass in any order.** -/
theorem Control.passed_perm {passed passed' : List (Val × Nat)}
    (hpassed : select (fun e => c.condition.holds idx e.2 e.1) (c.inScope events) = .ok passed)
    (hpassed' : select (fun e => c.condition.holds idx' e.2 e.1) (c.inScope events') = .ok passed') :
    (passed.map (·.1)).Perm (passed'.map (·.1)) := by
  have hids' := hids.perm hperm
  have hsub : passed.Sublist (c.inScope events) := by
    rw [(select_eq_ok.mp hpassed).2]
    exact List.filter_sublist
  have hsub' : passed'.Sublist (c.inScope events') := by
    rw [(select_eq_ok.mp hpassed').2]
    exact List.filter_sublist
  rw [List.perm_ext_iff_of_nodup (Control.nodup_fst hids hsub) (Control.nodup_fst hids' hsub')]
  intro ev
  constructor
  · exact Control.mem_passed_perm hids' hperm.symm h' h hpassed' hpassed
  · exact Control.mem_passed_perm hids hperm h h' hpassed hpassed'

omit h h' in
/-- **There are violators in every order or in none.** -/
theorem Control.violators_perm {passed passed' : List (Val × Nat)}
    (hscope : passed ⊆ c.inScope events) (hscope' : passed' ⊆ c.inScope events')
    (hpassed : (passed.map (·.1)).Perm (passed'.map (·.1))) :
    violators (c.inScope events) passed = [] ↔ violators (c.inScope events') passed' = [] := by
  have hmem : ∀ ev, ev ∈ (violators (c.inScope events) passed).map (·.1) ↔
      ev ∈ (violators (c.inScope events') passed').map (·.1) := by
    intro ev
    rw [Control.mem_violators hids hscope, Control.mem_violators (hids.perm hperm) hscope',
      (Control.inScope_perm hperm).mem_iff]
    exact and_congr_right fun _ => forall_congr' fun p => imp_congr_left hpassed.mem_iff
  rw [← List.map_eq_nil_iff (f := Prod.fst), List.eq_nil_iff_forall_not_mem,
    ← List.map_eq_nil_iff (f := Prod.fst) (l := violators _ passed'),
    List.eq_nil_iff_forall_not_mem]
  exact forall_congr' fun ev => not_congr (hmem ev)

/-- **A control comes to one verdict in any order.** -/
theorem Control.evaluate_of_perm {r : ControlResult} (hr : c.evaluate idx = .ok r) :
    ∃ r', c.evaluate idx' = .ok r' ∧ SameVerdict r r' := by
  have hscoped := Control.inScope_perm (c := c) hperm
  have hlength : (c.inScope events).length = (c.inScope events').length := by
    simpa using hscoped.length_eq
  rw [Control.evaluate, Index.events_of_init h] at hr
  rw [Control.evaluate, Index.events_of_init h']
  split at hr
  · rename_i hnil
    have hnil' : c.inScope events' = [] :=
      List.eq_nil_of_length_eq_zero (by rw [← hlength, hnil, List.length_nil])
    rw [hnil']
    exact ⟨r, hr, rfl, rfl, rfl, rfl⟩
  · rename_i e es hcons
    obtain ⟨e', es', hcons'⟩ : ∃ e' es', c.inScope events' = e' :: es' := by
      refine List.exists_cons_of_ne_nil fun hnil' => ?_
      rw [hcons, hnil'] at hlength
      cases hlength
    rw [← hcons, Control.evaluateScope] at hr
    obtain ⟨passed, hpassed, hr⟩ := bind_eq_ok.mp hr
    obtain ⟨evidence, -, hr⟩ := bind_eq_ok.mp hr
    obtain ⟨gaps, -, hr⟩ := bind_eq_ok.mp hr
    obtain ⟨-, rfl⟩ := Control.result_eq_ok hr
    obtain ⟨passed', hpassed'⟩ := Control.exists_select_perm hids hperm h h' hpassed
    have hsub : passed ⊆ c.inScope events := by
      rw [(select_eq_ok.mp hpassed).2]
      exact List.filter_subset_self _
    have hsub' : passed' ⊆ c.inScope events' := by
      rw [(select_eq_ok.mp hpassed').2]
      exact List.filter_subset_self _
    have hsame := Control.passed_perm hids hperm h h' hpassed hpassed'
    -- the ids of the events are strings, so that the result of the other order is validated
    have hstr : ∀ es : List (Val × Nat), es ⊆ c.inScope events' →
        ∃ ids, eventIds (es.map (·.1)) = .ok ids ∧ ∀ id ∈ ids, isStr id = true := by
      intro es hes
      refine exists_eventIds fun ev hev => ?_
      obtain ⟨pos, he⟩ := mem_fst.mp hev
      exact (hids.perm hperm).exists_id ev
        (List.mem_of_getElem? (Control.mem_inScope.mp (hes he)).1)
    obtain ⟨evidence', hevidence', hstrings⟩ := hstr passed' hsub'
    obtain ⟨gaps', hgaps', hstrings'⟩ := hstr (violators (c.inScope events') passed')
      (List.filter_subset_self _)
    obtain ⟨r', hr'⟩ := c.exists_result
      (if violators (c.inScope events') passed' = [] then .satisfied else .notSatisfied)
      (scopeReason (violators (c.inScope events') passed').length (c.inScope events').length)
      (c.inScope events').length passed'.length hstrings hstrings'
    rw [hcons']
    change ∃ r', c.evaluateScope idx' (e' :: es') = .ok r' ∧ _
    rw [← hcons', Control.evaluateScope]
    refine ⟨r', bind_eq_ok.mpr ⟨passed', hpassed', bind_eq_ok.mpr ⟨evidence', hevidence',
      bind_eq_ok.mpr ⟨gaps', hgaps', hr'⟩⟩⟩, ?_⟩
    obtain ⟨-, rfl⟩ := Control.result_eq_ok hr'
    refine ⟨rfl, ?_, hlength.symm, by simpa using hsame.length_eq.symm⟩
    exact if_congr (Control.violators_perm hids hperm hsub hsub' hsame).symm rfl rfl

end Perm

end Controls

/-! ## Evaluations -/

section Evaluations

variable {events events' : List Val} {cw : Crosswalk}

/-- **The gap markers are collected in any order**, and there are some in every order or in none. -/
theorem gapsOf_perm (hperm : events.Perm events') {gaps : Gaps} (h : gapsOf events = .ok gaps) :
    ∃ gaps', gapsOf events' = .ok gaps' ∧ (gaps'.markers ≠ [] ↔ gaps.markers ≠ []) := by
  have hnonempty := markers_ne_nil h
  rw [gapsOf] at h
  obtain ⟨markers, hmarkers, h⟩ := bind_eq_ok.mp h
  obtain ⟨dropped, hdropped, -⟩ := bind_eq_ok.mp h
  obtain ⟨hall, rfl⟩ := select_eq_ok.mp hmarkers
  have hmarkers' := select_eq_ok.mpr
    ⟨fun ev hev => hall ev (hperm.mem_iff.mpr hev), (rfl : _ = events'.filter _)⟩
  obtain ⟨dropped', hdropped'⟩ : ∃ ns, (events'.filter fun ev => saysYes (isGapMarker ev)).mapM
      droppedEvents = .ok ns :=
    exists_mapM_iff.mpr fun ev hev =>
      exists_mapM_iff.mp ⟨dropped, hdropped⟩ ev ((hperm.filter _).mem_iff.mpr hev)
  obtain ⟨gaps', hgaps'⟩ : ∃ gaps', gapsOf events' = .ok gaps' :=
    ⟨_, bind_eq_ok.mpr ⟨_, hmarkers', bind_eq_ok.mpr ⟨dropped', hdropped', rfl⟩⟩⟩
  refine ⟨gaps', hgaps', ?_⟩
  rw [markers_ne_nil hgaps', hnonempty]
  exact exists_congr fun ev => and_congr_left fun _ => hperm.mem_iff.symm

/-- The override does not tell results of one verdict apart. -/
theorem SameVerdict.override {r r' : ControlResult} (h : SameVerdict r r') {gaps gaps' : Gaps}
    (hgaps : gaps'.markers ≠ [] ↔ gaps.markers ≠ []) (sensitive : List Str) :
    SameVerdict (r.override gaps sensitive) (r'.override gaps' sensitive) := by
  rw [ControlResult.override, ControlResult.override]
  by_cases hcond : gaps.markers ≠ [] ∧ r.controlId ∈ sensitive ∧ r.status ≠ .notSatisfied
  · rw [if_pos hcond, if_pos (by rw [hgaps, h.controlId, h.status]; exact hcond)]
    exact ⟨h.controlId, rfl, h.evaluatedCount, h.satisfiedCount⟩
  · rw [if_neg hcond, if_neg (by rw [hgaps, h.controlId, h.status]; exact hcond)]
    exact h

/-- The verdicts over the dumps are the same in any order. -/
theorem Crosswalk.evaluate_dumps_perm (hids : DistinctIds events) (hperm : events.Perm events')
    {cr : CrosswalkResult} (h : cw.evaluate events = .ok cr) :
    ∃ cr', cw.evaluate events' = .ok cr' ∧ List.Forall₂ SameVerdict cr.controls cr'.controls := by
  obtain ⟨rs, hash, hrs, hhash, rfl⟩ := Crosswalk.evaluate_eq_ok h
  obtain ⟨idx, gaps, results, hidx, hgaps, hresults, rfl⟩ := Crosswalk.controlResults_eq_ok hrs
  obtain ⟨idx', hidx'⟩ := Index.exists_init (hids.perm hperm).exists_id
  obtain ⟨gaps', hgaps', hmarkers⟩ := gapsOf_perm hperm hgaps
  -- control by control, the other order gives a result of the same verdict
  obtain ⟨results', hresults', hsame⟩ : ∃ results',
      List.Forall₂ (fun c r => Control.evaluate c idx' = .ok r) cw.controls results' ∧
        List.Forall₂ SameVerdict results results' := by
    clear hrs h
    generalize cw.controls = controls at hresults
    induction hresults with
    | nil => exact ⟨[], .nil, .nil⟩
    | cons hr _ ih =>
        obtain ⟨results', hresults', hsame⟩ := ih
        obtain ⟨r', hr', hverdict⟩ := Control.evaluate_of_perm hids hperm hidx hidx' hr
        exact ⟨r' :: results', .cons hr' hresults', .cons hverdict hsame⟩
  have hcontrols' : cw.controlResults events'
      = .ok (results'.map (·.override gaps' cw.sensitive)) :=
    bind_eq_ok.mpr ⟨idx', hidx', bind_eq_ok.mpr ⟨gaps', hgaps', bind_eq_ok.mpr
      ⟨results', mapM_eq_ok.mpr hresults', rfl⟩⟩⟩
  refine ⟨_, bind_eq_ok.mpr ⟨_, hcontrols', bind_eq_ok.mpr ⟨hash, hhash, rfl⟩⟩, ?_⟩
  rw [List.forall₂_map_left_iff, List.forall₂_map_right_iff]
  exact hsame.imp fun r r' hverdict => hverdict.override hmarkers cw.sensitive

/-- The id of a dump is that of its event. -/
theorem ComplianceEvent.entry_dump {e : ComplianceEvent} {record : Val} (h : e.dump = .ok record) :
    entry (lit "event_id") record = .str e.eventId := by
  obtain ⟨kvs, -, rfl⟩ := e.exists_content h
  rfl

/-- Events with distinct ids have dumps with distinct ids. -/
theorem distinctIds_of_nodup {events : List ComplianceEvent} {dicts : List Val}
    (hids : (events.map (·.eventId)).Nodup) (h : events.mapM (·.dump) = .ok dicts) :
    DistinctIds dicts := by
  have hentries : dicts.map (entry (lit "event_id")) = (events.map (·.eventId)).map .str := by
    rw [mapM_eq_ok] at h
    clear hids
    induction h with
    | nil => rfl
    | cons hdump _ ih =>
        rw [List.map_cons, List.map_cons, List.map_cons, ih, ComplianceEvent.entry_dump hdump]
  refine ⟨?_, fun ev hev => ?_⟩
  · rw [hentries]
    exact hids.map fun s t hst => Val.str.inj hst
  · obtain ⟨e, -, he⟩ := exists_of_mem_mapM h hev
    exact ⟨e.eventId, ComplianceEvent.entry_dump he⟩

/-- **The verdicts do not depend on the order of the events.** Where the ids of the events are
distinct and an evaluation of them returns, the evaluation of the events in any other order returns,
and each control has the same status and the same counts. -/
theorem evaluate_perm {events events' : List ComplianceEvent} {dicts : List Val}
    {cr : CrosswalkResult} (hids : (events.map (·.eventId)).Nodup) (hperm : events.Perm events')
    (hdump : events.mapM (·.dump) = .ok dicts) (h : cw.evaluate dicts = .ok cr) :
    ∃ dicts' cr', events'.mapM (·.dump) = .ok dicts' ∧ cw.evaluate dicts' = .ok cr' ∧
      List.Forall₂ SameVerdict cr.controls cr'.controls := by
  obtain ⟨dicts', hdump', hdicts⟩ := List.perm_comp_forall₂ hperm.symm (mapM_eq_ok.mp hdump)
  obtain ⟨cr', hcr', hsame⟩ :=
    Crosswalk.evaluate_dumps_perm (distinctIds_of_nodup hids hdump) hdicts.symm h
  exact ⟨dicts', cr', mapM_eq_ok.mpr hdump', hcr', hsame⟩

end Evaluations

/-! Two calls of one task, and a control that asks of each call for another one of its task. -/

/-- A call of a task, under an id. -/
def taskCall (id : String) : ComplianceEvent where
  eventId := lit id
  content := .ok [(lit "kind", .str (lit "tool_call")),
    (lit "provenance", .dict [(lit "task_id", .str (lit "task-1"))])]
  content_keys := by
    intro kvs hkvs kv hkv
    rw [← Except.ok.inj hkvs] at hkv
    simp only [List.mem_cons, List.not_mem_nil, or_false] at hkv
    rcases hkv with rfl | rfl <;> exact ⟨by simp only; decide, by simp only; decide⟩

/-- The dump of a call. -/
def taskRecord (id : String) : Val :=
  .dict [(lit "event_id", .str (lit id)), (lit "kind", .str (lit "tool_call")),
    (lit "provenance", .dict [(lit "task_id", .str (lit "task-1"))])]

/-- The crosswalk of the example. -/
def taskCrosswalk : Crosswalk where
  id := lit "tasks"
  title := lit "Tasks"
  version := lit "1"
  source := lit "internal policy"
  reviewedAsOf := lit "2026-01-01"
  controls := [{ id := lit "paired", title := lit "Paired", requirement := lit "Calls come in pairs.",
                 citation := [(lit "instrument", .str (lit "internal policy"))],
                 condition := .mk (lit "linked") none none .null (some (lit "same_task")) none [] }]

/-- Two linked events in the other order: the same states for the same controls. -/
theorem evaluate_perm_tasks : ∃ cr dicts' cr',
    taskCrosswalk.evaluate [taskRecord "evt_1", taskRecord "evt_2"] = .ok cr ∧
      [taskCall "evt_2", taskCall "evt_1"].mapM (·.dump) = .ok dicts' ∧
      taskCrosswalk.evaluate dicts' = .ok cr' ∧
      List.Forall₂ SameVerdict cr.controls cr'.controls := by
  -- the evaluation of the two events is computed once
  obtain ⟨controls, hcontrols⟩ : ∃ controls,
      taskCrosswalk.controlResults [taskRecord "evt_1", taskRecord "evt_2"] = .ok controls := by
    have hsome : (taskCrosswalk.controlResults
        [taskRecord "evt_1", taskRecord "evt_2"]).toOption.isSome := by decide +kernel
    obtain ⟨controls, hcontrols⟩ := Option.isSome_iff_exists.mp hsome
    exact ⟨controls, eq_ok_of_toOption hcontrols⟩
  obtain ⟨hash, hhash, -⟩ : ∃ hash, crosswalkContentHash taskCrosswalk = .ok hash ∧
      Canonical.Scalar hash := by
    refine Canonical.exists_contentHash ?_
    simp [taskCrosswalk, Crosswalk.dump, Control.dump, EventFilter.dump, Condition.dump,
      Condition.dumpList, Canonical.Encodable, Canonical.EncodableItems, Canonical.EncodableList,
      ifSet, strings, jsonMode, jsonModeItems, EmptyScopePolicy.value]
  obtain ⟨cr, hcr⟩ : ∃ cr,
      taskCrosswalk.evaluate [taskRecord "evt_1", taskRecord "evt_2"] = .ok cr := by
    rw [Crosswalk.evaluate, hcontrols, hhash]
    exact ⟨_, rfl⟩
  have hids : ([taskCall "evt_1", taskCall "evt_2"].map (·.eventId)).Nodup := by decide
  obtain ⟨dicts', cr', hdicts', hcr', hsame⟩ :=
    evaluate_perm hids (List.Perm.swap _ _ []) rfl hcr
  exact ⟨cr, dicts', cr', hcr, hdicts', hcr', hsame⟩

end OpenWright
