import OpenWright.Crosswalk
import OpenWright.Encodable

/-! # What a crosswalk means

The meaning of filters and conditions as statements about the evaluated events: a condition tree is
satisfied where its connectives say so, without an order in which its parts are looked at. The
evaluation implements this meaning, and reports one of three outcomes for each control.

The evaluation takes an in-scope event for a violator where no event that passed equals it. Equal
events satisfy the same conditions, so that this makes no difference.

* **`evaluate_threeState`** — the outcome of each control. -/

namespace OpenWright

open Python Python.Val

/-! ## Equal events -/

/-- What equal values have at a path is equal. -/
theorem key_getPath {v w : Val} (h : key v = key w) (dotted : Str) :
    key (getPath v dotted) = key (getPath w dotted) := by
  rw [getPath, getPath]
  generalize split (cp 46) dotted = parts
  induction parts generalizing v w with
  | nil => exact h
  | cons k parts ih =>
      refine ih ?_
      rw [← entry_key, h, entry_key]

/-- Equal values are `None` together. -/
theorem eq_null_congr {v w : Val} (h : key v = key w) : v = .null ↔ w = .null := by
  rw [← key_eq_null, h, key_eq_null]

/-- **Equal events are in the same scopes.** -/
theorem EventFilter.matches_congr (f : EventFilter) {v w : Val} (h : key v = key w) :
    f.matches v = f.matches w := by
  have hpath := key_getPath h
  have hnull : ∀ p, decide (getPath v p ≠ .null) = decide (getPath w p ≠ .null) := fun p =>
    decide_eq_decide.mpr (not_congr (eq_null_congr (hpath p)))
  have hone : ∀ {a b : Val}, key a = key b → ∀ allowed, oneOf a allowed = oneOf b allowed := by
    intro a b hab allowed
    cases allowed with
    | none => rfl
    | some ss => exact isIn_congr hab _
  have hkind : key (entry (lit "kind") v) = key (entry (lit "kind") w) := by
    rw [← entry_key, h, entry_key]
  have heq : ∀ kv : Str × Val, (getPath v kv.1).eq kv.2 = (getPath w kv.1).eq kv.2 :=
    fun kv => eq_congr (hpath kv.1) rfl
  simp only [EventFilter.matches, hone hkind, hone (hpath _), heq, hnull]

/-- Equal values pass the same comparisons. -/
theorem fieldHolds_congr (op : Str) {v w : Val} (h : key v = key w) (value : Val) :
    fieldHolds op v value = fieldHolds op w value := by
  have hnull : decide (v ≠ .null) = decide (w ≠ .null) :=
    decide_eq_decide.mpr (not_congr (eq_null_congr h))
  have hge : v.ge value = w.ge value := by rw [ge, ge, ← le_key, h, le_key]
  have hle : v.le value = w.le value := by rw [← le_key, h, le_key]
  have heq : v.eq value = w.eq value := eq_congr h rfl
  simp only [fieldHolds, hnull, heq, inside_congr h, hge, hle, eq_null_congr h]

/-- The events a link may lead to are told by their keys. -/
theorem targets_congr (target : Option EventFilter) {v w : Val} (h : key v = key w) :
    targets target v = targets target w := by
  cases target with
  | none => rfl
  | some f => exact f.matches_congr h

/-- Equal references lead to one event. -/
theorem Index.getById_congr (idx : Index) {v w : Val} (h : key v = key w) :
    idx.getById v = idx.getById w := by
  have hhash : v.hashable = w.hashable := by rw [← hashable_key v, h, hashable_key]
  have hfind : (fun kv : Val × Val => kv.1.eq v) = fun kv => kv.1.eq w :=
    funext fun kv => eq_congr rfl h
  rw [Index.getById, Index.getById, hhash, hfind]

/-! ## Links -/

/-- Another event than the one at a position. -/
theorem any_zipIdx {events : List Val} {pos : Nat} {p : Val → Bool} :
    (events.zipIdx.any fun other => other.2 != pos && p other.1) = true ↔
      ∃ i other, events[i]? = some other ∧ i ≠ pos ∧ p other = true := by
  rw [List.any_eq_true]
  constructor
  · rintro ⟨⟨other, i⟩, hmem, h⟩
    rw [Bool.and_eq_true, bne_iff_ne] at h
    exact ⟨i, other, List.mem_zipIdx_iff_getElem?.mp hmem, h⟩
  · rintro ⟨i, other, hi, hne, h⟩
    exact ⟨(other, i), List.mem_zipIdx_iff_getElem?.mpr hi, by simp [hne, h]⟩

/-- Another event than the one at a position is one for an equal event at another position. -/
theorem exists_other_congr {events : List Val} {pos pos' : Nat} {ev ev' : Val} {p : Val → Bool}
    (hpos : events[pos]? = some ev) (hpos' : events[pos']? = some ev') (h : p ev = p ev')
    (hother : ∃ i other, events[i]? = some other ∧ i ≠ pos ∧ p other = true) :
    ∃ i other, events[i]? = some other ∧ i ≠ pos' ∧ p other = true := by
  obtain ⟨i, other, hi, hne, hp⟩ := hother
  by_cases heq : i = pos'
  · -- the other event was the one at the second position, and the first takes its place
    subst heq
    obtain rfl : other = ev' := Option.some.inj (hi.symm.trans hpos')
    exact ⟨pos, ev, hpos, fun h => hne h.symm, h.trans hp⟩
  · exact ⟨i, other, hi, heq, hp⟩

/-- The search for another event does not tell two positions of equal events apart. -/
theorem any_other_congr {events : List Val} {pos pos' : Nat} {ev ev' : Val} {p : Val → Bool}
    (hpos : events[pos]? = some ev) (hpos' : events[pos']? = some ev') (h : p ev = p ev') :
    (events.zipIdx.any fun other => other.2 != pos && p other.1)
      = events.zipIdx.any fun other => other.2 != pos' && p other.1 := by
  rw [Bool.eq_iff_iff, any_zipIdx, any_zipIdx]
  constructor
  · exact exists_other_congr hpos hpos' h
  · exact exists_other_congr hpos' hpos h.symm

/-- **Equal events have the same links.** -/
theorem linked_congr {idx : Index} {pos pos' : Nat} {ev ev' : Val}
    (hpos : idx.events[pos]? = some ev) (hpos' : idx.events[pos']? = some ev')
    (h : key ev = key ev') (link : Option Str) (target : Option EventFilter) :
    linked idx pos ev link target = linked idx pos' ev' link target := by
  have hpath := key_getPath h
  have htruthy : (getPath ev (lit "oversight.approval_ref")).truthy
      = (getPath ev' (lit "oversight.approval_ref")).truthy := by
    rw [← truthy_key, hpath, truthy_key]
  simp only [linked, htruthy, idx.getById_congr (hpath (lit "oversight.approval_ref"))]
  cases linkKey link with
  | none => rfl
  | some k =>
      have hmine : ∀ other : Val, (getPath other k).eq (getPath ev k)
          = (getPath other k).eq (getPath ev' k) := fun other => eq_congr rfl (hpath k)
      have hsame : ((getPath ev k).eq (getPath ev' k) && targets target ev)
          = ((getPath ev' k).eq (getPath ev' k) && targets target ev') := by
        rw [targets_congr target h, eq_congr (hpath k) rfl]
      have hany := @any_other_congr idx.events pos pos' ev ev'
        (fun other => (getPath other k).eq (getPath ev' k) && targets target other) hpos hpos' hsame
      simp only [Bool.and_assoc, hmine, hany, eq_null_congr (hpath k)]

/-! ## Conditions -/

mutual
/-- **Equal events satisfy the same conditions**, wherever they are in the list. -/
theorem Condition.holds_congr {idx : Index} {pos pos' : Nat} {ev ev' : Val}
    (hpos : idx.events[pos]? = some ev) (hpos' : idx.events[pos']? = some ev')
    (h : key ev = key ev') : ∀ c : Condition, c.holds idx pos ev = c.holds idx pos' ev'
  | .mk type path op value link target conditions => by
      have hcommitted : (getPath ev (lit "ledger.leaf_hash")).truthy
          = (getPath ev' (lit "ledger.leaf_hash")).truthy := by
        rw [← truthy_key, key_getPath h, truthy_key]
      have hfield : key (fieldValue ev path) = key (fieldValue ev' path) := by
        unfold fieldValue
        split
        · rfl
        · rfl
        · exact key_getPath h _
      rw [Condition.holds, Condition.holds, hcommitted, fieldHolds_congr _ hfield,
        linked_congr hpos hpos' h, Condition.anyHolds_congr hpos hpos' h conditions,
        Condition.allHold_congr hpos hpos' h conditions]

/-- The same of alternatives. -/
theorem Condition.anyHolds_congr {idx : Index} {pos pos' : Nat} {ev ev' : Val}
    (hpos : idx.events[pos]? = some ev) (hpos' : idx.events[pos']? = some ev')
    (h : key ev = key ev') : ∀ cs : List Condition,
    Condition.anyHolds idx pos ev cs = Condition.anyHolds idx pos' ev' cs
  | [] => rfl
  | c :: cs => by
      rw [Condition.anyHolds, Condition.anyHolds, Condition.holds_congr hpos hpos' h c,
        Condition.anyHolds_congr hpos hpos' h cs]

/-- The same of conjunctions. -/
theorem Condition.allHold_congr {idx : Index} {pos pos' : Nat} {ev ev' : Val}
    (hpos : idx.events[pos]? = some ev) (hpos' : idx.events[pos']? = some ev')
    (h : key ev = key ev') : ∀ cs : List Condition,
    Condition.allHold idx pos ev cs = Condition.allHold idx pos' ev' cs
  | [] => rfl
  | c :: cs => by
      rw [Condition.allHold, Condition.allHold, Condition.holds_congr hpos hpos' h c,
        Condition.allHold_congr hpos hpos' h cs]
end

/-! ## The meaning of conditions -/

/-- The last event with an id equal to a reference. -/
def lastWithId (events : List Val) (ref : Val) : Option Val :=
  events.reverse.find? fun ev =>
    (entry (lit "event_id") ev).truthy && (entry (lit "event_id") ev).eq ref

/-- What a `field` condition says about the value at its path. -/
def FieldSat (op : Str) (actual value : Val) : Prop :=
  if op = lit "exists" then actual ≠ .null
  else if op = lit "eq" then actual.eq value = true
  else if op = lit "ne" then ¬actual.eq value = true
  else if op = lit "in" then actual.inside (value.orElse (.list [])) = .ok true
  else if op = lit "gte" then actual ≠ .null ∧ actual.ge value = .ok true
  else if op = lit "lte" then actual ≠ .null ∧ actual.le value = .ok true
  else False

/-- What a `linked` condition says about the event at a position: it refers to an event, or shares
an id with another one. -/
def LinkSat (events : List Val) (pos : Nat) (ev : Val) (link : Option Str)
    (target : Option EventFilter) : Prop :=
  if link = some (lit "approval_ref") then
    (getPath ev (lit "oversight.approval_ref")).truthy = true ∧
      ∃ cand, lastWithId events (getPath ev (lit "oversight.approval_ref")) = some cand ∧
        targets target cand = true
  else
    ∃ k, linkKey link = some k ∧ getPath ev k ≠ .null ∧
      ∃ i other, events[i]? = some other ∧ i ≠ pos ∧
        (getPath other k).eq (getPath ev k) = true ∧ targets target other = true

mutual
/-- What a condition says about the event at a position. -/
def Condition.Sat (events : List Val) (pos : Nat) (ev : Val) : Condition → Prop
  | .mk type path op value link target conditions =>
    if type = lit "committed" then (getPath ev (lit "ledger.leaf_hash")).truthy = true
    else if type = lit "field" then FieldSat (opOrExists op) (fieldValue ev path) value
    else if type = lit "linked" then LinkSat events pos ev link target
    else if type = lit "any_of" then Condition.AnySat events pos ev conditions
    else if type = lit "all_of" then Condition.AllSat events pos ev conditions
    else if type = lit "not" then ¬Condition.AllSat events pos ev conditions
    else False

/-- Some condition is satisfied. -/
def Condition.AnySat (events : List Val) (pos : Nat) (ev : Val) : List Condition → Prop
  | [] => False
  | c :: cs => Condition.Sat events pos ev c ∨ Condition.AnySat events pos ev cs

/-- Every condition is satisfied. -/
def Condition.AllSat (events : List Val) (pos : Nat) (ev : Val) : List Condition → Prop
  | [] => True
  | c :: cs => Condition.Sat events pos ev c ∧ Condition.AllSat events pos ev cs
end

section Sat

variable {events : List Val} {pos : Nat} {ev : Val}

/-- One of the alternatives is satisfied. -/
theorem Condition.anySat_iff : ∀ {cs : List Condition},
    Condition.AnySat events pos ev cs ↔ ∃ c ∈ cs, Condition.Sat events pos ev c
  | [] => by simp [Condition.AnySat]
  | c :: cs => by simp only [Condition.AnySat, Condition.anySat_iff, List.exists_mem_cons_iff]

/-- All parts are satisfied. -/
theorem Condition.allSat_iff : ∀ {cs : List Condition},
    Condition.AllSat events pos ev cs ↔ ∀ c ∈ cs, Condition.Sat events pos ev c
  | [] => by simp [Condition.AllSat]
  | c :: cs => by rw [Condition.AllSat, Condition.allSat_iff, List.forall_mem_cons]

/-- A comparison that returns says what the condition says. -/
theorem fieldSat_of_fieldHolds {op : Str} {actual value : Val} {b : Bool}
    (h : fieldHolds op actual value = .ok b) : b = true ↔ FieldSat op actual value := by
  unfold fieldHolds at h
  unfold FieldSat
  split_ifs at h ⊢ with hexists heq hne hin hgte hnull hlte hnull'
  all_goals first
    | (rw [Except.ok.injEq] at h; subst h; simp_all)
    | simp_all

/-- What a comprehension returns, where each element that returns gives a known value. -/
theorem eq_map_of_mapM {α β : Type} {f : α → Except PyErr β} {g : α → β}
    (hf : ∀ a b, f a = .ok b → b = g a) {as : List α} {bs : List β} (h : as.mapM f = .ok bs) :
    bs = as.map g := by
  rw [mapM_eq_ok] at h
  induction h with
  | nil => rfl
  | cons hab _ ih => rw [List.map_cons, hf _ _ hab, ih]

/-- The items of an index are its events with their ids. -/
theorem Index.byId_of_init {idx : Index} (h : Index.init events = .ok idx) :
    idx.byId = (events.filter fun ev => (entry (lit "event_id") ev).truthy).map
      fun ev => (entry (lit "event_id") ev, ev) := by
  rw [Index.init] at h
  obtain ⟨byId, hbyId, h⟩ := bind_eq_ok.mp h
  rw [← pure_eq_ok.mp h]
  refine eq_map_of_mapM (fun ev kv hkv => ?_) hbyId
  rw [idItem] at hkv
  split at hkv
  · exact (Except.ok.inj hkv).symm
  · cases hkv

/-- **An index finds the last event with an id.** -/
theorem Index.getById_of_init {idx : Index} (h : Index.init events = .ok idx) {ref : Val}
    {found : Option Val} (hfound : idx.getById ref = .ok found) : found = lastWithId events ref := by
  rw [Index.getById] at hfound
  split at hfound
  · rw [← Except.ok.inj hfound, Index.byId_of_init h, lastWithId, ← List.map_reverse,
      List.find?_map, ← List.filter_reverse, List.find?_filter, Option.map_map]
    simp only [Function.comp_def, Bool.decide_and, Bool.decide_eq_true, Option.map_id']
  · cases hfound

/-- A link that returns says what the condition says. -/
theorem linkSat_of_linked {idx : Index} (h : Index.init events = .ok idx) {link : Option Str}
    {target : Option EventFilter} {b : Bool} (hlinked : linked idx pos ev link target = .ok b) :
    b = true ↔ LinkSat events pos ev link target := by
  unfold linked at hlinked
  unfold LinkSat
  by_cases happroval : link = some (lit "approval_ref")
  -- an approval is looked up by the id it refers to
  · rw [if_pos happroval] at hlinked ⊢
    dsimp only at hlinked
    split at hlinked
    · rename_i htruthy
      obtain ⟨found, hfound, hb⟩ := bind_eq_ok.mp hlinked
      rw [← pure_eq_ok.mp hb, ← Index.getById_of_init h hfound, Option.any_eq_true]
      simp only [htruthy, true_and]
    -- no reference, or an empty one: nothing is linked
    · rename_i htruthy
      rw [← pure_eq_ok.mp hlinked]
      simp [htruthy]
  · rw [if_neg happroval] at hlinked ⊢
    cases hkey : linkKey link with
    | none =>
        -- `_linked` raises on a link it does not know
        rw [hkey] at hlinked
        cases hlinked
    | some k =>
        rw [hkey] at hlinked
        dsimp only at hlinked
        split at hlinked
        -- an event without the key is linked to none
        · rename_i hnull
          rw [← pure_eq_ok.mp hlinked]
          simp [hnull]
        · rename_i hnull
          rw [← pure_eq_ok.mp hlinked, Index.events_of_init h]
          -- any other event with the same value under the key, at whatever place
          have hany := @any_zipIdx events pos fun other =>
            (getPath other k).eq (getPath ev k) && targets target other
          simp only [Bool.and_assoc, hany, Bool.and_eq_true, Option.some.injEq, exists_eq_left',
            ne_eq, hnull, not_false_eq_true, true_and]

mutual
/-- **The evaluation of a condition implements its meaning**: where it returns, it says whether the
condition is satisfied. -/
theorem Condition.sat_of_holds {idx : Index} (h : Index.init events = .ok idx) :
    ∀ {c : Condition} {b : Bool}, c.holds idx pos ev = .ok b → (b = true ↔ c.Sat events pos ev)
  | .mk type path op value link target conditions, b, hb => by
      -- one branch for each type, in the order in which `_holds` asks for them
      rw [Condition.holds] at hb
      rw [Condition.Sat]
      split at hb
      · rename_i htype
        rw [if_pos htype, ← Except.ok.inj hb]
      · rename_i h₁
        rw [if_neg h₁]
        split at hb
        · rename_i htype
          rw [if_pos htype]
          exact fieldSat_of_fieldHolds hb
        · rename_i h₂
          rw [if_neg h₂]
          split at hb
          · rename_i htype
            rw [if_pos htype]
            exact linkSat_of_linked h hb
          · rename_i h₃
            rw [if_neg h₃]
            split at hb
            · rename_i htype
              rw [if_pos htype]
              exact Condition.anySat_of_anyHolds h hb
            · rename_i h₄
              rw [if_neg h₄]
              split at hb
              · rename_i htype
                rw [if_pos htype]
                exact Condition.allSat_of_allHold h hb
              · rename_i h₅
                rw [if_neg h₅]
                split at hb
                · rename_i htype
                  -- `none_of` evaluates its parts and says the opposite
                  cases hall : Condition.allHold idx pos ev conditions with
                  | error err =>
                      rw [hall] at hb
                      cases hb
                  | ok all =>
                      rw [hall] at hb
                      rw [if_pos htype, ← Condition.allSat_of_allHold h hall, ← Except.ok.inj hb]
                      simp
                -- any other type raises
                · cases hb

/-- The same of alternatives. -/
theorem Condition.anySat_of_anyHolds {idx : Index} (h : Index.init events = .ok idx) :
    ∀ {cs : List Condition} {b : Bool}, Condition.anyHolds idx pos ev cs = .ok b →
      (b = true ↔ Condition.AnySat events pos ev cs)
  | [], b, hb => by
      rw [Condition.anyHolds, Except.ok.injEq] at hb
      simp [← hb, Condition.AnySat]
  | c :: cs, b, hb => by
      rw [Condition.anyHolds] at hb
      obtain ⟨first, hfirst, hb⟩ := bind_eq_ok.mp hb
      have hsat := Condition.sat_of_holds h hfirst
      rw [Condition.AnySat, ← hsat]
      cases first with
      | true => simp [← pure_eq_ok.mp hb]
      | false => simpa using Condition.anySat_of_anyHolds h hb

/-- The same of conjunctions. -/
theorem Condition.allSat_of_allHold {idx : Index} (h : Index.init events = .ok idx) :
    ∀ {cs : List Condition} {b : Bool}, Condition.allHold idx pos ev cs = .ok b →
      (b = true ↔ Condition.AllSat events pos ev cs)
  | [], b, hb => by
      rw [Condition.allHold, Except.ok.injEq] at hb
      simp [← hb, Condition.AllSat]
  | c :: cs, b, hb => by
      rw [Condition.allHold] at hb
      obtain ⟨first, hfirst, hb⟩ := bind_eq_ok.mp hb
      have hsat := Condition.sat_of_holds h hfirst
      rw [Condition.AllSat, ← hsat]
      cases first with
      | true => simpa using Condition.allSat_of_allHold h hb
      | false => simp [← pure_eq_ok.mp hb]
end

end Sat

/-! ## Outcomes -/

/-- The event is an attested evidence gap. -/
def AttestsGap (ev : Val) : Prop :=
  (getPath ev (lit "attributes.marker")).eq (.str (lit "evidence_gap")) = true

section Outcome

open scoped Classical in
/-- What a control comes to over the events. -/
noncomputable def Control.outcome (c : Control) (events : List Val) : ControlStatus :=
  if c.completenessSensitive = true ∧ ∃ ev ∈ events, AttestsGap ev then .notSatisfied
  else if c.inScope events = [] then c.emptyScope.status
  else if ∀ e ∈ c.inScope events, c.condition.Sat events e.2 e.1 then .satisfied
  else .notSatisfied

open scoped Classical in
/-- The in-scope events that satisfy the condition. -/
noncomputable def Control.satisfying (c : Control) (events : List Val) : List (Val × Nat) :=
  (c.inScope events).filter fun e => decide (c.condition.Sat events e.2 e.1)

open scoped Classical in

/-- What satisfies a control is in its scope, and satisfies its condition. -/
theorem Control.mem_satisfying {c : Control} {events : List Val} {e : Val × Nat} :
    e ∈ c.satisfying events ↔ e ∈ c.inScope events ∧ c.condition.Sat events e.2 e.1 := by
  rw [Control.satisfying, List.mem_filter, decide_eq_true_eq]

end Outcome

variable {events : List Val}

/-- A marker test that returns says whether the event is an attested gap. -/
theorem attestsGap_of_isGapMarker {ev : Val} {b : Bool} (h : isGapMarker ev = .ok b) :
    b = true ↔ AttestsGap ev := by
  have hpath : getPath ev (lit "attributes.marker")
      = entry (lit "marker") (entry (lit "attributes") ev) := by
    rw [getPath, show split (cp 46) (lit "attributes.marker") = [lit "attributes", lit "marker"] by
      decide +kernel]
    rfl
  rw [isGapMarker] at h
  obtain ⟨marker, hmarker, h⟩ := bind_eq_ok.mp h
  rw [← pure_eq_ok.mp h, AttestsGap, hpath]
  have hsame : marker = entry (lit "marker") (entry (lit "attributes") ev) := by
    rw [attributes, orElse] at hmarker
    generalize entry (lit "attributes") ev = attrs at hmarker ⊢
    by_cases htruthy : attrs.truthy = true
    · rw [if_pos htruthy] at hmarker
      cases attrs with
      | dict kvs => exact (Except.ok.inj hmarker).symm
      | _ => cases hmarker
    · -- what is false has no entries
      rw [if_neg htruthy] at hmarker
      cases attrs with
      | dict kvs =>
          obtain rfl : kvs = [] := by simpa [truthy] using htruthy
          exact (Except.ok.inj hmarker).symm
      | _ => exact (Except.ok.inj hmarker).symm
  rw [hsame]

/-- There are gap markers where some event is an attested gap. -/
theorem markers_ne_nil {gaps : Gaps} (h : gapsOf events = .ok gaps) :
    gaps.markers ≠ [] ↔ ∃ ev ∈ events, AttestsGap ev := by
  rw [gapsOf] at h
  obtain ⟨markers, hmarkers, h⟩ := bind_eq_ok.mp h
  obtain ⟨dropped, -, h⟩ := bind_eq_ok.mp h
  rw [← pure_eq_ok.mp h]
  obtain ⟨hall, rfl⟩ := select_eq_ok.mp hmarkers
  rw [ne_eq, List.filter_eq_nil_iff]
  push Not
  refine exists_congr fun ev => and_congr_right fun hev => ?_
  obtain ⟨b, hb⟩ := hall ev hev
  rw [hb, saysYes]
  exact attestsGap_of_isGapMarker hb

/-- An in-scope event is the event at its position. -/
theorem Control.getElem?_of_mem_inScope {c : Control} {e : Val × Nat} (he : e ∈ c.inScope events) :
    events[e.2]? = some e.1 :=
  List.mem_zipIdx_iff_getElem?.mp (List.mem_of_mem_filter he)

section Scope

variable {c : Control} {idx : Index} (hidx : Index.init events = .ok idx)
include hidx

open scoped Classical in
/-- **What passes is what satisfies the condition.** -/
theorem Control.passed_eq {passed : List (Val × Nat)}
    (h : select (fun e => c.condition.holds idx e.2 e.1) (c.inScope events) = .ok passed) :
    passed = c.satisfying events := by
  obtain ⟨hall, rfl⟩ := select_eq_ok.mp h
  refine List.filter_congr fun e he => ?_
  obtain ⟨b, hb⟩ := hall e he
  rw [hb, saysYes, Bool.eq_iff_iff, decide_eq_true_eq]
  exact Condition.sat_of_holds hidx hb

/-- **There are violators where not every event satisfies the condition**: an event that equals one
that passed satisfies the condition as well. -/
theorem Control.violators_eq_nil {passed : List (Val × Nat)}
    (h : select (fun e => c.condition.holds idx e.2 e.1) (c.inScope events) = .ok passed) :
    violators (c.inScope events) passed = [] ↔
      ∀ e ∈ c.inScope events, c.condition.Sat events e.2 e.1 := by
  have hpassed := Control.passed_eq hidx h
  obtain ⟨hall, -⟩ := select_eq_ok.mp h
  rw [violators, List.filter_eq_nil_iff]
  refine forall₂_congr fun e he => ?_
  rw [Bool.not_eq_true', Bool.not_eq_false, List.any_eq_true]
  constructor
  · rintro ⟨p, hp, hsame⟩
    rw [hpassed, Control.mem_satisfying] at hp
    have hpe := Control.getElem?_of_mem_inScope hp.1
    have hee := Control.getElem?_of_mem_inScope he
    have hkey : key p.1 = key e.1 := by
      rcases Bool.or_eq_true_iff.mp hsame with hpos | heq
      · rw [beq_iff_eq.mp hpos] at hpe
        rw [Option.some.inj (hpe.symm.trans hee)]
      · exact key_eq_of_eq heq
    -- the condition returned for both, with one answer
    obtain ⟨b, hb⟩ := hall p hp.1
    rw [← Index.events_of_init hidx] at hpe hee
    have hb' : c.condition.holds idx e.2 e.1 = .ok b := by
      rw [← Condition.holds_congr hpe hee hkey, hb]
    rw [← Condition.sat_of_holds hidx hb', Condition.sat_of_holds hidx hb]
    exact hp.2
  · intro hsat
    refine ⟨e, ?_, by simp⟩
    rw [hpassed, Control.mem_satisfying]
    exact ⟨he, hsat⟩

open scoped Classical in
/-- The outcome of a control where no gap overrides it. -/
theorem Control.evaluate_outcome {r : ControlResult} (h : c.evaluate idx = .ok r) :
    r.status = (if c.inScope events = [] then c.emptyScope.status
        else if ∀ e ∈ c.inScope events, c.condition.Sat events e.2 e.1 then .satisfied
        else .notSatisfied) ∧
      r.evaluatedCount = (c.inScope events).length ∧
      r.satisfiedCount = (c.satisfying events).length := by
  rw [Control.evaluate, Index.events_of_init hidx] at h
  split at h
  -- nothing in scope: the policy decides
  · rename_i hscope
    obtain ⟨-, rfl⟩ := Control.result_eq_ok h
    rw [if_pos hscope, Control.satisfying, hscope]
    exact ⟨rfl, rfl, rfl⟩
  · rename_i e es hscope
    rw [← hscope, Control.evaluateScope] at h
    obtain ⟨passed, hpassed, h⟩ := bind_eq_ok.mp h
    obtain ⟨evidence, -, h⟩ := bind_eq_ok.mp h
    obtain ⟨gaps, -, h⟩ := bind_eq_ok.mp h
    obtain ⟨-, rfl⟩ := Control.result_eq_ok h
    have hne : c.inScope events ≠ [] := by
      rw [hscope]
      exact List.cons_ne_nil e es
    -- the control is satisfied when nothing in scope violates its condition
    rw [← Control.passed_eq hidx hpassed]
    refine ⟨Eq.trans ?_ (if_neg hne).symm, rfl, rfl⟩
    exact if_congr (Control.violators_eq_nil hidx hpassed) rfl rfl

end Scope

/-- Where control ids are distinct, the sensitive ids are those of the sensitive controls. -/
theorem Crosswalk.mem_sensitive {cw : Crosswalk} (hids : (cw.controls.map (·.id)).Nodup)
    {c : Control} (hc : c ∈ cw.controls) : c.id ∈ cw.sensitive ↔ c.completenessSensitive = true := by
  rw [Crosswalk.sensitive, List.mem_map]
  constructor
  · rintro ⟨d, hd, hid⟩
    rw [List.mem_filter] at hd
    rw [← List.inj_on_of_nodup_map hids hd.1 hc hid]
    exact hd.2
  · exact fun h => ⟨c, List.mem_filter.mpr ⟨hc, h⟩, rfl⟩

/-- **The three-state semantics.** An evaluation that returns has one result for each control, in
order: its outcome, the number of events in scope and the number of those that satisfy the
condition. -/
theorem evaluate_threeState {cw : Crosswalk} {dicts : List Val} {cr : CrosswalkResult}
    (hids : (cw.controls.map (·.id)).Nodup) (h : cw.evaluate dicts = .ok cr) :
    List.Forall₂ (fun c r => r.controlId = c.id ∧ r.status = c.outcome dicts ∧
        r.evaluatedCount = (c.inScope dicts).length ∧
        r.satisfiedCount = (c.satisfying dicts).length) cw.controls cr.controls := by
  obtain ⟨rs, hash, hrs, -, rfl⟩ := Crosswalk.evaluate_eq_ok h
  obtain ⟨idx, gaps, results, hidx, hgaps, hresults, rfl⟩ := Crosswalk.controlResults_eq_ok hrs
  rw [List.forall₂_map_right_iff]
  refine ((List.forall₂_and_left cw.controls results).mpr ⟨fun c hc => hc, hresults⟩).imp ?_
  rintro c r ⟨hc, hr⟩
  obtain ⟨hstatus, hevaluated, hsatisfied⟩ := Control.evaluate_outcome hidx hr
  have hid := (Control.evaluate_eq_ok hr).1
  have hsensitive : r.controlId ∈ cw.sensitive ↔ c.completenessSensitive = true := by
    rw [hid, Crosswalk.mem_sensitive hids hc]
  rw [ControlResult.override, Control.outcome]
  split
  · rename_i hgap
    rw [markers_ne_nil hgaps, hsensitive] at hgap
    exact ⟨hid, (if_pos ⟨hgap.2.1, hgap.1⟩).symm, hevaluated, hsatisfied⟩
  · rename_i hgap
    rw [markers_ne_nil hgaps, hsensitive] at hgap
    refine ⟨hid, ?_, hevaluated, hsatisfied⟩
    by_cases hboth : c.completenessSensitive = true ∧ ∃ ev ∈ dicts, AttestsGap ev
    · -- the override leaves a control that failed already
      rw [if_pos hboth]
      by_contra hne
      exact hgap ⟨hboth.2, hboth.1, hne⟩
    · rw [if_neg hboth, hstatus]

/-! Decisions that refer to their approval, an incident that nobody approved, and a gap. -/

/-- The control of decisions: the event that is referred to is an approval. -/
def decisionControl : Control where
  id := lit "decisions"
  title := lit "Decisions"
  requirement := lit "Decisions are approved."
  citation := [(lit "instrument", .str (lit "internal policy"))]
  scope := { kind := some [lit "agent_decision"] }
  condition := .mk (lit "linked") none none .null (some (lit "approval_ref"))
    (some { kind := some [lit "human_approval"] }) []

/-- The control of incidents. -/
def incidentControl : Control where
  id := lit "incidents"
  title := lit "Incidents"
  requirement := lit "Incidents are approved."
  citation := [(lit "instrument", .str (lit "internal policy"))]
  scope := { kind := some [lit "incident"] }
  condition := .mk (lit "field") (some (lit "oversight.status")) (some (lit "eq"))
    (.str (lit "approved")) none none []

/-- The control of approvals, which has to see all events. -/
def approvalControl : Control where
  id := lit "approvals"
  title := lit "Approvals"
  requirement := lit "Every approval is recorded."
  citation := [(lit "instrument", .str (lit "internal policy"))]
  scope := { kind := some [lit "human_approval"] }
  condition := .mk (lit "field") (some (lit "oversight.status")) (some (lit "exists")) .null none none []
  completenessSensitive := true

/-- The crosswalk of the example. -/
def approvalCrosswalk : Crosswalk where
  id := lit "approvals"
  title := lit "Approvals"
  version := lit "1"
  source := lit "internal policy"
  reviewedAsOf := lit "2026-01-01"
  controls := [decisionControl, incidentControl, approvalControl]

/-- An event of the example. -/
def exampleEvent (id kind : String) (field : String) (content : Items) : Val :=
  .dict [(lit "event_id", .str (lit id)), (lit "kind", .str (lit kind)), (lit field, .dict content)]

/-- A decision and its approval, the decision once more, an incident, and the marker of a gap. -/
def exampleEvents : List Val :=
  [exampleEvent "evt_1" "agent_decision" "oversight" [(lit "approval_ref", .str (lit "evt_2"))],
    exampleEvent "evt_2" "human_approval" "oversight" [(lit "status", .str (lit "approved"))],
    exampleEvent "evt_1" "agent_decision" "oversight" [(lit "approval_ref", .str (lit "evt_2"))],
    exampleEvent "evt_3" "incident" "oversight" [(lit "status", .str (lit "pending"))],
    exampleEvent "evt_4" "conformance_finding" "attributes"
      [(lit "marker", .str (lit "evidence_gap")), (lit "dropped_events", .int 2)]]

/-- The three controls on these events: the decisions are approved, the incident is not, and an
approval may be missing. -/
theorem evaluate_threeState_example : ∃ cr, approvalCrosswalk.evaluate exampleEvents = .ok cr ∧
    cr.controls.map (fun r => (r.status, r.evaluatedCount, r.satisfiedCount))
      = [(.satisfied, 2, 2), (.notSatisfied, 1, 0), (.notSatisfied, 1, 1)] ∧
    List.Forall₂ (fun c r => r.controlId = c.id ∧ r.status = c.outcome exampleEvents ∧
      r.evaluatedCount = (c.inScope exampleEvents).length ∧
      r.satisfiedCount = (c.satisfying exampleEvents).length) approvalCrosswalk.controls cr.controls := by
  have hcounts : (approvalCrosswalk.controlResults exampleEvents).toOption.map
      (List.map fun r => (r.status, r.evaluatedCount, r.satisfiedCount))
        = some [(.satisfied, 2, 2), (.notSatisfied, 1, 0), (.notSatisfied, 1, 1)] := by
    decide +kernel
  obtain ⟨controls, hcontrols, hcounts⟩ := Option.map_eq_some_iff.mp hcounts
  obtain ⟨hash, hhash, -⟩ : ∃ hash, crosswalkContentHash approvalCrosswalk = .ok hash ∧
      Canonical.Scalar hash := by
    refine Canonical.exists_contentHash ?_
    simp [approvalCrosswalk, decisionControl, incidentControl, approvalControl, Crosswalk.dump,
      Control.dump, EventFilter.dump, Condition.dump, Condition.dumpList, Canonical.Encodable,
      Canonical.EncodableItems, Canonical.EncodableList, ifSet, strings, jsonMode, jsonModeItems,
      EmptyScopePolicy.value]
  obtain ⟨cr, hcr, rfl⟩ : ∃ cr, approvalCrosswalk.evaluate exampleEvents = .ok cr ∧
      cr.controls = controls := by
    rw [Crosswalk.evaluate, eq_ok_of_toOption hcontrols, hhash]
    exact ⟨_, rfl, rfl⟩
  exact ⟨cr, hcr, hcounts, evaluate_threeState (by decide) hcr⟩

end OpenWright
