import OpenWright.CrosswalkSafety
import OpenWright.CanonicalEquality

/-! # What the pin of a crosswalk determines

A report is pinned to a crosswalk by the hash of the canonical bytes of its dump. The bytes show
neither the null entries of a dictionary nor whether a sequence is a list or a tuple, and a comparison
with an operand sees both.

* **`evaluate_determined_iff`** — the pin determines the verdicts of the crosswalks with operands from
  a set of values exactly where operands with the same canonical bytes are equal.
* **`eq_of_shown`** — operands without null entries and tuples are such a set.
* **`Crosswalk.verdicts_of_pin`** — two crosswalks with one pin whose corresponding operands are equal
  give the same verdicts. -/

namespace OpenWright

open Python Python.Val Canonical Hash

/-! ## Operands -/

/-- The operands of a filter: the dictionary its attributes are compared with. -/
def EventFilter.OperandsIn (P : Val → Prop) (f : EventFilter) : Prop := P (.dict f.attributeEquals)

mutual
/-- The operands of a condition: the values of its comparisons and those of its targets. -/
def Condition.OperandsIn (P : Val → Prop) : Condition → Prop
  | .mk _ _ _ value _ target conditions =>
    P value ∧ (∀ f, target = some f → f.OperandsIn P) ∧ Condition.AllOperandsIn P conditions

/-- `Condition.OperandsIn`, elementwise. -/
def Condition.AllOperandsIn (P : Val → Prop) : List Condition → Prop
  | [] => True
  | c :: cs => Condition.OperandsIn P c ∧ Condition.AllOperandsIn P cs
end

/-- The operands of a crosswalk: those of the scopes and of the conditions of its controls. -/
def Crosswalk.OperandsIn (P : Val → Prop) (cw : Crosswalk) : Prop :=
  ∀ c ∈ cw.controls, c.scope.OperandsIn P ∧ c.condition.OperandsIn P

/-- Two filters compare with operands that are equal under `==`. -/
def EventFilter.SameOperands (f g : EventFilter) : Prop :=
  key (.dict f.attributeEquals) = key (.dict g.attributeEquals)

mutual
/-- Two conditions compare with operands that are equal under `==`, part by part. -/
def Condition.SameOperands : Condition → Condition → Prop
  | .mk _ _ _ value _ target conditions, .mk _ _ _ value' _ target' conditions' =>
    key value = key value' ∧ (∀ f ∈ target, ∀ g ∈ target', EventFilter.SameOperands f g) ∧
      Condition.AllSameOperands conditions conditions'

/-- `Condition.SameOperands`, elementwise. -/
def Condition.AllSameOperands : List Condition → List Condition → Prop
  | c :: cs, d :: ds => Condition.SameOperands c d ∧ Condition.AllSameOperands cs ds
  | _, _ => True
end

/-- Two controls compare with equal operands. -/
def Control.SameOperands (c d : Control) : Prop :=
  c.scope.SameOperands d.scope ∧ c.condition.SameOperands d.condition

/-- The corresponding controls of two crosswalks compare with equal operands. -/
def Crosswalk.SameOperands (cw cw' : Crosswalk) : Prop :=
  List.Forall₂ Control.SameOperands cw.controls cw'.controls

/-- Operands of one content are equal under `==`. -/
def Told (P : Val → Prop) : Prop := ∀ v w, P v → P w → SameContent v w → key v = key w

/-! ## Values of one content -/

section Content

variable {v w : Val}

mutual
/-- The dump of a value has its content. -/
theorem strip_jsonMode : ∀ v : Val, strip (jsonMode v) = strip v
  | .null | .bool _ | .int _ | .float _ | .str _ => rfl
  | .list vs => congrArg Val.list (stripList_jsonModeList vs)
  | .tuple vs => congrArg Val.list (stripList_jsonModeList vs)
  | .dict kvs => congrArg Val.dict (stripItems_jsonModeItems kvs)

/-- The same of lists. -/
theorem stripList_jsonModeList : ∀ vs : List Val, stripList (jsonModeList vs) = stripList vs
  | [] => rfl
  | v :: vs => by
      rw [jsonModeList, stripList, stripList, strip_jsonMode v, stripList_jsonModeList vs]

/-- The same of dictionaries. -/
theorem stripItems_jsonModeItems : ∀ kvs : Items, stripItems (jsonModeItems kvs) = stripItems kvs
  | [] => rfl
  | (k, v) :: kvs => by
      have hnull : jsonMode v = .null ↔ v = .null := jsonMode_eq_null
      rw [jsonModeItems, stripItems, stripItems, strip_jsonMode v, stripItems_jsonModeItems kvs]
      simp only [hnull]
end

/-- The entries of values of one content have one content. -/
theorem sameContent_entry (h : SameContent v w) (hv : distinct v = true) (hw : distinct w = true)
    (k : Str) : SameContent (entry k v) (entry k w) := by
  have hentry : ∀ u : Val, distinct u = true →
      entry k (Json.sorted (strip u)) = Json.sorted (strip (entry k u)) := by
    intro u hu
    cases u with
    | dict kvs =>
        rw [strip, Json.sorted, entry_dict, lookup_sortKeys, lookup_sortedItems, stripItems_eq,
          lookup_map_snd, getD_map_null (f := Json.sorted) rfl, getD_map_null (f := strip) rfl,
          lookup_filter_ne_null (distinct_dict.mp hu).1, entry_dict]
    | _ => rfl
  rw [SameContent, ← hentry v hv, ← hentry w hw, h]

/-- A dump has the content of the value. -/
theorem sameContent_jsonMode : SameContent (jsonMode v) (jsonMode w) ↔ SameContent v w := by
  rw [SameContent, strip_jsonMode, strip_jsonMode, SameContent]

/-- Texts of one content are one text. -/
theorem str_of_sameContent {s t : Str} (h : SameContent (.str s) (.str t)) : s = t := by
  simpa [SameContent, strip, Json.sorted] using h

/-- Truth values of one content are one truth value. -/
theorem bool_of_sameContent {a b : Bool} (h : SameContent (.bool a) (.bool b)) : a = b := by
  simpa [SameContent, strip, Json.sorted] using h

/-- The elements of lists of one content have one content. -/
theorem list_of_sameContent : ∀ {vs ws : List Val}, SameContent (.list vs) (.list ws) →
    List.Forall₂ SameContent vs ws
  | [], [], _ => .nil
  | [], w :: ws, h => by simp [SameContent, strip, stripList, Json.sorted, Json.sortedList] at h
  | v :: vs, [], h => by simp [SameContent, strip, stripList, Json.sorted, Json.sortedList] at h
  | v :: vs, w :: ws, h => by
      rw [SameContent, strip, strip, stripList, stripList, Json.sorted, Json.sorted, Json.sortedList,
        Json.sortedList, list.injEq, List.cons.injEq] at h
      refine .cons h.1 (list_of_sameContent ?_)
      rw [SameContent, strip, strip, Json.sorted, Json.sorted, h.2]

/-- Lists of texts of one content are one list. -/
theorem strings_of_sameContent {ss ts : List Str} (h : SameContent (strings ss) (strings ts)) :
    ss = ts := by
  have hall := list_of_sameContent h
  rw [List.forall₂_map_left_iff, List.forall₂_map_right_iff] at hall
  rw [← List.forall₂_eq_eq_eq]
  exact hall.imp fun _ _ => str_of_sameContent

/-- Only `None` has the content of `None`. -/
theorem eq_null_of_sameContent (h : SameContent .null v) : v = .null := by
  cases v <;> simp [SameContent, strip, Json.sorted] at h ⊢

/-- What is absent from one of two dumps of one content is absent from the other. -/
theorem rel_of_sameContent {α : Type} {f : α → Val} (hnull : ∀ a, f a ≠ .null) {o p : Option α}
    (h : SameContent ((o.map f).getD .null) ((p.map f).getD .null)) :
    Option.Rel (fun a b => SameContent (f a) (f b)) o p := by
  have hne : ∀ a, ¬SameContent .null (f a) := fun a ha => hnull a (eq_null_of_sameContent ha)
  cases o with
  | none =>
      cases p with
      | none => exact .none
      | some b => exact absurd h (hne b)
  | some a =>
      cases p with
      | none => exact absurd h.symm (hne a)
      | some b => exact .some h

/-- Optional lists of texts of one content are one. -/
theorem optStrings_of_sameContent {o p : Option (List Str)}
    (h : SameContent ((o.map strings).getD .null) ((p.map strings).getD .null)) : o = p := by
  cases rel_of_sameContent (fun ss => by simp [strings]) h with
  | none => rfl
  | some h => rw [strings_of_sameContent h]

/-- Optional texts of one content are one. -/
theorem optStr_of_sameContent {o p : Option Str}
    (h : SameContent ((o.map Val.str).getD .null) ((p.map Val.str).getD .null)) : o = p := by
  cases rel_of_sameContent (fun s => by simp) h with
  | none => rfl
  | some h => rw [str_of_sameContent h]

end Content

/-! ## The entries of a dump -/

/-- What an optional field is found under. -/
theorem lookup_ifSet (k : String) (o : Option Val) (l : Str) :
    (ifSet k o).lookup l = if l = lit k then o else none := by
  cases o with
  | none => simp [ifSet]
  | some v =>
      rw [ifSet, Option.map_some, Option.toList_some, List.lookup_cons]
      by_cases hl : l = lit k
      · rw [if_pos hl, hl, beq_self_eq_true]
      · rw [if_neg hl, beq_false_of_ne hl, List.lookup_nil]

/-- What the first item or the others are found under. -/
theorem lookup_cons_ite (k : Str) (v : Val) (kvs : Items) (l : Str) :
    ((k, v) :: kvs).lookup l = if l = k then some v else kvs.lookup l := by
  rw [List.lookup_cons]
  by_cases hl : l = k
  · rw [if_pos hl, hl, beq_self_eq_true]
  · rw [if_neg hl, beq_false_of_ne hl]

/-- **Filters with dumps of one content** have the same lists, and operands of one content. -/
theorem EventFilter.eq_of_sameContent {f g : EventFilter} (h : SameContent f.dump g.dump)
    (hf : distinct f.dump = true) (hg : distinct g.dump = true) :
    f.kind = g.kind ∧ f.riskClassification = g.riskClassification ∧
      f.oversightStatus = g.oversightStatus ∧ f.sourceFormat = g.sourceFormat ∧
      SameContent (.dict f.attributeEquals) (.dict g.attributeEquals) ∧ f.has = g.has := by
  have hentry := fun k => sameContent_entry h hf hg k
  simp only [EventFilter.dump, entry_dict, List.lookup_append, lookup_ifSet, lookup_cons_ite,
    List.lookup_nil] at hentry
  refine ⟨optStrings_of_sameContent ?_, optStrings_of_sameContent ?_, optStrings_of_sameContent ?_,
    optStrings_of_sameContent ?_, sameContent_jsonMode.mp ?_, strings_of_sameContent ?_⟩
  · simpa +decide using hentry (lit "kind")
  · simpa +decide using hentry (lit "risk_classification")
  · simpa +decide using hentry (lit "oversight_status")
  · simpa +decide using hentry (lit "source_format")
  · simpa +decide using hentry (lit "attribute_equals")
  · simpa +decide using hentry (lit "has")

/-- **Conditions with dumps of one content** have the same texts, and parts of one content. -/
theorem Condition.parts_of_sameContent {type type' : Str} {path path' op op' link link' : Option Str}
    {value value' : Val} {target target' : Option EventFilter} {conditions conditions' : List Condition}
    (h : SameContent (Condition.mk type path op value link target conditions).dump
      (Condition.mk type' path' op' value' link' target' conditions').dump)
    (hc : distinct (Condition.mk type path op value link target conditions).dump = true)
    (hd : distinct (Condition.mk type' path' op' value' link' target' conditions').dump = true) :
    type = type' ∧ path = path' ∧ op = op' ∧ SameContent value value' ∧ link = link' ∧
      SameContent ((target.map EventFilter.dump).getD .null) ((target'.map EventFilter.dump).getD .null) ∧
      List.Forall₂ SameContent (Condition.dumpList conditions) (Condition.dumpList conditions') := by
  -- dumps of one content have equal entries under every key
  have hentry := fun k => sameContent_entry h hc hd k
  simp only [Condition.dump, entry_dict, List.lookup_append, lookup_ifSet, lookup_cons_ite,
    List.lookup_nil] at hentry
  refine ⟨str_of_sameContent ?_, optStr_of_sameContent ?_, optStr_of_sameContent ?_,
    sameContent_jsonMode.mp ?_, optStr_of_sameContent ?_, ?_, list_of_sameContent ?_⟩
  · simpa +decide using hentry (lit "type")
  · simpa +decide using hentry (lit "path")
  · simpa +decide using hentry (lit "op")
  -- the operand is left out when it is null, so its entry is the operand either way
  · have hvalue : ∀ v : Val, (if v = .null then none else some (jsonMode v)).getD .null
        = jsonMode v := by
      intro v
      split
      · rename_i hv
        rw [hv]
        rfl
      · rfl
    rw [← hvalue value, ← hvalue value']
    simpa +decide using hentry (lit "value")
  · simpa +decide using hentry (lit "link")
  · simpa +decide using hentry (lit "target")
  · simpa +decide using hentry (lit "conditions")

/-- **Controls with dumps of one content** have one id and one policy, and parts of one content. -/
theorem Control.parts_of_sameContent {c d : Control} (h : SameContent c.dump d.dump)
    (hc : distinct c.dump = true) (hd : distinct d.dump = true) :
    c.id = d.id ∧ SameContent c.scope.dump d.scope.dump ∧ SameContent c.condition.dump d.condition.dump ∧
      c.emptyScope = d.emptyScope ∧ c.completenessSensitive = d.completenessSensitive := by
  have hentry := fun k => sameContent_entry h hc hd k
  simp only [Control.dump, entry_dict, List.lookup_append, lookup_ifSet, lookup_cons_ite,
    List.lookup_nil] at hentry
  have hpolicy : ∀ p q : EmptyScopePolicy, p.value = q.value → p = q := by
    intro p q
    cases p <;> cases q <;> decide
  refine ⟨str_of_sameContent ?_, ?_, ?_, hpolicy _ _ (str_of_sameContent ?_), bool_of_sameContent ?_⟩
  · simpa +decide using hentry (lit "id")
  · simpa +decide using hentry (lit "scope")
  · simpa +decide using hentry (lit "condition")
  · simpa +decide using hentry (lit "empty_scope")
  · simpa +decide using hentry (lit "completeness_sensitive")

/-- Crosswalks with dumps of one content have controls of one content. -/
theorem Crosswalk.controls_of_sameContent {cw cw' : Crosswalk} (h : SameContent cw.dump cw'.dump)
    (hcw : distinct cw.dump = true) (hcw' : distinct cw'.dump = true) :
    List.Forall₂ (fun c d => SameContent (Control.dump c) d.dump) cw.controls cw'.controls := by
  have hentry := sameContent_entry h hcw hcw' (lit "controls")
  simp only [Crosswalk.dump, entry_dict, List.lookup_append, lookup_ifSet, lookup_cons_ite,
    List.lookup_nil] at hentry
  have hlist : SameContent (.list (cw.controls.map Control.dump))
      (.list (cw'.controls.map Control.dump)) := by
    simpa +decide using hentry
  have hall := list_of_sameContent hlist
  rwa [List.forall₂_map_left_iff, List.forall₂_map_right_iff] at hall

/-! ## Equal operands -/

/-- Membership in a list reads the keys of its elements. -/
theorem isIn_keyList (v : Val) (vs : List Val) : v.isIn (keyList vs) = v.isIn vs := by
  rw [isIn, isIn, keyList_eq_map, List.any_map]
  exact List.any_congr rfl fun w => eq_congr rfl (key_key w)

/-- **A value is inside what is equal to a value it is inside of.** -/
theorem inside_key (v c : Val) : v.inside (key c) = v.inside c := by
  cases c with
  | null => rfl
  | bool b => rfl
  | int z => rfl
  | str s => rfl
  | float f =>
      cases f with
      | finite q =>
          rw [key]
          split <;> rfl
      | inf neg => rfl
      | nan => rfl
  | list vs => rw [key, inside, inside, isIn_keyList]
  | tuple vs => rw [key, inside, inside, isIn_keyList]
  | dict kvs =>
      -- sorting moves the keys, and a key is inside wherever it stands
      have hperm : ((sortKeys (keyItems kvs)).map fun kv => Val.str kv.1).Perm
          (kvs.map fun kv => .str kv.1) := by
        refine ((sortKeys_perm _).map _).trans (List.Perm.of_eq ?_)
        rw [keyItems_eq_map, List.map_map]
        rfl
      have hmem : v.isIn ((sortKeys (keyItems kvs)).map fun kv => .str kv.1)
          = v.isIn (kvs.map fun kv => .str kv.1) := hperm.any_eq
      rw [key, inside, inside, hmem]

/-- A comparison does not tell equal operands apart. -/
theorem fieldHolds_operand (op : Str) (actual : Val) {v w : Val} (h : key v = key w) :
    fieldHolds op actual v = fieldHolds op actual w := by
  have htruthy : v.truthy = w.truthy := by rw [← truthy_key v, h, truthy_key]
  have horElse : key (v.orElse (.list [])) = key (w.orElse (.list [])) := by
    rw [Val.orElse, Val.orElse, htruthy]
    split
    · exact h
    · rfl
  have hinside : actual.inside (v.orElse (.list [])) = actual.inside (w.orElse (.list [])) := by
    rw [← inside_key, horElse, inside_key]
  have hge : actual.ge v = actual.ge w := by rw [ge, ge, ← le_key, h, le_key]
  have hle : actual.le v = actual.le w := by rw [← le_key, h, le_key]
  rw [fieldHolds, fieldHolds, eq_congr (a := actual) rfl h, hinside, hge, hle]

/-- The operands of a filter are compared one by one, in any order. -/
theorem all_of_key_eq {as bs : Items} (ev : Val) (h : key (.dict as) = key (.dict bs)) :
    as.all (fun kv => (getPath ev kv.1).eq kv.2) = bs.all fun kv => (getPath ev kv.1).eq kv.2 := by
  have hkey : ∀ kvs : Items, kvs.all (fun kv => (getPath ev kv.1).eq kv.2)
      = (sortKeys (keyItems kvs)).all fun kv => (getPath ev kv.1).eq kv.2 := by
    intro kvs
    rw [(sortKeys_perm (keyItems kvs)).all_eq, keyItems_eq_map, List.all_map]
    exact List.all_congr rfl fun kv => (eq_congr rfl (key_key kv.2)).symm
  rw [key, key, dict.injEq] at h
  rw [hkey as, hkey bs, h]

/-! ## Filters and conditions of one content -/

variable {P : Val → Prop}

/-- **Filters of one content match the same events.** -/
theorem EventFilter.matches_of_sameContent {f g : EventFilter} (h : SameContent f.dump g.dump)
    (hf : distinct f.dump = true) (hg : distinct g.dump = true) (ho : f.SameOperands g) :
    f.matches = g.matches := by
  obtain ⟨hkind, hrisk, hstatus, hformat, -, hhas⟩ := EventFilter.eq_of_sameContent h hf hg
  funext ev
  rw [EventFilter.matches, EventFilter.matches, hkind, hrisk, hstatus, hformat, hhas,
    all_of_key_eq ev ho]

/-- Links lead to the same events where their targets have one content. -/
theorem targets_of_sameContent {o p : Option EventFilter}
    (h : SameContent ((o.map EventFilter.dump).getD .null) ((p.map EventFilter.dump).getD .null))
    (ho : distinct ((o.map EventFilter.dump).getD .null) = true)
    (hp : distinct ((p.map EventFilter.dump).getD .null) = true)
    (hop : ∀ f ∈ o, ∀ g ∈ p, EventFilter.SameOperands f g) : targets o = targets p := by
  cases rel_of_sameContent (fun f => by simp [EventFilter.dump]) h with
  | none => rfl
  | some h => exact EventFilter.matches_of_sameContent h ho hp (hop _ rfl _ rfl)

/-- A link reads its target through the events it leads to. -/
theorem linked_of_targets {o p : Option EventFilter} (h : targets o = targets p) (idx : Index)
    (pos : Nat) (ev : Val) (link : Option Str) : linked idx pos ev link o = linked idx pos ev link p := by
  rw [linked, linked, h]

/-- The parts of a condition with distinct keys have distinct keys. -/
theorem Condition.distinct_parts {type : Str} {path op link : Option Str} {value : Val}
    {target : Option EventFilter} {conditions : List Condition}
    (h : distinct (Condition.mk type path op value link target conditions).dump = true) :
    distinct ((target.map EventFilter.dump).getD .null) = true ∧
      distinctList (Condition.dumpList conditions) = true := by
  have hentry := fun k => distinct_entry h k
  simp only [Condition.dump, entry_dict, List.lookup_append, lookup_ifSet, lookup_cons_ite,
    List.lookup_nil] at hentry
  constructor
  · simpa +decide using hentry (lit "target")
  · have hlist : distinct (.list (Condition.dumpList conditions)) = true := by
      simpa +decide using hentry (lit "conditions")
    exact hlist

mutual
/-- **Conditions of one content hold of the same events.** -/
theorem Condition.holds_of_sameContent (idx : Index) (pos : Nat) (ev : Val) :
    ∀ {c d : Condition}, SameContent c.dump d.dump → distinct c.dump = true →
      distinct d.dump = true → c.SameOperands d → c.holds idx pos ev = d.holds idx pos ev
  | .mk type path op value link target conditions,
    .mk type' path' op' value' link' target' conditions', h, hc, hd, ho => by
      obtain ⟨htype, hpath, hop, -, hlink, htarget, hall⟩ :=
        Condition.parts_of_sameContent h hc hd
      obtain ⟨hct, hcc⟩ := Condition.distinct_parts hc
      obtain ⟨hdt, hdc⟩ := Condition.distinct_parts hd
      have htargets := targets_of_sameContent htarget hct hdt ho.2.1
      obtain ⟨hany, hevery⟩ := Condition.anyAll_of_sameContent idx pos ev hall hcc hdc ho.2.2
      rw [Condition.holds, Condition.holds, htype, hpath, hop, hlink, hany, hevery,
        linked_of_targets htargets, fieldHolds_operand _ _ ho.1]

/-- The same of alternatives and of conjunctions. -/
theorem Condition.anyAll_of_sameContent (idx : Index) (pos : Nat) (ev : Val) :
    ∀ {cs ds : List Condition},
      List.Forall₂ SameContent (Condition.dumpList cs) (Condition.dumpList ds) →
      distinctList (Condition.dumpList cs) = true → distinctList (Condition.dumpList ds) = true →
      Condition.AllSameOperands cs ds →
      Condition.anyHolds idx pos ev cs = Condition.anyHolds idx pos ev ds ∧
        Condition.allHold idx pos ev cs = Condition.allHold idx pos ev ds
  | [], [], _, _, _, _ => ⟨rfl, rfl⟩
  | [], _ :: _, h, _, _, _ => by cases h
  | _ :: _, [], h, _, _, _ => by cases h
  | c :: cs, d :: ds, h, hc, hd, ho => by
      rw [Condition.dumpList, Condition.dumpList, List.forall₂_cons] at h
      rw [Condition.dumpList, distinctList, Bool.and_eq_true] at hc hd
      have hhead := Condition.holds_of_sameContent idx pos ev h.1 hc.1 hd.1 ho.1
      obtain ⟨hany, hall⟩ := Condition.anyAll_of_sameContent idx pos ev h.2 hc.2 hd.2 ho.2
      rw [Condition.anyHolds, Condition.anyHolds, Condition.allHold, Condition.allHold, hhead, hany,
        hall]
      exact ⟨rfl, rfl⟩
end

mutual
/-- **Conditions of one content compare with equal operands**, where content tells operands apart. -/
theorem Condition.sameOperands_of_told (hP : Told P) : ∀ {c d : Condition},
    SameContent c.dump d.dump → distinct c.dump = true → distinct d.dump = true →
      c.OperandsIn P → d.OperandsIn P → c.SameOperands d
  | .mk type path op value link target conditions,
    .mk type' path' op' value' link' target' conditions', h, hc, hd, hcP, hdP => by
      obtain ⟨-, -, -, hvalue, -, htarget, hall⟩ := Condition.parts_of_sameContent h hc hd
      obtain ⟨hct, hcc⟩ := Condition.distinct_parts hc
      obtain ⟨hdt, hdc⟩ := Condition.distinct_parts hd
      refine ⟨hP _ _ hcP.1 hdP.1 hvalue, fun f hf g hg => ?_,
        Condition.allSameOperands_of_told hP hall hcc hdc hcP.2.2 hdP.2.2⟩
      obtain rfl := Option.mem_def.mp hf
      obtain rfl := Option.mem_def.mp hg
      obtain ⟨-, -, -, -, hequals, -⟩ := EventFilter.eq_of_sameContent htarget hct hdt
      exact hP _ _ (hcP.2.1 f rfl) (hdP.2.1 g rfl) hequals

/-- The same of alternatives and of conjunctions. -/
theorem Condition.allSameOperands_of_told (hP : Told P) : ∀ {cs ds : List Condition},
    List.Forall₂ SameContent (Condition.dumpList cs) (Condition.dumpList ds) →
      distinctList (Condition.dumpList cs) = true → distinctList (Condition.dumpList ds) = true →
      Condition.AllOperandsIn P cs → Condition.AllOperandsIn P ds → Condition.AllSameOperands cs ds
  | [], [], _, _, _, _, _ => trivial
  | [], _ :: _, _, _, _, _, _ => trivial
  | _ :: _, [], _, _, _, _, _ => trivial
  | c :: cs, d :: ds, h, hc, hd, hcP, hdP => by
      rw [Condition.dumpList, Condition.dumpList, List.forall₂_cons] at h
      rw [Condition.dumpList, distinctList, Bool.and_eq_true] at hc hd
      exact ⟨Condition.sameOperands_of_told hP h.1 hc.1 hd.1 hcP.1 hdP.1,
        Condition.allSameOperands_of_told hP h.2 hc.2 hd.2 hcP.2 hdP.2⟩
end

/-! ## Evaluations -/

/-- What an evaluation says about a control: its id, the status, the counts and the ids it cites. -/
def ControlResult.verdict (r : ControlResult) : Str × ControlStatus × Nat × Nat × List Val × List Val :=
  (r.controlId, r.status, r.evaluatedCount, r.satisfiedCount, r.evidenceEventIds, r.gapEventIds)

/-- Two results with one verdict have one verdict after the override. -/
theorem ControlResult.verdict_override {r r' : ControlResult} (h : r.verdict = r'.verdict)
    (gaps : Gaps) (sensitive : List Str) :
    (r.override gaps sensitive).verdict = (r'.override gaps sensitive).verdict := by
  simp only [ControlResult.verdict, Prod.mk.injEq] at h
  obtain ⟨hid, hstatus, heval, hsat, hevidence, hgaps⟩ := h
  rw [ControlResult.override, ControlResult.override, hid, hstatus]
  split
  · simp only [ControlResult.verdict, heval, hsat, hevidence, hgaps]
  · simp only [ControlResult.verdict, heval, hsat, hevidence, hgaps, hid, hstatus]

/-- What a control asks for, told by its dump. -/
structure Control.Agree (c d : Control) : Prop where
  id : c.id = d.id
  emptyScope : c.emptyScope = d.emptyScope
  sensitive : c.completenessSensitive = d.completenessSensitive
  scope : ∀ ev, c.scope.matches ev = d.scope.matches ev
  condition : ∀ idx pos ev, c.condition.holds idx pos ev = d.condition.holds idx pos ev

/-- **Controls that ask for the same get the same verdict.** -/
theorem Control.Agree.verdict {c d : Control} (h : c.Agree d) {idx : Index} {r r' : ControlResult}
    (hr : c.evaluate idx = .ok r) (hr' : d.evaluate idx = .ok r') : r.verdict = r'.verdict := by
  -- the two scopes contain the same events
  have hscope : c.inScope idx.events = d.inScope idx.events := by
    rw [Control.inScope, Control.inScope]
    exact List.filter_congr fun e _ => h.scope e.1
  have hresult : ∀ {status : ControlStatus} {reason : Str} {m n : Nat} {evidence gaps : List Val},
      c.result status reason m n evidence gaps = .ok r →
      d.result status reason m n evidence gaps = .ok r' → r.verdict = r'.verdict := by
    intro status reason m n evidence gaps hc hd
    rw [(Control.result_eq_ok hc).2, (Control.result_eq_ok hd).2, ControlResult.verdict,
      ControlResult.verdict, h.id]
  rw [Control.evaluate] at hr hr'
  rw [hscope] at hr
  cases hevents : d.inScope idx.events with
  -- an empty scope: the policy decides
  | nil =>
    rw [hevents] at hr hr'
    rw [h.emptyScope] at hr
    exact hresult hr hr'
  | cons e es =>
    rw [hevents] at hr hr'
    have hcond : (fun e : Val × Nat => c.condition.holds idx e.2 e.1)
        = fun e => d.condition.holds idx e.2 e.1 := funext fun e => h.condition idx e.2 e.1
    -- an event in scope: the conditions hold of the same events, so both lists are one
    dsimp only at hr hr'
    rw [Control.evaluateScope] at hr hr'
    rw [hcond] at hr
    obtain ⟨passed, hpassed, hr⟩ := bind_eq_ok.mp hr
    obtain ⟨evidence, hevidence, hr⟩ := bind_eq_ok.mp hr
    obtain ⟨gaps, hgaps, hr⟩ := bind_eq_ok.mp hr
    obtain ⟨passed', hpassed', hr'⟩ := bind_eq_ok.mp hr'
    obtain rfl : passed = passed' := Except.ok.inj (hpassed.symm.trans hpassed')
    obtain ⟨evidence', hevidence', hr'⟩ := bind_eq_ok.mp hr'
    obtain rfl : evidence = evidence' := Except.ok.inj (hevidence.symm.trans hevidence')
    obtain ⟨gaps', hgaps', hr'⟩ := bind_eq_ok.mp hr'
    obtain rfl : gaps = gaps' := Except.ok.inj (hgaps.symm.trans hgaps')
    exact hresult hr hr'

/-- The controls of a crosswalk with distinct keys have parts with distinct keys. -/
theorem Crosswalk.distinct_parts {cw : Crosswalk} (h : distinct cw.dump = true) {c : Control}
    (hc : c ∈ cw.controls) : distinct c.dump = true ∧ distinct c.scope.dump = true ∧
      distinct c.condition.dump = true := by
  have hentry := distinct_entry h (lit "controls")
  simp only [Crosswalk.dump, entry_dict, List.lookup_append, lookup_ifSet, lookup_cons_ite,
    List.lookup_nil] at hentry
  have hlist : distinct (.list (cw.controls.map Control.dump)) = true := by
    simpa +decide using hentry
  have hdump := distinctList_iff.mp hlist _ (List.mem_map_of_mem hc)
  have hpart := fun k => distinct_entry hdump k
  simp only [Control.dump, entry_dict, List.lookup_append, lookup_ifSet, lookup_cons_ite,
    List.lookup_nil] at hpart
  refine ⟨hdump, ?_, ?_⟩
  · simpa +decide using hpart (lit "scope")
  · simpa +decide using hpart (lit "condition")

/-- **The controls of crosswalks of one content ask for the same** where they compare with equal
operands. -/
theorem Crosswalk.agree_of_sameContent {cw cw' : Crosswalk} (h : SameContent cw.dump cw'.dump)
    (hd : distinct cw.dump = true) (hd' : distinct cw'.dump = true) (ho : cw.SameOperands cw') :
    List.Forall₂ Control.Agree cw.controls cw'.controls := by
  obtain ⟨hlen, hsame⟩ := List.forall₂_iff_get.mp (Crosswalk.controls_of_sameContent h hd hd')
  refine List.forall₂_iff_get.mpr ⟨hlen, fun i hi hi' => ?_⟩
  have hc := List.get_mem cw.controls ⟨i, hi⟩
  have hc' := List.get_mem cw'.controls ⟨i, hi'⟩
  obtain ⟨hdump, hscope, hcondition⟩ := Crosswalk.distinct_parts hd hc
  obtain ⟨hdump', hscope', hcondition'⟩ := Crosswalk.distinct_parts hd' hc'
  obtain ⟨hid, hfilter, hcond, hempty, hsensitive⟩ :=
    Control.parts_of_sameContent (hsame i hi hi') hdump hdump'
  obtain ⟨hoScope, hoCondition⟩ := (List.forall₂_iff_get.mp ho).2 i hi hi'
  exact ⟨hid, hempty, hsensitive,
    congrFun (EventFilter.matches_of_sameContent hfilter hscope hscope' hoScope),
    fun idx pos ev => Condition.holds_of_sameContent idx pos ev hcond hcondition hcondition'
      hoCondition⟩

/-- **Crosswalks of one content compare with equal operands**, where content tells operands apart. -/
theorem Crosswalk.sameOperands_of_told (hP : Told P) {cw cw' : Crosswalk}
    (h : SameContent cw.dump cw'.dump) (hd : distinct cw.dump = true) (hd' : distinct cw'.dump = true)
    (ho : cw.OperandsIn P) (ho' : cw'.OperandsIn P) : cw.SameOperands cw' := by
  obtain ⟨hlen, hsame⟩ := List.forall₂_iff_get.mp (Crosswalk.controls_of_sameContent h hd hd')
  refine List.forall₂_iff_get.mpr ⟨hlen, fun i hi hi' => ?_⟩
  have hc := List.get_mem cw.controls ⟨i, hi⟩
  have hc' := List.get_mem cw'.controls ⟨i, hi'⟩
  obtain ⟨hdump, hscope, hcondition⟩ := Crosswalk.distinct_parts hd hc
  obtain ⟨hdump', hscope', hcondition'⟩ := Crosswalk.distinct_parts hd' hc'
  obtain ⟨-, hfilter, hcond, -, -⟩ := Control.parts_of_sameContent (hsame i hi hi') hdump hdump'
  obtain ⟨-, -, -, -, hequals, -⟩ := EventFilter.eq_of_sameContent hfilter hscope hscope'
  exact ⟨hP _ _ (ho _ hc).1 (ho' _ hc').1 hequals,
    Condition.sameOperands_of_told hP hcond hcondition hcondition' (ho _ hc).2 (ho' _ hc').2⟩

/-- Controls that ask for the same make the same ids completeness-sensitive. -/
theorem Crosswalk.sensitive_of_agree {cw cw' : Crosswalk}
    (h : List.Forall₂ Control.Agree cw.controls cw'.controls) : cw.sensitive = cw'.sensitive := by
  rw [Crosswalk.sensitive, Crosswalk.sensitive]
  generalize cw.controls = cs at h
  generalize cw'.controls = ds at h
  induction h with
  | nil => rfl
  | @cons c d cs ds hcd _ ih =>
      rw [List.filter_cons, List.filter_cons, hcd.sensitive]
      split
      · rw [List.map_cons, List.map_cons, hcd.id, ih]
      · exact ih

/-- **Controls that ask for the same get the same verdicts.** -/
theorem Crosswalk.verdicts_of_agree {cw cw' : Crosswalk}
    (h : List.Forall₂ Control.Agree cw.controls cw'.controls) {dicts : List Val}
    {cr cr' : CrosswalkResult} (hcr : cw.evaluate dicts = .ok cr) (hcr' : cw'.evaluate dicts = .ok cr') :
    cr.controls.map ControlResult.verdict = cr'.controls.map ControlResult.verdict := by
  obtain ⟨rs, -, hrs, -, rfl⟩ := Crosswalk.evaluate_eq_ok hcr
  obtain ⟨rs', -, hrs', -, rfl⟩ := Crosswalk.evaluate_eq_ok hcr'
  obtain ⟨idx, gaps, results, hidx, hgaps, hresults, rfl⟩ := Crosswalk.controlResults_eq_ok hrs
  obtain ⟨idx', gaps', results', hidx', hgaps', hresults', rfl⟩ := Crosswalk.controlResults_eq_ok hrs'
  -- index and gaps are made of the events alone
  obtain rfl : idx = idx' := Except.ok.inj (hidx.symm.trans hidx')
  obtain rfl : gaps = gaps' := Except.ok.inj (hgaps.symm.trans hgaps')
  dsimp only
  rw [Crosswalk.sensitive_of_agree h, List.map_map, List.map_map]
  clear hrs hrs'
  generalize cw.controls = cs at h hresults
  generalize cw'.controls = ds at h hresults'
  -- control by control, side by side
  induction h generalizing results results' with
  | nil =>
      cases hresults
      cases hresults'
      rfl
  | cons hcd _ ih =>
      cases hresults with
      | cons hr hresults =>
          cases hresults' with
          | cons hr' hresults' =>
              rw [List.map_cons, List.map_cons, ih _ _ hresults hresults']
              exact congrArg (· :: _) (ControlResult.verdict_override (hcd.verdict hr hr') gaps _)

/-- The pin determines the verdicts of the crosswalks with operands from a set of values: two of them
with one content hash evaluate alike over every list of events where both evaluations return. The
bytes that are hashed do not collide. -/
def PinDetermines (P : Val → Prop) : Prop :=
  ∀ cw cw' : Crosswalk, cw.OperandsIn P → cw'.OperandsIn P → distinct cw.dump = true →
    distinct cw'.dump = true → ∀ pin a b, canonicalBytes cw.dump = .ok a →
    canonicalBytes cw'.dump = .ok b → CollisionFree [a, b] → crosswalkContentHash cw = .ok pin →
    crosswalkContentHash cw' = .ok pin → ∀ dicts cr cr', cw.evaluate dicts = .ok cr →
    cw'.evaluate dicts = .ok cr' →
      cr.controls.map ControlResult.verdict = cr'.controls.map ControlResult.verdict

/-- A content hash is that of the canonical bytes. -/
theorem contentHash_of_canonicalBytes {v : Val} {b : Bytes} (h : canonicalBytes v = .ok b) :
    contentHash v = .ok (lit "sha256:" ++ sha256Hex b) :=
  bind_eq_ok.mpr ⟨b, h, rfl⟩

/-- Without collisions one content hash is of the same bytes. -/
theorem bytes_eq_of_contentHash {v w : Val} {a b : Bytes} {pin : Str} (ha : canonicalBytes v = .ok a)
    (hb : canonicalBytes w = .ok b) (hfree : CollisionFree [a, b]) (hv : contentHash v = .ok pin)
    (hw : contentHash w = .ok pin) : a = b := by
  rw [contentHash_of_canonicalBytes ha, Except.ok.injEq] at hv
  rw [contentHash_of_canonicalBytes hb, Except.ok.injEq, ← hv, List.append_cancel_left_eq, sha256Hex,
    sha256Hex] at hw
  have hdigest : sha256 b = sha256 a := by
    have h := congrArg fromhex hw
    rwa [fromhex_hex, fromhex_hex, Option.some.injEq] at h
  exact hfree a (by simp) b (by simp) hdigest.symm

/-- **One pin and equal operands give the same verdicts**: of two crosswalks with one content hash
whose corresponding operands are equal, over every list of events where both evaluations return. -/
theorem Crosswalk.verdicts_of_pin {cw cw' : Crosswalk} (ho : cw.SameOperands cw')
    (hd : distinct cw.dump = true) (hd' : distinct cw'.dump = true) {pin : Str} {a b : Bytes}
    (ha : canonicalBytes cw.dump = .ok a) (hb : canonicalBytes cw'.dump = .ok b)
    (hfree : CollisionFree [a, b]) (hpin : crosswalkContentHash cw = .ok pin)
    (hpin' : crosswalkContentHash cw' = .ok pin) {dicts : List Val} {cr cr' : CrosswalkResult}
    (hcr : cw.evaluate dicts = .ok cr) (hcr' : cw'.evaluate dicts = .ok cr') :
    cr.controls.map ControlResult.verdict = cr'.controls.map ControlResult.verdict := by
  obtain rfl := bytes_eq_of_contentHash ha hb hfree hpin hpin'
  have hsame := (sameContent_iff ha).mpr hb
  exact Crosswalk.verdicts_of_agree (Crosswalk.agree_of_sameContent hsame hd hd' ho) hcr hcr'

/-- **Operands that are told apart by their content** are enough. -/
theorem pinDetermines_of_told (hP : Told P) : PinDetermines P := by
  intro cw cw' ho ho' hd hd' pin a b ha hb hfree hpin hpin' dicts cr cr' hcr hcr'
  have hsame : SameContent cw.dump cw'.dump :=
    (sameContent_iff ha).mpr (bytes_eq_of_contentHash ha hb hfree hpin hpin' ▸ hb)
  exact Crosswalk.verdicts_of_pin (Crosswalk.sameOperands_of_told hP hsame hd hd' ho ho') hd hd' ha hb
    hfree hpin hpin' hcr hcr'

/-! ## A comparison with an operand -/

/-- A control that compares the amount of each payment with an operand. -/
def amountControl (operand : Val) : Control where
  id := lit "amounts"
  title := lit "Amounts"
  requirement := lit "As agreed."
  citation := [(lit "instrument", .str (lit "internal policy"))]
  condition := .mk (lit "field") (some (lit "attributes.amount")) (some (lit "eq")) operand none none []

/-- A crosswalk of that control. -/
def amountCrosswalk (operand : Val) : Crosswalk where
  id := lit "payments"
  title := lit "Payments"
  version := lit "1"
  source := lit "internal policy"
  reviewedAsOf := lit "2026-01-01"
  controls := [amountControl operand]

/-- A payment of an amount. -/
def amountRecord (amount : Val) : Val := paymentRecord amount "evt_1" "sha256:00"

/-- Operands of one content give dumps of one content. -/
theorem sameContent_amountCrosswalk {v w : Val} (h : SameContent v w) :
    SameContent (amountCrosswalk v).dump (amountCrosswalk w).dump := by
  by_cases hv : v = .null
  · rw [hv] at h ⊢
    rw [eq_null_of_sameContent h]
    rfl
  · have hw : w ≠ .null := fun hw => hv (eq_null_of_sameContent (hw ▸ h.symm))
    rw [SameContent] at h ⊢
    simp [amountCrosswalk, amountControl, Crosswalk.dump, Control.dump, EventFilter.dump, Condition.dump,
      Condition.dumpList, ifSet, hv, hw, strip, stripItems, stripList, Json.sorted, Json.sortedItems,
      Json.sortedList, strip_jsonMode, h, strings]

/-- The crosswalk has the keys of its operand. -/
theorem distinct_amountCrosswalk {v : Val} (h : distinct v = true) :
    distinct (amountCrosswalk v).dump = true := by
  have hjson := distinct_jsonMode h
  by_cases hv : v = .null
  · subst hv
    decide
  · simp +decide [amountCrosswalk, amountControl, Crosswalk.dump, Control.dump, EventFilter.dump,
      Condition.dump, Condition.dumpList, ifSet, hv, strings, distinct, distinctItems, distinctList,
      hjson, jsonMode,
      jsonModeItems]

/-- It is pinned where the operand has canonical bytes. -/
theorem exists_canonicalBytes_amountCrosswalk {v : Val} (h : ∃ b, canonicalBytes v = .ok b) :
    ∃ b, canonicalBytes (amountCrosswalk v).dump = .ok b := by
  rw [exists_canonicalBytes_iff] at h ⊢
  by_cases hv : v = .null
  · subst hv
    simp [amountCrosswalk, amountControl, Crosswalk.dump, Control.dump, EventFilter.dump, Condition.dump,
      Condition.dumpList, ifSet, strings, strip, stripItems, stripList, Canonical.Encodable,
      EncodableItems, EncodableList, jsonMode, jsonModeItems, EmptyScopePolicy.value]
  · simp [amountCrosswalk, amountControl, Crosswalk.dump, Control.dump, EventFilter.dump, Condition.dump,
      Condition.dumpList, ifSet, hv, strings, strip, stripItems, stripList, Canonical.Encodable,
      EncodableItems, EncodableList, jsonMode, jsonModeItems, EmptyScopePolicy.value, strip_jsonMode, h]

/-- Whether a payment is as agreed. -/
theorem status_amountControl (v w : Val) (byId : List (Val × Val)) :
    ∃ r, (amountControl w).evaluate { events := [amountRecord v], byId } = .ok r ∧
      r.status = if v.eq w then .satisfied else .notSatisfied := by
  have hholds : (amountControl w).condition.holds { events := [amountRecord v], byId } 0
      (amountRecord v) = .ok (v.eq w) := rfl
  have hscope : (amountControl w).inScope [amountRecord v] = [(amountRecord v, 0)] := rfl
  rw [Control.evaluate, hscope]
  dsimp only
  rw [Control.evaluateScope]
  cases heq : v.eq w with
  | true =>
      have hpassed : select (fun e : Val × Nat => (amountControl w).condition.holds
          { events := [amountRecord v], byId } e.2 e.1) [(amountRecord v, 0)]
          = .ok [(amountRecord v, 0)] := by
        rw [select, hholds, heq]
        rfl
      rw [hpassed]
      exact ⟨_, rfl, rfl⟩
  | false =>
      have hpassed : select (fun e : Val × Nat => (amountControl w).condition.holds
          { events := [amountRecord v], byId } e.2 e.1) [(amountRecord v, 0)] = .ok [] := by
        rw [select, hholds, heq]
        rfl
      rw [hpassed]
      exact ⟨_, rfl, rfl⟩

/-- The crosswalk evaluates over a payment. -/
theorem evaluate_amountCrosswalk (v : Val) {w : Val} (h : ∃ b, canonicalBytes w = .ok b) :
    ∃ cr, (amountCrosswalk w).evaluate [amountRecord v] = .ok cr ∧
      cr.controls.map (·.status) = [if v.eq w then .satisfied else .notSatisfied] := by
  have hinit : Index.init [amountRecord v]
      = .ok { events := [amountRecord v], byId := [(.str (lit "evt_1"), amountRecord v)] } := rfl
  have hgaps : gapsOf [amountRecord v] = .ok { markers := [], dropped := 0, ids := [] } := rfl
  obtain ⟨r, hr, hstatus⟩ := status_amountControl v w [(.str (lit "evt_1"), amountRecord v)]
  have hresults : (amountCrosswalk w).controls.mapM
      (·.evaluate { events := [amountRecord v], byId := [(.str (lit "evt_1"), amountRecord v)] })
      = .ok [r] := mapM_eq_ok.mpr (.cons hr .nil)
  have hoverride : r.override { markers := [], dropped := 0, ids := [] } (amountCrosswalk w).sensitive
      = r := if_neg fun h => h.1 rfl
  obtain ⟨hash, hhash⟩ : ∃ hash, crosswalkContentHash (amountCrosswalk w) = .ok hash :=
    exists_contentHash_iff.mpr
      (exists_canonicalBytes_iff.mp (exists_canonicalBytes_amountCrosswalk h))
  refine ⟨_, bind_eq_ok.mpr ⟨_, bind_eq_ok.mpr ⟨_, hinit, bind_eq_ok.mpr ⟨_, hgaps, bind_eq_ok.mpr
    ⟨_, hresults, rfl⟩⟩⟩, bind_eq_ok.mpr ⟨_, hhash, rfl⟩⟩, ?_⟩
  rw [List.map_singleton, hoverride, List.map_singleton, hstatus]

/-! ## What the pin determines -/

/-- Items have a NaN where one of their values has. -/
theorem hasNanItems_eq_any (kvs : Items) : hasNanItems kvs = kvs.any fun kv => hasNan kv.2 := by
  induction kvs with
  | nil => rfl
  | cons kv kvs ih => rw [hasNanItems, List.any_cons, ih]

mutual
/-- What has canonical bytes has no NaN. -/
theorem hasNan_of_clean : ∀ {v w : Val}, clean v = .ok w → (key v).hasNan = false
  | .null, _, _ | .bool _, _, _ | .int _, _, _ | .str _, _, _ => rfl
  | .float _, _, h => by rw [clean] at h; cases h
  | .list vs, _, h => by
      rw [clean] at h
      obtain ⟨ws, hws, -⟩ := bind_eq_ok.mp h
      exact hasNanList_of_clean hws
  | .tuple vs, _, h => by
      rw [clean] at h
      obtain ⟨ws, hws, -⟩ := bind_eq_ok.mp h
      exact hasNanList_of_clean hws
  | .dict kvs, _, h => by
      obtain ⟨out, hout, -⟩ := cleanItems_of_clean h
      rw [key, hasNan, hasNanItems_eq_any, (sortKeys_perm _).any_eq, ← hasNanItems_eq_any]
      exact hasNanItems_of_clean hout

/-- The same of lists. -/
theorem hasNanList_of_clean : ∀ {vs ws : List Val}, cleanList vs = .ok ws →
    hasNanList (keyList vs) = false
  | [], _, _ => rfl
  | v :: vs, _, h => by
      obtain ⟨w, us, hw, hus, -⟩ := cleanList_cons_ok h
      rw [keyList, hasNanList, hasNan_of_clean hw, hasNanList_of_clean hus]
      rfl

/-- The same of dictionaries. -/
theorem hasNanItems_of_clean : ∀ {kvs out : Items}, cleanItems kvs = .ok out →
    hasNanItems (keyItems kvs) = false
  | [], _, _ => rfl
  | (k, v) :: kvs, _, h => by
      obtain ⟨rest, hrest, hv⟩ := cleanItems_cons_ok h
      rw [keyItems, hasNanItems, hasNanItems_of_clean hrest, Bool.or_false]
      rcases hv with ⟨rfl, -⟩ | ⟨-, w, hw, -⟩
      · rfl
      · exact hasNan_of_clean hw
end

/-- Values with canonical bytes are equal where their keys are. -/
theorem eq_iff_key_eq {v w : Val} (h : ∃ b, canonicalBytes v = .ok b) :
    v.eq w = true ↔ key v = key w := by
  obtain ⟨b, hb⟩ := h
  obtain ⟨c, hc, -⟩ := canonicalBytes_eq_ok.mp hb
  rw [Val.eq, hasNan_of_clean hc, Bool.not_false, Bool.and_true, decide_eq_true_eq]

/-- **What the pin of a crosswalk determines.** Among the crosswalks with operands from a set of values
that have canonical bytes, the pin determines the verdicts if and only if operands with the same
canonical bytes are equal. -/
theorem evaluate_determined_iff
    (hP : ∀ v, P v → distinct v = true ∧ ∃ b, canonicalBytes v = .ok b) (hempty : P (.dict [])) :
    PinDetermines P ↔
      ∀ v w, P v → P w → canonicalBytes v = canonicalBytes w → v.eq w = true := by
  constructor
  · intro h v w hv hw hbytes
    obtain ⟨b, hb⟩ := (hP v hv).2
    have hsame : SameContent (amountCrosswalk v).dump (amountCrosswalk w).dump :=
      sameContent_amountCrosswalk ((sameContent_iff hb).mpr (hbytes ▸ hb))
    obtain ⟨a, ha⟩ := exists_canonicalBytes_amountCrosswalk (hP v hv).2
    have ha' := (sameContent_iff ha).mp hsame
    have hoperands : ∀ u, P u → (amountCrosswalk u).OperandsIn P := by
      intro u hu c hc
      rw [List.mem_singleton.mp hc]
      exact ⟨hempty, hu, fun f hf => (nomatch hf), trivial⟩
    obtain ⟨cr, hcr, hstatus⟩ := evaluate_amountCrosswalk v (hP v hv).2
    obtain ⟨cr', hcr', hstatus'⟩ := evaluate_amountCrosswalk v (hP w hw).2
    have hverdicts := h _ _ (hoperands v hv) (hoperands w hw) (distinct_amountCrosswalk (hP v hv).1)
      (distinct_amountCrosswalk (hP w hw).1) _ a a ha ha'
      (collisionFree_of_forall_eq (s := a) fun t ht => by simpa using ht)
      (contentHash_of_canonicalBytes ha) (contentHash_of_canonicalBytes ha') _ _ _ hcr hcr'
    -- the payment of the one operand is as agreed under the other
    have hstatuses := congrArg (List.map fun verdict => verdict.2.1) hverdicts
    rw [List.map_map, List.map_map] at hstatuses
    rw [if_pos ((eq_iff_key_eq (hP v hv).2).mpr rfl)] at hstatus
    have hone := hstatus.symm.trans (hstatuses.trans hstatus')
    by_contra hne
    rw [if_neg hne] at hone
    cases hone
  · intro h
    refine pinDetermines_of_told fun v w hv hw hsame => (eq_iff_key_eq (hP v hv).2).mp (h v w hv hw ?_)
    obtain ⟨b, hb⟩ := (hP v hv).2
    rw [hb, (sameContent_iff hb).mp hsame]

/-! ## Operands without null entries and tuples -/

mutual
/-- A value without null entries and tuples is its own content. -/
theorem strip_of_nullFree : ∀ {v : Val}, nullFree v = true → jsonMode v = v → strip v = v
  | .null, _, _ | .bool _, _, _ | .int _, _, _ | .float _, _, _ | .str _, _, _ => rfl
  | .tuple _, _, h => by cases h
  | .list vs, hnull, h => by
      rw [jsonMode, list.injEq] at h
      rw [strip, stripList_of_nullFree hnull h]
  | .dict kvs, hnull, h => by
      rw [jsonMode, dict.injEq] at h
      rw [strip, stripItems_of_nullFree hnull h]

/-- The same of lists. -/
theorem stripList_of_nullFree : ∀ {vs : List Val}, nullFreeList vs = true → jsonModeList vs = vs →
    stripList vs = vs
  | [], _, _ => rfl
  | v :: vs, hnull, h => by
      rw [nullFreeList, Bool.and_eq_true] at hnull
      rw [jsonModeList, List.cons.injEq] at h
      rw [stripList, strip_of_nullFree hnull.1 h.1, stripList_of_nullFree hnull.2 h.2]

/-- The same of dictionaries. -/
theorem stripItems_of_nullFree : ∀ {kvs : Items}, nullFreeItems kvs = true →
    jsonModeItems kvs = kvs → stripItems kvs = kvs
  | [], _, _ => rfl
  | (k, v) :: kvs, hnull, h => by
      rw [nullFreeItems, Bool.and_eq_true, Bool.and_eq_true, decide_eq_true_eq] at hnull
      rw [jsonModeItems, List.cons.injEq, Prod.mk.injEq] at h
      rw [stripItems, if_neg hnull.1.1, strip_of_nullFree hnull.1.2 h.1.2,
        stripItems_of_nullFree hnull.2 h.2]
end

/-- An operand that the canonical bytes show as it is: it has distinct keys, no null entries, no tuples
and no floats. -/
def Shown (v : Val) : Prop :=
  distinct v = true ∧ nullFree v = true ∧ jsonMode v = v ∧ ∃ b, canonicalBytes v = .ok b

/-- **Operands that are shown are told apart by their canonical bytes.** -/
theorem eq_of_shown {v w : Val} (hv : Shown v) (hw : Shown w)
    (h : canonicalBytes v = canonicalBytes w) : v.eq w = true := by
  obtain ⟨-, hnull, hjson, b, hb⟩ := hv
  obtain ⟨-, hnull', hjson', -⟩ := hw
  have hsame := (sameContent_iff hb).mpr (h ▸ hb)
  rw [SameContent, strip_of_nullFree hnull hjson, strip_of_nullFree hnull' hjson'] at hsame
  rw [eq_iff_key_eq ⟨b, hb⟩, ← key_sorted v, hsame, key_sorted]

/-- **Among crosswalks with operands that are shown** the pin determines the verdicts. -/
theorem pinDetermines_shown : PinDetermines Shown := by
  have hempty : canonicalBytes (.dict []) = .ok ((utf8 (lit "\x7b\x7d")).getD []) := by decide +kernel
  exact (evaluate_determined_iff (fun _ h => ⟨h.1, h.2.2.2⟩) ⟨rfl, rfl, rfl, _, hempty⟩).mpr
    fun _ _ hv hw => eq_of_shown hv hw

/-! ## A scope with a null entry -/

/-- A crosswalk whose one control asks for the events with given attributes to be committed. -/
def scopedCrosswalk (attributes : Items) : Crosswalk where
  id := lit "payments"
  title := lit "Payments"
  version := lit "1"
  source := lit "internal policy"
  reviewedAsOf := lit "2026-01-01"
  controls := [{ id := lit "records", title := lit "Records", requirement := lit "Recorded.",
                 citation := [(lit "instrument", .str (lit "internal policy"))],
                 scope := { attributeEquals := attributes },
                 condition := .mk (lit "committed") none none .null none none [] }]

/-- **One pin, two verdicts**: a scope that asks for events without an amount has the pin of one that
asks for any events. -/
theorem pin_not_determines : ∃ pin b cr cr',
    canonicalBytes (scopedCrosswalk [(lit "attributes.amount", .null)]).dump = .ok b ∧
      canonicalBytes (scopedCrosswalk []).dump = .ok b ∧
      crosswalkContentHash (scopedCrosswalk [(lit "attributes.amount", .null)]) = .ok pin ∧
      crosswalkContentHash (scopedCrosswalk []) = .ok pin ∧
      (scopedCrosswalk [(lit "attributes.amount", .null)]).evaluate [amountRecord (.int 5)] = .ok cr ∧
      (scopedCrosswalk []).evaluate [amountRecord (.int 5)] = .ok cr' ∧
      cr.controls.map (·.status) = [.insufficientEvidence] ∧
      cr'.controls.map (·.status) = [.satisfied] := by
  obtain ⟨b, hb⟩ : ∃ b, canonicalBytes (scopedCrosswalk []).dump = .ok b := by
    rw [exists_canonicalBytes_iff]
    simp [scopedCrosswalk, Crosswalk.dump, Control.dump, EventFilter.dump, Condition.dump,
      Condition.dumpList, ifSet, strings, strip, stripItems, stripList, Canonical.Encodable,
      EncodableItems, EncodableList, jsonMode, jsonModeItems, EmptyScopePolicy.value]
  -- null operands are not written, so the two dumps have one content
  have hsame : SameContent (scopedCrosswalk []).dump
      (scopedCrosswalk [(lit "attributes.amount", .null)]).dump := by
    rw [SameContent]
    decide +kernel
  have hb' := (sameContent_iff hb).mp hsame
  -- what is evaluated is computed, each scope by itself
  have heval : ∀ attributes statuses, canonicalBytes (scopedCrosswalk attributes).dump = .ok b →
      ((scopedCrosswalk attributes).controlResults [amountRecord (.int 5)]).toOption.map
        (·.map (·.status)) = some statuses →
      ∃ cr, (scopedCrosswalk attributes).evaluate [amountRecord (.int 5)] = .ok cr ∧
        cr.controls.map (·.status) = statuses := by
    intro attributes statuses hbytes hstatuses
    obtain ⟨rs, hrs, hmap⟩ := Option.map_eq_some_iff.mp hstatuses
    exact ⟨_, bind_eq_ok.mpr ⟨rs, eq_ok_of_toOption hrs, bind_eq_ok.mpr
      ⟨_, contentHash_of_canonicalBytes hbytes, rfl⟩⟩, hmap⟩
  obtain ⟨cr, hcr, hstatus⟩ := heval [(lit "attributes.amount", .null)] [.insufficientEvidence] hb'
    (by decide +kernel)
  obtain ⟨cr', hcr', hstatus'⟩ := heval [] [.satisfied] hb (by decide +kernel)
  exact ⟨_, b, cr, cr', hb', hb, contentHash_of_canonicalBytes hb', contentHash_of_canonicalBytes hb,
    hcr, hcr', hstatus, hstatus'⟩

end OpenWright
