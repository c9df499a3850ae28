import OpenWright.Python.Model

/-! # Instances of validated models

An instance is given by what its declared fields are given, in their order, and by its other entries.

* **`model_present`** — an instance validates where each of its fields does, and is dumped field by
  field. -/

namespace OpenWright.Python.Model

open Val

/-- The entries of the fields that are given a value. -/
def present : List Field → List (Option Val) → Items
  | f :: fields, some v :: vs => (f.name, v) :: present fields vs
  | _ :: fields, none :: vs => present fields vs
  | _, _ => []

/-- What a field is dumped as: the value that it is given, or its default. -/
def Field.Dumps (f : Field) : Option Val → Option Val → Prop
  | some v, some w => v ≠ .null ∧ f.validate v = some w
  | none, some w => f.presence = .default w
  | none, none => f.presence = .optional
  | _, _ => False

/-- The fields are dumped one by one. -/
def Dumps : List Field → List (Option Val) → List (Option Val) → Prop
  | [], [], [] => True
  | f :: fields, v :: vs, w :: ws => f.Dumps v w ∧ Dumps fields vs ws
  | _, _, _ => False

/-- A dictionary binds the fields to what they are given. -/
def Binds (kvs : Items) : List Field → List (Option Val) → Prop
  | f :: fields, v :: vs => kvs.lookup f.name = v ∧ Binds kvs fields vs
  | _, _ => True

variable {fields : List Field} {f : Field} {vs ws : List (Option Val)} {kvs more : Items}

/-- An entry under another name binds no field. -/
theorem Binds.cons (h : Binds kvs fields vs) {k : Str} (hk : ∀ f ∈ fields, f.name ≠ k) (v : Val) :
    Binds ((k, v) :: kvs) fields vs := by
  induction fields generalizing vs with
  | nil => exact trivial
  | cons f fields ih =>
      cases vs with
      | nil => exact trivial
      | cons u vs =>
          refine ⟨?_, ih h.2 fun g hg => hk g (List.mem_cons_of_mem _ hg)⟩
          rw [List.lookup_cons, beq_false_of_ne (hk f List.mem_cons_self)]
          exact h.1

/-- What a field is bound to, by its index. -/
theorem Binds.lookup (h : Binds kvs fields vs) {i : Nat} {v : Option Val} (hf : fields[i]? = some f)
    (hv : vs[i]? = some v) : kvs.lookup f.name = v := by
  induction fields generalizing vs i with
  | nil => cases hf
  | cons g fields ih =>
      cases vs with
      | nil => cases hv
      | cons u vs =>
          cases i with
          | zero =>
              cases hf
              cases hv
              exact h.1
          | succ i => exact ih h.2 hf hv

/-- The keys of the entries are names of the fields. -/
theorem mem_names_of_mem_present {kv : Str × Val} (h : kv ∈ present fields vs) :
    kv.1 ∈ fields.map (·.name) := by
  induction fields generalizing vs with
  | nil => cases h
  | cons f fields ih =>
      rw [List.map_cons]
      cases vs with
      | nil => cases h
      | cons v vs =>
          cases v with
          | none => exact List.mem_cons_of_mem _ (ih h)
          | some v =>
              rcases List.mem_cons.mp h with rfl | h
              · exact List.mem_cons_self
              · exact List.mem_cons_of_mem _ (ih h)

/-- An instance binds its fields. -/
theorem binds_present (hnames : (fields.map (·.name)).Nodup) (hmore : ∀ f ∈ fields,
    more.lookup f.name = none) (vs : List (Option Val)) :
    Binds (present fields vs ++ more) fields vs := by
  induction fields generalizing vs with
  | nil => exact trivial
  | cons f fields ih =>
      rw [List.map_cons, List.nodup_cons] at hnames
      -- the names are told apart, so an entry binds its own field only
      have hne : ∀ g ∈ fields, g.name ≠ f.name := fun g hg heq =>
        hnames.1 (heq ▸ List.mem_map_of_mem hg)
      have ih := ih hnames.2 fun g hg => hmore g (List.mem_cons_of_mem _ hg)
      cases vs with
      | nil => exact trivial
      | cons v vs =>
          cases v with
          | some v =>
              rw [present, List.cons_append]
              exact ⟨List.lookup_cons_self, (ih vs).cons hne v⟩
          | none =>
              -- a field that is not set is bound nowhere
              refine ⟨List.lookup_eq_none_iff.mpr fun kv hkv => bne_iff_ne.mpr fun heq => ?_, ih vs⟩
              rw [present] at hkv
              rcases List.mem_append.mp hkv with hkv | hkv
              · exact hnames.1 (heq ▸ mem_names_of_mem_present hkv)
              · exact (bne_iff_ne.mp (List.lookup_eq_none_iff.mp
                  (hmore f List.mem_cons_self) kv hkv)) heq

/-- What an instance is given is found under the name of the field. -/
theorem lookup_present (hnames : (fields.map (·.name)).Nodup) {i : Nat} {v : Option Val}
    (hf : fields[i]? = some f) (hv : vs[i]? = some v) : (present fields vs).lookup f.name = v := by
  have hbinds := @binds_present fields [] hnames (fun _ _ => rfl) vs
  rw [List.append_nil] at hbinds
  exact hbinds.lookup hf hv

/-- The fields of an instance are read one by one. -/
theorem readFields_eq (h : Dumps fields vs ws) (hbinds : Binds kvs fields vs) :
    readFields kvs fields = some (present fields ws) := by
  induction fields generalizing vs ws with
  | nil =>
      match vs, ws, h with
      | [], [], _ => rfl
  | cons f fields ih =>
      match vs, ws, h with
      | v :: vs, w :: ws, ⟨hf, h⟩ =>
          have hread : f.read kvs = some w := by
            rw [Field.read, hbinds.1]
            match v, w, hf with
            | none, none, hf => rw [show f.presence = .optional from hf]
            | none, some w, hf => rw [show f.presence = .default w from hf]
            | some v, some w, ⟨hne, hv⟩ =>
                cases v with
                | null => exact absurd rfl hne
                | _ => simp only [hv, Option.map_some]
          rw [readFields, hread, ih h hbinds.2]
          cases w with
          | none => rfl
          | some w => rfl

/-- **An instance validates and is dumped field by field**; the other entries are dumped as they
are. -/
theorem model_present (hnames : (fields.map (·.name)).Nodup) (h : Dumps fields vs ws)
    (hmore : ∀ kv ∈ more, kv.1 ∉ fields.map (·.name) ∧ kv.2 ≠ .null) :
    model fields (.dict (present fields vs ++ more))
      = some (.dict (present fields ws ++ more.map fun kv => (kv.1, jsonMode kv.2))) := by
  have hfree : ∀ f ∈ fields, more.lookup f.name = none := fun f hf =>
    List.lookup_eq_none_iff.mpr fun kv hkv => bne_iff_ne.mpr fun heq =>
      (hmore kv hkv).1 (heq ▸ List.mem_map_of_mem hf)
  have hdeclared : (present fields vs).filter
      (fun kv => kv.1 ∉ fields.map (·.name) ∧ kv.2 ≠ .null) = [] :=
    List.filter_eq_nil_iff.mpr fun kv hkv hother =>
      (of_decide_eq_true hother).1 (mem_names_of_mem_present hkv)
  have hothers : more.filter (fun kv => kv.1 ∉ fields.map (·.name) ∧ kv.2 ≠ .null) = more :=
    List.filter_eq_self.mpr fun kv hkv => decide_eq_true (hmore kv hkv)
  rw [model, readFields_eq h (binds_present hnames hfree vs), Option.map_some, extras,
    List.filter_append, hdeclared, hothers, List.nil_append]

end OpenWright.Python.Model
