import OpenWright.Python.JsonEq

/-! # Validated models

What a pydantic model does to a dictionary: `model_validate` checks and converts the declared fields
and lets the others through, `model_dump(mode="json", exclude_none=True)` gives a dictionary back.
A validator is the two in a row: it returns the dump of the validated value, or nothing where the
validation fails.

* **`lookup_model`** — a dump binds a declared field to what the field is read as, and nothing but an
  optional field is missing from it. -/

namespace OpenWright.Python.Model

open Val

/-! ## Validators -/

/-- Validation followed by the JSON-mode dump; `none` for a `ValidationError`. -/
abbrev Validator := Val → Option Val

/-- A `str` field. -/
def str : Validator
  | .str s => some (.str s)
  | _ => none

/-- An `Enum` field of strings. -/
def enum (members : List Str) : Validator
  | .str s => if s ∈ members then some (.str s) else none
  | _ => none

/-- Digits between which single underscores may stand, read into `acc`. -/
def readAsciiDigits (acc : Nat) (afterDigit : Bool) : Str → Option Nat
  | [] => if afterDigit then some acc else none
  | c :: s =>
    if 48 ≤ c.val ∧ c.val < 58 then readAsciiDigits (10 * acc + (c.val - 48)) true s
    else if c = cp 95 ∧ afterDigit then readAsciiDigits acc false s
    else none

/-- The integer a string denotes: a decimal number, maybe with a fraction of zeros. -/
def readLaxInt (s : Str) : Option Int :=
  let s := ((s.dropWhile Val.isIntSpace).reverse.dropWhile Val.isIntSpace).reverse
  let whole := s.takeWhile (· ≠ cp 46)
  let fraction := s.dropWhile (· ≠ cp 46)
  -- a point must be followed by zeros only
  if fraction = [] ∨ (fraction.length ≥ 2 ∧ fraction.tail.all (· = cp 48)) then
    match whole with
    | [] => none
    | c :: t =>
      if c = cp 45 then (readAsciiDigits 0 false t).map fun n => -(n : Int)
      else if c = cp 43 then (readAsciiDigits 0 false t).map fun n => (n : Int)
      else (readAsciiDigits 0 false (c :: t)).map fun n => (n : Int)
  else none

/-- An `int` field in lax mode: a float has to be an integer of 64 bits. -/
def int : Validator
  | .int z => some (.int z)
  | .bool b => some (.int b.toInt)
  | .float (.finite q) =>
    if q.den = 1 ∧ -2 ^ 63 ≤ q.num ∧ q.num < 2 ^ 63 then some (.int q.num) else none
  | .str s => (readLaxInt s).map .int
  | _ => none

/-- A `Dict[str, Any]` field. -/
def anyDict : Validator
  | .dict kvs => some (jsonMode (.dict kvs))
  | _ => none

/-- A `Dict[str, str]` field. -/
def strDict : Validator
  | .dict kvs => if kvs.all fun kv => (str kv.2).isSome then some (.dict kvs) else none
  | _ => none

/-- A field validator that runs before and may reject. -/
def guarded (rejects : Val → Bool) (inner : Validator) : Validator :=
  fun v => if rejects v then none else inner v

/-- What a field is where the input does not bind it. -/
inductive Presence
  /-- The validation fails. -/
  | required
  /-- It is `None`, which the input may say too. -/
  | optional
  /-- It has a default, given by its dump. -/
  | default (dump : Val)

/-- A declared field. -/
structure Field where
  name : Str
  presence : Presence
  validate : Validator

/-- The dump of a field, `some none` where it is `None`. -/
def Field.read (f : Field) (kvs : Items) : Option (Option Val) :=
  match kvs.lookup f.name, f.presence with
  | none, .required => none
  | none, .optional => some none
  | none, .default d => some (some d)
  | some .null, .optional => some none
  | some v, _ => (f.validate v).map some

/-- The dump of the declared fields. -/
def readFields (kvs : Items) : List Field → Option Items
  | [] => some []
  | f :: fields =>
    match f.read kvs, readFields kvs fields with
    | some (some v), some rest => some ((f.name, v) :: rest)
    | some none, some rest => some rest
    | _, _ => none

/-- The dump of the other entries: `extra="allow"`. -/
def extras (names : List Str) (kvs : Items) : Items :=
  (kvs.filter fun kv => kv.1 ∉ names ∧ kv.2 ≠ .null).map fun kv => (kv.1, jsonMode kv.2)

/-- A model with the given fields. -/
def model (fields : List Field) : Validator
  | .dict kvs => (readFields kvs fields).map fun own => .dict (own ++ extras (fields.map (·.name)) kvs)
  | _ => none

/-! ## What is dumped -/

/-- A value that a field may be dumped as. -/
def Field.Yields (f : Field) (w : Val) : Prop := (∃ v, f.validate v = some w) ∨ f.presence = .default w

/-- Only an optional field is left out of a dump; any other is dumped as a value it may have. -/
theorem Field.read_cases {f : Field} {kvs : Items} {o : Option Val} (h : f.read kvs = some o) :
    (o = none → f.presence = .optional) ∧ ∀ w, o = some w → f.Yields w := by
  rw [read.eq_def] at h
  split at h
  · cases h
  · rename_i hpresence
    obtain rfl := Option.some.inj h
    exact ⟨fun _ => hpresence, fun w hw => nomatch hw⟩
  · rename_i d _ hpresence
    obtain rfl := Option.some.inj h
    exact ⟨fun hnone => (nomatch hnone), fun w hw => Or.inr (by rw [hpresence, Option.some.inj hw])⟩
  · rename_i hpresence
    obtain rfl := Option.some.inj h
    exact ⟨fun _ => hpresence, fun w hw => nomatch hw⟩
  · obtain ⟨w, hw, rfl⟩ := Option.map_eq_some_iff.mp h
    exact ⟨fun hnone => (nomatch hnone), fun w' hw' => Or.inl ⟨_, hw.trans hw'⟩⟩

/-- The dump of the declared fields. -/
theorem readFields_cons {f : Field} {fields : List Field} {kvs own : Items}
    (h : readFields kvs (f :: fields) = some own) :
    ∃ o rest, f.read kvs = some o ∧ readFields kvs fields = some rest ∧
      own = (o.map fun v => (f.name, v)).toList ++ rest := by
  rw [readFields] at h
  split at h
  · rename_i v rest hread hrest
    exact ⟨some v, rest, hread, hrest, (Option.some.inj h).symm⟩
  · rename_i rest hread hrest
    exact ⟨none, rest, hread, hrest, (Option.some.inj h).symm⟩
  · cases h

/-- The keys of the dump are names of the fields, in order. -/
theorem keys_readFields_sublist {kvs own : Items} : ∀ {fields : List Field},
    readFields kvs fields = some own → (own.map Prod.fst).Sublist (fields.map (·.name))
  | [], h => by
      obtain rfl := Option.some.inj h
      exact List.Sublist.refl _
  | f :: fields, h => by
      obtain ⟨o, rest, -, hrest, rfl⟩ := readFields_cons h
      have ih := keys_readFields_sublist hrest
      cases o with
      | none => exact ih.cons _
      | some v => exact ih.cons_cons _

/-- The dump binds each field to what it is read as. -/
theorem lookup_readFields {kvs own : Items} {f : Field} : ∀ {fields : List Field},
    readFields kvs fields = some own → (fields.map (·.name)).Nodup → f ∈ fields →
      f.read kvs = some (own.lookup f.name)
  | [], _, _, hf => absurd hf List.not_mem_nil
  | g :: fields, h, hnames, hf => by
      obtain ⟨o, rest, hread, hrest, rfl⟩ := readFields_cons h
      rw [List.map_cons, List.nodup_cons] at hnames
      rcases List.mem_cons.mp hf with rfl | hf
      · have hnone : rest.lookup f.name = none := by
          refine List.lookup_eq_none_iff.mpr fun kv hkv => bne_iff_ne.mpr fun heq => hnames.1 ?_
          rw [heq]
          exact (keys_readFields_sublist hrest).mem (List.mem_map_of_mem hkv)
        rw [hread, List.lookup_append, hnone, Option.or_none]
        cases o with
        | none => rfl
        | some v => simp
      · have hne : f.name ≠ g.name := fun heq => hnames.1 (heq ▸ List.mem_map_of_mem hf)
        rw [lookup_readFields hrest hnames.2 hf, List.lookup_append]
        cases o with
        | none => rfl
        | some v => simp [List.lookup_cons, beq_false_of_ne hne]

/-- A dump is a dictionary of the declared fields and the others. -/
theorem model_eq_some {fields : List Field} {v w : Val} (h : model fields v = some w) :
    ∃ kvs own, v = .dict kvs ∧ readFields kvs fields = some own ∧
      w = .dict (own ++ extras (fields.map (·.name)) kvs) := by
  cases v with
  | dict kvs =>
      rw [model, Option.map_eq_some_iff] at h
      obtain ⟨own, hown, rfl⟩ := h
      exact ⟨kvs, own, rfl, hown, rfl⟩
  | _ => cases h

/-- **What a dump binds a declared field to**: nothing if the field is optional and unset, and else a
value the field may have. -/
theorem lookup_model {fields : List Field} {v : Val} {out : Items} (h : model fields v = some (.dict out))
    (hnames : (fields.map (·.name)).Nodup) {f : Field} (hf : f ∈ fields) :
    (out.lookup f.name = none → f.presence = .optional) ∧
      ∀ w, out.lookup f.name = some w → f.Yields w := by
  obtain ⟨kvs, own, -, hown, heq⟩ := model_eq_some h
  obtain rfl := Val.dict.inj heq
  have hextras : (extras (fields.map (·.name)) kvs).lookup f.name = none := by
    refine List.lookup_eq_none_iff.mpr fun kv hkv => bne_iff_ne.mpr fun hname => ?_
    obtain ⟨lv, hlv, rfl⟩ := List.mem_map.mp hkv
    have hother := of_decide_eq_true (List.mem_filter.mp hlv).2
    exact hother.1 (hname ▸ List.mem_map_of_mem hf)
  rw [List.lookup_append, hextras, Option.or_none]
  exact Field.read_cases (lookup_readFields hown hnames hf)

end OpenWright.Python.Model
