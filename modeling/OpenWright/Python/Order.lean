import OpenWright.Python.Value
import Mathlib.Data.Rat.Defs

/-! # Comparing and containing

The operators `<=`, `>=` and `in` on values. Both raise a `TypeError` where the types of the operands
do not go together.

* **`le_key`**, **`inside_congr`** — they tell no two equal values apart.
* **`exists_le_iff`**, **`exists_inside_iff`** — which operands go together. -/

namespace OpenWright.Python

/-- `x <= y` for floats. A NaN compares with nothing. -/
def PyFloat.le : PyFloat → PyFloat → Bool
  | .nan, _ => false
  | _, .nan => false
  | .inf true, _ => true
  | _, .inf false => true
  | .finite p, .finite q => p ≤ q
  | _, _ => false

namespace Val

/-- The number a value is, if it is one. Integers are compared with floats without rounding. -/
def number : Val → Option PyFloat
  | .bool b => some (.finite (b.toInt : Rat))
  | .int z => some (.finite (z : Rat))
  | .float x => some x
  | _ => none

mutual
/-- `a <= b`: numbers by their value, strings and sequences lexicographically. -/
def le : Val → Val → Except PyErr Bool
  | .str s, .str t => .ok (decide (s ≤ t))
  | .list as, .list bs => leList as bs
  | .tuple as, .tuple bs => leList as bs
  | a, b =>
    match number a, number b with
    | some x, some y => .ok (x.le y)
    | _, _ => .error { kind := .typeError }

/-- `le` of sequences: the first elements that are not equal decide. -/
def leList : List Val → List Val → Except PyErr Bool
  | [], _ => .ok true
  | _ :: _, [] => .ok false
  | a :: as, b :: bs => if a.eq b then leList as bs else le a b
end

/-- `a >= b`, the reflected comparison. -/
def ge (a b : Val) : Except PyErr Bool := le b a

/-- `v in c`: an element of a list or tuple, a part of a string, a key of a dictionary. -/
def inside (v : Val) : Val → Except PyErr Bool
  | .list vs => .ok (v.isIn vs)
  | .tuple vs => .ok (v.isIn vs)
  | .str t =>
    -- only a text can be a part of a text
    match v with
    | .str s => .ok (t.tails.any (s.isPrefixOf ·))
    | _ => .error { kind := .typeError }
  | .dict kvs =>
    -- looking up a key needs its hash
    if v.hashable then .ok (v.isIn (kvs.map fun kv => .str kv.1)) else .error { kind := .typeError }
  | _ => .error { kind := .typeError }

/-- A text is a part of every text that contains it. -/
example : inside (.str (lit "pro")) (.str (lit "approved")) = .ok true := by decide

/-- A list of numbers is compared as a sequence of numbers, whatever their types. -/
example : le (.list [.int 1, .bool true]) (.list [.float (.finite 1), .int 2]) = .ok true := by
  decide +kernel

/-! ## Equal values

Both operators read the keys of their operands only, as `==` does. -/

/-- The key of a number is the same number. -/
@[simp] theorem number_key (v : Val) : number (key v) = number v := by
  cases v with
  | float x =>
      cases x with
      | finite q =>
          rw [key]
          split
          · rename_i hq
            have hint : (q.num : Rat) = q := Rat.coe_int_num_of_den_eq_one hq
            rw [number, number, hint]
          · rfl
      | inf negative => rfl
      | nan => rfl
  | _ => rfl

mutual
/-- A key is its own key. -/
@[simp] theorem key_key : ∀ v : Val, key (key v) = key v
  | .null | .bool _ | .int _ | .str _ => rfl
  | .float (.finite q) => by
      rw [key]
      split
      · rfl
      · rename_i hq
        rw [key, if_neg hq]
  | .float (.inf _) | .float .nan => rfl
  | .list vs => by rw [key, key, keyList_keyList vs]
  | .tuple vs => by rw [key, key, keyList_keyList vs]
  | .dict kvs => by
      rw [key, key, keyItems_eq_map, ← sortKeys_map key, ← keyItems_eq_map, sortKeys_sortKeys,
        keyItems_keyItems kvs]

/-- The same of lists. -/
theorem keyList_keyList : ∀ vs : List Val, keyList (keyList vs) = keyList vs
  | [] => rfl
  | v :: vs => by rw [keyList, keyList, key_key v, keyList_keyList vs]

/-- The same of dictionaries. -/
theorem keyItems_keyItems : ∀ kvs : Items, keyItems (keyItems kvs) = keyItems kvs
  | [] => rfl
  | (k, v) :: kvs => by rw [keyItems, keyItems, key_key v, keyItems_keyItems kvs]
end

/-- The comparison of numbers, and of values that do not go together. -/
def leNumber (a b : Val) : Except PyErr Bool :=
  match number a, number b with
  | some x, some y => .ok (x.le y)
  | _, _ => .error { kind := .typeError }

/-- A number is compared as a number. -/
theorem le_eq_leNumber {a b : Val} (h : (number a).isSome ∨ (number b).isSome) :
    le a b = leNumber a b := by
  cases a <;> cases b <;> first | rfl | simp [number] at h

/-- Numbers are compared as their keys. -/
theorem le_key_of_number {a b : Val} (h : (number a).isSome ∨ (number b).isSome) :
    le (key a) (key b) = le a b := by
  rw [le_eq_leNumber h, le_eq_leNumber (by simpa using h), leNumber, number_key, number_key]
  rfl

mutual
/-- **Values are compared as their keys.** -/
theorem le_key : ∀ a b : Val, le (key a) (key b) = le a b
  | .bool _, _ | .int _, _ | .float _, _ => le_key_of_number (Or.inl rfl)
  | .list as, .list bs => leList_key as bs
  | .tuple as, .tuple bs => leList_key as bs
  | .null, b | .str _, b | .dict _, b => by
      cases b with
      | bool _ | int _ | float _ => exact le_key_of_number (Or.inr rfl)
      | _ => rfl
  | .list _, .null | .list _, .str _ | .list _, .tuple _ | .list _, .dict _ => rfl
  | .list _, .bool _ | .list _, .int _ | .list _, .float _ => le_key_of_number (Or.inr rfl)
  | .tuple _, .null | .tuple _, .str _ | .tuple _, .list _ | .tuple _, .dict _ => rfl
  | .tuple _, .bool _ | .tuple _, .int _ | .tuple _, .float _ => le_key_of_number (Or.inr rfl)

/-- The same of lists. -/
theorem leList_key : ∀ as bs : List Val, leList (keyList as) (keyList bs) = leList as bs
  | [], _ => rfl
  | _ :: _, [] => rfl
  | a :: as, b :: bs => by
      have heq : (key a).eq (key b) = a.eq b := eq_congr (key_key a) (key_key b)
      rw [keyList, keyList, leList, leList, heq, le_key a b, leList_key as bs]
end

mutual
/-- A value is hashable as its key is. -/
@[simp] theorem hashable_key : ∀ v : Val, hashable (key v) = hashable v
  | .null | .bool _ | .int _ | .str _ | .list _ | .dict _ => rfl
  | .float (.finite q) => by rw [key]; split <;> rfl
  | .float (.inf _) | .float .nan => rfl
  | .tuple vs => hashableList_keyList vs

/-- The same of lists. -/
theorem hashableList_keyList : ∀ vs : List Val, hashableList (keyList vs) = hashableList vs
  | [] => rfl
  | v :: vs => by
      rw [keyList, hashableList, hashableList, hashable_key v, hashableList_keyList vs]
end

/-- Equal values are elements of the same lists. -/
theorem isIn_congr {v w : Val} (h : key v = key w) (vs : List Val) : v.isIn vs = w.isIn vs := by
  rw [isIn, isIn]
  congr 1
  funext u
  exact eq_congr h rfl

/-- Only a text has the key of a text. -/
theorem key_eq_str {v : Val} {s : Str} (h : key v = .str s) : v = .str s := by
  cases v with
  | str t => exact h
  | float x =>
      cases x with
      | finite q =>
          rw [key] at h
          split at h <;> cases h
      | inf negative => cases h
      | nan => cases h
  | _ => cases h

/-- Only `None` has the key `None`. -/
@[simp] theorem key_eq_null {v : Val} : key v = .null ↔ v = .null := by
  cases v with
  | float x =>
      cases x with
      | finite q => rw [key]; split <;> simp
      | inf negative => simp [key]
      | nan => simp [key]
  | _ => simp [key]

/-- Only a text is searched for in a text. -/
theorem inside_str_error {v : Val} (h : ¬∃ s, v = .str s) (t : Str) :
    v.inside (.str t) = .error { kind := .typeError } := by
  cases v with
  | str s => exact absurd ⟨s, rfl⟩ h
  | _ => rfl

/-- **Equal values are inside the same values.** -/
theorem inside_congr {v w : Val} (h : key v = key w) (c : Val) : v.inside c = w.inside c := by
  have hhash : v.hashable = w.hashable := by rw [← hashable_key v, h, hashable_key]
  cases c with
  | list vs => rw [inside, inside, isIn_congr h]
  | tuple vs => rw [inside, inside, isIn_congr h]
  | dict kvs => rw [inside, inside, hhash, isIn_congr h]
  | str t =>
      -- a text has no equal but itself
      by_cases hv : ∃ s, v = .str s
      · obtain ⟨s, rfl⟩ := hv
        rw [key_eq_str h.symm]
      · have hw : ¬∃ s, w = .str s := fun ⟨s, hs⟩ => hv ⟨s, key_eq_str (h.trans (congrArg key hs))⟩
        rw [inside_str_error hv, inside_str_error hw]
  | _ => rfl

/-! ## Operands that go together -/

mutual
/-- Whether `a <= b` compares: two numbers, two strings, or two sequences of one type whose first
elements that are not equal compare, if there are any. -/
def Comparable : Val → Val → Prop
  | .str _, .str _ => True
  | .list as, .list bs => ComparableList as bs
  | .tuple as, .tuple bs => ComparableList as bs
  | a, b => (number a).isSome ∧ (number b).isSome

/-- `Comparable` of sequences. -/
def ComparableList : List Val → List Val → Prop
  | [], _ => True
  | _ :: _, [] => True
  | a :: as, b :: bs => if a.eq b then ComparableList as bs else Comparable a b
end

/-- Numbers compare with numbers. -/
theorem exists_leNumber_iff {a b : Val} :
    (∃ r, leNumber a b = .ok r) ↔ (number a).isSome ∧ (number b).isSome := by
  unfold leNumber
  cases number a with
  | none => simp
  | some x =>
      cases number b with
      | none => simp
      | some y => simp

mutual
/-- **A comparison returns exactly where its operands compare.** -/
theorem exists_le_iff : ∀ {a b : Val}, (∃ r, le a b = .ok r) ↔ Comparable a b
  | .null, b => @exists_leNumber_iff .null b
  | .dict kvs, b => @exists_leNumber_iff (.dict kvs) b
  | .bool _, _ | .int _, _ | .float _, _ => exists_leNumber_iff
  | .str s, b => by
      cases b with
      | str t => exact ⟨fun _ => trivial, fun _ => ⟨_, rfl⟩⟩
      | _ => exact @exists_leNumber_iff (.str s) _
  | .list as, b => by
      cases b with
      | list bs => exact exists_leList_iff
      | _ => exact @exists_leNumber_iff (.list as) _
  | .tuple as, b => by
      cases b with
      | tuple bs => exact exists_leList_iff
      | _ => exact @exists_leNumber_iff (.tuple as) _

/-- The same of lists. -/
theorem exists_leList_iff : ∀ {as bs : List Val},
    (∃ r, leList as bs = .ok r) ↔ ComparableList as bs
  | [], _ => ⟨fun _ => trivial, fun _ => ⟨true, rfl⟩⟩
  | _ :: _, [] => ⟨fun _ => trivial, fun _ => ⟨false, rfl⟩⟩
  | a :: as, b :: bs => by
      rw [leList, ComparableList]
      split
      · exact exists_leList_iff
      · exact exists_le_iff
end

/-- Whether `v in c` searches: any list, a string for a string, a dictionary for what has a hash. -/
def Searchable (v : Val) : Val → Prop
  | .list _ | .tuple _ => True
  | .str _ => ∃ s, v = .str s
  | .dict _ => v.hashable = true
  | _ => False

/-- **A search returns exactly where its operands go together.** -/
theorem exists_inside_iff {v c : Val} : (∃ r, v.inside c = .ok r) ↔ Searchable v c := by
  cases c with
  | list vs => exact ⟨fun _ => trivial, fun _ => ⟨_, rfl⟩⟩
  | tuple vs => exact ⟨fun _ => trivial, fun _ => ⟨_, rfl⟩⟩
  | str t =>
      rw [Searchable]
      constructor
      · rintro ⟨r, hr⟩
        by_contra hv
        rw [inside_str_error hv] at hr
        cases hr
      · rintro ⟨s, rfl⟩
        exact ⟨_, rfl⟩
  | dict kvs =>
      rw [Searchable, inside]
      split
      · rename_i hhash
        exact ⟨fun _ => hhash, fun _ => ⟨_, rfl⟩⟩
      · rename_i hhash
        exact iff_of_false (fun ⟨_, hr⟩ => nomatch hr) hhash
  | _ => exact iff_of_false (fun ⟨_, hr⟩ => nomatch hr) id

end Val
end OpenWright.Python
