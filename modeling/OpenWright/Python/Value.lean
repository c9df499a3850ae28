import OpenWright.Python.Str
import Mathlib.Data.List.Lex
import Mathlib.Data.List.Sort
import Mathlib.Order.Fin.Basic

/-! # Python values

The values that JSON documents and model dumps are made of: `None`, booleans, integers, floats,
strings, lists, tuples and dictionaries with string keys. A dictionary is its list of items in
insertion order; of two items with one key the first counts.

Python's `==` identifies values that are not the same value (`True == 1`, `2.0 == 2`, dictionaries
in any order), so it is defined through a normal form: `key` picks one value out of each class of
equal ones, and everything the program does with a value that Python defines through `==` (tests,
membership, hashing, comparison) reads the key. -/

namespace OpenWright.Python

/-- A Python `float`: a finite number, an infinity or NaN. -/
inductive PyFloat
  | finite (q : Rat)
  | inf (negative : Bool)
  | nan
deriving DecidableEq

/-- A Python value. -/
inductive Val
  | null
  | bool (b : Bool)
  | int (z : Int)
  | float (x : PyFloat)
  | str (s : Str)
  | list (vs : List Val)
  | tuple (vs : List Val)
  | dict (kvs : List (Str × Val))

/-- The items of a dictionary. -/
abbrev Items := List (Str × Val)

instance : Inhabited Val := ⟨.null⟩

namespace Val

/-! ## Identity of representations -/

mutual
/-- Whether two values are represented alike. -/
def same : Val → Val → Bool
  | .null, .null => true
  | .bool a, .bool b => a == b
  | .int a, .int b => a == b
  | .float a, .float b => decide (a = b)
  | .str a, .str b => a == b
  | .list a, .list b => sameList a b
  | .tuple a, .tuple b => sameList a b
  | .dict a, .dict b => sameItems a b
  | _, _ => false

/-- `same`, elementwise. -/
def sameList : List Val → List Val → Bool
  | [], [] => true
  | a :: as, b :: bs => same a b && sameList as bs
  | _, _ => false

/-- `same`, itemwise. -/
def sameItems : Items → Items → Bool
  | [], [] => true
  | (k, a) :: as, (l, b) :: bs => k == l && same a b && sameItems as bs
  | _, _ => false
end

mutual
/-- `same` decides equality. -/
theorem same_iff : ∀ a b : Val, same a b = true ↔ a = b
  | .list a, .list b => by rw [same, sameList_iff a b, list.injEq]
  | .tuple a, .tuple b => by rw [same, sameList_iff a b, tuple.injEq]
  | .dict a, .dict b => by rw [same, sameItems_iff a b, dict.injEq]
  | .null, b => by cases b <;> simp [same]
  | .bool a, b => by cases b <;> simp [same]
  | .int a, b => by cases b <;> simp [same]
  | .float a, b => by cases b <;> simp [same]
  | .str a, b => by cases b <;> simp [same]
  | .list a, .null | .list a, .bool _ | .list a, .int _ | .list a, .float _ | .list a, .str _
  | .list a, .tuple _ | .list a, .dict _ => by simp [same]
  | .tuple a, .null | .tuple a, .bool _ | .tuple a, .int _ | .tuple a, .float _ | .tuple a, .str _
  | .tuple a, .list _ | .tuple a, .dict _ => by simp [same]
  | .dict a, .null | .dict a, .bool _ | .dict a, .int _ | .dict a, .float _ | .dict a, .str _
  | .dict a, .list _ | .dict a, .tuple _ => by simp [same]

/-- Lists are the same element by element. -/
theorem sameList_iff : ∀ a b : List Val, sameList a b = true ↔ a = b
  | [], [] => by simp [sameList]
  | [], _ :: _ => by simp [sameList]
  | _ :: _, [] => by simp [sameList]
  | a :: as, b :: bs => by
      rw [sameList, Bool.and_eq_true, same_iff a b, sameList_iff as bs, List.cons.injEq]

/-- Dictionaries are the same entry by entry. -/
theorem sameItems_iff : ∀ a b : Items, sameItems a b = true ↔ a = b
  | [], [] => by simp [sameItems]
  | [], _ :: _ => by simp [sameItems]
  | _ :: _, [] => by simp [sameItems]
  | (k, a) :: as, (l, b) :: bs => by
      rw [sameItems, Bool.and_eq_true, Bool.and_eq_true, same_iff a b, sameItems_iff as bs,
        beq_iff_eq, List.cons.injEq, Prod.mk.injEq]
end

instance : DecidableEq Val := fun a b => decidable_of_iff _ (same_iff a b)

end Val

/-! ## Items -/

section Items

variable {β γ : Type}

/-- Sort items by key, in code-point order. -/
def sortKeys (kvs : List (Str × β)) : List (Str × β) :=
  kvs.insertionSort fun a b => a.1 ≤ b.1

/-- There are no keys to sort in nothing. -/
@[simp] theorem sortKeys_nil : sortKeys ([] : List (Str × β)) = [] := rfl

/-- Sorting reorders the items. -/
theorem sortKeys_perm (kvs : List (Str × β)) : (sortKeys kvs).Perm kvs :=
  List.perm_insertionSort _ kvs

/-- Sorting keeps the entries. -/
@[simp] theorem mem_sortKeys {kvs : List (Str × β)} {kv : Str × β} :
    kv ∈ sortKeys kvs ↔ kv ∈ kvs :=
  (sortKeys_perm kvs).mem_iff

/-- Inserting an item in order puts it before every item with its key. -/
theorem lookup_orderedInsert (k l : Str) (b : β) (kvs : List (Str × β)) :
    (kvs.orderedInsert (fun x y => x.1 ≤ y.1) (l, b)).lookup k = ((l, b) :: kvs).lookup k := by
  induction kvs with
  | nil => rfl
  | cons x rest ih =>
      rw [List.orderedInsert_cons]
      split
      · rfl
      · rename_i hlt
        have hne : l ≠ x.1 := fun h => hlt (h ▸ le_refl l)
        obtain ⟨m, c⟩ := x
        rw [List.lookup_cons, ih, List.lookup_cons, List.lookup_cons, List.lookup_cons]
        by_cases hm : k = m
        · subst hm
          rw [beq_self_eq_true, beq_false_of_ne hne.symm]
        · rw [beq_false_of_ne hm]

/-- Sorting does not change what a key is bound to. -/
@[simp] theorem lookup_sortKeys (k : Str) (kvs : List (Str × β)) :
    (sortKeys kvs).lookup k = kvs.lookup k := by
  induction kvs with
  | nil => rfl
  | cons x rest ih =>
      rw [sortKeys, List.insertionSort_cons, lookup_orderedInsert, List.lookup_cons,
        List.lookup_cons]
      cases k == x.1 with
      | true => rfl
      | false => exact ih

/-- Sorting commutes with a change of the bound values. -/
theorem sortKeys_map (f : β → γ) (kvs : List (Str × β)) :
    sortKeys (kvs.map fun kv => (kv.1, f kv.2)) = (sortKeys kvs).map fun kv => (kv.1, f kv.2) :=
  (List.map_insertionSort (fun a b : Str × β => a.1 ≤ b.1) (fun a b : Str × γ => a.1 ≤ b.1)
    (fun kv => (kv.1, f kv.2)) kvs fun _ _ _ _ => Iff.rfl).symm

/-- Sorting twice is sorting once. -/
@[simp] theorem sortKeys_sortKeys (kvs : List (Str × β)) :
    sortKeys (sortKeys kvs) = sortKeys kvs :=
  (List.pairwise_insertionSort _ kvs).insertionSort_eq

/-- With distinct keys, the sorted items do not depend on the order. -/
theorem sortKeys_eq_of_perm {kvs lvs : List (Str × β)} (h : kvs.Perm lvs)
    (hkeys : (kvs.map Prod.fst).Nodup) : sortKeys kvs = sortKeys lvs := by
  have hperm : (sortKeys kvs).Perm (sortKeys lvs) :=
    (sortKeys_perm kvs).trans (h.trans (sortKeys_perm lvs).symm)
  refine hperm.eq_of_pairwise (fun x y hx hy hxy hyx => ?_) (List.pairwise_insertionSort _ kvs)
    (List.pairwise_insertionSort _ lvs)
  -- two items with one key are one item
  have hx' : x ∈ kvs := mem_sortKeys.mp hx
  have hy' : y ∈ kvs := h.mem_iff.mpr (mem_sortKeys.mp hy)
  exact List.inj_on_of_nodup_map hkeys hx' hy' (le_antisymm hxy hyx)

variable {α : Type} [BEq α]

/-- What a key is bound to after a change of the bound values. -/
theorem lookup_map_snd (f : β → γ) (k : α) (kvs : List (α × β)) :
    (kvs.map fun kv => (kv.1, f kv.2)).lookup k = (kvs.lookup k).map f := by
  induction kvs with
  | nil => rfl
  | cons x rest ih =>
      rw [List.map_cons, List.lookup_cons, List.lookup_cons]
      cases k == x.1 with
      | true => rfl
      | false => exact ih

variable [LawfulBEq α]

/-- What a key is bound to is the second part of an item. -/
theorem mem_of_lookup {k : α} {b : β} {kvs : List (α × β)} (h : kvs.lookup k = some b) :
    (k, b) ∈ kvs := by
  obtain ⟨l₁, l₂, rfl, -⟩ := List.lookup_eq_some_iff.mp h
  exact List.mem_append_right l₁ List.mem_cons_self

/-- Filtering by key does not change what a key that stays is bound to. -/
theorem lookup_filter_of {p : α → Bool} {k : α} (hk : p k = true) (kvs : List (α × β)) :
    (kvs.filter fun kv => p kv.1).lookup k = kvs.lookup k := by
  induction kvs with
  | nil => rfl
  | cons x rest ih =>
      obtain ⟨l, b⟩ := x
      rw [List.filter_cons, List.lookup_cons]
      by_cases hkl : k = l
      · subst hkl
        rw [if_pos hk, List.lookup_cons_self, beq_self_eq_true]
      · rw [beq_false_of_ne hkl]
        split
        · rw [List.lookup_cons, beq_false_of_ne hkl, ih]
        · exact ih

end Items

namespace Val

/-! ## Equality -/

mutual
/-- The representative of the values equal to `v`: numbers by their value, dictionaries sorted. -/
def key : Val → Val
  | .null => .null
  -- `True` is the number one
  | .bool b => .int b.toInt
  | .int z => .int z
  | .float (.finite q) => if q.den = 1 then .int q.num else .float (.finite q)
  | .float (.inf negative) => .float (.inf negative)
  | .float .nan => .float .nan
  | .str s => .str s
  | .list vs => .list (keyList vs)
  | .tuple vs => .tuple (keyList vs)
  | .dict kvs => .dict (sortKeys (keyItems kvs))

/-- `key`, elementwise. -/
def keyList : List Val → List Val
  | [] => []
  | v :: vs => key v :: keyList vs

/-- `key`, itemwise. -/
def keyItems : Items → Items
  | [] => []
  | (k, v) :: kvs => (k, key v) :: keyItems kvs
end

/-- The key of a list is made of those of its elements, -/
theorem keyList_eq_map : ∀ vs : List Val, keyList vs = vs.map key
  | [] => rfl
  | v :: vs => by rw [keyList, List.map_cons, keyList_eq_map vs]

/-- and the key of a dictionary of those of its values. -/
theorem keyItems_eq_map : ∀ kvs : Items, keyItems kvs = kvs.map fun kv => (kv.1, key kv.2)
  | [] => rfl
  | (k, v) :: kvs => by rw [keyItems, List.map_cons, keyItems_eq_map kvs]

mutual
/-- Whether a NaN occurs in a value. -/
def hasNan : Val → Bool
  | .float .nan => true
  | .list vs => hasNanList vs
  | .tuple vs => hasNanList vs
  | .dict kvs => hasNanItems kvs
  | _ => false

/-- Whether a NaN occurs in an element. -/
def hasNanList : List Val → Bool
  | [] => false
  | v :: vs => hasNan v || hasNanList vs

/-- Whether a NaN occurs in a bound value. -/
def hasNanItems : Items → Bool
  | [] => false
  | (_, v) :: kvs => hasNan v || hasNanItems kvs
end

/-- `a == b`. A NaN equals nothing, itself included. -/
def eq (a b : Val) : Bool := decide (a.key = b.key) && !a.key.hasNan

/-- **Equality reads the keys only.** -/
theorem eq_congr {a a' b b' : Val} (ha : a.key = a'.key) (hb : b.key = b'.key) :
    a.eq b = a'.eq b' := by
  rw [eq, eq, ha, hb]

/-- Equal values have one key. -/
theorem key_eq_of_eq {a b : Val} (h : a.eq b = true) : a.key = b.key := by
  rw [eq, Bool.and_eq_true, decide_eq_true_eq] at h
  exact h.1

/-- Text equals itself. -/
@[simp] theorem str_eq_self (s : Str) : (Val.str s).eq (.str s) = true := by
  simp [Val.eq, key, hasNan]

/-- `bool(v)`. -/
def truthy : Val → Bool
  | .null => false
  | .bool b => b
  | .int z => z ≠ 0
  | .float (.finite q) => q ≠ 0
  -- infinities and NaN are true
  | .float _ => true
  | .str s => s ≠ []
  | .list vs => vs ≠ []
  | .tuple vs => vs ≠ []
  | .dict kvs => kvs ≠ []

/-- Equal values are true alike. -/
@[simp] theorem truthy_key (v : Val) : v.key.truthy = v.truthy := by
  cases v with
  | null => rfl
  | bool b => cases b <;> rfl
  | int z => rfl
  | float x =>
      cases x with
      | finite q =>
          -- a float that is an integer has that integer for its key
          rw [key]
          split
          · rename_i hq
            have hzero : q.num = 0 ↔ q = 0 := Rat.num_eq_zero
            simp only [truthy, ne_eq, hzero]
          · rfl
      | inf negative => rfl
      | nan => rfl
  | str s => rfl
  | list vs => cases vs <;> rfl
  | tuple vs => cases vs <;> rfl
  | dict kvs =>
      cases kvs with
      | nil => rfl
      | cons kv rest =>
          -- sorting loses no entry
          have hne : sortKeys (keyItems (kv :: rest)) ≠ [] := by
            rw [ne_eq, ← List.length_eq_zero_iff, (sortKeys_perm _).length_eq, keyItems_eq_map]
            simp
          simp [key, truthy, hne]

/-! ## Dictionaries -/

/-- The value bound to `k`, if the value is a dictionary that binds it. -/
def item? (k : Str) : Val → Option Val
  | .dict kvs => kvs.lookup k
  | _ => none

/-- What the key of a dictionary binds `k` to. -/
@[simp] theorem item?_key (k : Str) (v : Val) : v.key.item? k = (v.item? k).map key := by
  cases v with
  | dict kvs =>
      rw [key, item?, item?, lookup_sortKeys, keyItems_eq_map]
      exact lookup_map_snd key k kvs
  | float x =>
      cases x with
      | finite q => rw [key]; split <;> rfl
      | inf negative => rfl
      | nan => rfl
  | _ => rfl

end Val

/-! ## Exceptions -/

/-- A piece of a formatted string: literal text, or a value formatted by `str` or by `repr`. -/
inductive FPart
  | text (s : Str)
  | str (v : Val)
  | repr (v : Val)
deriving DecidableEq

/-- A formatted string, before its values are formatted. -/
abbrev FString := List FPart

/-- The classes of the exceptions the program raises or lets through. -/
inductive ErrKind
  | typeError
  | valueError
  | keyError
  | indexError
  | attributeError
  | overflowError
  | unicodeEncodeError
  | unicodeDecodeError
  | jsonDecodeError
  | osError
  | canonicalizationError
  | witnessError
  | validationError
  | other
deriving DecidableEq

/-- An exception. The message is kept where the program writes it and empty where Python does. -/
structure PyErr where
  kind : ErrKind
  msg : FString := []
deriving DecidableEq

/-- A computation that returns goes through each of its steps. -/
theorem bind_eq_ok {ε α β : Type} {x : Except ε α} {f : α → Except ε β} {b : β} :
    x >>= f = .ok b ↔ ∃ a, x = .ok a ∧ f a = .ok b := by
  cases x with
  | error err =>
      constructor
      · intro h; cases h
      · rintro ⟨_, h, _⟩; cases h
  | ok a =>
      constructor
      · exact fun h => ⟨a, rfl, h⟩
      · rintro ⟨a', ha, h⟩
        cases ha
        exact h

/-- A step that only returns. -/
theorem pure_eq_ok {ε α : Type} {a b : α} : (pure a : Except ε α) = .ok b ↔ a = b := by
  constructor
  · exact Except.ok.inj
  · exact congrArg Except.ok

/-- What is returned has no error. -/
theorem eq_ok_of_toOption {ε α : Type} {x : Except ε α} {a : α} (h : x.toOption = some a) :
    x = .ok a := by
  cases x with
  | ok b => rw [Option.some.inj h]
  | error err => cases h

/-- A list comprehension returns where each of its elements does. -/
theorem mapM_eq_ok {ε α β : Type} {f : α → Except ε β} : ∀ {xs : List α} {ys : List β},
    xs.mapM f = .ok ys ↔ List.Forall₂ (fun x y => f x = .ok y) xs ys
  | [], ys => by
      rw [List.mapM_nil, pure_eq_ok, List.forall₂_nil_left_iff, eq_comm]
  | x :: xs, ys => by
      simp only [List.mapM_cons, bind_eq_ok, pure_eq_ok, @mapM_eq_ok _ _ _ _ xs,
        List.forall₂_cons_left_iff]
      constructor
      · rintro ⟨y, hy, rest, hrest, rfl⟩
        exact ⟨y, rest, hy, hrest, rfl⟩
      · rintro ⟨y, rest, hy, hrest, rfl⟩
        exact ⟨y, hy, rest, hrest, rfl⟩

/-- A list comprehension over elements that all return. -/
theorem mapM_eq_ok_map {ε α β : Type} {f : α → Except ε β} {g : α → β} {xs : List α}
    (h : ∀ x ∈ xs, f x = .ok (g x)) : xs.mapM f = .ok (xs.map g) := by
  rw [mapM_eq_ok, List.forall₂_map_right_iff, List.forall₂_same]
  exact h

/-- An element of what a list comprehension returns comes from one of its elements. -/
theorem exists_of_mem_mapM {ε α β : Type} {f : α → Except ε β} {xs : List α} {ys : List β}
    (h : xs.mapM f = .ok ys) {y : β} (hy : y ∈ ys) : ∃ x ∈ xs, f x = .ok y := by
  rw [mapM_eq_ok] at h
  induction h with
  | nil => exact absurd hy List.not_mem_nil
  | cons hxy _ ih =>
      rcases List.mem_cons.mp hy with heq | hmem
      · exact ⟨_, List.mem_cons_self, heq ▸ hxy⟩
      · obtain ⟨x, hx, hfx⟩ := ih hmem
        exact ⟨x, List.mem_cons_of_mem _ hx, hfx⟩

/-- An element on the left has its partner on the right. -/
theorem exists_right_of_mem {α β : Type*} {R : α → β → Prop} {xs : List α} {ys : List β}
    (h : List.Forall₂ R xs ys) {x : α} (hx : x ∈ xs) : ∃ y ∈ ys, R x y := by
  induction h with
  | nil => exact absurd hx List.not_mem_nil
  | cons hxy _ ih =>
      rcases List.mem_cons.mp hx with rfl | hx
      · exact ⟨_, List.mem_cons_self, hxy⟩
      · obtain ⟨y, hy, hR⟩ := ih hx
        exact ⟨y, List.mem_cons_of_mem _ hy, hR⟩

/-- A list comprehension returns exactly where each of its elements does. -/
theorem exists_mapM_iff {ε α β : Type} {f : α → Except ε β} : ∀ {xs : List α},
    (∃ ys, xs.mapM f = .ok ys) ↔ ∀ x ∈ xs, ∃ y, f x = .ok y
  | [] => by simp [pure_eq_ok]
  | x :: xs => by
      simp only [List.mapM_cons, bind_eq_ok, pure_eq_ok, List.forall_mem_cons,
        ← @exists_mapM_iff _ _ _ _ xs]
      constructor
      · rintro ⟨_, y, hy, ys, hys, rfl⟩
        exact ⟨⟨y, hy⟩, ys, hys⟩
      · rintro ⟨⟨y, hy⟩, ys, hys⟩
        exact ⟨_, y, hy, ys, hys, rfl⟩

/-- `bytes.fromhex` with its exception. -/
def unhex (s : Str) : Except PyErr Bytes :=
  match fromhex s with
  | some b => .ok b
  | none => .error { kind := .valueError }

/-- Where `unhex` returns. -/
@[simp] theorem unhex_eq_ok {s : Str} {b : Bytes} : unhex s = .ok b ↔ fromhex s = some b := by
  rw [unhex]
  cases fromhex s with
  | none => simp
  | some b' => simp

namespace Val

/-! ## Operations that may raise -/

/-- `v.get(k)`: only a dictionary has the method. -/
def get (v : Val) (k : Str) : Except PyErr (Option Val) :=
  match v with
  | .dict kvs => .ok (kvs.lookup k)
  | _ => .error { kind := .attributeError }

/-- `v.get(k, d)`. -/
def getD (v : Val) (k : Str) (d : Val) : Except PyErr Val :=
  (v.get k).map fun o => o.getD d

/-- The default is not taken where the key is bound. -/
theorem getD_eq_ok {v w : Val} {k : Str} (h : v.item? k = some w) (d : Val) :
    v.getD k d = .ok w := by
  cases v with
  | dict kvs => rw [getD, get, show kvs.lookup k = some w from h]; rfl
  | _ => cases h

/-- `v[k]` for a string `k`. -/
def getItem (v : Val) (k : Str) : Except PyErr Val :=
  match v with
  | .dict kvs =>
    match kvs.lookup k with
    | some w => .ok w
    | none => .error { kind := .keyError }
  | _ => .error { kind := .typeError }

/-- `list(v)`: the elements of a list or tuple, the keys of a dictionary, the characters of a
string. -/
def iter : Val → Except PyErr (List Val)
  | .list vs => .ok vs
  | .tuple vs => .ok vs
  | .dict kvs => .ok (kvs.map fun kv => .str kv.1)
  | .str s => .ok (s.map fun c => .str [c])
  | _ => .error { kind := .typeError }

/-- `len(v)`. -/
def len (v : Val) : Except PyErr Nat := v.iter.map List.length

/-- `v or w`. -/
def orElse (v w : Val) : Val := if v.truthy then v else w

mutual
/-- Whether `hash(v)` succeeds. -/
def hashable : Val → Bool
  | .list _ => false
  | .dict _ => false
  | .tuple vs => hashableList vs
  | _ => true

/-- `hashable`, elementwise. -/
def hashableList : List Val → Bool
  | [] => true
  | v :: vs => hashable v && hashableList vs
end

/-- `v in vs` for a list `vs`. -/
def isIn (v : Val) (vs : List Val) : Bool := vs.any (v.eq ·)

/-! ## Integers -/

/-- The characters that `int` passes over around a number. U+001C to U+001F, which `str.strip`
removes as well, are not among them. -/
def isIntSpace (c : CodePoint) : Bool :=
  c.val ∈ [0x9, 0xa, 0xb, 0xc, 0xd, 0x20, 0x85, 0xa0, 0x1680, 0x2000, 0x2001, 0x2002, 0x2003, 0x2004,
    0x2005, 0x2006, 0x2007, 0x2008, 0x2009, 0x200a, 0x2028, 0x2029, 0x202f, 0x205f, 0x3000]

/-- The zeros of the decimal scripts of Unicode; the other nine digits follow each of them. -/
def decimalZeros : List Nat :=
  [0x30, 0x660, 0x6f0, 0x7c0, 0x966, 0x9e6, 0xa66, 0xae6, 0xb66, 0xbe6, 0xc66, 0xce6, 0xd66, 0xde6,
    0xe50, 0xed0, 0xf20, 0x1040, 0x1090, 0x17e0, 0x1810, 0x1946, 0x19d0, 0x1a80, 0x1a90, 0x1b50,
    0x1bb0, 0x1c40, 0x1c50, 0xa620, 0xa8d0, 0xa900, 0xa9d0, 0xa9f0, 0xaa50, 0xabf0, 0xff10, 0x104a0,
    0x10d30, 0x11066, 0x110f0, 0x11136, 0x111d0, 0x112f0, 0x11450, 0x114d0, 0x11650, 0x116c0,
    0x11730, 0x118e0, 0x11950, 0x11c50, 0x11d50, 0x11da0, 0x16a60, 0x16ac0, 0x16b50, 0x1d7ce,
    0x1d7d8, 0x1d7e2, 0x1d7ec, 0x1d7f6, 0x1e140, 0x1e2f0, 0x1e950, 0x1fbf0]

/-- The value of a decimal digit of any script. -/
def decimalValue (c : CodePoint) : Option Nat :=
  (decimalZeros.find? fun z => z ≤ c.val ∧ c.val < z + 10).map (c.val - ·)

/-- Read digits into `acc`; an underscore may stand between two of them. -/
def readDigits (acc : Nat) (afterDigit : Bool) : Str → Option Nat
  | [] => if afterDigit then some acc else none
  | c :: s =>
    match decimalValue c with
    | some d => readDigits (10 * acc + d) true s
    | none => if c = cp 95 ∧ afterDigit then readDigits acc false s else none

/-- The integer a string denotes for `int`, `none` for its `ValueError`. -/
def readInt (s : Str) : Option Int :=
  match ((s.dropWhile isIntSpace).reverse.dropWhile isIntSpace).reverse with
  | [] => none
  | c :: t =>
    if c = cp 45 then (readDigits 0 false t).map fun n => -(n : Int)
    else if c = cp 43 then (readDigits 0 false t).map fun n => (n : Int)
    else (readDigits 0 false (c :: t)).map fun n => (n : Int)

/-- `int(v)`. -/
def toInt : Val → Except PyErr Int
  | .bool b => .ok b.toInt
  | .int z => .ok z
  -- towards zero
  | .float (.finite q) => .ok (q.num.tdiv q.den)
  | .float (.inf _) => .error { kind := .overflowError }
  | .float .nan => .error { kind := .valueError }
  | .str s =>
    match readInt s with
    | some z => .ok z
    | none => .error { kind := .valueError }
  | _ => .error { kind := .typeError }

/-- Whether `int` converts a value. -/
def Convertible : Val → Prop
  | .bool _ | .int _ | .float (.finite _) => True
  | .str s => (readInt s).isSome = true
  | _ => False

/-- Where `int` returns. -/
theorem exists_toInt_iff {v : Val} : (∃ z, v.toInt = .ok z) ↔ Convertible v := by
  cases v with
  | bool b => exact iff_of_true ⟨_, rfl⟩ trivial
  | int z => exact iff_of_true ⟨_, rfl⟩ trivial
  | float x =>
      cases x with
      | finite q => exact iff_of_true ⟨_, rfl⟩ trivial
      | _ => exact iff_of_false (fun ⟨_, h⟩ => nomatch h) id
  | str s =>
      rw [toInt, Convertible]
      cases readInt s with
      | none => simp
      | some z => simp
  | _ => exact iff_of_false (fun ⟨_, h⟩ => nomatch h) id

/-- Equal values convert to one integer. -/
@[simp] theorem toInt_key (v : Val) : v.key.toInt = v.toInt := by
  cases v with
  | float x =>
      cases x with
      | finite q =>
          rw [key]
          split
          · rename_i hq
            rw [toInt, toInt, hq, Int.natCast_one, Int.tdiv_one]
          · rfl
      | inf negative => rfl
      | nan => rfl
  | _ => rfl

end Val
end OpenWright.Python
