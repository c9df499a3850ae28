import OpenWright.CanonicalEquality
import OpenWright.Python.Digits

/-! # Canonical bytes within the limits of the interpreter

`canonicalBytes` is the function that `canonical_bytes` computes where nothing runs out. CPython
bounds what it goes through: calls nest only up to the recursion limit, and an integer is written in
decimal only up to a number of digits. Here the same two passes are followed frame by frame and
integer by integer.

* **`canonicalBytesWithin_eq_ok`** — within the limits canonical bytes are what they are without
  them, and beyond them there are none. -/

namespace OpenWright.Canonical

open Python

/-- What the interpreter allows a call of `canonical_bytes`. -/
structure Interpreter where
  /-- The frames that are left below the recursion limit. -/
  frames : Nat
  /-- The frames that a comprehension takes: one up to Python 3.11, none since. -/
  comprehension : Nat
  /-- How many containers inside each other the encoder of `json` can write. -/
  encoder : Nat
  /-- `sys.get_int_max_str_digits()`, which lifts the limit where it is 0. -/
  digits : Nat

/-- The error about the recursion limit. -/
def recursionError : PyErr := { kind := .other }

/-! ## The two passes -/

mutual
/-- `_clean` with `n` frames left, where a comprehension takes `c` of them. -/
def cleanWithin (c : Nat) : Nat → Val → Except PyErr Val
  | 0, _ => .error recursionError
  | n + 1, .dict kvs => do
    let out ← cleanItemsWithin c n kvs
    return .dict out
  | n + 1, .list vs =>
    -- the list comprehension of the source calls from a frame of its own
    if n < c then .error recursionError
    else do
      let out ← cleanListWithin c (n - c) vs
      return .list out
  | n + 1, .tuple vs =>
    if n < c then .error recursionError
    else do
      let out ← cleanListWithin c (n - c) vs
      return .list out
  | _ + 1, .float x => .error (floatError x)
  | _ + 1, .null => .ok .null
  | _ + 1, .bool b => .ok (.bool b)
  | _ + 1, .int z => .ok (.int z)
  | _ + 1, .str s => .ok (.str s)

/-- `_clean` of every element. -/
def cleanListWithin (c n : Nat) : List Val → Except PyErr (List Val)
  | [] => .ok []
  | v :: vs => do
    let w ← cleanWithin c n v
    let ws ← cleanListWithin c n vs
    return w :: ws

/-- `_clean` of every entry that is not null. -/
def cleanItemsWithin (c n : Nat) : Items → Except PyErr Items
  | [] => .ok []
  | (_, .null) :: kvs => cleanItemsWithin c n kvs
  | (k, v) :: kvs => do
    let w ← cleanWithin c n v
    let out ← cleanItemsWithin c n kvs
    return (k, w) :: out
end

/-- Whether an integer is converted to decimal: the sign is no digit. -/
def Converts (digits : Nat) (z : Int) : Prop :=
  digits = 0 ∨ (Json.natText z.natAbs).length ≤ digits

instance (digits : Nat) (z : Int) : Decidable (Converts digits z) :=
  inferInstanceAs (Decidable (_ ∨ _))

/-- A power of ten has a digit more than its exponent. -/
theorem not_converts_pow {digits : Nat} (h : digits ≠ 0) : ¬Converts digits (10 ^ digits) := by
  rintro (hzero | hlength)
  · exact h hzero
  · have hlt := natOf_lt (Json.natText_digits ((10 : Int) ^ digits).natAbs).1
    rw [(Json.natText_digits _).2, Int.natAbs_pow] at hlt
    have hexp := (Nat.pow_lt_pow_iff_right (by decide : 1 < 10)).mp hlt
    rw [← Int.natAbs_pow] at hexp
    omega

/-- A member of an object, once the text of its value is there. -/
def memberWithin (kt : Str × Except PyErr Str) : Except PyErr Str := do
  let t ← kt.2
  return Json.memberText (kt.1, t)

mutual
/-- `json.dumps` of a value inside which `n` more containers can be entered. -/
def textWithin (digits : Nat) : Nat → Val → Except PyErr Str
  | _, .int z => if Converts digits z then .ok (Json.intText z) else .error { kind := .valueError }
  | 0, .list _ => .error recursionError
  | 0, .tuple _ => .error recursionError
  | 0, .dict _ => .error recursionError
  | n + 1, .list vs => do
    let ts ← textListWithin digits n vs
    return cp 91 :: (Json.commaJoin ts ++ [cp 93])
  | n + 1, .tuple vs => do
    let ts ← textListWithin digits n vs
    return cp 91 :: (Json.commaJoin ts ++ [cp 93])
  | n + 1, .dict kvs => do
    -- the keys are sorted before any value is written, so the first error is that of the first key
    let ts ← (sortKeys (textItemsWithin digits n kvs)).mapM memberWithin
    return cp 123 :: (Json.commaJoin ts ++ [cp 125])
  | _, .null => .ok (Json.text .null)
  | _, .bool b => .ok (Json.text (.bool b))
  | _, .float x => .ok (Json.text (.float x))
  | _, .str s => .ok (Json.text (.str s))

/-- The texts of the elements. -/
def textListWithin (digits n : Nat) : List Val → Except PyErr (List Str)
  | [] => .ok []
  | v :: vs => do
    let t ← textWithin digits n v
    let ts ← textListWithin digits n vs
    return t :: ts

/-- The keys, each with what comes of writing its value. -/
def textItemsWithin (digits n : Nat) : Items → List (Str × Except PyErr Str)
  | [] => []
  | (k, v) :: kvs => (k, textWithin digits n v) :: textItemsWithin digits n kvs
end

/-- `text.encode("utf-8")`. -/
def encodeUtf8 (text : Str) : Except PyErr Bytes :=
  match utf8 text with
  | some b => .ok b
  | none => .error { kind := .unicodeEncodeError }

/-- `canonical_bytes` in an interpreter. -/
def canonicalBytesWithin (it : Interpreter) (obj : Val) : Except PyErr Bytes := do
  let cleaned ← cleanWithin it.comprehension it.frames obj
  let text ← textWithin it.digits it.encoder cleaned
  encodeUtf8 text

/-! ## What a value takes -/

mutual
/-- The frames that `_clean` of a value takes, where a comprehension takes `c`. -/
def calls (c : Nat) : Val → Nat
  | .list vs => callsList c vs + c + 1
  | .tuple vs => callsList c vs + c + 1
  | .dict kvs => callsItems c kvs + 1
  | .null => 1
  | .bool _ => 1
  | .int _ => 1
  | .float _ => 1
  | .str _ => 1

/-- The most that an element takes. -/
def callsList (c : Nat) : List Val → Nat
  | [] => 0
  | v :: vs => max (calls c v) (callsList c vs)

/-- The most that an entry takes: a null one is not looked into. -/
def callsItems (c : Nat) : Items → Nat
  | [] => 0
  | (_, .null) :: kvs => callsItems c kvs
  | (_, v) :: kvs => max (calls c v) (callsItems c kvs)
end

mutual
/-- How many containers of a value are inside each other. -/
def nesting : Val → Nat
  | .list vs => nestingList vs + 1
  | .tuple vs => nestingList vs + 1
  | .dict kvs => nestingItems kvs + 1
  | .null => 0
  | .bool _ => 0
  | .int _ => 0
  | .float _ => 0
  | .str _ => 0

/-- The deepest nesting of an element. -/
def nestingList : List Val → Nat
  | [] => 0
  | v :: vs => max (nesting v) (nestingList vs)

/-- The deepest nesting of a bound value. -/
def nestingItems : Items → Nat
  | [] => 0
  | (_, v) :: kvs => max (nesting v) (nestingItems kvs)
end

mutual
/-- The integers in a value. -/
def ints : Val → List Int
  | .int z => [z]
  | .list vs => intsList vs
  | .tuple vs => intsList vs
  | .dict kvs => intsItems kvs
  | .null => []
  | .bool _ => []
  | .float _ => []
  | .str _ => []

/-- The integers in the elements. -/
def intsList : List Val → List Int
  | [] => []
  | v :: vs => ints v ++ intsList vs

/-- The integers in the bound values. -/
def intsItems : Items → List Int
  | [] => []
  | (_, v) :: kvs => ints v ++ intsItems kvs
end

/-- A value is within the limits of an interpreter. -/
structure Interpreter.Holds (it : Interpreter) (v : Val) : Prop where
  /-- `_clean` stays below the recursion limit. -/
  calls : calls it.comprehension v ≤ it.frames
  /-- So does the encoder. -/
  nesting : nesting v ≤ it.encoder
  /-- No integer has too many digits. -/
  digits : ∀ z ∈ ints v, Converts it.digits z

/-- An entry that is not null is looked into. -/
theorem callsItems_cons {c : Nat} {k : Str} {v : Val} (hv : v ≠ .null) (kvs : Items) :
    callsItems c ((k, v) :: kvs) = max (calls c v) (callsItems c kvs) := by
  cases v with
  | null => exact absurd rfl hv
  | _ => rfl

/-- An entry that is not null is cleaned and kept. -/
theorem cleanItemsWithin_cons {c n : Nat} {k : Str} {v : Val} (hv : v ≠ .null) (kvs : Items) :
    cleanItemsWithin c n ((k, v) :: kvs) = do
      let w ← cleanWithin c n v
      let out ← cleanItemsWithin c n kvs
      return (k, w) :: out := by
  cases v with
  | null => exact absurd rfl hv
  | _ => rfl

/-- Every value takes a frame. -/
theorem calls_pos (c : Nat) (v : Val) : 0 < calls c v := by
  cases v <;> rw [calls] <;> omega

/-! ## `_clean` -/

mutual
/-- **`_clean` returns within its frames** what it returns without a limit. -/
theorem cleanWithin_eq_ok {c : Nat} : ∀ {n : Nat} {v w : Val},
    cleanWithin c n v = .ok w ↔ clean v = .ok w ∧ calls c v ≤ n
  | 0, v, w => by
      -- no frame is left, and every call takes one
      constructor
      · intro h
        rw [cleanWithin] at h
        cases h
      · rintro ⟨-, hn⟩
        exact absurd (calls_pos c v) (by omega)
  | n + 1, .list vs, w | n + 1, .tuple vs, w => by
      -- a comprehension may take a frame of its own before the elements are called
      rw [cleanWithin, clean, calls]
      split
      · rename_i hlt
        constructor
        · intro h
          cases h
        · rintro ⟨-, hn⟩
          omega
      · rename_i hle
        rw [bind_eq_ok, bind_eq_ok]
        simp only [cleanListWithin_eq_ok]
        constructor
        · rintro ⟨out, ⟨hout, hn⟩, h⟩
          exact ⟨⟨out, hout, h⟩, by omega⟩
        · rintro ⟨⟨out, hout, h⟩, hn⟩
          exact ⟨out, ⟨hout, by omega⟩, h⟩
  | n + 1, .dict kvs, w => by
      rw [cleanWithin, clean, calls, bind_eq_ok, bind_eq_ok]
      simp only [cleanItemsWithin_eq_ok]
      constructor
      · rintro ⟨out, ⟨hout, hn⟩, h⟩
        exact ⟨⟨out, hout, h⟩, by omega⟩
      · rintro ⟨⟨out, hout, h⟩, hn⟩
        exact ⟨out, ⟨hout, by omega⟩, h⟩
  | n + 1, .float x, w => by
      rw [cleanWithin, clean]
      exact ⟨fun h => absurd h (by simp), fun h => absurd h.1 (by simp)⟩
  | n + 1, .null, w | n + 1, .bool _, w | n + 1, .int _, w | n + 1, .str _, w => by
      rw [cleanWithin, clean, calls]
      exact ⟨fun h => ⟨h, by omega⟩, fun h => h.1⟩

/-- The same of lists. -/
theorem cleanListWithin_eq_ok {c : Nat} : ∀ {n : Nat} {vs ws : List Val},
    cleanListWithin c n vs = .ok ws ↔ cleanList vs = .ok ws ∧ callsList c vs ≤ n
  | n, [], ws => by
      rw [cleanListWithin, cleanList, callsList]
      exact ⟨fun h => ⟨h, Nat.zero_le n⟩, fun h => h.1⟩
  | n, v :: vs, ws => by
      rw [cleanListWithin, cleanList, callsList, max_le_iff]
      simp only [bind_eq_ok, cleanWithin_eq_ok, cleanListWithin_eq_ok]
      constructor
      · rintro ⟨w, ⟨hw, hn⟩, us, ⟨hus, hns⟩, h⟩
        exact ⟨⟨w, hw, us, hus, h⟩, hn, hns⟩
      · rintro ⟨⟨w, hw, us, hus, h⟩, hn, hns⟩
        exact ⟨w, ⟨hw, hn⟩, us, ⟨hus, hns⟩, h⟩

/-- The same of dictionaries. -/
theorem cleanItemsWithin_eq_ok {c : Nat} : ∀ {n : Nat} {kvs out : Items},
    cleanItemsWithin c n kvs = .ok out ↔ cleanItems kvs = .ok out ∧ callsItems c kvs ≤ n
  | n, [], out => by
      rw [cleanItemsWithin, cleanItems, callsItems]
      exact ⟨fun h => ⟨h, Nat.zero_le n⟩, fun h => h.1⟩
  | n, (k, v) :: kvs, out => by
      by_cases hnull : v = .null
      · subst hnull
        rw [cleanItemsWithin, cleanItems, callsItems, cleanItemsWithin_eq_ok]
      · rw [cleanItemsWithin_cons hnull, cleanItems_cons hnull, callsItems_cons hnull, max_le_iff]
        simp only [bind_eq_ok, cleanWithin_eq_ok, cleanItemsWithin_eq_ok]
        constructor
        · rintro ⟨w, ⟨hw, hn⟩, us, ⟨hus, hns⟩, h⟩
          exact ⟨⟨w, hw, us, hus, h⟩, hn, hns⟩
        · rintro ⟨⟨w, hw, us, hus, h⟩, hn, hns⟩
          exact ⟨w, ⟨hw, hn⟩, us, ⟨hus, hns⟩, h⟩
end

mutual
/-- `_clean` leaves the nesting and the integers. -/
theorem nesting_ints_of_clean : ∀ {v w : Val}, clean v = .ok w →
    nesting w = nesting v ∧ ints w = ints v
  | .null, _, h | .bool _, _, h | .int _, _, h | .str _, _, h => by
      rw [clean, Except.ok.injEq] at h
      rw [← h]
      exact ⟨rfl, rfl⟩
  | .float _, _, h => by rw [clean] at h; cases h
  | .list vs, w, h | .tuple vs, w, h => by
      rw [clean] at h
      obtain ⟨ws, hws, h⟩ := bind_eq_ok.mp h
      obtain ⟨hnesting, hints⟩ := nesting_ints_of_cleanList hws
      rw [← pure_eq_ok.mp h, nesting, nesting, ints, ints, hnesting, hints]
      exact ⟨rfl, rfl⟩
  | .dict kvs, w, h => by
      obtain ⟨out, hout, rfl⟩ := cleanItems_of_clean h
      obtain ⟨hnesting, hints⟩ := nesting_ints_of_cleanItems hout
      rw [nesting, nesting, ints, ints, hnesting, hints]
      exact ⟨rfl, rfl⟩

/-- The same of lists. -/
theorem nesting_ints_of_cleanList : ∀ {vs ws : List Val}, cleanList vs = .ok ws →
    nestingList ws = nestingList vs ∧ intsList ws = intsList vs
  | [], _, h => by
      rw [cleanList, Except.ok.injEq] at h
      rw [← h]
      exact ⟨rfl, rfl⟩
  | v :: vs, ws, h => by
      obtain ⟨w, us, hw, hus, rfl⟩ := cleanList_cons_ok h
      obtain ⟨hnesting, hints⟩ := nesting_ints_of_clean hw
      obtain ⟨hnestings, hintss⟩ := nesting_ints_of_cleanList hus
      rw [nestingList, nestingList, intsList, intsList, hnesting, hints, hnestings, hintss]
      exact ⟨rfl, rfl⟩

/-- The same of dictionaries. -/
theorem nesting_ints_of_cleanItems : ∀ {kvs out : Items}, cleanItems kvs = .ok out →
    nestingItems out = nestingItems kvs ∧ intsItems out = intsItems kvs
  | [], _, h => by
      rw [cleanItems, Except.ok.injEq] at h
      rw [← h]
      exact ⟨rfl, rfl⟩
  | (k, v) :: kvs, out, h => by
      obtain ⟨rest, hrest, ⟨rfl, rfl⟩ | ⟨hnull, w, hw, rfl⟩⟩ := cleanItems_cons_ok h
      · obtain ⟨hnestings, hintss⟩ := nesting_ints_of_cleanItems hrest
        rw [nestingItems, intsItems, hnestings, hintss, nesting, ints, Nat.zero_max]
        exact ⟨rfl, rfl⟩
      · obtain ⟨hnesting, hints⟩ := nesting_ints_of_clean hw
        obtain ⟨hnestings, hintss⟩ := nesting_ints_of_cleanItems hrest
        rw [nestingItems, nestingItems, intsItems, intsItems, hnesting, hints, hnestings, hintss]
        exact ⟨rfl, rfl⟩
end

/-! ## The encoder -/

/-- The members of an object are written where all their values are. -/
theorem mapM_memberWithin {kts : List (Str × Except PyErr Str)} {ts : List Str}
    (h : kts.mapM memberWithin = .ok ts) : ∀ kt ∈ kts, ∃ t, kt.2 = .ok t := by
  intro kt hkt
  obtain ⟨m, hm⟩ := exists_mapM_iff.mp ⟨ts, h⟩ kt hkt
  obtain ⟨t, ht, -⟩ := bind_eq_ok.mp hm
  exact ⟨t, ht⟩

mutual
/-- **The encoder writes within the limits** the text it writes without them. -/
theorem textWithin_eq_ok {d : Nat} : ∀ {n : Nat} {v : Val} {t : Str},
    textWithin d n v = .ok t ↔ Json.text v = t ∧ nesting v ≤ n ∧ ∀ z ∈ ints v, Converts d z
  | n, .int z, t => by
      -- an integer takes no frame of the encoder, whatever its depth
      rw [textWithin, Json.text, nesting, ints, List.forall_mem_singleton]
      split
      · rename_i hz
        rw [Except.ok.injEq]
        exact ⟨fun h => ⟨h, Nat.zero_le n, hz⟩, fun h => h.1⟩
      · rename_i hz
        exact ⟨fun h => absurd h (by simp), fun h => absurd h.2.2 hz⟩
  | 0, .list _, t | 0, .tuple _, t | 0, .dict _, t => by
      -- a container takes one, and there is none
      rw [textWithin, nesting]
      exact ⟨fun h => absurd h (by simp [recursionError]), fun h => absurd h.2.1 (by omega)⟩
  | n + 1, .list vs, t | n + 1, .tuple vs, t => by
      rw [textWithin, bind_eq_ok, Json.text, nesting, ints, Nat.add_le_add_iff_right]
      simp only [textListWithin_eq_ok, pure_eq_ok]
      constructor
      · rintro ⟨ts, ⟨rfl, h⟩, rfl⟩
        exact ⟨rfl, h⟩
      · rintro ⟨rfl, h⟩
        exact ⟨_, ⟨rfl, h⟩, rfl⟩
  | n + 1, .dict kvs, t => by
      -- the members are sorted by key before their texts are known to be there
      have hmembers : (sortKeys (Json.textItems kvs)).mapM
          (memberWithin ∘ fun kt => (kt.1, .ok kt.2))
          = .ok ((sortKeys (Json.textItems kvs)).map Json.memberText) :=
        mapM_eq_ok_map fun kt _ => rfl
      rw [textWithin, bind_eq_ok, Json.text, nesting, ints, Nat.add_le_add_iff_right]
      simp only [pure_eq_ok]
      constructor
      · rintro ⟨ts, hts, rfl⟩
        have hall : ∀ kt ∈ textItemsWithin d n kvs, ∃ t, kt.2 = .ok t := fun kt hkt =>
          mapM_memberWithin hts kt (mem_sortKeys.mpr hkt)
        obtain ⟨heq, h⟩ := textItemsWithin_of_ok hall
        rw [heq, sortKeys_map (fun t => (Except.ok t : Except PyErr Str)), List.mapM_map,
          hmembers, Except.ok.injEq] at hts
        exact ⟨by rw [hts], h⟩
      · rintro ⟨rfl, h⟩
        refine ⟨(sortKeys (Json.textItems kvs)).map Json.memberText, ?_, rfl⟩
        rw [textItemsWithin_eq h, sortKeys_map (fun t => (Except.ok t : Except PyErr Str)),
          List.mapM_map, hmembers]
  | n, .null, t | n, .bool _, t | n, .float _, t | n, .str _, t => by
      rw [textWithin, nesting, ints, Except.ok.injEq]
      exact ⟨fun h => ⟨h, Nat.zero_le n, fun _ hz => absurd hz List.not_mem_nil⟩, fun h => h.1⟩

/-- The same of lists. -/
theorem textListWithin_eq_ok {d : Nat} : ∀ {n : Nat} {vs : List Val} {ts : List Str},
    textListWithin d n vs = .ok ts ↔
      Json.textList vs = ts ∧ nestingList vs ≤ n ∧ ∀ z ∈ intsList vs, Converts d z
  | n, [], ts => by
      rw [textListWithin, Json.textList, nestingList, intsList, Except.ok.injEq]
      exact ⟨fun h => ⟨h, Nat.zero_le n, fun _ hz => absurd hz List.not_mem_nil⟩, fun h => h.1⟩
  | n, v :: vs, ts => by
      rw [textListWithin, Json.textList, nestingList, intsList, max_le_iff, List.forall_mem_append]
      simp only [bind_eq_ok, textWithin_eq_ok, textListWithin_eq_ok, pure_eq_ok]
      constructor
      · rintro ⟨t, ⟨rfl, hn, hz⟩, us, ⟨rfl, hns, hzs⟩, rfl⟩
        exact ⟨rfl, ⟨hn, hns⟩, hz, hzs⟩
      · rintro ⟨rfl, ⟨hn, hns⟩, hz, hzs⟩
        exact ⟨_, ⟨rfl, hn, hz⟩, _, ⟨rfl, hns, hzs⟩, rfl⟩

/-- The entries of a dictionary are written before they are joined: where all of them could be. -/
theorem textItemsWithin_of_ok {d : Nat} : ∀ {n : Nat} {kvs : Items},
    (∀ kt ∈ textItemsWithin d n kvs, ∃ t, kt.2 = .ok t) →
    textItemsWithin d n kvs = (Json.textItems kvs).map (fun kt => (kt.1, .ok kt.2)) ∧
      nestingItems kvs ≤ n ∧ ∀ z ∈ intsItems kvs, Converts d z
  | n, [], _ => ⟨rfl, Nat.zero_le n, fun _ hz => absurd hz List.not_mem_nil⟩
  | n, (k, v) :: kvs, h => by
      rw [textItemsWithin, List.forall_mem_cons] at h
      obtain ⟨t, ht⟩ := h.1
      change textWithin d n v = .ok t at ht
      obtain ⟨rfl, hn, hz⟩ := textWithin_eq_ok.mp ht
      obtain ⟨heq, hns, hzs⟩ := textItemsWithin_of_ok h.2
      rw [textItemsWithin, ht, heq, nestingItems, intsItems, max_le_iff, List.forall_mem_append]
      exact ⟨rfl, ⟨hn, hns⟩, hz, hzs⟩

/-- All of them can be, where each integer in them can. -/
theorem textItemsWithin_eq {d : Nat} : ∀ {n : Nat} {kvs : Items},
    (nestingItems kvs ≤ n ∧ ∀ z ∈ intsItems kvs, Converts d z) →
    textItemsWithin d n kvs = (Json.textItems kvs).map fun kt => (kt.1, .ok kt.2)
  | n, [], _ => rfl
  | n, (k, v) :: kvs, h => by
      rw [nestingItems, intsItems, max_le_iff, List.forall_mem_append] at h
      rw [textItemsWithin, textWithin_eq_ok.mpr ⟨rfl, h.1.1, h.2.1⟩,
        textItemsWithin_eq ⟨h.1.2, h.2.2⟩]
      rfl
end

/-! ## Canonical bytes -/

/-- A text that is encoded has no surrogates. -/
theorem encodeUtf8_eq_ok {t : Str} {b : Bytes} : encodeUtf8 t = .ok b ↔ utf8 t = some b := by
  rw [encodeUtf8]
  cases utf8 t with
  | none => simp
  | some b' => simp

/-- **Canonical bytes within the limits** are the canonical bytes of the value, and a value has them
exactly where it is within the limits. -/
theorem canonicalBytesWithin_eq_ok {it : Interpreter} {v : Val} {b : Bytes} :
    canonicalBytesWithin it v = .ok b ↔ canonicalBytes v = .ok b ∧ it.Holds v := by
  rw [canonicalBytesWithin, bind_eq_ok, canonicalBytes_eq_ok]
  simp only [bind_eq_ok, cleanWithin_eq_ok, textWithin_eq_ok, encodeUtf8_eq_ok]
  constructor
  · rintro ⟨c, ⟨hc, hcalls⟩, t, ⟨rfl, hnesting, hdigits⟩, hb⟩
    obtain ⟨hn, hz⟩ := nesting_ints_of_clean hc
    exact ⟨⟨c, hc, hb⟩, hcalls, hn ▸ hnesting, hz ▸ hdigits⟩
  · rintro ⟨⟨c, hc, hb⟩, hcalls, hnesting, hdigits⟩
    obtain ⟨hn, hz⟩ := nesting_ints_of_clean hc
    exact ⟨c, ⟨hc, hcalls⟩, _, ⟨rfl, hn ▸ hnesting, hz ▸ hdigits⟩, hb⟩

end OpenWright.Canonical
