import OpenWright.Hash.Sha256
import OpenWright.Python.Json

/-! # Canonical bytes

The deterministic serialization that event ids, leaf hashes, crosswalk pins and signatures are
computed over: null-valued dictionary entries are dropped at every depth, tuples become lists,
floats are refused, and what is left is written as JSON with sorted keys and encoded in UTF-8.

* **`sorted_clean_eq_of_canonicalBytes_eq`** — canonical bytes determine the cleaned value up to the
  order of its dictionaries. -/

namespace OpenWright.Canonical

open Python Hash

/-- The error about a float. -/
def floatError (x : PyFloat) : PyErr :=
  { kind := .canonicalizationError
    msg := [.text (lit "floats are not allowed in canonical evidence (carry as a decimal string "
        ++ lit "instead): "), .repr (.float x)] }

mutual
/-- `_clean`: drop null-valued entries, turn tuples into lists, refuse floats. Keys are strings by
their type, so the source's check of the keys has nothing to refuse. -/
def clean : Val → Except PyErr Val
  | .dict kvs => do
    let out ← cleanItems kvs
    return .dict out
  | .list vs => do
    let out ← cleanList vs
    return .list out
  -- JSON has no tuples: both become arrays
  | .tuple vs => do
    let out ← cleanList vs
    return .list out
  | .float x => .error (floatError x)
  | .null => .ok .null
  | .bool b => .ok (.bool b)
  | .int z => .ok (.int z)
  | .str s => .ok (.str s)

/-- `_clean` of every element. -/
def cleanList : List Val → Except PyErr (List Val)
  | [] => .ok []
  | v :: vs => do
    let w ← clean v
    let ws ← cleanList vs
    return w :: ws

/-- `_clean` of every entry that is not null. -/
def cleanItems : Items → Except PyErr Items
  | [] => .ok []
  | (_, .null) :: kvs => cleanItems kvs
  | (k, v) :: kvs => do
    let w ← clean v
    let out ← cleanItems kvs
    return (k, w) :: out
end

/-- `canonical_bytes`, as far as no limit of the interpreter is met (`CanonicalLimits`). -/
def canonicalBytes (obj : Val) : Except PyErr Bytes := do
  let cleaned ← clean obj
  match utf8 (Json.text cleaned) with
  | some b => return b
  | none => throw { kind := .unicodeEncodeError }

/-- `sha256_hex`. -/
def sha256Hex (data : Bytes) : Str := hex (sha256 data)

/-- `content_hash`. -/
def contentHash (obj : Val) : Except PyErr Str := do
  let data ← canonicalBytes obj
  return lit "sha256:" ++ sha256Hex data

/-! ## What cleaning leaves -/

/-- A value bound to a key that is not null is cleaned. -/
theorem cleanItems_cons {k : Str} {v : Val} (hv : v ≠ .null) (kvs : Items) :
    cleanItems ((k, v) :: kvs) = do
      let w ← clean v
      let out ← cleanItems kvs
      return (k, w) :: out := by
  cases v with
  | null => exact absurd rfl hv
  | _ => rfl

/-- Cleaning a nonempty list cleans its head and its tail. -/
theorem cleanList_cons_ok {v : Val} {vs ws : List Val} (h : cleanList (v :: vs) = .ok ws) :
    ∃ w us, clean v = .ok w ∧ cleanList vs = .ok us ∧ ws = w :: us := by
  rw [cleanList, bind_eq_ok] at h
  obtain ⟨w, hw, h⟩ := h
  obtain ⟨us, hus, h⟩ := bind_eq_ok.mp h
  exact ⟨w, us, hw, hus, (pure_eq_ok.mp h).symm⟩

/-- Cleaning items cleans the first one, or drops it, and cleans the others. -/
theorem cleanItems_cons_ok {k : Str} {v : Val} {kvs out : Items}
    (h : cleanItems ((k, v) :: kvs) = .ok out) :
    ∃ rest, cleanItems kvs = .ok rest ∧
      ((v = .null ∧ out = rest) ∨ (v ≠ .null ∧ ∃ w, clean v = .ok w ∧ out = (k, w) :: rest)) := by
  by_cases hnull : v = .null
  · subst hnull
    exact ⟨out, h, Or.inl ⟨rfl, rfl⟩⟩
  · rw [cleanItems_cons hnull, bind_eq_ok] at h
    obtain ⟨w, hw, h⟩ := h
    obtain ⟨rest, hrest, h⟩ := bind_eq_ok.mp h
    exact ⟨rest, hrest, Or.inr ⟨hnull, w, hw, (pure_eq_ok.mp h).symm⟩⟩

mutual
/-- Neither floats nor tuples are left. -/
theorem plain_of_clean : ∀ {v w : Val}, clean v = .ok w → Json.Plain w
  | .null, _, h | .bool _, _, h | .int _, _, h | .str _, _, h => by
      rw [clean, Except.ok.injEq] at h
      subst h
      trivial
  | .float _, _, h => by rw [clean] at h; cases h
  | .list vs, w, h => by
      rw [clean] at h
      obtain ⟨ws, hws, h⟩ := bind_eq_ok.mp h
      rw [← pure_eq_ok.mp h]
      exact plainList_of_clean hws
  | .tuple vs, w, h => by
      rw [clean] at h
      obtain ⟨ws, hws, h⟩ := bind_eq_ok.mp h
      rw [← pure_eq_ok.mp h]
      exact plainList_of_clean hws
  | .dict kvs, w, h => by
      rw [clean] at h
      obtain ⟨out, hout, h⟩ := bind_eq_ok.mp h
      rw [← pure_eq_ok.mp h]
      exact plainItems_of_clean hout

/-- Neither floats nor tuples are left in the elements. -/
theorem plainList_of_clean : ∀ {vs ws : List Val}, cleanList vs = .ok ws → Json.PlainList ws
  | [], _, h => by
      rw [cleanList, Except.ok.injEq] at h
      subst h
      trivial
  | v :: vs, ws, h => by
      obtain ⟨w, us, hw, hus, heq⟩ := cleanList_cons_ok h
      rw [heq]
      exact ⟨plain_of_clean hw, plainList_of_clean hus⟩

/-- Neither floats nor tuples are left in the bound values. -/
theorem plainItems_of_clean : ∀ {kvs out : Items}, cleanItems kvs = .ok out → Json.PlainItems out
  | [], _, h => by
      rw [cleanItems, Except.ok.injEq] at h
      subst h
      trivial
  | (k, v) :: kvs, out, h => by
      obtain ⟨rest, hrest, ⟨-, heq⟩ | ⟨-, w, hw, heq⟩⟩ := cleanItems_cons_ok h
      · rw [heq]; exact plainItems_of_clean hrest
      · rw [heq]; exact ⟨plain_of_clean hw, plainItems_of_clean hrest⟩
end

/-- A value bound in a dictionary that has been cleaned is null or has been cleaned. -/
theorem clean_of_lookup {k : Str} {v : Val} : ∀ {kvs out : Items}, cleanItems kvs = .ok out →
    kvs.lookup k = some v → v = .null ∨ ∃ w, clean v = .ok w
  | [], _, _, hv => by cases hv
  | (l, u) :: kvs, out, h, hv => by
      obtain ⟨rest, hrest, hu⟩ := cleanItems_cons_ok h
      by_cases hkl : k = l
      · rw [hkl, List.lookup_cons_self, Option.some.injEq] at hv
        subst hv
        rcases hu with ⟨hnull, -⟩ | ⟨-, w, hw, -⟩
        · exact Or.inl hnull
        · exact Or.inr ⟨w, hw⟩
      · rw [List.lookup_cons, beq_false_of_ne hkl] at hv
        exact clean_of_lookup hrest hv

/-- An element of a list that has been cleaned has been cleaned. -/
theorem clean_of_mem {v : Val} : ∀ {vs ws : List Val}, cleanList vs = .ok ws → v ∈ vs →
    ∃ w, clean v = .ok w
  | [], _, _, hv => absurd hv List.not_mem_nil
  | u :: vs, ws, h, hv => by
      obtain ⟨w, us, hw, hus, -⟩ := cleanList_cons_ok h
      rcases List.mem_cons.mp hv with heq | hmem
      · exact ⟨w, heq ▸ hw⟩
      · exact clean_of_mem hus hmem

/-- Cleaning a dictionary cleans its items. -/
theorem cleanItems_of_clean {kvs : Items} {w : Val} (h : clean (.dict kvs) = .ok w) :
    ∃ out, cleanItems kvs = .ok out ∧ w = .dict out := by
  rw [clean] at h
  obtain ⟨out, hout, h⟩ := bind_eq_ok.mp h
  exact ⟨out, hout, (pure_eq_ok.mp h).symm⟩

/-! ## Canonical bytes -/

/-- Canonical bytes are the UTF-8 encoding of the text of the cleaned value. -/
theorem canonicalBytes_eq_ok {obj : Val} {b : Bytes} :
    canonicalBytes obj = .ok b ↔ ∃ c, clean obj = .ok c ∧ utf8 (Json.text c) = some b := by
  rw [canonicalBytes, bind_eq_ok]
  refine exists_congr fun c => and_congr_right fun _ => ?_
  cases utf8 (Json.text c) with
  | none =>
      constructor
      · intro h; cases h
      · intro h; cases h
  | some b' => exact pure_eq_ok.trans (Option.some.injEq b' b ▸ Iff.rfl)

/-- **Canonical bytes identify the cleaned value** up to the order of its dictionaries. -/
theorem sorted_clean_eq_of_canonicalBytes_eq {v w : Val} {b : Bytes} (hv : canonicalBytes v = .ok b)
    (hw : canonicalBytes w = .ok b) :
    ∃ c d, clean v = .ok c ∧ clean w = .ok d ∧ Json.sorted c = Json.sorted d := by
  obtain ⟨c, hc, hcb⟩ := canonicalBytes_eq_ok.mp hv
  obtain ⟨d, hd, hdb⟩ := canonicalBytes_eq_ok.mp hw
  exact ⟨c, d, hc, hd, Json.sorted_eq_of_text_eq (plain_of_clean hc) (plain_of_clean hd)
    (utf8_injective hcb hdb)⟩

/-! ## What canonical bytes depend on -/

mutual
/-- The content of a value: null-valued entries are dropped, and tuples are lists. -/
def strip : Val → Val
  | .dict kvs => .dict (stripItems kvs)
  | .list vs => .list (stripList vs)
  | .tuple vs => .list (stripList vs)
  | v => v

/-- `strip`, elementwise. -/
def stripList : List Val → List Val
  | [] => []
  | v :: vs => strip v :: stripList vs

/-- `strip` of every entry that is not null. -/
def stripItems : Items → Items
  | [] => []
  | (k, v) :: kvs => if v = .null then stripItems kvs else (k, strip v) :: stripItems kvs
end

/-- The contents of two values are the same up to the order of their dictionaries. -/
def SameContent (v w : Val) : Prop := Json.sorted (strip v) = Json.sorted (strip w)

mutual
/-- Cleaning leaves the content. -/
theorem strip_of_clean : ∀ {v c : Val}, clean v = .ok c → strip v = c
  | .null, _, h | .bool _, _, h | .int _, _, h | .str _, _, h => by
      rw [clean, Except.ok.injEq] at h
      rw [← h]
      rfl
  | .float _, _, h => by rw [clean] at h; cases h
  | .list vs, c, h => by
      rw [clean] at h
      obtain ⟨ws, hws, h⟩ := bind_eq_ok.mp h
      rw [← pure_eq_ok.mp h, strip, stripList_of_cleanList hws]
  | .tuple vs, c, h => by
      rw [clean] at h
      obtain ⟨ws, hws, h⟩ := bind_eq_ok.mp h
      rw [← pure_eq_ok.mp h, strip, stripList_of_cleanList hws]
  | .dict kvs, c, h => by
      obtain ⟨out, hout, rfl⟩ := cleanItems_of_clean h
      rw [strip, stripItems_of_cleanItems hout]

/-- The same of lists. -/
theorem stripList_of_cleanList : ∀ {vs ws : List Val}, cleanList vs = .ok ws → stripList vs = ws
  | [], _, h => by
      rw [cleanList, Except.ok.injEq] at h
      rw [← h]
      rfl
  | v :: vs, ws, h => by
      obtain ⟨w, us, hw, hus, rfl⟩ := cleanList_cons_ok h
      rw [stripList, strip_of_clean hw, stripList_of_cleanList hus]

/-- The same of dictionaries. -/
theorem stripItems_of_cleanItems : ∀ {kvs out : Items}, cleanItems kvs = .ok out →
    stripItems kvs = out
  | [], _, h => by
      rw [cleanItems, Except.ok.injEq] at h
      rw [← h]
      rfl
  | (k, v) :: kvs, out, h => by
      obtain ⟨rest, hrest, ⟨hnull, rfl⟩ | ⟨hnull, w, hw, rfl⟩⟩ := cleanItems_cons_ok h
      · rw [stripItems, if_pos hnull, stripItems_of_cleanItems hrest]
      · rw [stripItems, if_neg hnull, strip_of_clean hw, stripItems_of_cleanItems hrest]
end

mutual
/-- Plain content can be cleaned. -/
theorem clean_of_plain_strip : ∀ {v : Val}, Json.Plain (strip v) → clean v = .ok (strip v)
  | .null, _ | .bool _, _ | .int _, _ | .str _, _ => rfl
  | .float _, h => h.elim
  | .list vs, h => by rw [clean, cleanList_of_plain_strip h]; rfl
  | .tuple vs, h => by rw [clean, cleanList_of_plain_strip h]; rfl
  | .dict kvs, h => by rw [clean, cleanItems_of_plain_strip h]; rfl

/-- The same of lists. -/
theorem cleanList_of_plain_strip : ∀ {vs : List Val}, Json.PlainList (stripList vs) →
    cleanList vs = .ok (stripList vs)
  | [], _ => rfl
  | v :: vs, h => by
      rw [cleanList, clean_of_plain_strip h.1, cleanList_of_plain_strip h.2]
      rfl

/-- The same of dictionaries. -/
theorem cleanItems_of_plain_strip : ∀ {kvs : Items}, Json.PlainItems (stripItems kvs) →
    cleanItems kvs = .ok (stripItems kvs)
  | [], _ => rfl
  | (k, v) :: kvs, h => by
      by_cases hnull : v = .null
      · rw [stripItems, if_pos hnull] at h ⊢
        rw [hnull, cleanItems, cleanItems_of_plain_strip h]
      · rw [stripItems, if_neg hnull] at h ⊢
        rw [cleanItems_cons hnull, clean_of_plain_strip h.1, cleanItems_of_plain_strip h.2]
        rfl
end

/-- **Canonical bytes show the content**, and nothing else. -/
theorem sameContent_iff {v w : Val} {b : Bytes} (hv : canonicalBytes v = .ok b) :
    SameContent v w ↔ canonicalBytes w = .ok b := by
  constructor
  · intro h
    obtain ⟨c, hc, hb⟩ := canonicalBytes_eq_ok.mp hv
    obtain rfl := strip_of_clean hc
    have hplain : Json.Plain (strip w) := by
      refine Json.plain_of_sorted ?_
      rw [← (show Json.sorted (strip v) = Json.sorted (strip w) from h)]
      exact Json.plain_sorted (plain_of_clean hc)
    refine canonicalBytes_eq_ok.mpr ⟨strip w, clean_of_plain_strip hplain, ?_⟩
    rwa [Json.text_eq_dumps_sorted, h, ← Json.text_eq_dumps_sorted] at hb
  · intro hw
    obtain ⟨c, d, hc, hd, hsorted⟩ := sorted_clean_eq_of_canonicalBytes_eq hv hw
    rw [SameContent, strip_of_clean hc, strip_of_clean hd]
    exact hsorted

end OpenWright.Canonical
