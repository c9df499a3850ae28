import OpenWright.CanonicalLimits
import OpenWright.Go.Value

/-! # Canonical bytes in Go

The evidence core written in Go has an encoder of its own, which has to give the canonical bytes of
the Python core byte for byte.

* **`canonicalBytes_goVal`** — on every JSON value without floats the two functions are the same, in
  whatever order Go goes over its maps.
* **`canonicalBytesWithin_goVal_iff`** — the limits of the Python interpreter are the only thing that
  keeps the two encoders apart. -/

namespace OpenWright.Go

open Python Python.Val Canonical

/-! ## The encoder -/

/-- The errors of `encode`. -/
inductive EncodeErr
  /-- `floats are not allowed in canonical evidence: ...`, with the number. -/
  | float (shown : GoVal)
  /-- `unsupported type ... in canonical encoding`, with the type. -/
  | unsupported (type : GoString)

/-- A rune inside a string literal. -/
def encodeRune (r : CodePoint) : Bytes :=
  if r = cp 34 then goLit "\\\""
  else if r = cp 92 then goLit "\\\\"
  else if r = cp 8 then goLit "\\b"
  else if r = cp 12 then goLit "\\f"
  else if r = cp 10 then goLit "\\n"
  else if r = cp 13 then goLit "\\r"
  else if r = cp 9 then goLit "\\t"
  else if r.val < 0x20 then
    -- `\u%04x`
    goLit "\\u" ++ ofStr [hexDigit (r.val / 0x1000 % 16), hexDigit (r.val / 0x100 % 16),
      hexDigit (r.val / 0x10 % 16), hexDigit (r.val % 16)]
  else writeRune r

/-- `encodeString`. -/
def encodeString (s : GoString) : Bytes := goLit "\"" ++ (runes s).flatMap encodeRune ++ goLit "\""

/-- What is written between the elements of a slice or the entries of a map. -/
def commaSeparated (bs : List Bytes) : Bytes := (goLit ",").intercalate bs

/-- An entry of a map. -/
def encodeEntry (kb : GoString × Except EncodeErr Bytes) : Except EncodeErr Bytes := do
  let b ← kb.2
  return encodeString kb.1 ++ goLit ":" ++ b

/-- Whether a `json.Number` is spelled as a float: `strings.ContainsAny(s, ".eE")`. -/
def spelledFloat (s : GoString) : Bool := s.any fun a => a ∈ goLit ".eE"

mutual
/-- `encode`. -/
def encode : GoVal → Except EncodeErr Bytes
  | .nil => .ok (goLit "null")
  | .bool b => .ok (if b then goLit "true" else goLit "false")
  | .string s => .ok (encodeString s)
  | .number s => if spelledFloat s then .error (.float (.number s)) else .ok s
  | .float64 x => .error (.float (.float64 x))
  | .int z => .ok (ofStr (Json.intText z))
  | .int64 z => .ok (ofStr (Json.intText z))
  | .slice vs => do
    let bs ← encodeSlice vs
    return goLit "[" ++ commaSeparated bs ++ goLit "]"
  | .map kvs => do
    -- the keys are sorted before anything is encoded, so the first error is that of the first key
    let bs ← (sortEntries (encodeEntries kvs)).mapM encodeEntry
    return goLit "\x7b" ++ commaSeparated bs ++ goLit "\x7d"
  | .other type => .error (.unsupported type)

/-- `encode` of each element. -/
def encodeSlice : List GoVal → Except EncodeErr (List Bytes)
  | [] => .ok []
  | v :: vs => do
    let b ← encode v
    let bs ← encodeSlice vs
    return b :: bs

/-- `encode` of each entry that is not nil. -/
def encodeEntries : GoItems → List (GoString × Except EncodeErr Bytes)
  | [] => []
  | (_, .nil) :: kvs => encodeEntries kvs
  | (k, v) :: kvs => (k, encode v) :: encodeEntries kvs
end

/-- `CanonicalBytes`. -/
def canonicalBytes (v : GoVal) : Except EncodeErr Bytes := encode v

/-! ## Strings -/

/-- Both encoders write a control character alike. -/
theorem encodeRune_control : ∀ n < 0x20, encodeRune (cp n) = ofStr (Json.escapeChar (cp n)) := by
  decide +kernel

/-- **Both encoders write a character alike.** -/
theorem encodeRune_eq {c : CodePoint} (h : c.val < 0xD800 ∨ 0xE000 ≤ c.val) :
    encodeRune c = ofStr (Json.escapeChar c) := by
  by_cases hcontrol : c.val < 0x20
  · have hc := encodeRune_control c.val hcontrol
    rwa [show cp c.val = c from Fin.ofNat_val_eq_self c] at hc
  · have hne : ∀ n < 0x20, c ≠ cp n := by
      rintro n hn rfl
      have hval : (cp n).val = n := Nat.mod_eq_of_lt (by omega)
      omega
    unfold encodeRune Json.escapeChar
    by_cases hquote : c = cp 34
    · rw [if_pos hquote, if_pos hquote]
      rfl
    · by_cases hslash : c = cp 92
      · rw [if_neg hquote, if_neg hquote, if_pos hslash, if_pos hslash]
        rfl
      · rw [if_neg hquote, if_neg hslash, if_neg (hne 8 (by decide)), if_neg (hne 12 (by decide)),
          if_neg (hne 10 (by decide)), if_neg (hne 13 (by decide)), if_neg (hne 9 (by decide)),
          if_neg hcontrol, if_neg hquote, if_neg hslash, if_neg (hne 10 (by decide)),
          if_neg (hne 13 (by decide)), if_neg (hne 9 (by decide)), if_neg (hne 12 (by decide)),
          if_neg (hne 8 (by decide)), if_neg hcontrol,
          ofStr_cons (scalar_cons.mpr ⟨h, scalar_nil⟩), ofStr_nil, List.append_nil]

/-- The text of a string literal, escaped character by character. -/
theorem flatMap_encodeRune {s : Str} (h : Scalar s) :
    s.flatMap encodeRune = ofStr (s.flatMap Json.escapeChar) ∧
      Scalar (s.flatMap Json.escapeChar) := by
  induction s with
  | nil => exact ⟨rfl, scalar_nil⟩
  | cons c s ih =>
      rw [scalar_cons] at h
      obtain ⟨hbytes, hscalar⟩ := ih h.2
      have hc : Scalar (Json.escapeChar c) := by
        have hquoted := scalar_strText (scalar_cons.mpr ⟨h.1, scalar_nil⟩)
        rw [Json.strText, List.flatMap_singleton] at hquoted
        exact (scalar_append.mp (scalar_cons.mp hquoted).2).1
      rw [List.flatMap_cons, List.flatMap_cons, encodeRune_eq h.1, hbytes, ofStr_append hc hscalar]
      exact ⟨rfl, scalar_append.mpr ⟨hc, hscalar⟩⟩

/-- **Both encoders write a string alike.** -/
theorem encodeString_ofStr {s : Str} (h : Scalar s) :
    encodeString (ofStr s) = ofStr (Json.strText s) := by
  obtain ⟨hbytes, hscalar⟩ := flatMap_encodeRune h
  have hquote : Scalar [cp 34] := by decide
  rw [encodeString, runes_utf8 h, hbytes, Json.strText, show cp 34 :: (s.flatMap Json.escapeChar
    ++ [cp 34]) = [cp 34] ++ s.flatMap Json.escapeChar ++ [cp 34] from rfl,
    ofStr_append (scalar_append.mpr ⟨hquote, hscalar⟩) hquote, ofStr_append hquote hscalar]
  rfl

/-! ## Numbers -/

/-- An integer is not spelled as a float. -/
theorem spelledFloat_intText (z : Int) : spelledFloat (ofStr (Json.intText z)) = false := by
  -- only digits and a minus
  have hdigits : ∀ c ∈ Json.intText z, (48 ≤ c.val ∧ c.val < 58) ∨ c.val = 45 := by
    have hnat : ∀ c ∈ Json.natText z.natAbs, (48 ≤ c.val ∧ c.val < 58) ∨ c.val = 45 :=
      fun c hc => Or.inl (of_decide_eq_true ((Json.natText_digits z.natAbs).1 c hc))
    intro c hc
    rw [Json.intText] at hc
    split at hc
    · rcases List.mem_cons.mp hc with rfl | hmem
      · exact Or.inr rfl
      · exact hnat c hmem
    · exact hnat c hc
  -- so none of the bytes that `strings.ContainsAny` looks for
  have hnot : ∀ n < 128, n = 46 ∨ n = 101 ∨ n = 69 → UInt8.ofNat n ∉ ofStr (Json.intText z) :=
    fun n hn hcase => ascii_not_mem_utf8 hn (utf8_ofStr (scalar_intText z)) fun c hc => by
      have := hdigits c hc
      omega
  refine List.any_eq_false.mpr fun a ha hmem => ?_
  have hcases : a = UInt8.ofNat 46 ∨ a = UInt8.ofNat 101 ∨ a = UInt8.ofNat 69 := by
    rw [decide_eq_true_eq, show goLit ".eE" = [UInt8.ofNat 46, UInt8.ofNat 101, UInt8.ofNat 69] by
      decide +kernel] at hmem
    simpa using hmem
  rcases hcases with rfl | rfl | rfl
  · exact hnot 46 (by decide) (by decide) ha
  · exact hnot 101 (by decide) (by decide) ha
  · exact hnot 69 (by decide) (by decide) ha

/-! ## Slices and maps -/

/-- Both encoders put the same commas between the same texts. -/
theorem commaSeparated_map : ∀ {ts : List Str}, (∀ t ∈ ts, Scalar t) →
    commaSeparated (ts.map ofStr) = ofStr (Json.commaJoin ts)
  | [], _ => rfl
  | [t], _ => by simp [commaSeparated, Json.commaJoin]
  | t :: u :: ts, h => by
      have hrest : ∀ v ∈ u :: ts, Scalar v := fun v hv => h v (List.mem_cons_of_mem t hv)
      have hcomma : Scalar (cp 44 :: Json.commaJoin (u :: ts)) :=
        scalar_cons.mpr ⟨by decide, scalar_commaJoin hrest⟩
      have ih := commaSeparated_map hrest
      rw [Json.commaJoin_cons_cons, ofStr_append (h t List.mem_cons_self) hcomma,
        ofStr_cons hcomma, ← ih, commaSeparated, commaSeparated, List.map_cons, List.map_cons,
        List.intercalate_cons_cons, List.append_assoc]
      rfl

/-- Both encoders go over the entries of a dictionary in the same order. -/
theorem sortEntries_ofStr {β γ : Type} (f : β → γ) {kvs : List (Str × β)}
    (h : ∀ kv ∈ kvs, Scalar kv.1) :
    sortEntries (kvs.map fun kv => (ofStr kv.1, f kv.2))
      = (sortKeys kvs).map fun kv => (ofStr kv.1, f kv.2) :=
  (List.map_insertionSort (fun a b : Str × β => a.1 ≤ b.1)
    (fun a b : GoString × γ => order a.1 ≤ order b.1) (fun kv => (ofStr kv.1, f kv.2)) kvs
    fun a ha b hb => (bytes_le_iff (h a ha) (h b hb)).symm).symm

/-- An entry is written as in Python. -/
theorem encodeEntry_ofStr {kt : Str × Str} (hk : Scalar kt.1) (ht : Scalar kt.2) :
    encodeEntry (ofStr kt.1, .ok (ofStr kt.2)) = .ok (ofStr (Json.memberText kt)) := by
  have hcolon : Scalar (cp 58 :: kt.2) := scalar_cons.mpr ⟨by decide, ht⟩
  rw [Json.memberText, ofStr_append (scalar_strText hk) hcolon, ofStr_cons hcolon,
    ← encodeString_ofStr hk, ← List.append_assoc]
  rfl

/-- What is enclosed in two ASCII characters. -/
theorem ofStr_enclose {a b : CodePoint} {s : Str} (ha : a.val < 0xD800) (hb : b.val < 0xD800)
    (hs : Scalar s) : ofStr (a :: (s ++ [b])) = ofStr [a] ++ ofStr s ++ ofStr [b] := by
  have ha' : Scalar [a] := scalar_cons.mpr ⟨Or.inl ha, scalar_nil⟩
  have hb' : Scalar [b] := scalar_cons.mpr ⟨Or.inl hb, scalar_nil⟩
  rw [show a :: (s ++ [b]) = [a] ++ s ++ [b] from rfl,
    ofStr_append (scalar_append.mpr ⟨ha', hs⟩) hb', ofStr_append ha' hs]

/-! ## Values -/

/-- Only `None` is nil in Go. -/
theorem encodeEntries_cons {k : GoString} {v : Val} (hv : v ≠ .null) (kvs : GoItems) :
    encodeEntries ((k, goVal v) :: kvs) = (k, encode (goVal v)) :: encodeEntries kvs := by
  cases v with
  | null => exact absurd rfl hv
  | _ => rfl

mutual
/-- **Go encodes a value as Python encodes what is left of it** after cleaning. -/
theorem encode_goVal : ∀ {v c : Val}, Encodable v → clean v = .ok c →
    encode (goVal v) = .ok (ofStr (Json.text c))
  | .null, _, _, h | .bool true, _, _, h | .bool false, _, _, h => by
      rw [clean, Except.ok.injEq] at h
      rw [← h]
      rfl
  | .int z, _, _, h => by
      -- the text of an integer has no point and no exponent, so Go takes it for an integer
      rw [clean, Except.ok.injEq] at h
      rw [← h, goVal, encode, spelledFloat_intText]
      rfl
  | .str s, _, hv, h => by
      rw [clean, Except.ok.injEq] at h
      rw [← h, goVal, encode, encodeString_ofStr hv]
      rfl
  | .float _, _, hv, _ => hv.elim
  | .list vs, c, hv, h | .tuple vs, c, hv, h => by
      rw [clean] at h
      obtain ⟨ws, hws, h⟩ := bind_eq_ok.mp h
      obtain ⟨us, hus, hw⟩ := cleanList_of_encodable hv
      -- Python leaves out no element of a list, so the texts are joined in one order
      obtain rfl : us = ws := Except.ok.inj (hus.symm.trans hws)
      have hscalar := scalar_textList hw
      rw [← pure_eq_ok.mp h, goVal, encode, encodeSlice_goVals hv hws, Json.text,
        ofStr_enclose (by decide) (by decide) (scalar_commaJoin hscalar),
        ← commaSeparated_map hscalar]
      rfl
  | .dict kvs, c, hv, h => by
      obtain ⟨out, hout, rfl⟩ := cleanItems_of_clean h
      -- both leave out the same members, and keys sort alike as code points and as UTF-8 bytes
      obtain ⟨out', hout', hw⟩ := cleanItems_of_encodable hv
      obtain rfl : out' = out := Except.ok.inj (hout'.symm.trans hout)
      have hitems := scalar_textItems hw
      have hsorted : ∀ kt ∈ sortKeys (Json.textItems out'), Scalar kt.1 ∧ Scalar kt.2 :=
        fun kt hkt => hitems kt (mem_sortKeys.mp hkt)
      have hmembers : ∀ t ∈ (sortKeys (Json.textItems out')).map Json.memberText, Scalar t := by
        intro t ht
        obtain ⟨kt, hkt, rfl⟩ := List.mem_map.mp ht
        exact scalar_append.mpr ⟨scalar_strText (hsorted kt hkt).1,
          scalar_cons.mpr ⟨by decide, (hsorted kt hkt).2⟩⟩
      have hparts : (sortEntries (encodeEntries (goItems kvs))).mapM encodeEntry
          = .ok (((sortKeys (Json.textItems out')).map Json.memberText).map ofStr) := by
        rw [encodeEntries_goItems hv hout,
          sortEntries_ofStr (fun t => (Except.ok (ofStr t) : Except EncodeErr Bytes))
            fun kt hkt => (hitems kt hkt).1, List.mapM_map, List.map_map]
        exact mapM_eq_ok_map fun kt hkt => encodeEntry_ofStr (hsorted kt hkt).1 (hsorted kt hkt).2
      rw [goVal, encode, hparts, Json.text,
        ofStr_enclose (by decide) (by decide) (scalar_commaJoin hmembers),
        ← commaSeparated_map hmembers]
      rfl

/-- The same of slices. -/
theorem encodeSlice_goVals : ∀ {vs ws : List Val}, EncodableList vs → cleanList vs = .ok ws →
    encodeSlice (goVals vs) = .ok ((Json.textList ws).map ofStr)
  | [], _, _, h => by
      rw [cleanList, Except.ok.injEq] at h
      rw [← h]
      rfl
  | v :: vs, ws, hv, h => by
      obtain ⟨w, us, hw, hus, rfl⟩ := cleanList_cons_ok h
      rw [goVals, encodeSlice, encode_goVal hv.1 hw, encodeSlice_goVals hv.2 hus]
      rfl

/-- The same of maps. -/
theorem encodeEntries_goItems : ∀ {kvs out : Items}, EncodableItems kvs →
    cleanItems kvs = .ok out →
    encodeEntries (goItems kvs) = (Json.textItems out).map fun kt => (ofStr kt.1, .ok (ofStr kt.2))
  | [], _, _, h => by
      rw [cleanItems, Except.ok.injEq] at h
      rw [← h]
      rfl
  | (k, v) :: kvs, out, hv, h => by
      obtain ⟨rest, hrest, ⟨rfl, rfl⟩ | ⟨hnull, w, hw, rfl⟩⟩ := cleanItems_cons_ok h
      · rw [goItems, goVal, encodeEntries, encodeEntries_goItems hv.2.2 hrest]
      · rw [goItems, encodeEntries_cons hnull, encode_goVal hv.2.1 hw,
          encodeEntries_goItems hv.2.2 hrest]
        rfl
end

mutual
/-- A value is encodable when it is so with its dictionaries sorted. -/
theorem encodable_sorted : ∀ {v : Val}, Encodable (Json.sorted v) ↔ Encodable v
  | .null | .bool _ | .int _ | .float _ | .str _ => Iff.rfl
  | .list vs | .tuple vs => encodableList_sortedList
  | .dict kvs => by
      rw [Json.sorted, Canonical.Encodable, Canonical.Encodable, ← @encodableItems_sortedItems kvs,
        encodableItems_iff, encodableItems_iff]
      exact forall_congr' fun kv => imp_congr_left (sortKeys_perm (Json.sortedItems kvs)).mem_iff

/-- The same of lists. -/
theorem encodableList_sortedList : ∀ {vs : List Val},
    EncodableList (Json.sortedList vs) ↔ EncodableList vs
  | [] => Iff.rfl
  | _ :: _ => and_congr encodable_sorted encodableList_sortedList

/-- The same of dictionaries. -/
theorem encodableItems_sortedItems : ∀ {kvs : Items},
    EncodableItems (Json.sortedItems kvs) ↔ EncodableItems kvs
  | [] => Iff.rfl
  | (_, _) :: _ => and_congr_right fun _ => and_congr encodable_sorted encodableItems_sortedItems
end

/-- **The two encoders are one function** on every value without floats, whatever the order in which
Go goes over the maps of the value. -/
theorem canonicalBytes_goVal {v w : Val} (hv : Encodable v) (hdistinct : distinct v = true)
    (hdistinct' : distinct w = true) (h : JsonEq v w) :
    ∃ b, Canonical.canonicalBytes v = .ok b ∧ canonicalBytes (goVal w) = .ok b := by
  obtain ⟨b, hb⟩ := exists_canonicalBytes hv
  have hw : Encodable w := by
    rw [← encodable_sorted, ← (jsonEq_iff_sorted hdistinct hdistinct').mp h, encodable_sorted]
    exact hv
  have hb' : Canonical.canonicalBytes w = .ok b :=
    (sameContent_iff hb).mp (sameContent_of_jsonEq hdistinct hdistinct' h)
  obtain ⟨c, hc, hutf8⟩ := canonicalBytes_eq_ok.mp hb'
  refine ⟨b, hb, ?_⟩
  rw [canonicalBytes, encode_goVal hw hc, ofStr, hutf8, Option.getD_some]

/-- **The two encoders return the same bytes** on a value without floats exactly where the value is
within the limits of the Python interpreter. -/
theorem canonicalBytesWithin_goVal_iff {it : Interpreter} {v w : Val} (hv : Encodable v)
    (hdistinct : distinct v = true) (hdistinct' : distinct w = true) (h : JsonEq v w) :
    (∃ b, canonicalBytesWithin it v = .ok b ∧ canonicalBytes (goVal w) = .ok b) ↔ it.Holds v := by
  obtain ⟨b, hb, hgo⟩ := canonicalBytes_goVal hv hdistinct hdistinct' h
  constructor
  · rintro ⟨b', hb', -⟩
    exact (canonicalBytesWithin_eq_ok.mp hb').2
  · intro hwithin
    exact ⟨b, canonicalBytesWithin_eq_ok.mpr ⟨hb, hwithin⟩, hgo⟩

/-- CPython 3.11 with the limits it starts with, ten frames into a program. -/
def cpython : Interpreter := { frames := 990, comprehension := 1, encoder := 987, digits := 4300 }

/-- A dictionary with a null entry, a nested list and an integer beyond every machine word, and the
map of Go in another order. -/
theorem canonicalBytesWithin_goVal_sample : ∃ b,
    canonicalBytesWithin cpython (.dict [(lit "ü", .int (-2 ^ 70)),
      (lit "a\n", .list [.null, .list [.bool true]]), (lit "b", .null)]) = .ok b ∧
    canonicalBytes (goVal (.dict [(lit "b", .null),
      (lit "a\n", .list [.null, .list [.bool true]]), (lit "ü", .int (-2 ^ 70))])) = .ok b :=
  (canonicalBytesWithin_goVal_iff (by simp [Canonical.Encodable, EncodableItems, EncodableList])
    (by decide) (by decide)
    ((jsonEq_iff_sorted (by decide) (by decide)).mpr (by decide))).mpr
    ⟨by decide, by decide, by decide +kernel⟩

/-- Ten to the power of 4300 has a digit too many for Python, while Go writes all of them. -/
theorem canonicalBytesWithin_goVal_not : ¬ ∃ b,
    canonicalBytesWithin cpython (.int (10 ^ 4300)) = .ok b ∧
    canonicalBytes (goVal (.int (10 ^ 4300))) = .ok b := by
  rintro ⟨b, hb, -⟩
  refine not_converts_pow (by decide : cpython.digits ≠ 0) ?_
  exact (canonicalBytesWithin_eq_ok.mp hb).2.digits _ (List.mem_singleton.mpr rfl)

end OpenWright.Go
