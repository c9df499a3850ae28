import OpenWright.Canonical
import OpenWright.Python.Dump
import OpenWright.Python.Base64
import OpenWright.Python.Text

/-! # What has canonical bytes

Canonical bytes are refused to floats and to strings with lone surrogates, and to nothing else. The
strings the program makes itself (literals, hexadecimal and base64 text, numbers) have no surrogates.

* **`exists_canonicalBytes`** — an encodable value has canonical bytes.
* **`exists_canonicalBytes_iff`** — canonical bytes are those of the content, which has to be
  encodable. -/

namespace OpenWright.Canonical

open Python Hash

/-! ## Text that UTF-8 encodes -/

/-- Text without surrogates. -/
def Scalar (s : Str) : Prop := ∀ c ∈ s, c.val < 0xD800 ∨ 0xE000 ≤ c.val

instance (s : Str) : Decidable (Scalar s) :=
  List.decidableBAll (fun c : CodePoint => c.val < 0xD800 ∨ 0xE000 ≤ c.val) s

/-- Empty text is text in UTF-8. -/
@[simp] theorem scalar_nil : Scalar [] := fun _ hc => absurd hc List.not_mem_nil

/-- Text in UTF-8 has no surrogate in front, -/
@[simp] theorem scalar_cons {c : CodePoint} {s : Str} :
    Scalar (c :: s) ↔ (c.val < 0xD800 ∨ 0xE000 ≤ c.val) ∧ Scalar s :=
  List.forall_mem_cons

/-- and none in its parts. -/
@[simp] theorem scalar_append {s t : Str} : Scalar (s ++ t) ↔ Scalar s ∧ Scalar t :=
  List.forall_mem_append

/-- Text of ASCII characters has no surrogates. -/
theorem scalar_of_ascii {s : Str} (h : ∀ c ∈ s, c.val < 128) : Scalar s :=
  fun c hc => Or.inl ((h c hc).trans (by decide))

/-- **A literal has no surrogates**: its characters are Unicode scalar values. -/
@[simp] theorem scalar_lit (s : String) : Scalar (lit s) := by
  intro c hc
  rw [lit_eq] at hc
  obtain ⟨a, -, rfl⟩ := List.mem_map.mp hc
  have hvalid : a.toNat < 0xD800 ∨ 0xDFFF < a.toNat ∧ a.toNat < 0x110000 := a.valid
  have hval : (cp a.toNat).val = a.toNat := Nat.mod_eq_of_lt (by omega)
  omega

/-- Text without surrogates is encoded. -/
theorem exists_utf8 {s : Str} (h : Scalar s) : ∃ b, utf8 s = some b := by
  induction s with
  | nil => exact ⟨[], rfl⟩
  | cons c s ih =>
      rw [scalar_cons] at h
      obtain ⟨b, hb⟩ := ih h.2
      obtain ⟨a, ha⟩ : ∃ a, utf8Char c = some a := by
        unfold utf8Char
        split_ifs with h₁ h₂ h₃ h₄
        · exact ⟨_, rfl⟩
        · exact ⟨_, rfl⟩
        · omega
        · exact ⟨_, rfl⟩
        · exact ⟨_, rfl⟩
      exact ⟨a ++ b, by rw [utf8, ha, hb]; rfl⟩

/-- Hexadecimal text is ASCII. -/
@[simp] theorem scalar_hex (b : Bytes) : Scalar (hex b) := by
  have hdigit : ∀ n < 16, (hexDigit n).val < 0xD800 := by decide
  induction b with
  | nil => exact scalar_nil
  | cons a b ih =>
      have ha := a.toNat_lt
      rw [hex, scalar_cons, scalar_cons]
      exact ⟨Or.inl (hdigit _ (by omega)), Or.inl (hdigit _ (by omega)), ih⟩

/-- Base64 text is ASCII. -/
@[simp] theorem scalar_b64encode (b : Bytes) : Scalar (b64encode b) :=
  scalar_of_ascii (b64encode_ascii b)

/-- A number is ASCII. -/
theorem scalar_intText (z : Int) : Scalar (Json.intText z) := by
  have hnat : Scalar (Json.natText z.natAbs) := by
    intro c hc
    have hdigit : 48 ≤ c.val ∧ c.val < 58 := by
      simpa [Json.isDigit] using (Json.natText_digits z.natAbs).1 c hc
    omega
  unfold Json.intText
  split
  · exact scalar_cons.mpr ⟨by decide, hnat⟩
  · exact hnat

/-- A string literal has the surrogates of its string. -/
theorem scalar_strText {s : Str} (h : Scalar s) : Scalar (Json.strText s) := by
  have hdigit : ∀ n < 16, (hexDigit n).val < 0xD800 := by decide
  have hescape : ∀ c, (c.val < 0xD800 ∨ 0xE000 ≤ c.val) → Scalar (Json.escapeChar c) := by
    intro c hc
    unfold Json.escapeChar
    split_ifs with h₁ h₂ h₃ h₄ h₅ h₆ h₇ hcontrol
    iterate 7 decide
    · -- the hexadecimal escape
      have hfour : Scalar [cp 92, cp 117, cp 48, cp 48] := by decide
      refine scalar_append.mpr ⟨hfour, scalar_cons.mpr ⟨?_, scalar_cons.mpr ⟨?_, scalar_nil⟩⟩⟩
      · exact Or.inl (hdigit _ (by omega))
      · exact Or.inl (hdigit _ (by omega))
    · exact scalar_cons.mpr ⟨hc, scalar_nil⟩
  have hbody : Scalar (s.flatMap Json.escapeChar) := by
    intro c hc
    obtain ⟨d, hd, hcd⟩ := List.mem_flatMap.mp hc
    exact hescape d (h d hd) c hcd
  exact scalar_cons.mpr ⟨by decide, scalar_append.mpr ⟨hbody, by decide⟩⟩

/-- Commas are ASCII. -/
theorem scalar_commaJoin : ∀ {ts : List Str}, (∀ t ∈ ts, Scalar t) → Scalar (Json.commaJoin ts)
  | [], _ => scalar_nil
  | [t], h => h t List.mem_cons_self
  | t :: u :: ts, h => by
      rw [Json.commaJoin_cons_cons]
      exact scalar_append.mpr ⟨h t List.mem_cons_self, scalar_cons.mpr ⟨by decide,
        scalar_commaJoin fun w hw => h w (List.mem_cons_of_mem t hw)⟩⟩

/-- Brackets are ASCII. -/
theorem scalar_enclose {a b : CodePoint} {s : Str} (ha : a.val < 0xD800) (hb : b.val < 0xD800)
    (hs : Scalar s) : Scalar (a :: (s ++ [b])) :=
  scalar_cons.mpr ⟨Or.inl ha, scalar_append.mpr ⟨hs, scalar_cons.mpr ⟨Or.inl hb, scalar_nil⟩⟩⟩

/-! ## Encodable values -/

mutual
/-- A value without floats whose strings have no surrogates. -/
def Encodable : Val → Prop
  | .null | .bool _ | .int _ => True
  | .float _ => False
  | .str s => Scalar s
  | .list vs | .tuple vs => EncodableList vs
  | .dict kvs => EncodableItems kvs

/-- Every element is encodable. -/
def EncodableList : List Val → Prop
  | [] => True
  | v :: vs => Encodable v ∧ EncodableList vs

/-- Every key and every bound value is encodable. -/
def EncodableItems : Items → Prop
  | [] => True
  | (k, v) :: kvs => Scalar k ∧ Encodable v ∧ EncodableItems kvs
end

/-- A list can be encoded where each element can. -/
theorem encodableList_iff {vs : List Val} : EncodableList vs ↔ ∀ v ∈ vs, Encodable v := by
  induction vs with
  | nil => simp [EncodableList]
  | cons v vs ih => rw [EncodableList, List.forall_mem_cons, ih]

/-- A dictionary can be encoded where each key and value can. -/
theorem encodableItems_iff {kvs : Items} :
    EncodableItems kvs ↔ ∀ kv ∈ kvs, Scalar kv.1 ∧ Encodable kv.2 := by
  induction kvs with
  | nil => simp [EncodableItems]
  | cons kv kvs ih => rw [EncodableItems, List.forall_mem_cons, ih, and_assoc]

mutual
/-- An encodable value is cleaned into an encodable value. -/
theorem clean_of_encodable : ∀ {v : Val}, Encodable v → ∃ w, clean v = .ok w ∧ Encodable w
  | .null, h | .bool _, h | .int _, h | .str _, h => ⟨_, rfl, h⟩
  | .float _, h => h.elim
  | .list vs, h | .tuple vs, h => by
      obtain ⟨ws, hws, hw⟩ := cleanList_of_encodable h
      exact ⟨.list ws, by rw [clean, hws]; rfl, hw⟩
  | .dict kvs, h => by
      obtain ⟨out, hout, hw⟩ := cleanItems_of_encodable h
      exact ⟨.dict out, by rw [clean, hout]; rfl, hw⟩

/-- The same of lists. -/
theorem cleanList_of_encodable : ∀ {vs : List Val}, EncodableList vs →
    ∃ ws, cleanList vs = .ok ws ∧ EncodableList ws
  | [], _ => ⟨[], rfl, trivial⟩
  | v :: vs, h => by
      obtain ⟨w, hw, hv⟩ := clean_of_encodable h.1
      obtain ⟨ws, hws, hvs⟩ := cleanList_of_encodable h.2
      exact ⟨w :: ws, by rw [cleanList, hw, hws]; rfl, hv, hvs⟩

/-- The same of dictionaries. -/
theorem cleanItems_of_encodable : ∀ {kvs : Items}, EncodableItems kvs →
    ∃ out, cleanItems kvs = .ok out ∧ EncodableItems out
  | [], _ => ⟨[], rfl, trivial⟩
  | (k, v) :: kvs, h => by
      obtain ⟨out, hout, hkvs⟩ := cleanItems_of_encodable h.2.2
      by_cases hnull : v = .null
      · exact ⟨out, by rw [hnull, cleanItems, hout], hkvs⟩
      · obtain ⟨w, hw, hv⟩ := clean_of_encodable h.2.1
        exact ⟨(k, w) :: out, by rw [cleanItems_cons hnull, hw, hout]; rfl, h.1, hv, hkvs⟩
end

mutual
/-- The text of an encodable value has no surrogates. -/
theorem scalar_text : ∀ {v : Val}, Encodable v → Scalar (Json.text v)
  | .null, _ | .bool true, _ | .bool false, _ => scalar_lit _
  | .int z, _ => scalar_intText z
  | .float _, h => h.elim
  | .str _, h => scalar_strText h
  | .list vs, h | .tuple vs, h =>
      scalar_enclose (by decide) (by decide) (scalar_commaJoin (scalar_textList h))
  | .dict kvs, h => by
      refine scalar_enclose (by decide) (by decide) (scalar_commaJoin fun t ht => ?_)
      obtain ⟨kt, hkt, rfl⟩ := List.mem_map.mp ht
      obtain ⟨hk, hv⟩ := scalar_textItems h kt (mem_sortKeys.mp hkt)
      exact scalar_append.mpr ⟨scalar_strText hk, scalar_cons.mpr ⟨by decide, hv⟩⟩

/-- The same of lists. -/
theorem scalar_textList : ∀ {vs : List Val}, EncodableList vs → ∀ t ∈ Json.textList vs, Scalar t
  | [], _ => fun _ ht => absurd ht List.not_mem_nil
  | _ :: _, h => List.forall_mem_cons.mpr ⟨scalar_text h.1, scalar_textList h.2⟩

/-- The same of dictionaries. -/
theorem scalar_textItems : ∀ {kvs : Items}, EncodableItems kvs →
    ∀ kt ∈ Json.textItems kvs, Scalar kt.1 ∧ Scalar kt.2
  | [], _ => fun _ ht => absurd ht List.not_mem_nil
  | (_, _) :: _, h => List.forall_mem_cons.mpr ⟨⟨h.1, scalar_text h.2.1⟩, scalar_textItems h.2.2⟩
end

mutual
/-- Dumping leaves a value encodable. -/
theorem encodable_jsonMode : ∀ {v : Val}, Encodable v → Encodable (Val.jsonMode v)
  | .null, h | .bool _, h | .int _, h | .str _, h => h
  | .float _, h => h.elim
  | .list _, h | .tuple _, h => encodableList_jsonModeList h
  | .dict _, h => encodableItems_jsonModeItems h

/-- The same of lists. -/
theorem encodableList_jsonModeList : ∀ {vs : List Val}, EncodableList vs →
    EncodableList (Val.jsonModeList vs)
  | [], _ => trivial
  | _ :: _, h => ⟨encodable_jsonMode h.1, encodableList_jsonModeList h.2⟩

/-- The same of dictionaries. -/
theorem encodableItems_jsonModeItems : ∀ {kvs : Items}, EncodableItems kvs →
    EncodableItems (Val.jsonModeItems kvs)
  | [], _ => trivial
  | (_, _) :: _, h => ⟨h.1, encodable_jsonMode h.2.1, encodableItems_jsonModeItems h.2.2⟩
end

/-- **An encodable value has canonical bytes.** -/
theorem exists_canonicalBytes {v : Val} (h : Encodable v) : ∃ b, canonicalBytes v = .ok b := by
  obtain ⟨w, hw, hencodable⟩ := clean_of_encodable h
  obtain ⟨b, hb⟩ := exists_utf8 (scalar_text hencodable)
  exact ⟨b, canonicalBytes_eq_ok.mpr ⟨w, hw, hb⟩⟩

/-- An encodable value has a content hash, itself without surrogates. -/
theorem exists_contentHash {v : Val} (h : Encodable v) :
    ∃ hash, contentHash v = .ok hash ∧ Scalar hash := by
  obtain ⟨b, hb⟩ := exists_canonicalBytes h
  refine ⟨lit "sha256:" ++ sha256Hex b, by rw [contentHash, hb]; rfl, ?_⟩
  exact scalar_append.mpr ⟨scalar_lit _, scalar_hex _⟩

/-! ## What is refused -/

/-- What UTF-8 encodes has no surrogates. -/
theorem scalar_of_utf8 : ∀ {s : Str} {b : Bytes}, utf8 s = some b → Scalar s
  | [], _, _ => scalar_nil
  | c :: s, _, h => by
      obtain ⟨x, t, hx, ht, -⟩ := utf8_cons_eq_some.mp h
      refine scalar_cons.mpr ⟨?_, scalar_of_utf8 ht⟩
      by_contra hc
      unfold utf8Char at hx
      rw [if_neg (by omega), if_neg (by omega), if_pos (by omega), if_pos (by omega)] at hx
      cases hx

/-- A string literal shows the surrogates of its string. -/
theorem scalar_of_strText {s : Str} (h : Scalar (Json.strText s)) : Scalar s := by
  intro c hc
  by_contra hsurrogate
  have hescape : Json.escapeChar c = [c] := by
    have hne : ∀ n < 0xD800, c ≠ cp n := by
      rintro n hn rfl
      have hval : (cp n).val = n := Nat.mod_eq_of_lt (by omega)
      omega
    unfold Json.escapeChar
    simp only [hne _ (by decide : 34 < 0xD800), hne _ (by decide : 92 < 0xD800),
      hne _ (by decide : 10 < 0xD800), hne _ (by decide : 13 < 0xD800),
      hne _ (by decide : 9 < 0xD800), hne _ (by decide : 12 < 0xD800),
      hne _ (by decide : 8 < 0xD800), if_false]
    exact if_neg (by omega)
  have hmem : c ∈ Json.strText s := by
    refine List.mem_cons_of_mem _ (List.mem_append_left _ ?_)
    exact List.mem_flatMap.mpr ⟨c, hc, by rw [hescape]; exact List.mem_singleton_self c⟩
  exact hsurrogate (h c hmem)

/-- Joined texts are parts of the text. -/
theorem scalar_of_commaJoin : ∀ {ts : List Str}, Scalar (Json.commaJoin ts) → ∀ t ∈ ts, Scalar t
  | [], _ => fun _ ht => absurd ht List.not_mem_nil
  | [t], h => by
      rw [List.forall_mem_singleton]
      exact h
  | t :: u :: ts, h => by
      rw [Json.commaJoin_cons_cons, scalar_append, scalar_cons] at h
      exact List.forall_mem_cons.mpr ⟨h.1, scalar_of_commaJoin h.2.2⟩

/-- What is between brackets is part of the text. -/
theorem scalar_of_enclose {a b : CodePoint} {s : Str} (h : Scalar (a :: (s ++ [b]))) : Scalar s :=
  (scalar_append.mp (scalar_cons.mp h).2).1

mutual
/-- A cleaned value whose text has no surrogates is encodable. -/
theorem encodable_of_scalar_text : ∀ {v : Val}, Json.Plain v → Scalar (Json.text v) → Encodable v
  | .null, _, _ | .bool _, _, _ | .int _, _, _ => trivial
  | .float _, hp, _ | .tuple _, hp, _ => hp.elim
  | .str _, _, h => scalar_of_strText h
  | .list _, hp, h => encodableList_of_scalar_text hp (scalar_of_commaJoin (scalar_of_enclose h))
  | .dict kvs, hp, h => by
      refine encodableItems_of_scalar_text hp fun kt hkt => ?_
      have hmem : Json.memberText kt ∈ (sortKeys (Json.textItems kvs)).map Json.memberText :=
        List.mem_map_of_mem (mem_sortKeys.mpr hkt)
      have hmember := scalar_of_commaJoin (scalar_of_enclose h) _ hmem
      rw [Json.memberText, scalar_append, scalar_cons] at hmember
      exact ⟨scalar_of_strText hmember.1, hmember.2.2⟩

/-- The same of lists. -/
theorem encodableList_of_scalar_text : ∀ {vs : List Val}, Json.PlainList vs →
    (∀ t ∈ Json.textList vs, Scalar t) → EncodableList vs
  | [], _, _ => trivial
  | _ :: _, hp, h =>
      have h' := List.forall_mem_cons.mp h
      ⟨encodable_of_scalar_text hp.1 h'.1, encodableList_of_scalar_text hp.2 h'.2⟩

/-- The same of dictionaries. -/
theorem encodableItems_of_scalar_text : ∀ {kvs : Items}, Json.PlainItems kvs →
    (∀ kt ∈ Json.textItems kvs, Scalar kt.1 ∧ Scalar kt.2) → EncodableItems kvs
  | [], _, _ => trivial
  | (_, _) :: _, hp, h =>
      have h' := List.forall_mem_cons.mp h
      ⟨h'.1.1, encodable_of_scalar_text hp.1 h'.1.2, encodableItems_of_scalar_text hp.2 h'.2⟩
end

mutual
/-- An encodable content has no floats, and no content has tuples. -/
theorem plain_strip_of_encodable : ∀ {v : Val}, Encodable (strip v) → Json.Plain (strip v)
  | .null, _ | .bool _, _ | .int _, _ | .str _, _ => trivial
  | .float _, h => h.elim
  | .list _, h | .tuple _, h => plainList_strip_of_encodable h
  | .dict _, h => plainItems_strip_of_encodable h

/-- The same of lists. -/
theorem plainList_strip_of_encodable : ∀ {vs : List Val}, EncodableList (stripList vs) →
    Json.PlainList (stripList vs)
  | [], _ => trivial
  | _ :: _, h => ⟨plain_strip_of_encodable h.1, plainList_strip_of_encodable h.2⟩

/-- The same of dictionaries. -/
theorem plainItems_strip_of_encodable : ∀ {kvs : Items}, EncodableItems (stripItems kvs) →
    Json.PlainItems (stripItems kvs)
  | [], _ => trivial
  | (k, v) :: kvs, h => by
      by_cases hnull : v = .null
      · rw [stripItems, if_pos hnull] at h ⊢
        exact plainItems_strip_of_encodable h
      · rw [stripItems, if_neg hnull] at h ⊢
        exact ⟨plain_strip_of_encodable h.2.1, plainItems_strip_of_encodable h.2.2⟩
end

/-- **A value has canonical bytes exactly where its content is encodable.** -/
theorem exists_canonicalBytes_iff {v : Val} :
    (∃ b, canonicalBytes v = .ok b) ↔ Encodable (strip v) := by
  constructor
  · rintro ⟨b, h⟩
    obtain ⟨w, hw, hb⟩ := canonicalBytes_eq_ok.mp h
    rw [strip_of_clean hw]
    exact encodable_of_scalar_text (plain_of_clean hw) (scalar_of_utf8 hb)
  · intro h
    have hclean := clean_of_plain_strip (plain_strip_of_encodable h)
    obtain ⟨b, hb⟩ := exists_utf8 (scalar_text h)
    exact ⟨b, canonicalBytes_eq_ok.mpr ⟨_, hclean, hb⟩⟩

/-- A value has a content hash exactly where its content is encodable. -/
theorem exists_contentHash_iff {v : Val} : (∃ hash, contentHash v = .ok hash) ↔ Encodable (strip v) := by
  rw [← exists_canonicalBytes_iff]
  constructor
  · rintro ⟨hash, h⟩
    obtain ⟨b, hb, -⟩ := bind_eq_ok.mp h
    exact ⟨b, hb⟩
  · rintro ⟨b, hb⟩
    exact ⟨_, bind_eq_ok.mpr ⟨b, hb, rfl⟩⟩

end OpenWright.Canonical
