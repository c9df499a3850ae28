import OpenWright.Ed25519.Group

/-! # Encodings of points

A canonical encoding holds a coordinate `y` below the prime, and no sign where `x` is zero. The
fallback recovers `x` modulo the prime, so that some other encodings decode as well.

* **`decodes_iff`** — which encodings decode without being canonical.
* **`encoding_unique`** — of the others no two stand for one point.
* **`accepts_canonical_iff`** — which encodings an accepted check shows to be canonical. -/

namespace OpenWright.Ed25519Pure

open Python Hash

/-! ## The two parts of an encoding -/

/-- The coordinate is in the lower 255 bits. -/
theorem yOf_eq (s : Bytes) : yOf s = fromBytes s % 2 ^ 255 := by
  rw [yOf, show 1 <<< 255 - 1 = 2 ^ 255 - 1 from by decide, Nat.and_two_pow_sub_one_eq_mod]

/-- The sign is the bit above them. -/
theorem signOf_eq (s : Bytes) : signOf s = fromBytes s / 2 ^ 255 % 2 := by
  rw [signOf, Nat.shiftRight_eq_div_pow, Nat.and_one_is_mod]

/-- Bytes are a number below the next power of 256. -/
theorem fromBytes_lt (s : Bytes) : fromBytes s < 256 ^ s.length := by
  induction s with
  | nil => decide
  | cons b s ih =>
      have hb := b.toNat_lt
      rw [fromBytes, List.foldr_cons, ← fromBytes, List.length_cons, pow_succ]
      omega

/-- Bytes of one length are determined by their number. -/
theorem fromBytes_injective {s t : Bytes} (hlen : s.length = t.length)
    (h : fromBytes s = fromBytes t) : s = t := by
  induction s generalizing t with
  | nil => exact (List.length_eq_zero_iff.mp hlen.symm).symm
  | cons b s ih =>
      cases t with
      | nil => simp at hlen
      | cons c t =>
          have hb := b.toNat_lt
          have hc := c.toNat_lt
          rw [fromBytes, fromBytes, List.foldr_cons, List.foldr_cons, ← fromBytes, ← fromBytes] at h
          have hrest : fromBytes s = fromBytes t := by omega
          have hbyte : b.toNat = c.toNat := by omega
          rw [UInt8.toNat_inj.mp hbyte, ih (by simpa using hlen) hrest]

/-- An encoding is its two parts. -/
theorem fromBytes_eq {s : Bytes} (hs : s.length = 32) : fromBytes s = yOf s + 2 ^ 255 * signOf s := by
  have hlt := fromBytes_lt s
  rw [hs, show (256 : Nat) ^ 32 = 2 ^ 255 * 2 from by norm_num] at hlt
  have hsign : fromBytes s / 2 ^ 255 < 2 := Nat.div_lt_of_lt_mul hlt
  rw [yOf_eq, signOf_eq, Nat.mod_eq_of_lt hsign, Nat.mod_add_div]

/-! ## The recovered coordinate -/

/-- `_xrecover` gives an even residue. -/
theorem xrecover_even (y : Int) : xrecover y % 2 = 0 ∧ 0 ≤ xrecover y ∧ xrecover y < P := by
  have hodd : (P : Int) % 2 = 1 := by decide
  have hpos := P_pos
  have halve : ∀ x : Int, 0 ≤ x ∧ x < P → (if x % 2 ≠ 0 then P - x else x) % 2 = 0
      ∧ 0 ≤ (if x % 2 ≠ 0 then P - x else x) ∧ (if x % 2 ≠ 0 then P - x else x) < P := by
    intro x hx
    split <;> omega
  refine halve _ ?_
  split
  · exact emod_P _
  · exact pow_nonneg_lt _ _ (by decide)

/-- The sign of an encoding is the parity of its `x`. -/
theorem xOf_emod_two (s : Bytes) : xOf s % 2 = signOf s := by
  obtain ⟨heven, -, -⟩ := xrecover_even (yOf s)
  have hodd : (P : Int) % 2 = 1 := by decide
  have hsign : signOf s < 2 := by
    rw [signOf_eq]
    omega
  rw [xOf]
  split <;> omega

/-- The coordinate of an encoding is a residue, but for a signed zero. -/
theorem xOf_lt {s : Bytes} (h : xrecover (yOf s) = 0 → signOf s = 0) : 0 ≤ xOf s ∧ xOf s < P := by
  obtain ⟨heven, hnonneg, hlt⟩ := xrecover_even (yOf s)
  rw [xOf]
  split
  · rename_i hne
    have hpos : xrecover (yOf s) ≠ 0 := by
      intro hzero
      rw [h hzero, hzero] at hne
      exact hne rfl
    omega
  · exact ⟨hnonneg, hlt⟩

/-- Whether an encoding decodes is not a matter of its sign. -/
theorem isOnCurve_xOf (s : Bytes) :
    isOnCurve (xOf s, yOf s) = isOnCurve (xrecover (yOf s), yOf s) := by
  rw [Bool.eq_iff_iff, isOnCurve_iff, isOnCurve_iff, xOf]
  split
  · have hneg : pt (P - xrecover (yOf s), yOf s) = Edwards.neg (pt (xrecover (yOf s), yOf s)) := by
      simp [pt, Edwards.neg]
    rw [hneg, Edwards.OnCurve, Edwards.OnCurve, Edwards.neg, neg_sq]
  · rfl

/-! ## Canonical encodings -/

/-- The encoding of a point as the standard has it. -/
def CanonicalEncoding (e : Bytes) : Prop :=
  yOf e < P ∧ (xrecover (yOf e) = 0 → signOf e = 0)

/-- The values beyond the prime for which there is a point. -/
def overflows : List Nat := [0, 1, 3, 4, 5, 6, 9, 10, 14, 15, 16, 18]

/-- The encodings that decode and are not canonical: a coordinate beyond the prime for which there is a
point, or a sign on one of the two points whose `x` is zero. -/
def Absorbed (e : Bytes) : Prop :=
  P ≤ yOf e ∧ yOf e - P ∈ overflows ∨ signOf e = 1 ∧ (yOf e = 1 ∨ yOf e = P - 1)

instance (e : Bytes) : Decidable (Absorbed e) := inferInstanceAs (Decidable (_ ∨ _))

/-- The encoding decodes. -/
def Decodes (e : Bytes) : Prop := isOnCurve (xrecover (yOf e), yOf e) = true

/-- An encoding is decoded where it is one of a point. -/
theorem decodepoint_eq_ok {e : Bytes} {p : Int × Int} :
    decodepoint e = .ok p ↔ Decodes e ∧ p = (xOf e, (yOf e : Int)) := by
  rw [decodepoint, Decodes, ← isOnCurve_xOf]
  cases isOnCurve (xOf e, yOf e) <;> simp [eq_comm]

/-- Which coordinates beyond the prime have a point. -/
theorem overflows_spec : ∀ k < 19,
    isOnCurve (xrecover ((P + k : Nat) : Int), ((P + k : Nat) : Int)) = true
    ↔ k ∈ overflows := by
  decide +kernel

/-- The two points whose `x` is zero, and the overflow of the first. -/
theorem xrecover_one_minus_one : xrecover (1 : Nat) = 0 ∧ xrecover ((P - 1 : Nat) : Int) = 0
    ∧ isOnCurve (0, (1 : Nat)) = true ∧ isOnCurve (0, ((P - 1 : Nat) : Int)) = true := by
  decide +kernel

/-- **A point whose `x` is zero has `y` one or minus one.** -/
theorem eq_of_xrecover_eq_zero {y : Nat} (hy : y < P) (hx : xrecover y = 0)
    (h : isOnCurve (xrecover y, y) = true) : y = 1 ∨ y = P - 1 := by
  rw [hx, isOnCurve_iff] at h
  have hsq : (y : F) * y = 1 := by
    have hcurve : Edwards.OnCurve d ((0 : F), (y : F)) := by
      simpa [pt] using h
    rw [Edwards.OnCurve] at hcurve
    linear_combination hcurve
  have hmod : ∀ n < P, (y : F) = ((n : Nat) : F) → y = n := by
    intro n hn heq
    have hmod := (ZMod.natCast_eq_natCast_iff' y n P).mp heq
    rwa [Nat.mod_eq_of_lt hy, Nat.mod_eq_of_lt hn] at hmod
  rcases mul_self_eq_one_iff.mp hsq with hone | hminus
  · exact .inl (hmod 1 (by decide) (by rw [hone, Nat.cast_one]))
  · exact .inr (hmod (P - 1) (by decide) (by rw [hminus, cast_P_sub_one]))

/-- The sign is one bit. -/
theorem signOf_lt (e : Bytes) : signOf e < 2 := by
  rw [signOf_eq]
  exact Nat.mod_lt _ (by decide)

/-- The overflow of a coordinate is small. -/
theorem yOf_sub_lt (e : Bytes) : yOf e - P < 19 := by
  have hlt : yOf e < 2 ^ 255 := by
    rw [yOf_eq]
    exact Nat.mod_lt _ (by decide)
  have hP : P + 19 = 2 ^ 255 := by decide
  omega

/-- **What decodes without being canonical.** -/
theorem decodes_iff {e : Bytes} : Decodes e ∧ ¬CanonicalEncoding e ↔ Absorbed e := by
  -- `y` above the prime: which of them decode is a finite list
  have hoverflow : P ≤ yOf e → (Decodes e ↔ yOf e - P ∈ overflows) := by
    intro hle
    have hspec := overflows_spec (yOf e - P) (yOf_sub_lt e)
    rwa [Nat.add_sub_cancel' hle] at hspec
  constructor
  · rintro ⟨hdec, hnot⟩
    by_cases hlt : yOf e < P
    -- `y` below the prime, so it is the sign that is not canonical: `x` is zero and the sign is set
    · obtain ⟨hx, hsign⟩ : xrecover (yOf e) = 0 ∧ signOf e ≠ 0 := by
        simpa [CanonicalEncoding, hlt] using hnot
      have hone : signOf e = 1 := by
        have hlt := signOf_lt e
        omega
      exact .inr ⟨hone, eq_of_xrecover_eq_zero hlt hx hdec⟩
    · have hle := not_lt.mp hlt
      exact .inl ⟨hle, (hoverflow hle).mp hdec⟩
  · rintro (⟨hle, hmem⟩ | ⟨hsign, hy⟩)
    · exact ⟨(hoverflow hle).mpr hmem, fun h => absurd h.1 (not_lt.mpr hle)⟩
    · obtain ⟨hone, hminus, hone', hminus'⟩ := xrecover_one_minus_one
      -- of the two points with `x = 0` either sign decodes
      have hx : xrecover (yOf e) = 0 ∧ isOnCurve (0, (yOf e : Int)) = true := by
        rcases hy with hy | hy
        · rw [hy]
          exact ⟨hone, hone'⟩
        · rw [hy]
          exact ⟨hminus, hminus'⟩
      refine ⟨?_, fun h => ?_⟩
      · rw [Decodes, hx.1]
        exact hx.2
      · have hzero := h.2 hx.1
        omega

/-- **Two encodings of one point are equal**, unless one of them is not canonical. -/
theorem encoding_unique {e e' : Bytes} (he : e.length = 32) (he' : e'.length = 32)
    (hcan : CanonicalEncoding e) (hcan' : CanonicalEncoding e')
    (h : pt (xOf e, yOf e) = pt (xOf e', yOf e')) : e = e' := by
  have hy : ∀ {e : Bytes}, CanonicalEncoding e → (0 : Int) ≤ yOf e ∧ (yOf e : Int) < P :=
    fun hcan => ⟨Int.natCast_nonneg _, by exact_mod_cast hcan.1⟩
  have heq := eq_of_pt_eq ⟨xOf_lt hcan.2, hy hcan⟩ ⟨xOf_lt hcan'.2, hy hcan'⟩ h
  obtain ⟨hxeq, hyeq⟩ := Prod.mk.inj heq
  have hsign : signOf e = signOf e' := by
    have hmod := xOf_emod_two e
    rw [hxeq, xOf_emod_two e'] at hmod
    exact_mod_cast hmod.symm
  refine fromBytes_injective (he.trans he'.symm) ?_
  rw [fromBytes_eq he, fromBytes_eq he', hsign, Int.natCast_inj.mp hyeq]

/-! ## Accepted checks -/

/-- An accepted signature has 64 bytes. -/
theorem length_of_verify {sha512 : Bytes → Bytes} {publicKey signature message : Bytes}
    (h : verify sha512 publicKey signature message = true) : signature.length = 64 := by
  by_contra hlen
  rw [verify, if_pos (.inl hlen)] at h
  exact absurd h Bool.false_ne_true

/-- What an accepted check shows. -/
theorem of_verify {sha512 : Bytes → Bytes} {publicKey signature message : Bytes}
    (h : verify sha512 publicKey signature message = true) :
    publicKey.length = 32 ∧ (signature.take 32).length = 32 ∧ Decodes publicKey
      ∧ Decodes (signature.take 32) ∧ fromBytes (signature.drop 32) < L := by
  rw [verify] at h
  split at h
  · exact absurd h Bool.false_ne_true
  · rename_i hlen
    obtain ⟨hsig, hpk⟩ : signature.length = 64 ∧ publicKey.length = 32 := by
      simpa only [not_or, not_not] using hlen
    split at h
    · rename_i hr ha
      dsimp only at h
      split at h
      · exact absurd h Bool.false_ne_true
      · rename_i hs
        refine ⟨hpk, by rw [List.length_take]; omega, (decodepoint_eq_ok.mp ha).1,
          (decodepoint_eq_ok.mp hr).1, not_le.mp hs⟩
    · exact absurd h Bool.false_ne_true

/-- The neutral element, encoded. -/
def neutral : Bytes := toBytes 32 1

/-- The neutral point has an encoding of 32 bytes, -/
theorem length_neutral : neutral.length = 32 := length_toBytes 32 1

/-- which is decoded to it. -/
theorem decodepoint_neutral : decodepoint neutral = .ok (0, 1) := by decide +kernel

/-- The multiple by zero is the neutral point. -/
theorem scalarmult_zero (p : Int × Int) : scalarmult p 0 = (0, 1) := by
  rw [scalarmult, scalarmultLoop, if_neg (by decide)]

/-- **Any encoding that decodes is accepted as a key**, in a check whose challenge is zero. -/
theorem verify_of_decodes {e : Bytes} (he : e.length = 32) (h : Decodes e) :
    verify (fun _ => List.replicate 64 0) e (neutral ++ toBytes 32 0) [] = true := by
  have hzero : fromBytes (List.replicate 64 0) % L = 0 := by decide
  have hdec := decodepoint_eq_ok.mpr ⟨h, rfl⟩
  rw [verify_of_decodepoint he length_neutral hdec decodepoint_neutral (by decide), challenge, hzero,
    beq_iff_eq, scalarmult_zero, scalarmult_zero]
  decide +kernel

/-- **Which encodings are shown to be canonical.** An encoding that occurs in accepted checks, as the
key or in the signature, is canonical in all of them exactly where it is not one of those the decoding
absorbs; the scalar is always below `_L`. -/
theorem accepts_canonical_iff {e : Bytes} (he : e.length = 32) :
    (∀ (sha512 : Bytes → Bytes) (publicKey signature message : Bytes),
      verify sha512 publicKey signature message = true →
        (publicKey = e ∨ signature.take 32 = e) →
          fromBytes (signature.drop 32) < L ∧ CanonicalEncoding e) ↔ ¬Absorbed e := by
  rw [← decodes_iff]
  constructor
  · rintro h ⟨hdec, hnot⟩
    exact hnot (h _ _ _ _ (verify_of_decodes he hdec) (.inl rfl)).2
  · intro h sha512 publicKey signature message hverify huse
    obtain ⟨-, -, hpk, hr, hs⟩ := of_verify hverify
    refine ⟨hs, ?_⟩
    by_contra hnot
    rcases huse with rfl | rfl
    · exact h ⟨hpk, hnot⟩
    · exact h ⟨hr, hnot⟩

/-- Of the encoding of the base point all is shown. -/
theorem accepts_canonical_base : ¬Absorbed (toBytes 32 BY.toNat) ∧
    ∀ (sha512 : Bytes → Bytes) (publicKey signature message : Bytes),
      verify sha512 publicKey signature message = true →
        (publicKey = toBytes 32 BY.toNat ∨ signature.take 32 = toBytes 32 BY.toNat) →
          fromBytes (signature.drop 32) < L ∧ CanonicalEncoding (toBytes 32 BY.toNat) := by
  have hnot : ¬Absorbed (toBytes 32 BY.toNat) := by decide +kernel
  exact ⟨hnot, (accepts_canonical_iff (length_toBytes 32 _)).mpr hnot⟩

/-- **One signature string.** Two accepted signatures of the same point and scalar are equal, unless the
encoding of the point in one of them is absorbed. -/
theorem signature_unique {sha512 sha512' : Bytes → Bytes}
    {publicKey publicKey' signature signature' message message' : Bytes}
    (h : verify sha512 publicKey signature message = true)
    (h' : verify sha512' publicKey' signature' message' = true)
    (hnot : ¬Absorbed (signature.take 32)) (hnot' : ¬Absorbed (signature'.take 32))
    (hpoint : pt (xOf (signature.take 32), yOf (signature.take 32))
      = pt (xOf (signature'.take 32), yOf (signature'.take 32)))
    (hscalar : fromBytes (signature.drop 32) = fromBytes (signature'.drop 32)) :
    signature = signature' := by
  obtain ⟨-, hlen, -, hdec, -⟩ := of_verify h
  obtain ⟨-, hlen', -, hdec', -⟩ := of_verify h'
  have hcan : ∀ {e : Bytes}, Decodes e → ¬Absorbed e → CanonicalEncoding e := by
    intro e hdec hnot
    by_contra hcan
    exact hnot (decodes_iff.mp ⟨hdec, hcan⟩)
  have htake := encoding_unique hlen hlen' (hcan hdec hnot) (hcan hdec' hnot') hpoint
  have hdrop : signature.drop 32 = signature'.drop 32 := by
    refine fromBytes_injective ?_ hscalar
    rw [List.length_drop, List.length_drop, length_of_verify h, length_of_verify h']
  rw [← List.take_append_drop 32 signature, ← List.take_append_drop 32 signature', htake, hdrop]

/-- The neutral element is accepted as a key and as a nonce, whatever the hash. -/
theorem verify_of_neutral {sha512 : Bytes → Bytes} {publicKey encodedR message : Bytes}
    {aPoint rPoint : Int × Int} (hpk : publicKey.length = 32) (hR : encodedR.length = 32)
    (ha : decodepoint publicKey = .ok aPoint) (hr : decodepoint encodedR = .ok rPoint)
    (ha0 : pt aPoint = Edwards.zero) (hr0 : pt rPoint = Edwards.zero) :
    verify sha512 publicKey (encodedR ++ toBytes 32 0) message = true := by
  rw [verify_of_decodepoint hpk hR ha hr (by decide), beq_iff_eq]
  refine eq_of_pt_eq (reduced_scalarmult _ _) (reduced_edwardsAdd _ _) ?_
  rw [pt_edwardsAdd, hr0, pt_scalarmult (A := base) rfl, pt_scalarmult (A := 0) ha0, zero_nsmul,
    nsmul_zero, Edwards.val_zero, Edwards.zero_add_pair]

/-- The neutral element, with its coordinate beyond the prime. -/
def overflowedNeutral : Bytes := toBytes 32 (P + 1)

/-- The key `P + 1` is accepted, and so is a second signature for the key `1`. -/
theorem accepts_overflowed : ¬CanonicalEncoding overflowedNeutral
    ∧ (∀ (sha512 : Bytes → Bytes) (message : Bytes),
        verify sha512 overflowedNeutral (neutral ++ toBytes 32 0) message = true)
    ∧ ∀ (sha512 : Bytes → Bytes) (message : Bytes),
        verify sha512 neutral (neutral ++ toBytes 32 0) message = true
          ∧ verify sha512 neutral (overflowedNeutral ++ toBytes 32 0) message = true := by
  have hlen : overflowedNeutral.length = 32 := length_toBytes 32 _
  have hdec : decodepoint overflowedNeutral = .ok (0, ((P + 1 : Nat) : Int)) := by decide +kernel
  have hpt : pt (0, ((P + 1 : Nat) : Int)) = Edwards.zero := by
    simp [pt, Edwards.zero]
  refine ⟨?_, fun sha512 message => ?_, fun sha512 message => ⟨?_, ?_⟩⟩
  · intro h
    exact absurd h.1 (by decide)
  · exact verify_of_neutral hlen length_neutral hdec decodepoint_neutral hpt pt_zero
  · exact verify_of_neutral length_neutral length_neutral decodepoint_neutral decodepoint_neutral
      pt_zero pt_zero
  · exact verify_of_neutral length_neutral hlen decodepoint_neutral hdec pt_zero hpt

end OpenWright.Ed25519Pure
